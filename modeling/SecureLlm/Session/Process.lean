import SecureLlm.Library.Coop
import SecureLlm.Library.Dict
import SecureLlm.Session.Record

/-!
# The Memory of a Server Process

What the tasks of one server process share. Sessions are objects: a task holds
a reference, and a change made through one reference is seen through every
other. The store's table maps session ids to references, and the manager's lock
is a flag.

The history is not part of the program. It records, with the session as it was
at that moment, where a session object comes from, when it is written to Redis
and when an envelope is sealed for it. Nothing reads it.

## Main definitions

* `Process`: The memory.
* `Note`: An entry of the history.
* `RedisCall`, `RedisCall.exec`: The commands the code sends, and what Redis
  does with them.
* `Task`: A task of the process, which may ask Redis.
* `Process.alloc`, `Process.change`, `Process.assign`, `Process.drop`,
  `Process.note`: The changes tasks make.
-/

namespace SecureLlm

open Library

/-- A reference to a session object. -/
abbrev Ref : Type := ℕ

/-- What a note is about: the object was made from a handshake's material, the
    object was made from a record, it was written, or an envelope was sealed
    for it under a direction. -/
inductive NoteKind where
  | created
  | hydrated
  | stored
  | sealed (direction : DirectionKeys)
  deriving DecidableEq

/-- An entry of the history, with the session as it was at that moment. -/
structure Note where
  ref : Ref
  session : Session
  kind : NoteKind
  deriving DecidableEq

/-- The memory the tasks of a process share. Objects below `next` exist. -/
structure Process where
  heap : Ref → Session
  next : Ref
  table : Dict Bytes Ref
  locked : Bool
  history : List Note

/-- The commands the code sends to Redis. -/
inductive RedisCall where
  | get (name : String)
  | set (name : String) (value : Record) (ex : ℤ)
  | delete (name : String)
  deriving DecidableEq

/-- What Redis answers a command with. -/
def RedisReply : RedisCall → Type
  | .get _ => Option Record
  | .set _ _ _ => Unit
  | .delete _ => ℕ

/-- Redis executes one command. -/
def RedisCall.exec : (c : RedisCall) → (String → Option Record) →
    (String → Option Record) × RedisReply c
  | .get name, db => (db, db name)
  | .set name value _, db => (Function.update db name (some value), ())
  | .delete name, db =>
      (Function.update db name none, if (db name).isSome then (1 : ℕ) else (0 : ℕ))

@[simp] theorem RedisCall.exec_get (name : String) (db : String → Option Record) :
    (RedisCall.exec (.get name) db).1 = db := rfl

@[simp] theorem RedisCall.exec_set (name : String) (value : Record) (ex : ℤ)
    (db : String → Option Record) :
    (RedisCall.exec (.set name value ex) db).1 = Function.update db name (some value) := rfl

@[simp] theorem RedisCall.exec_delete (name : String) (db : String → Option Record) :
    (RedisCall.exec (.delete name) db).1 = Function.update db name none := rfl

abbrev Task (α : Type) : Type := Coop Process RedisCall RedisReply ℚ Exc α

namespace Process

/-- The memory at the start of a process. -/
def start : Process := ⟨fun _ => default, 0, Dict.empty, false, []⟩

/-- Make a session object and note where it comes from. -/
def alloc (s : Session) (kind : NoteKind) (p : Process) : Process :=
  { p with
    heap := Function.update p.heap p.next s
    next := p.next + 1
    history := ⟨p.next, s, kind⟩ :: p.history }

/-- Change a session object in place. -/
def change (r : Ref) (f : Session → Session) (p : Process) : Process :=
  { p with heap := Function.update p.heap r (f (p.heap r)) }

/-- Assign a reference to a session id. -/
def assign (sid : Bytes) (r : Ref) (p : Process) : Process :=
  { p with table := p.table.set sid r }

/-- Remove a session id. -/
def drop (sid : Bytes) (p : Process) : Process := { p with table := p.table.erase sid }

def setLocked (b : Bool) (p : Process) : Process := { p with locked := b }

/-- Note something about a session object as it is now. -/
def note (r : Ref) (kind : NoteKind) (p : Process) : Process :=
  { p with history := ⟨r, p.heap r, kind⟩ :: p.history }

variable (p : Process)

@[simp] theorem heap_alloc_self (s : Session) (kind : NoteKind) :
    (p.alloc s kind).heap p.next = s := Function.update_self _ _ _

theorem heap_alloc_of_lt (s : Session) (kind : NoteKind) (r : Ref) (h : r < p.next) :
    (p.alloc s kind).heap r = p.heap r := Function.update_of_ne (Nat.ne_of_lt h) _ _

@[simp] theorem next_alloc (s : Session) (kind : NoteKind) :
    (p.alloc s kind).next = p.next + 1 := rfl

@[simp] theorem table_alloc (s : Session) (kind : NoteKind) :
    (p.alloc s kind).table = p.table := rfl

@[simp] theorem heap_change_self (r : Ref) (f : Session → Session) :
    (p.change r f).heap r = f (p.heap r) := Function.update_self _ _ _

theorem heap_change_of_ne (r x : Ref) (f : Session → Session) (h : x ≠ r) :
    (p.change r f).heap x = p.heap x := Function.update_of_ne h _ _

@[simp] theorem next_change (r : Ref) (f : Session → Session) : (p.change r f).next = p.next := rfl

@[simp] theorem table_change (r : Ref) (f : Session → Session) :
    (p.change r f).table = p.table := rfl

@[simp] theorem table_assign (sid : Bytes) (r : Ref) :
    (p.assign sid r).table = p.table.set sid r := rfl

@[simp] theorem table_drop (sid : Bytes) : (p.drop sid).table = p.table.erase sid := rfl

end Process

namespace Task

/-- The session a reference stands for. -/
def read (r : Ref) : Task Session := Coop.gets (fun p => p.heap r)

def change (r : Ref) (f : Session → Session) : Task Unit := Coop.modify (Process.change r f)

/-- Make a session object. -/
def alloc (s : Session) (kind : NoteKind) : Task Ref :=
  Coop.step (Process.alloc s kind) (fun p => .done p.next)

/-- `session.is_expired()`. -/
def isExpired (r : Ref) : Task Bool := do
  let now ← Coop.time
  let session ← read r
  return session.isExpired now

/-- `async with self._lock`. A free lock is taken without suspending. -/
def withLock {α : Type} (body : Task α) : Task α :=
  Coop.wait (fun p => !p.locked) (Coop.step (Process.setLocked true)
    (fun _ => body.tryFinally (Coop.modify (Process.setLocked false))))

/-- Go on with a value, or raise. -/
def ofExcept {α : Type} : Except Exc α → Task α
  | .ok a => .done a
  | .error e => .fail e

end Task

end SecureLlm
