import SecureLlm.Session.Process

/-!
# Session Stores

The interface the session manager is written against, and its two
implementations: a table in memory, and the same table as a cache in front of
Redis.

The in-memory store never asks Redis and never suspends, so each of its
operations is atomic. The Redis store suspends wherever it sends a command,
and its cache, the record in Redis and the objects other tasks hold may all
have moved on when it resumes.

## Main definitions

* `SessionStore`: The interface.
* `InMemory.store`: The table in memory.
* `RedisStore.store`: The cache in front of Redis.
* `Backend`: Which of the two a server runs on.
-/

namespace SecureLlm

open Library

/-- Backing store for the live session table. -/
structure SessionStore where
  lookup : Bytes → Task (Option Ref)
  hydrate : Bytes → Task (Option Ref)
  put : Ref → Task Unit
  delete : Bytes → Task Bool
  reapExpired : Task ℕ

/-- The value of a key in the process's table. -/
def tableGet (sid : Bytes) : Task (Option Ref) := Coop.gets (fun p => p.table.get? sid)

/-- Drop the expired entries among the given keys and count them. -/
def reapKeys : List Bytes → ℕ → Task ℕ
  | [], removed => return removed
  | sid :: rest, removed => do
    match ← tableGet sid with
    | none => .fail .keyError
    | some r =>
      if ← Task.isExpired r then
        Coop.modify (Process.drop sid)
        reapKeys rest (removed + 1)
      else reapKeys rest removed

/-- Both stores reap by walking over a copy of the table's keys. -/
def reapTable : Task ℕ := do
  let keys ← Coop.gets (fun p => p.table.entries.map Prod.fst)
  reapKeys keys 0

namespace InMemory

def lookup (sid : Bytes) : Task (Option Ref) := do
  match ← tableGet sid with
  | none => return none
  | some r => if ← Task.isExpired r then return none else return some r

def hydrate (sid : Bytes) : Task (Option Ref) := lookup sid

def put (r : Ref) : Task Unit := do
  let session ← Task.read r
  Coop.modify (Process.assign session.sessionId r)

def delete (sid : Bytes) : Task Bool := do
  let entry ← tableGet sid
  Coop.modify (Process.drop sid)
  return entry.isSome

/-- The default backend. The backing store is the in-process table. -/
def store : SessionStore := { lookup, hydrate, put, delete, reapExpired := reapTable }

end InMemory

namespace RedisStore

def get (name : String) : Task (Option Record) := Coop.call (.get name) Coop.done

def set (name : String) (value : Record) (ex : ℤ) : Task Unit :=
  Coop.call (.set name value ex) Coop.done

def del (name : String) : Task ℕ := Coop.call (.delete name) Coop.done

def lookup (sid : Bytes) : Task (Option Ref) := do
  match ← tableGet sid with
  | none => return none
  | some r =>
    if ← Task.isExpired r then
      Coop.modify (Process.drop sid)
      return none
    else return some r

/-- Read the session back from Redis and warm the cache. -/
def fetch (sid : Bytes) : Task (Option Ref) := do
  match ← get (redisKey sid) with
  | none => return none
  | some blob =>
    let session ← Task.ofExcept (deserialize blob)
    let r ← Task.alloc session .hydrated
    if ← Task.isExpired r then
      let _ ← del (redisKey sid)
      return none
    else
      Coop.modify (Process.assign sid r)
      return some r

def hydrate (sid : Bytes) : Task (Option Ref) := do
  match ← tableGet sid with
  | none => fetch sid
  | some r => if ← Task.isExpired r then fetch sid else return some r

/-- How long Redis keeps a record: what is left of the session's lifetime, and
    never less than the floor. -/
def keyTtl (keyTtlFloor : ℤ) (session : Session) (now : ℚ) : ℤ :=
  let remainingTtl := max 0 (truncate (session.lastUsedAt + session.ttlSeconds - now))
  let remainingMax := max 0 (truncate (session.createdAt + session.maxLifetimeSeconds - now))
  max keyTtlFloor (min remainingTtl remainingMax)

def put (keyTtlFloor : ℤ) (r : Ref) : Task Unit := do
  let session ← Task.read r
  Coop.modify (Process.assign session.sessionId r)
  let now ← Coop.time
  let session ← Task.read r
  Coop.modify (Process.note r .stored)
  set (redisKey session.sessionId) (serialize session) (keyTtl keyTtlFloor session now)

def delete (sid : Bytes) : Task Bool := do
  Coop.modify (Process.drop sid)
  let n ← del (redisKey sid)
  return n != 0

/-- Session state mirrored into Redis, with an in-process cache. -/
def store (keyTtlFloor : ℤ) : SessionStore :=
  { lookup, hydrate, put := put keyTtlFloor, delete, reapExpired := reapTable }

end RedisStore

/-- Which store a server is configured with. -/
inductive Backend where
  | memory
  | redis (keyTtlFloor : ℤ)
  deriving DecidableEq

def Backend.store : Backend → SessionStore
  | .memory => InMemory.store
  | .redis keyTtlFloor => RedisStore.store keyTtlFloor

end SecureLlm
