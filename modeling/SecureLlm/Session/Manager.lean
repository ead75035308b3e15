import SecureLlm.Session.Store

/-!
# The Session Manager

The public operations on sessions, written once over either store.

Creation, termination and reaping run under the manager's lock; looking a
session up and writing it back do not. Termination changes the session object
in place, so every handler that still holds it sees it closed and its keys
wiped.

## Main definitions

* `SessionManager`: The manager's settings and store.
* `SessionManager.create`, `SessionManager.lookupAsync`,
  `SessionManager.terminate`, `SessionManager.reapExpired`,
  `SessionManager.persist`: The operations.
-/

namespace SecureLlm

open Library

structure SessionManager where
  ttl : ℤ
  maxLife : ℤ
  store : SessionStore

namespace SessionManager

variable (manager : SessionManager)

def create (material : SessionMaterial) : Task Ref := do
  let now ← Coop.time
  let sess ← Task.alloc (.ofMaterial material manager.ttl manager.maxLife now) .created
  Task.withLock (manager.store.put sess)
  return sess

/-- The cached session, or the stored one where the cache has none. -/
def find (sid : Bytes) : Task (Option Ref) := do
  match ← manager.store.lookup sid with
  | some r => return some r
  | none => manager.store.hydrate sid

def lookupAsync (sid : Bytes) : Task (Option Ref) := do
  match ← manager.find sid with
  | none => return none
  | some sess =>
    if ← Task.isExpired sess then
      Task.change sess Session.zeroize
      let _ ← manager.store.delete sid
      return none
    else return some sess

def terminate (sid : Bytes) : Task Bool :=
  Task.withLock do
    match ← manager.find sid with
    | none => return false
    | some sess =>
      Task.change sess Session.zeroize
      manager.store.delete sid

def reapExpired : Task ℕ := Task.withLock manager.store.reapExpired

/-- Write the latest session state to the backing store. -/
def persist (sess : Ref) : Task Unit := manager.store.put sess

end SessionManager

end SecureLlm
