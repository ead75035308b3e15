import SecureLlm.Library.Base64
import SecureLlm.Library.Exceptions
import SecureLlm.Session.Session

/-!
# Session Records in Redis

The JSON object a session is stored as, field by field. Byte strings are
base64 text, the scopes are a sorted list, and of the replay window only the
watermark is written: the bitmap is dropped, and a window read back is empty
at its watermark.

`deserialize_serialize` says exactly what survives: everything but the bitmap.

## Main definitions

* `Record`: The fields of the JSON object.
* `redisKey`: The key a session is stored under.
* `serialize`, `deserialize`: To and from the object.
* `Session.rehydrated`: A session as it is read back.

## Theorems

* `redisKey_inj`: Sessions are stored under keys of their own.
* `deserialize_serialize`: A written session is read back without its bitmap.
-/

namespace SecureLlm

open Library

/-- The JSON object a session is stored as. -/
structure Record where
  sessionId : String
  c2sKey : String
  c2sNp : String
  s2cKey : String
  s2cNp : String
  createdAt : ℚ
  lastUsedAt : ℚ
  ttlSeconds : ℤ
  maxLifetimeSeconds : ℤ
  clientFingerprint : String
  scopes : List String
  tenant : String
  replayHigh : ℕ
  s2cCounter : ℕ
  closed : Bool
  deriving DecidableEq

def redisKeyPrefix : String := "secure_llm:session:"

def redisKey (sessionId : Bytes) : String := redisKeyPrefix ++ hex sessionId

def serialize (s : Session) : Record where
  sessionId := b64encode s.sessionId
  c2sKey := b64encode s.c2s.key
  c2sNp := b64encode s.c2s.noncePrefix
  s2cKey := b64encode s.s2c.key
  s2cNp := b64encode s.s2c.noncePrefix
  createdAt := s.createdAt
  lastUsedAt := s.lastUsedAt
  ttlSeconds := s.ttlSeconds
  maxLifetimeSeconds := s.maxLifetimeSeconds
  clientFingerprint := s.clientFingerprint
  scopes := sorted s.scopes
  tenant := s.tenant
  replayHigh := s.replay.high
  s2cCounter := s.s2cCounter
  closed := s.closed

/-- `base64.b64decode(text)`, which skips characters outside the alphabet. -/
def b64decodeField (text : String) : Except Exc Bytes :=
  match b64decode false text with
  | some b => .ok b
  | none => .error .binasciiError

def deserialize (data : Record) : Except Exc Session := do
  let sessionId ← b64decodeField data.sessionId
  let c2sKey ← b64decodeField data.c2sKey
  let c2sNp ← b64decodeField data.c2sNp
  let c2s ← DirectionKeys.ofBytes c2sKey c2sNp
  let s2cKey ← b64decodeField data.s2cKey
  let s2cNp ← b64decodeField data.s2cNp
  let s2c ← DirectionKeys.ofBytes s2cKey s2cNp
  return {
    sessionId := sessionId
    c2s := c2s
    s2c := s2c
    createdAt := data.createdAt
    lastUsedAt := data.lastUsedAt
    ttlSeconds := data.ttlSeconds
    maxLifetimeSeconds := data.maxLifetimeSeconds
    clientFingerprint := data.clientFingerprint
    scopes := data.scopes.toFinset
    tenant := data.tenant
    replay := .emptyAt data.replayHigh
    s2cCounter := data.s2cCounter
    closed := data.closed }

/-- A session as it is read back: its window empty at the watermark. -/
def Session.rehydrated (s : Session) : Session := { s with replay := .emptyAt s.replay.high }

theorem redisKey_inj (a b : Bytes) (h : redisKey a = redisKey b) : a = b := by
  have hbytes := congrArg String.toList h
  rw [redisKey, redisKey, String.toList_append, String.toList_append] at hbytes
  exact hex_inj a b (String.toList_inj.mp (List.append_cancel_left hbytes))

@[simp] theorem b64decodeField_b64encode (b : Bytes) : b64decodeField (b64encode b) = .ok b := by
  rw [b64decodeField, b64decode_b64encode]

theorem deserialize_serialize (s : Session) : deserialize (serialize s) = .ok s.rehydrated := by
  simp only [deserialize, serialize, b64decodeField_b64encode, bind, Except.bind,
    DirectionKeys.ofBytes_self, pure, Except.pure, sorted,
    Finset.sort_toFinset, Session.rehydrated]

end SecureLlm
