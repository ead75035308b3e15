import Mathlib.Data.Finset.Sort
import Mathlib.Data.String.Basic
import Mathlib.Tactic.Linarith
import SecureLlm.Crypto.Handshake
import SecureLlm.Crypto.Replay

/-!
# Sessions

The record a server keeps of a session, and the four ways the code changes
one: use moves its clock, a request moves its replay window, a response moves
its counter, and termination closes it and wipes its keys.

`Session.Evolves` is what the four have in common. It is a preorder, so it also
describes any number of changes in any order, and it is what the tasks of a
process may rely on each other for: a session never gets a counter back, never
reopens, and while it is open its keys are the ones it was made with.

## Main definitions

* `Session`: The record.
* `Session.isExpired`: Closed, idle too long, or too old.
* `Session.touch`, `Session.zeroize`, `Session.bump`: Changes of a session.
* `Session.Evolves`: What every change preserves.

## Theorems

* `Session.isExpired_mono`: Expiry is final.
* `Session.Evolves.trans`: Changes compose.
* `Session.evolves_touch`, `Session.evolves_advance`, `Session.evolves_bump`,
  `Session.evolves_zeroize`: Each change is one.
-/

namespace SecureLlm

open Library

structure Session where
  sessionId : Bytes
  c2s : DirectionKeys
  s2c : DirectionKeys
  createdAt : ℚ
  lastUsedAt : ℚ
  ttlSeconds : ℤ
  maxLifetimeSeconds : ℤ
  clientFingerprint : String
  scopes : Finset String
  tenant : String := "default"
  replay : ReplayWindow := .fresh
  s2cCounter : ℕ := 0
  closed : Bool := false
  deriving DecidableEq

/-- `sorted` on a set of scopes. -/
def sorted (scopes : Finset String) : List String := scopes.sort

/-- The all-zero key that termination installs. -/
def zeroKey : Bytes := List.replicate 32 0

/-- A direction with its key wiped and its nonce prefix kept. -/
def DirectionKeys.zeroed (d : DirectionKeys) : DirectionKeys :=
  ⟨zeroKey, d.noncePrefix, List.length_replicate, d.noncePrefix_length⟩

instance : Inhabited DirectionKeys :=
  ⟨⟨zeroKey, List.replicate 4 0, List.length_replicate, List.length_replicate⟩⟩

instance : Inhabited Session := ⟨{
  sessionId := [], c2s := default, s2c := default, createdAt := 0, lastUsedAt := 0
  ttlSeconds := 0, maxLifetimeSeconds := 0, clientFingerprint := "", scopes := ∅ }⟩

/-- What a handshake hands over, to run the model on. -/
def SessionMaterial.sample : SessionMaterial where
  sessionId := List.replicate 16 7
  c2s := ⟨List.replicate 32 1, List.replicate 4 1, List.length_replicate, List.length_replicate⟩
  s2c := ⟨List.replicate 32 2, List.replicate 4 2, List.length_replicate, List.length_replicate⟩
  ttlSeconds := 900
  clientFingerprint := "client"
  scopes := ["chat"]

namespace Session

/-- Closed, unused for longer than its lifetime, or older than the maximum. -/
def isExpired (s : Session) (now : ℚ) : Bool :=
  if s.closed then true
  else if (s.ttlSeconds : ℚ) < now - s.lastUsedAt then true
  else (s.maxLifetimeSeconds : ℚ) < now - s.createdAt

def touch (s : Session) (now : ℚ) : Session := { s with lastUsedAt := now }

def advance (s : Session) (w : ReplayWindow) : Session := { s with replay := w }

def bump (s : Session) : Session := { s with s2cCounter := s.s2cCounter + 1 }

/-- Close the session and wipe its keys. -/
def zeroize (s : Session) : Session :=
  { s with closed := true, c2s := s.c2s.zeroed, s2c := s.s2c.zeroed }

/-- The session a handshake's material makes at a time. A lifetime of zero
    counts as none given. -/
def ofMaterial (material : SessionMaterial) (ttl maxLife : ℤ) (now : ℚ) : Session where
  sessionId := material.sessionId
  c2s := material.c2s
  s2c := material.s2c
  createdAt := now
  lastUsedAt := now
  ttlSeconds := if material.ttlSeconds ≠ 0 then material.ttlSeconds else ttl
  maxLifetimeSeconds := maxLife
  clientFingerprint := material.clientFingerprint
  scopes := material.scopes.toFinset
  tenant := material.tenant

theorem isExpired_of_closed (s : Session) (now : ℚ) (h : s.closed = true) :
    s.isExpired now = true := by
  rw [isExpired, if_pos h]

theorem open_of_not_isExpired (s : Session) (now : ℚ) (h : s.isExpired now = false) :
    s.closed = false := by
  by_contra hc
  rw [Bool.not_eq_false] at hc
  rw [isExpired_of_closed s now hc] at h
  exact absurd h nofun

/-- Expiry is final. -/
theorem isExpired_mono (s : Session) (t u : ℚ) (htu : t ≤ u)
    (h : s.isExpired t = true) : s.isExpired u = true := by
  unfold isExpired at h ⊢
  by_cases hclosed : s.closed = true
  · rw [if_pos hclosed]
  rw [if_neg hclosed] at h ⊢
  by_cases hidle : (s.ttlSeconds : ℚ) < t - s.lastUsedAt
  · rw [if_pos (by linarith)]
  rw [if_neg hidle] at h
  by_cases hidle' : (s.ttlSeconds : ℚ) < u - s.lastUsedAt
  · rw [if_pos hidle']
  rw [if_neg hidle']
  rw [decide_eq_true_eq] at h ⊢
  linarith

/-- What holds between a session and itself at any later time. -/
structure Evolves (s t : Session) : Prop where
  sessionId : t.sessionId = s.sessionId
  high : s.replay.high ≤ t.replay.high
  admits : ∀ c, t.replay.admits c = true → s.replay.admits c = true
  s2cCounter : s.s2cCounter ≤ t.s2cCounter
  closed : s.closed = true → t.closed = true
  c2s : t.closed = false → t.c2s = s.c2s
  s2c : t.closed = false → t.s2c = s.s2c
  wiped : t.closed = true → s.closed = true ∧ t.s2c = s.s2c ∨ t.s2c.key = zeroKey

theorem Evolves.refl (s : Session) : s.Evolves s :=
  ⟨rfl, le_refl _, fun _ h => h, le_refl _, fun h => h, fun _ => rfl, fun _ => rfl,
    fun h => Or.inl ⟨h, rfl⟩⟩

theorem Evolves.open_of_open (s t : Session) (h : s.Evolves t) (hopen : t.closed = false) :
    s.closed = false := by
  by_contra hc
  rw [h.closed (Bool.not_eq_false _ ▸ hc)] at hopen
  exact absurd hopen nofun

theorem Evolves.trans (s t u : Session) (hst : s.Evolves t) (htu : t.Evolves u) : s.Evolves u where
  sessionId := htu.sessionId.trans hst.sessionId
  high := hst.high.trans htu.high
  admits c hc := hst.admits c (htu.admits c hc)
  s2cCounter := hst.s2cCounter.trans htu.s2cCounter
  closed hc := htu.closed (hst.closed hc)
  c2s hopen := (htu.c2s hopen).trans (hst.c2s (htu.open_of_open t u hopen))
  s2c hopen := (htu.s2c hopen).trans (hst.s2c (htu.open_of_open t u hopen))
  wiped hclosed := by
    rcases htu.wiped hclosed with ⟨ht, hkeep⟩ | hzero
    · rw [hkeep]
      exact hst.wiped ht
    · exact Or.inr hzero

theorem evolves_touch (s : Session) (now : ℚ) : s.Evolves (s.touch now) :=
  ⟨rfl, le_refl _, fun _ h => h, le_refl _, fun h => h, fun _ => rfl, fun _ => rfl,
    fun h => Or.inl ⟨h, rfl⟩⟩

theorem evolves_bump (s : Session) : s.Evolves s.bump :=
  ⟨rfl, le_refl _, fun _ h => h, Nat.le_succ _, fun h => h, fun _ => rfl, fun _ => rfl,
    fun h => Or.inl ⟨h, rfl⟩⟩

theorem evolves_zeroize (s : Session) : s.Evolves s.zeroize :=
  ⟨rfl, le_refl _, fun _ h => h, le_refl _, fun _ => rfl, fun h => absurd h nofun,
    fun h => absurd h nofun, fun _ => Or.inr rfl⟩

theorem evolves_advance (s : Session) (w : ReplayWindow) (c : ℕ)
    (h : s.replay.checkAndAdvance c = .ok w) : s.Evolves (s.advance w) where
  sessionId := rfl
  high := by
    rw [advance, ReplayWindow.high_of_checkAndAdvance _ _ c h]
    exact le_max_left _ _
  admits d hd := ReplayWindow.admits_of_checkAndAdvance _ _ c d h hd
  s2cCounter := le_refl _
  closed hc := hc
  c2s _ := rfl
  s2c _ := rfl
  wiped hc := Or.inl ⟨hc, rfl⟩

end Session

end SecureLlm
