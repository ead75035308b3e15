import SecureLlm.Session.Store

/-!
# Failover of the Replay Window

One instance writes a session to Redis and another, which has not cached it,
reads it back. What arrives is the watermark without the bitmap, and an empty
bitmap says that nothing was seen. So the second instance accepts every counter
above the watermark, as it should, and every counter up to 1023 below it,
whether the first instance had accepted it or not.

## Main definitions

* `Task.alone`: A task run alone against Redis.

## Theorems

* `put_alone`, `hydrate_alone`: Writing a session and reading it back.
* `failover_admits`: What the second instance accepts.
* `failover_accepts_twice`: A counter both instances accept.
-/

namespace SecureLlm

open Library

/-- Run a task alone against Redis. A task that waits for a lock that is taken
    waits forever. -/
def Task.alone {α : Type} : Task α → (ℕ → ℚ) → Process → (String → Option Record) →
    Option (Except Exc α × Process × (String → Option Record))
  | .done a, _, p, db => some (.ok a, p, db)
  | .fail e, _, p, db => some (.error e, p, db)
  | .now next, clock, p, db => Task.alone (next (clock 0)) (fun n => clock (n + 1)) p db
  | .step upd next, clock, p, db => Task.alone (next p) clock (upd p) db
  | .wait ready next, clock, p, db => if ready p then Task.alone next clock p db else none
  | .call c next, clock, p, db => Task.alone (next (c.exec db).2) clock p (c.exec db).1

namespace RedisStore

variable (floor : ℤ) (r : Ref) (sid : Bytes) (clock : ℕ → ℚ) (p : Process)
  (db : String → Option Record)

/-- Writing a session leaves its record under its key. -/
theorem put_alone :
    Task.alone (put floor r) clock p db = some (.ok (),
      (p.assign (p.heap r).sessionId r).note r .stored,
      Function.update db (redisKey (p.heap r).sessionId) (some (serialize (p.heap r)))) := rfl

/-- Reading a live session back where it is not cached makes a new object of
    its record. -/
theorem hydrate_alone (s : Session) (hmiss : p.table.get? s.sessionId = none)
    (hdb : db (redisKey s.sessionId) = some (serialize s))
    (hlive : s.isExpired (clock 0) = false) :
    Task.alone (hydrate s.sessionId) clock p db = some (.ok (some p.next),
      (p.alloc s.rehydrated .hydrated).assign s.sessionId p.next, db) := by
  simp only [hydrate, tableGet, Coop.gets, bind, Coop.bind, Task.alone, id, hmiss, fetch, get,
    RedisCall.exec, hdb, deserialize_serialize, Task.ofExcept, Task.alloc, Task.isExpired,
    Coop.time, Task.read, pure, Process.heap_alloc_self, Coop.modify]
  have hexp : s.rehydrated.isExpired (clock 0) = false := hlive
  rw [hexp, if_neg Bool.false_ne_true]
  rfl

end RedisStore

/-- What the second instance owes a counter: to refuse it up to the watermark
    that was written, and to accept it above. -/
def KeepsReplayProtection (high : ℕ) (window : ReplayWindow) (counter : ℤ) : Prop :=
  (counter ≤ high → ∃ e, window.checkAndAdvance counter = .error e) ∧
    (high < counter → ∃ window', window.checkAndAdvance counter = .ok window')

/-- A window read back keeps its promise to the counters above the watermark
    and to those that are too far below it. -/
theorem keepsReplayProtection_emptyAt (high : ℕ) (counter : ℤ) :
    KeepsReplayProtection high (.emptyAt high) counter ↔
      counter < 0 ∨ high < counter ∨ counter + windowBits ≤ high := by
  by_cases hneg : counter < 0
  · refine ⟨fun _ => Or.inl hneg, fun _ => ⟨fun _ => ?_, fun h => by omega⟩⟩
    exact ⟨_, ReplayWindow.checkAndAdvance_neg _ _ hneg⟩
  obtain ⟨c, rfl⟩ := Int.eq_ofNat_of_zero_le (not_lt.mp hneg)
  have hok := (ReplayWindow.checkAndAdvance_natCast_ok_iff (.emptyAt high) c).trans
    (ReplayWindow.admits_emptyAt high c)
  constructor
  · rintro ⟨hrefuse, -⟩
    by_contra hcond
    obtain ⟨e, he⟩ := hrefuse (by omega)
    obtain ⟨window', hw⟩ := hok.mpr (by omega)
    rw [he] at hw
    exact absurd hw nofun
  · intro hcond
    refine ⟨fun hle => ?_, fun hlt => hok.mpr (by omega)⟩
    cases hcheck : (ReplayWindow.emptyAt high).checkAndAdvance c with
    | error e => exact ⟨e, rfl⟩
    | ok window' =>
        have := hok.mp ⟨window', hcheck⟩
        omega

/-- **What failover keeps of replay protection.** After instance A has accepted
    a sequence of counters and written the session, instance B reads it back.
    B does what it owes a counter exactly if the counter is negative, above the
    watermark, or 1024 or more below it; of the counters A accepted, B accepts
    again those less than 1024 below the watermark, the watermark itself among
    them if A accepted any. -/
theorem failover_admits (floor : ℤ) (pA pB : Process) (rA : Ref) (w : ReplayWindow) (cs : List ℕ)
    (clockA clockB : ℕ → ℚ) (db : String → Option Record)
    (haccepted : w.acceptAll cs = .ok (pA.heap rA).replay)
    (hmiss : pB.table.get? (pA.heap rA).sessionId = none)
    (hlive : (pA.heap rA).isExpired (clockB 0) = false) :
    ∃ pA' pB' db' record,
      Task.alone (RedisStore.put floor rA) clockA pA db = some (.ok (), pA', db') ∧
      db' (redisKey (pA.heap rA).sessionId) = some record ∧
      Task.alone (RedisStore.hydrate (pA.heap rA).sessionId) clockB pB db'
        = some (.ok (some pB.next), pB', db') ∧
      (∀ counter, KeepsReplayProtection record.replayHigh (pB'.heap pB.next).replay counter ↔
        counter < 0 ∨ record.replayHigh < counter ∨ counter + windowBits ≤ record.replayHigh) ∧
      (∀ c ∈ cs, c ≤ record.replayHigh ∧
        ((∃ w', (pB'.heap pB.next).replay.checkAndAdvance c = .ok w') ↔
          record.replayHigh < c + windowBits)) := by
  have hdb : Function.update db (redisKey (pA.heap rA).sessionId) (some (serialize (pA.heap rA)))
      (redisKey (pA.heap rA).sessionId) = some (serialize (pA.heap rA)) :=
    Function.update_self _ _ _
  have hreplay : (((pB.alloc (pA.heap rA).rehydrated .hydrated).assign (pA.heap rA).sessionId
      pB.next).heap pB.next).replay = .emptyAt (pA.heap rA).replay.high :=
    congrArg Session.replay (Process.heap_alloc_self pB _ .hydrated)
  refine ⟨_, _, _, _, RedisStore.put_alone floor rA clockA pA db, hdb,
    RedisStore.hydrate_alone clockB pB _ (pA.heap rA) hmiss hdb hlive, ?_, ?_⟩
  · intro counter
    rw [hreplay]
    exact keepsReplayProtection_emptyAt _ counter
  · intro c hc
    rw [hreplay, ReplayWindow.checkAndAdvance_natCast_ok_iff, ReplayWindow.admits_emptyAt]
    exact ⟨(ReplayWindow.le_high_of_acceptAll w _ cs haccepted).2 c hc, Iff.rfl⟩

/-- An instance that has made the sample session and accepted counter 5. -/
def sampleAccepted : Process :=
  (Process.start.alloc (.ofMaterial .sample 900 3600 0) .created).change 0 (fun s =>
    match ReplayWindow.fresh.acceptAll [5] with
    | .ok w => s.advance w
    | .error _ => s)

theorem acceptAll_sampleAccepted :
    ReplayWindow.fresh.acceptAll [5] = .ok (sampleAccepted.heap 0).replay := by decide +kernel

/-- The counter the first instance has accepted is accepted by the second. -/
theorem failover_accepts_twice :
    ∃ pA' pB' db', ReplayWindow.fresh.acceptAll [5] = .ok (sampleAccepted.heap 0).replay ∧
      Task.alone (RedisStore.put 60 0) (fun _ => 1) sampleAccepted (fun _ => none)
        = some (.ok (), pA', db') ∧
      Task.alone (RedisStore.hydrate (sampleAccepted.heap 0).sessionId) (fun _ => 2) .start db'
        = some (.ok (some 0), pB', db') ∧
      (∃ w', (pB'.heap 0).replay.checkAndAdvance 5 = .ok w') ∧
      ¬ KeepsReplayProtection (sampleAccepted.heap 0).replay.high (pB'.heap 0).replay 5 := by
  have hdb := Function.update_self (redisKey (sampleAccepted.heap 0).sessionId)
    (some (serialize (sampleAccepted.heap 0))) (fun _ => none)
  refine ⟨_, _, _, acceptAll_sampleAccepted, RedisStore.put_alone 60 0 _ _ _,
    RedisStore.hydrate_alone _ .start _ (sampleAccepted.heap 0) rfl hdb (by decide +kernel),
    ⟨_, rfl⟩, ?_⟩
  rintro ⟨hrefuse, -⟩
  obtain ⟨e, he⟩ := hrefuse (by decide +kernel)
  exact absurd he nofun

theorem failover_admits_sample :
    ∃ pA' pB' db' record,
      Task.alone (RedisStore.put 60 0) (fun _ => 1) sampleAccepted (fun _ => none)
        = some (.ok (), pA', db') ∧
      db' (redisKey (sampleAccepted.heap 0).sessionId) = some record ∧
      Task.alone (RedisStore.hydrate (sampleAccepted.heap 0).sessionId) (fun _ => 2) .start db'
        = some (.ok (some 0), pB', db') ∧
      (∀ counter, KeepsReplayProtection record.replayHigh (pB'.heap 0).replay counter ↔
        counter < 0 ∨ record.replayHigh < counter ∨ counter + windowBits ≤ record.replayHigh) ∧
      (∀ c ∈ [5], c ≤ record.replayHigh ∧
        ((∃ w', (pB'.heap 0).replay.checkAndAdvance c = .ok w') ↔
          record.replayHigh < c + windowBits)) :=
  failover_admits 60 sampleAccepted .start 0 .fresh [5] (fun _ => 1) (fun _ => 2) (fun _ => none)
    acceptAll_sampleAccepted rfl (by decide +kernel)

end SecureLlm
