import Mathlib.Data.Int.Interval
import SecureLlm.Client.Errors
import SecureLlm.Library.Recollection

/-!
# Replay Protection in the Client

The client keeps the counters of the answers it has accepted and refuses one that
it has. When there are more than 4096 it keeps the 2048 largest. What it drops it
does not know any more, and the watermark, which it keeps up to date, it does not
compare with.

So a counter is accepted twice exactly if it comes again after it was dropped.

## Main definitions

* `ReplayClient`: The state of the check.
* `ReplayClient.check`: One check.
* `ReplayClient.accepts`: What a sequence of checks accepts.
* `ReplayClient.checkAll`: Checks of which none may raise.

## Theorems

* `ReplayClient.check_eq`: A check is a step of the memory of the largest.
* `ReplayClient.checkAll_of_nodup`, `ReplayClient.passed_of_checkAll`: Several checks.
* `ReplayClient.nodup_passed`: While nothing is dropped, each counter is accepted
  once.
* `accepts_once_iff`: When each counter is accepted once.
* `accepts_dropped_counter`: A counter that is accepted twice.
-/

namespace SecureLlm

open Library

namespace Client

/-- The watermark, and the counters that are remembered. -/
structure ReplayClient where
  high : ℤ
  seen : Finset ℤ

namespace ReplayClient

def fresh : ReplayClient := ⟨0, ∅⟩

/-- One check: what it raises, or the state it leaves. A check that raises has
    changed nothing. -/
def check (r : ReplayClient) (counter : ℤ) : Except Raised ReplayClient :=
  if counter ∈ r.seen then .error (raiseError "server replay detected" .replayDetected)
  else
    let r := { r with high := max r.high counter }
    let r := { r with seen := insert counter r.seen }
    if 4096 < r.seen.card then
      .ok { r with seen := (r.seen.sort.drop (r.seen.card - 2048)).toFinset }
    else .ok r

/-- A sequence of checks: the state it leaves and the counters it has accepted,
    newest first. -/
def checks (cs : List ℤ) : ReplayClient × List ℤ :=
  cs.foldl (fun s c => match s.1.check c with
    | .ok r => (r, c :: s.2)
    | .error _ => s) (fresh, [])

/-- What a sequence of checks accepts. -/
def accepts (cs : List ℤ) : List ℤ := (checks cs).2.reverse

/-- A check is a step of the memory of the largest. -/
theorem check_eq (r : ReplayClient) (c : ℤ) :
    r.check c = if c ∈ r.seen then
        .error (raiseError "server replay detected" .replayDetected)
      else .ok ⟨max r.high c, remember 4096 2048 r.seen c⟩ := by
  unfold check remember
  dsimp only
  rw [toFinset_drop_sort]
  by_cases hin : c ∈ r.seen
  · rw [if_pos hin, if_pos hin]
  · rw [if_neg hin, if_neg hin]
    by_cases hfull : 4096 < (insert c r.seen).card
    · rw [if_pos hfull, if_pos hfull]
    · rw [if_neg hfull, if_neg hfull]

/-- One more check. -/
theorem checks_append (cs : List ℤ) (c : ℤ) :
    checks (cs ++ [c]) = match (checks cs).1.check c with
      | .ok r => (r, c :: (checks cs).2)
      | .error _ => checks cs := by
  rw [checks, List.foldl_append, List.foldl_cons, List.foldl_nil]
  rfl

/-- What a sequence of checks does to the memory. -/
theorem checks_eq (cs : List ℤ) :
    (checks cs).1.seen = (watch 4096 2048 cs.reverse).memory ∧
      (checks cs).2 = (watch 4096 2048 cs.reverse).passed := by
  induction cs using List.reverseRecOn with
  | nil => exact ⟨rfl, rfl⟩
  | append_singleton cs c ih =>
      rw [checks_append, check_eq, List.reverse_append, List.reverse_singleton,
        List.singleton_append, watch, Watch.see, ih.1]
      by_cases hin : c ∈ (watch 4096 2048 cs.reverse).memory
      · rw [if_pos hin, if_pos hin]
        exact ih
      · rw [if_neg hin, if_neg hin]
        exact ⟨rfl, by rw [ih.2]⟩

/-- What is remembered has come. -/
theorem mem_of_mem_seen (cs : List ℤ) {c : ℤ} (h : c ∈ (checks cs).1.seen) : c ∈ cs := by
  rw [(checks_eq cs).1] at h
  exact List.mem_reverse.mp (mem_of_mem_memory _ h)

/-- A counter that has not come yet is accepted. -/
theorem exists_check_of_notMem (cs : List ℤ) {c : ℤ} (h : c ∉ cs) :
    ∃ r, (checks cs).1.check c = .ok r := by
  rw [check_eq, if_neg fun hin => h (mem_of_mem_seen cs hin)]
  exact ⟨_, rfl⟩

/-- Checks one after the other, as far as none raises. -/
def checkAll : ReplayClient → List ℕ → Except Raised ReplayClient
  | r, [] => .ok r
  | r, c :: cs =>
    match r.check c with
    | .error e => .error e
    | .ok r => checkAll r cs

/-- Counters that have not come yet, and come once each, are all accepted. -/
theorem checkAll_of_nodup (prior : List ℤ) (cs : List ℕ) (hnew : ∀ c ∈ cs, (c : ℤ) ∉ prior)
    (hnodup : cs.Nodup) : ∃ r, (checks prior).1.checkAll cs = .ok r := by
  induction cs generalizing prior with
  | nil => exact ⟨_, rfl⟩
  | cons c cs ih =>
      rcases exists_check_of_notMem prior (hnew c List.mem_cons_self) with ⟨r, hr⟩
      -- The state is one that a longer sequence of checks leaves.
      have hafter : (checks (prior ++ [(c : ℤ)])).1 = r := by rw [checks_append, hr]
      have hrest := ih (prior ++ [(c : ℤ)]) (fun d hd hmem => ?_) (List.nodup_cons.mp hnodup).2
      · rw [checkAll, hr, ← hafter]
        exact hrest
      · rcases List.mem_append.mp hmem with hprior | hc
        · exact hnew d (List.mem_cons_of_mem c hd) hprior
        · have heq : d = c := Int.ofNat_inj.mp (List.mem_singleton.mp hc)
          exact (List.nodup_cons.mp hnodup).1 (heq ▸ hd)

/-- What was accepted one after the other. -/
theorem passed_of_checkAll {prior : List ℤ} {cs : List ℕ} {r : ReplayClient}
    (h : (checks prior).1.checkAll cs = .ok r) :
    (checks (prior ++ cs.map Nat.cast)).2 = (cs.map Nat.cast).reverse ++ (checks prior).2 := by
  induction cs generalizing prior with
  | nil => rw [List.map_nil, List.append_nil, List.reverse_nil, List.nil_append]
  | cons c cs ih =>
      unfold checkAll at h
      cases hcheck : (checks prior).1.check c with
      | error e =>
          rw [hcheck] at h
          exact absurd h nofun
      | ok r' =>
          have hafter : checks (prior ++ [(c : ℤ)]) = (r', (c : ℤ) :: (checks prior).2) := by
            rw [checks_append, hcheck]
          rw [hcheck] at h
          have hrest := @ih (prior ++ [(c : ℤ)]) (by rw [hafter]; exact h)
          rw [hafter] at hrest
          rw [List.map_cons, List.reverse_cons, List.append_assoc, List.singleton_append, ← hrest,
            List.append_assoc, List.singleton_append]

/-- As long as no more than 4096 have come nothing is dropped, and no counter is
    accepted twice. -/
theorem nodup_passed (cs : List ℤ) (h : cs.length ≤ 4096) : (checks cs).2.Nodup := by
  rw [(checks_eq cs).2, passed_nodup_iff (by omega)]
  intro later c earlier heq hmem
  have hlen := congrArg List.length heq
  rw [List.length_reverse, List.length_append, List.length_cons] at hlen
  -- Before the first pruning all counters are recent.
  have hfew := earlier.dedup_sublist.length_le
  unfold remembered
  dsimp only
  have hrecent : sincePruned 4096 2048 earlier.dedup.length = earlier.dedup.length := by
    unfold sincePruned
    rw [if_pos (by omega)]
  rw [hrecent, List.take_length]
  exact Finset.mem_union_left _ (List.mem_toFinset.mpr (List.mem_dedup.mpr hmem))

end ReplayClient

open ReplayClient

/-- **When each counter is accepted once.** A sequence of checks accepts every
    counter at most once exactly if each that comes again is still remembered: of
    the distinct counters before it is one of those since the last pruning, or
    one of the 2048 largest up to then. -/
theorem accepts_once_iff (cs : List ℤ) :
    (∀ c, (accepts cs).count c ≤ 1) ↔
      ∀ before c after, cs = before ++ c :: after → c ∈ before →
        c ∈ remembered 4096 2048 before.reverse := by
  rw [← List.nodup_iff_count_le_one, accepts, List.nodup_reverse, (checks_eq cs).2,
    passed_nodup_iff (by omega)]
  constructor
  · intro h before c after heq hmem
    refine h after.reverse c before.reverse ?_ (List.mem_reverse.mpr hmem)
    rw [heq, List.reverse_append, List.reverse_cons, List.append_assoc, List.singleton_append]
  · intro h later c earlier heq hmem
    rw [← List.reverse_reverse earlier]
    refine h earlier.reverse c later.reverse ?_ (List.mem_reverse.mpr hmem)
    rw [← List.reverse_reverse cs, heq, List.reverse_append, List.reverse_cons, List.append_assoc,
      List.singleton_append]

/-- Of the counters from 1 to 4097 the first is dropped with the last. -/
theorem one_not_mem_remembered (cs : List ℤ) (hnodup : cs.Nodup)
    (hmem : ∀ c, c ∈ cs ↔ 1 ≤ c ∧ c ≤ 4097) : 1 ∉ remembered 4096 2048 cs := by
  have hcs : cs.toFinset = Finset.Icc 1 4097 := by
    ext x
    rw [List.mem_toFinset, hmem, Finset.mem_Icc]
  have hlen : cs.length = 4097 := by
    rw [← List.toFinset_card_of_nodup hnodup, hcs, Int.card_Icc]
    rfl
  have habove : (Finset.Icc (1 : ℤ) 4097).filter (1 < ·) = Finset.Icc 2 4097 := by
    ext x
    rw [Finset.mem_filter, Finset.mem_Icc, Finset.mem_Icc]
    omega
  unfold remembered
  dsimp only
  rw [hnodup.dedup, hlen]
  have hrecent : sincePruned 4096 2048 4097 = 0 := by
    unfold sincePruned
    rw [if_neg (by omega)]
  rw [hrecent, List.take_zero, List.drop_zero, List.toFinset_nil, Finset.empty_union, hcs,
    mem_largest, habove, Int.card_Icc]
  intro h
  exact absurd h.2 (by omega)

/-- When the counters from 1 to 4097 have come and then 1 comes again, a counter is
    accepted twice. -/
theorem accepts_dropped_counter :
    ∃ c, 1 < (accepts ((List.range 4097).map (fun i : ℕ => (i : ℤ) + 1) ++ [1])).count c := by
  by_contra hnone
  let first : List ℤ := (List.range 4097).map fun i : ℕ => (i : ℤ) + 1
  have honce : ∀ c, (accepts (first ++ [1])).count c ≤ 1 :=
    fun c => not_lt.mp fun hc => hnone ⟨c, hc⟩
  have hnodup := List.nodup_iff_count_le_one.mpr honce
  rw [accepts, List.nodup_reverse, (checks_eq _).2, passed_nodup_iff (by omega)] at hnodup
  have hfirst : ∀ x, x ∈ first ↔ 1 ≤ x ∧ x ≤ 4097 := by
    intro x
    rw [List.mem_map]
    constructor
    · rintro ⟨i, hi, rfl⟩
      rw [List.mem_range] at hi
      omega
    · rintro ⟨hlo, hhi⟩
      exact ⟨(x - 1).toNat, List.mem_range.mpr (by omega), by omega⟩
  have hdistinct : first.Nodup := by
    refine List.nodup_range.map fun i j hij => ?_
    have heq : (i : ℤ) + 1 = j + 1 := hij
    omega
  -- Were each accepted once, 1 would be remembered.
  refine one_not_mem_remembered first.reverse (List.nodup_reverse.mpr hdistinct) ?_
    (hnodup [] 1 first.reverse ?_ ?_)
  · intro c
    rw [List.mem_reverse, hfirst]
  · rw [List.reverse_append, List.reverse_singleton, List.nil_append, List.singleton_append]
  · rw [List.mem_reverse, hfirst]
    omega

end Client

end SecureLlm
