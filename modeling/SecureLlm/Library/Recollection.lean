import Mathlib.Data.Finset.Sort
import Mathlib.Data.List.Dedup

/-!
# A Memory of the Largest

A filter that is to let every value through once, and that remembers what it has
let through, can bound its memory by forgetting. This one forgets when it holds
more than `limit` values, and then keeps the `keep` largest.

What it remembers is determined by the distinct values so far: those since it
last forgot, and of those before, the `keep` largest. For the largest of what was
kept and what came since are the largest of all. So it lets a value through twice
exactly if the value comes again when it is neither.

A history is a list with the newest value first.

## Main definitions

* `largest`: The largest elements of a set.
* `remember`: One more value.
* `Watch`: A memory and what it has let through.
* `remembered`: What the memory holds, from the history alone.

## Theorems

* `toFinset_drop_sort`: The largest are the end of the sorted list.
* `largest_union`: The largest of the largest and others.
* `remembered_cons`: A new value.
* `watch_eq`: What a run remembers.
* `passed_nodup_iff`: When it has let no value through twice.
-/

namespace Library

section Largest

variable {α : Type*} [LinearOrder α]

/-- The `k` largest elements: those with fewer than `k` larger ones. -/
def largest (k : ℕ) (s : Finset α) : Finset α := s.filter fun x => (s.filter (x < ·)).card < k

variable {k : ℕ} {s t : Finset α} {x y : α}

@[simp] theorem mem_largest : x ∈ largest k s ↔ x ∈ s ∧ (s.filter (x < ·)).card < k :=
  Finset.mem_filter

theorem largest_subset : largest k s ⊆ s := Finset.filter_subset _ _

/-- Above one of the largest there are only such. -/
theorem mem_largest_of_le (hx : x ∈ largest k s) (hy : y ∈ s) (h : x ≤ y) : y ∈ largest k s := by
  rw [mem_largest] at hx ⊢
  refine ⟨hy, lt_of_le_of_lt (Finset.card_le_card ?_) hx.2⟩
  intro z hz
  rw [Finset.mem_filter] at hz ⊢
  exact ⟨hz.1, lt_of_le_of_lt h hz.2⟩

/-- The largest are the end of the sorted list. -/
theorem toFinset_drop_sort (k : ℕ) (s : Finset α) :
    (s.sort.drop (s.card - k)).toFinset = largest k s := by
  have hsorted : (s.sort.take (s.card - k) ++ s.sort.drop (s.card - k)).Pairwise (· < ·) := by
    rw [List.take_append_drop]
    exact s.sortedLT_sort.pairwise
  rcases List.pairwise_append.mp hsorted with ⟨-, hdrop, hbelow⟩
  have hmem : ∀ z, z ∈ s ↔ z ∈ s.sort.take (s.card - k) ∨ z ∈ s.sort.drop (s.card - k) := by
    intro z
    rw [← List.mem_append, List.take_append_drop, Finset.mem_sort]
  have hlen : (s.sort.drop (s.card - k)).toFinset.card = s.card - (s.card - k) := by
    rw [List.toFinset_card_of_nodup (hdrop.imp ne_of_lt), List.length_drop, Finset.length_sort]
  ext x
  rw [List.mem_toFinset, mem_largest]
  constructor
  · intro hx
    refine ⟨(hmem x).mpr (Or.inr hx), ?_⟩
    have hsub : s.filter (x < ·) ⊆ (s.sort.drop (s.card - k)).toFinset.erase x := by
      intro y hy
      rw [Finset.mem_filter] at hy
      rw [Finset.mem_erase, List.mem_toFinset]
      refine ⟨ne_of_gt hy.2, ?_⟩
      rcases (hmem y).mp hy.1 with htake | hdrop'
      · exact absurd hy.2 (lt_asymm (hbelow y htake x hx))
      · exact hdrop'
    have hcard := Finset.card_le_card hsub
    rw [Finset.card_erase_of_mem (List.mem_toFinset.mpr hx), hlen] at hcard
    have hpos : 0 < s.card - (s.card - k) := by
      rw [← hlen]
      exact Finset.card_pos.mpr ⟨x, List.mem_toFinset.mpr hx⟩
    omega
  · rintro ⟨hx, hfew⟩
    rcases (hmem x).mp hx with htake | hdrop'
    · -- All that is kept is larger.
      have hsub : (s.sort.drop (s.card - k)).toFinset ⊆ s.filter (x < ·) := by
        intro y hy
        rw [List.mem_toFinset] at hy
        exact Finset.mem_filter.mpr ⟨(hmem y).mpr (Or.inr hy), hbelow x htake y hy⟩
      have hcard := Finset.card_le_card hsub
      have hne : s.card - k ≠ 0 := by
        intro hzero
        rw [hzero, List.take_zero] at htake
        exact List.not_mem_nil htake
      rw [hlen] at hcard
      omega
    · exact hdrop'

theorem card_largest (h : k ≤ s.card) : (largest k s).card = k := by
  rw [← toFinset_drop_sort, List.toFinset_card_of_nodup
    ((Finset.sort_nodup _ _).sublist (List.drop_sublist _ _)), List.length_drop,
    Finset.length_sort]
  omega

@[simp] theorem largest_empty : largest k (∅ : Finset α) = ∅ := Finset.filter_empty _

/-- The largest of the largest and others are the largest of all. -/
theorem largest_union : largest k (largest k s ∪ t) = largest k (s ∪ t) := by
  have hsub : largest k s ∪ t ⊆ s ∪ t := Finset.union_subset_union_left largest_subset
  ext x
  rw [mem_largest, mem_largest]
  constructor
  · rintro ⟨hx, hfew⟩
    refine ⟨hsub hx, ?_⟩
    by_cases hall : ∀ y ∈ s ∪ t, x < y → y ∈ largest k s ∪ t
    · refine lt_of_le_of_lt (Finset.card_le_card fun y hy => ?_) hfew
      rw [Finset.mem_filter] at hy ⊢
      exact ⟨hall y hy.1 hy.2, hy.2⟩
    · -- One that is left out has all of the largest above it.
      push Not at hall
      rcases hall with ⟨y, hy, hlt, hout⟩
      rw [Finset.mem_union, not_or] at hout
      have hys : y ∈ s := (Finset.mem_union.mp hy).resolve_right hout.2
      have hmany : k ≤ (s.filter (y < ·)).card := by
        by_contra hless
        exact hout.1 (mem_largest.mpr ⟨hys, not_le.mp hless⟩)
      have habove : largest k s ⊆ (largest k s ∪ t).filter (x < ·) := by
        intro z hz
        refine Finset.mem_filter.mpr ⟨Finset.mem_union_left _ hz, lt_trans hlt ?_⟩
        by_contra hle
        exact hout.1 (mem_largest_of_le hz hys (not_lt.mp hle))
      have hcard := Finset.card_le_card habove
      rw [card_largest (hmany.trans (Finset.card_filter_le _ _))] at hcard
      exact absurd hfew (not_lt.mpr hcard)
  · rintro ⟨hx, hfew⟩
    refine ⟨?_, lt_of_le_of_lt (Finset.card_le_card (Finset.filter_subset_filter _ hsub)) hfew⟩
    rw [Finset.mem_union] at hx ⊢
    refine hx.imp_left fun hxs => mem_largest.mpr ⟨hxs, lt_of_le_of_lt (Finset.card_le_card
      (Finset.filter_subset_filter _ Finset.subset_union_left)) hfew⟩

end Largest

section Memory

variable {α : Type*} [LinearOrder α] {limit keep : ℕ}

/-- One more value; above `limit` values the `keep` largest are kept. -/
def remember (limit keep : ℕ) (s : Finset α) (a : α) : Finset α :=
  if limit < (insert a s).card then largest keep (insert a s) else insert a s

theorem remember_subset (s : Finset α) (a : α) : remember limit keep s a ⊆ insert a s := by
  unfold remember
  split
  · exact largest_subset
  · exact Finset.Subset.refl _

/-- A memory, and what has been let through, newest first. -/
structure Watch (α : Type*) where
  memory : Finset α
  passed : List α

/-- A value passes if it is not remembered. -/
def Watch.see (limit keep : ℕ) (w : Watch α) (a : α) : Watch α :=
  if a ∈ w.memory then w else ⟨remember limit keep w.memory a, a :: w.passed⟩

/-- After a history. -/
def watch (limit keep : ℕ) : List α → Watch α
  | [] => ⟨∅, []⟩
  | a :: history => (watch limit keep history).see limit keep a

/-- How many of `n` distinct values have come since the memory was last pruned: at
    `limit + 1` of them it was for the first time, and then at every
    `limit + 1 - keep`. -/
def sincePruned (limit keep n : ℕ) : ℕ :=
  if n ≤ limit then n else (n - (limit + 1)) % (limit + 1 - keep)

/-- What is remembered of a history: the distinct values since the memory was last
    pruned, and the largest of those before. -/
def remembered (limit keep : ℕ) (history : List α) : Finset α :=
  let distinct := history.dedup
  let recent := sincePruned limit keep distinct.length
  (distinct.take recent).toFinset ∪ largest keep (distinct.drop recent).toFinset

/-- How many values are remembered. -/
def occupancy (limit keep n : ℕ) : ℕ :=
  if n ≤ limit then n else sincePruned limit keep n + keep

theorem card_remembered (hkeep : keep ≤ limit) (history : List α) :
    (remembered limit keep history).card = occupancy limit keep history.dedup.length := by
  have hnodup := history.nodup_dedup
  unfold remembered occupancy
  dsimp only
  by_cases hle : history.dedup.length ≤ limit
  · rw [if_pos hle, sincePruned, if_pos hle, List.take_length, List.drop_length,
      List.toFinset_nil, largest_empty, Finset.union_empty, List.toFinset_card_of_nodup hnodup]
  · rw [if_neg hle]
    have hrecent : sincePruned limit keep history.dedup.length + keep ≤
        history.dedup.length := by
      rw [sincePruned, if_neg hle]
      have hmod : (history.dedup.length - (limit + 1)) % (limit + 1 - keep) ≤
        history.dedup.length - (limit + 1) := Nat.mod_le _ _
      omega
    generalize sincePruned limit keep history.dedup.length = r at hrecent ⊢
    have hdisjoint : Disjoint (history.dedup.take r).toFinset
        (largest keep (history.dedup.drop r).toFinset) := by
      refine Finset.disjoint_of_subset_right largest_subset ?_
      rw [List.disjoint_toFinset_iff_disjoint]
      exact List.disjoint_take_drop hnodup (le_refl r)
    rw [Finset.card_union_of_disjoint hdisjoint,
      List.toFinset_card_of_nodup (hnodup.sublist (List.take_sublist _ _)), List.length_take,
      card_largest]
    · omega
    · rw [List.toFinset_card_of_nodup (hnodup.sublist (List.drop_sublist _ _)), List.length_drop]
      omega

/-- When the memory is pruned. -/
theorem sincePruned_succ (hkeep : keep ≤ limit) (n : ℕ) :
    sincePruned limit keep (n + 1) =
      if limit < occupancy limit keep n + 1 then 0 else sincePruned limit keep n + 1 := by
  unfold occupancy
  by_cases hle : n ≤ limit
  · rw [if_pos hle]
    by_cases hlast : n = limit
    · rw [if_pos (by omega), sincePruned, if_neg (by omega), hlast, Nat.sub_self, Nat.zero_mod]
    · rw [if_neg (by omega), sincePruned, if_pos (by omega), sincePruned, if_pos hle]
  · rw [if_neg hle, sincePruned, if_neg (by omega), sincePruned, if_neg hle]
    have hlt : (n - (limit + 1)) % (limit + 1 - keep) < limit + 1 - keep :=
      Nat.mod_lt _ (by omega)
    have hsucc : n + 1 - (limit + 1) = n - (limit + 1) + 1 := by omega
    rw [hsucc]
    by_cases hfull : limit < (n - (limit + 1)) % (limit + 1 - keep) + keep + 1
    · rw [if_pos hfull]
      have hlast : (n - (limit + 1)) % (limit + 1 - keep) + 1 = limit + 1 - keep := by omega
      rw [← Nat.mod_add_mod, hlast, Nat.mod_self]
    · rw [if_neg hfull, ← Nat.mod_add_mod, Nat.mod_eq_of_lt (by omega)]

/-- What is remembered has come. -/
theorem mem_of_mem_remembered {history : List α} {a : α}
    (h : a ∈ remembered limit keep history) : a ∈ history := by
  unfold remembered at h
  rw [Finset.mem_union, List.mem_toFinset] at h
  rcases h with h | h
  · exact List.mem_dedup.mp (List.mem_of_mem_take h)
  · exact List.mem_dedup.mp (List.mem_of_mem_drop (List.mem_toFinset.mp (largest_subset h)))

/-- A value that has come before changes nothing. -/
theorem remembered_cons_of_mem {history : List α} {a : α} (h : a ∈ history) :
    remembered limit keep (a :: history) = remembered limit keep history := by
  unfold remembered
  rw [List.dedup_cons_of_mem h]

/-- A new value is added to what is remembered. -/
theorem remembered_cons (hkeep : keep ≤ limit) {history : List α} {a : α} (h : a ∉ history) :
    remembered limit keep (a :: history) =
      remember limit keep (remembered limit keep history) a := by
  have hcard : (insert a (remembered limit keep history)).card =
      occupancy limit keep history.dedup.length + 1 := by
    rw [Finset.card_insert_of_notMem fun hmem => h (mem_of_mem_remembered hmem),
      card_remembered hkeep]
  unfold remember
  rw [hcard]
  conv_lhs => unfold remembered
  dsimp only
  rw [List.dedup_cons_of_notMem h, List.length_cons, sincePruned_succ hkeep]
  by_cases hfull : limit < occupancy limit keep history.dedup.length + 1
  · rw [if_pos hfull, if_pos hfull, List.take_zero, List.drop_zero, List.toFinset_nil,
      Finset.empty_union, List.toFinset_cons]
    unfold remembered
    dsimp only
    generalize sincePruned limit keep history.dedup.length = r
    rw [← Finset.insert_union, Finset.union_comm, largest_union, Finset.union_comm,
      Finset.insert_union, ← List.toFinset_append, List.take_append_drop]
  · rw [if_neg hfull, if_neg hfull, List.take_succ_cons, List.drop_succ_cons, List.toFinset_cons,
      Finset.insert_union]
    rfl

/-- What is in the memory has come. -/
theorem mem_of_mem_memory (history : List α) {a : α}
    (h : a ∈ (watch limit keep history).memory) : a ∈ history := by
  induction history with
  | nil => exact absurd h (Finset.notMem_empty a)
  | cons b history ih =>
      unfold watch Watch.see at h
      by_cases hin : b ∈ (watch limit keep history).memory
      · rw [if_pos hin] at h
        exact List.mem_cons_of_mem b (ih h)
      · rw [if_neg hin] at h
        rcases Finset.mem_insert.mp (remember_subset _ b h) with heq | hold
        · rw [heq]
          exact List.mem_cons_self
        · exact List.mem_cons_of_mem b (ih hold)

/-- A history whose values are remembered for as long as they come again. -/
def Recalls (limit keep : ℕ) (history : List α) : Prop :=
  ∀ later a earlier, history = later ++ a :: earlier → a ∈ earlier →
    a ∈ remembered limit keep earlier

theorem recalls_cons {history : List α} {a : α} :
    Recalls limit keep (a :: history) ↔
      (a ∈ history → a ∈ remembered limit keep history) ∧ Recalls limit keep history := by
  constructor
  · intro h
    refine ⟨h [] a history rfl, fun later b earlier heq => h (a :: later) b earlier ?_⟩
    rw [heq, List.cons_append]
  · rintro ⟨hhead, htail⟩ later b earlier heq
    cases later with
    | nil =>
        rw [List.nil_append, List.cons.injEq] at heq
        rw [← heq.1, ← heq.2]
        exact hhead
    | cons c later =>
        rw [List.cons_append, List.cons.injEq] at heq
        exact htail later b earlier heq.2

/-- What a run remembers and has let through. -/
theorem watch_eq (hkeep : keep ≤ limit) (history : List α) (h : Recalls limit keep history) :
    watch limit keep history = ⟨remembered limit keep history, history.dedup⟩ := by
  induction history with
  | nil => rfl
  | cons a history ih =>
      rw [recalls_cons] at h
      unfold watch Watch.see
      rw [ih h.2]
      by_cases hmem : a ∈ history
      · rw [if_pos (h.1 hmem), remembered_cons_of_mem hmem, List.dedup_cons_of_mem hmem]
      · rw [if_neg fun hin => hmem (mem_of_mem_remembered hin), remembered_cons hkeep hmem,
          List.dedup_cons_of_notMem hmem]

/-- A run has let no value through twice exactly if its history recalls. -/
theorem passed_nodup_iff (hkeep : keep ≤ limit) (history : List α) :
    (watch limit keep history).passed.Nodup ↔ Recalls limit keep history := by
  constructor
  · induction history with
    | nil =>
        intro _ later a earlier heq
        exact absurd heq.symm (List.append_ne_nil_of_right_ne_nil _ (List.cons_ne_nil _ _))
    | cons a history ih =>
        intro hnodup
        unfold watch Watch.see at hnodup
        by_cases hin : a ∈ (watch limit keep history).memory
        · rw [if_pos hin] at hnodup
          have htail := ih hnodup
          rw [watch_eq hkeep history htail] at hin
          exact recalls_cons.mpr ⟨fun _ => hin, htail⟩
        · rw [if_neg hin, List.nodup_cons] at hnodup
          have htail := ih hnodup.2
          rw [watch_eq hkeep history htail] at hnodup
          exact recalls_cons.mpr
            ⟨fun hmem => absurd (List.mem_dedup.mpr hmem) hnodup.1, htail⟩
  · intro h
    rw [watch_eq hkeep history h]
    exact history.nodup_dedup

end Memory

end Library
