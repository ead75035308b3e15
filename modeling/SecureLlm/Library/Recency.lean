import SecureLlm.Library.Dict

/-!
# The Order of Last Uses

A dictionary whose values are used, with the uses listed newest first. It is in
order when its values stand in the order of their last uses, the one that was
used longest ago at the head. So a dictionary in order tells without any clock
which value to drop.

Removing a key keeps the order and so does putting the key of a used value last.
Assigning a new value keeps it unless the key has its place before the end.

## Main definitions

* `Earlier`: The order of last uses.
* `Dict.InOrder`: The values stand in it.
* `Dict.Trails`: A key is absent or last.

## Theorems

* `Dict.InOrder.erase`, `Dict.InOrder.moveToEnd`: What keeps the order.
* `Dict.inOrder_set_iff`: When an assignment does.
* `Dict.InOrder.head`: The value at the head was used longest ago.
-/

namespace Library

variable {K V : Type}

namespace Dict

/-- A key does not stand before the end. -/
def Trails (d : Dict K V) (k : K) : Prop := k ∉ d.entries.dropLast.map Prod.fst

variable [DecidableEq K]

instance (d : Dict K V) (k : K) : Decidable (d.Trails k) :=
  inferInstanceAs (Decidable (k ∉ d.entries.dropLast.map Prod.fst))

/-- A removal leaves no place for the key, so what is assigned to it then is last. -/
theorem trails_erase (d : Dict K V) (k : K) : (d.erase k).Trails k := by
  intro hmem
  rcases List.mem_map.mp hmem with ⟨e, he, rfl⟩
  have he' := (List.mem_filter.mp ((List.dropLast_sublist _).subset he)).2
  exact absurd rfl (of_decide_eq_true he')

end Dict

variable [DecidableEq V]

/-- The last use of a value was before that of another. -/
def Earlier (uses : List V) (a b : V) : Prop := uses.idxOf b < uses.idxOf a

theorem Earlier.ne {uses : List V} {a b : V} (h : Earlier uses a b) : a ≠ b := by
  rintro rfl
  exact Nat.lt_irrefl _ h

/-- A use of one value does not change the order of two others. -/
theorem earlier_cons_iff {uses : List V} {a b v : V} (ha : a ≠ v) (hb : b ≠ v) :
    Earlier (v :: uses) a b ↔ Earlier uses a b := by
  rw [Earlier, Earlier, List.idxOf_cons_ne _ ha.symm, List.idxOf_cons_ne _ hb.symm]
  exact Nat.succ_lt_succ_iff

/-- What is used is last. -/
theorem earlier_cons_self {uses : List V} {a v : V} (ha : a ≠ v) : Earlier (v :: uses) a v := by
  rw [Earlier, List.idxOf_cons_self, List.idxOf_cons_ne _ ha.symm]
  exact Nat.succ_pos _

theorem not_earlier_cons_self (uses : List V) (v b : V) : ¬ Earlier (v :: uses) v b := by
  rw [Earlier, List.idxOf_cons_self]
  exact Nat.not_lt_zero _

namespace Dict

/-- The values are in the order of their last uses. -/
structure InOrder (d : Dict K V) (uses : List V) : Prop where
  used : ∀ v ∈ d.values, v ∈ uses
  sorted : d.values.Pairwise (Earlier uses)

theorem inOrder_empty (uses : List V) : (empty : Dict K V).InOrder uses where
  used _ h := absurd h List.not_mem_nil
  sorted := List.Pairwise.nil

/-- The value at the head was used longest ago. -/
theorem InOrder.head {d : Dict K V} {uses : List V} (h : d.InOrder uses) {e : K × V}
    {rest : List (K × V)} (hentries : d.entries = e :: rest) :
    ∀ v ∈ d.values, v ≠ e.2 → Earlier uses e.2 v := by
  have hsorted := h.sorted
  rw [values, hentries, List.map_cons, List.pairwise_cons] at hsorted
  intro v hv hne
  rw [values, hentries, List.map_cons, List.mem_cons] at hv
  exact hsorted.1 v (hv.resolve_left hne)

variable [DecidableEq K] {d : Dict K V} {uses : List V}

theorem InOrder.erase (h : d.InOrder uses) (k : K) : (d.erase k).InOrder uses := by
  have hsub : (d.erase k).values.Sublist d.values := List.filter_sublist.map Prod.snd
  exact ⟨fun v hv => h.used v (hsub.subset hv), h.sorted.sublist hsub⟩

/-- Only what has its place after all others may be assigned a new value. -/
theorem pairwise_setEntries_iff (k : K) (v : V) (es : List (K × V))
    (h : (es.map Prod.snd).Pairwise (Earlier uses)) (hv : v ∉ es.map Prod.snd) :
    ((setEntries k v es).map Prod.snd).Pairwise (Earlier (v :: uses)) ↔
      k ∉ es.dropLast.map Prod.fst := by
  induction es with
  | nil => exact iff_of_true (List.pairwise_singleton _ _) List.not_mem_nil
  | cons e es ih =>
      rw [List.map_cons, List.pairwise_cons] at h
      rw [List.map_cons, List.mem_cons, not_or] at hv
      by_cases hek : e.1 = k
      · rw [setEntries, if_pos hek, List.map_cons, List.pairwise_cons]
        cases es with
        | nil =>
            refine iff_of_true ⟨?_, List.Pairwise.nil⟩ List.not_mem_nil
            exact fun b hb => absurd hb List.not_mem_nil
        | cons e' es =>
            -- The new value stands before one that was used before it.
            refine iff_of_false ?_ ?_
            · rintro ⟨hfirst, -⟩
              exact not_earlier_cons_self uses v e'.2 (hfirst e'.2 List.mem_cons_self)
            · intro hlast
              rw [List.dropLast_cons_cons, List.map_cons, List.mem_cons, not_or] at hlast
              exact hlast.1 hek.symm
      · have hfirst : ∀ b ∈ (setEntries k v es).map Prod.snd, Earlier (v :: uses) e.2 b := by
          intro b hb
          rcases mem_values_setEntries hb with rfl | hb
          · exact earlier_cons_self (Ne.symm hv.1)
          · have hbv : b ≠ v := fun hc => hv.2 (hc ▸ hb)
            exact (earlier_cons_iff (Ne.symm hv.1) hbv).mpr (h.1 b hb)
        rw [setEntries, if_neg hek, List.map_cons, List.pairwise_cons, and_iff_right hfirst,
          ih h.2 hv.2]
        cases es with
        | nil => exact iff_of_true List.not_mem_nil List.not_mem_nil
        | cons e' es =>
            rw [List.dropLast_cons_cons, List.map_cons, List.mem_cons, not_or,
              and_iff_right (Ne.symm hek)]

/-- **Assigning a new value.** It keeps the order exactly when the key does not stand
    before the end. -/
theorem inOrder_set_iff (h : d.InOrder uses) (k : K) {v : V} (hv : v ∉ d.values) :
    (d.set k v).InOrder (v :: uses) ↔ d.Trails k := by
  have hsorted := pairwise_setEntries_iff k v d.entries h.sorted hv
  constructor
  · intro hset
    exact hsorted.mp hset.sorted
  · intro htrails
    refine ⟨?_, hsorted.mpr htrails⟩
    intro b hb
    rcases mem_values_setEntries hb with rfl | hb
    · exact List.mem_cons_self
    · exact List.mem_cons_of_mem v (h.used b hb)

/-- A value is in the table under one key only. -/
theorem InOrder.not_mem_erase (h : d.InOrder uses) {k : K} {v : V} (hk : d.get? k = some v) :
    v ∉ (d.erase k).values := by
  intro hmem
  rcases List.mem_map.mp hmem with ⟨e, he, hev⟩
  rcases List.mem_filter.mp he with ⟨hentry, hne⟩
  have hdistinct : d.entries.Pairwise fun e e' => e.2 ≠ e'.2 :=
    (List.pairwise_map.mp h.sorted).imp fun hlt => hlt.ne
  have hsame := List.inj_on_of_nodup_map (List.pairwise_map.mpr hdistinct) hentry
    ((mem_entries_iff d k v).mpr hk) hev
  exact of_decide_eq_true hne (congrArg Prod.fst hsame)

/-- A use of a value whose key is put last. -/
theorem InOrder.moveToEnd (h : d.InOrder uses) {k : K} {v : V} (hk : d.get? k = some v) :
    (d.moveToEnd k).InOrder (v :: uses) := by
  rw [Dict.moveToEnd, hk]
  exact (inOrder_set_iff (h.erase k) k (h.not_mem_erase hk)).mpr (trails_erase d k)

end Dict

end Library
