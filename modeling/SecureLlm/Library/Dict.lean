import Mathlib.Algebra.GroupWithZero.Nat
import Mathlib.Data.List.Basic
import Mathlib.Data.List.Nodup

/-!
# Insertion-Ordered Dictionaries

A finite map that remembers the order its keys first came in, which is what a
Python `dict` is. Assigning to a key that is present keeps the key's place;
assigning to a new key puts it last; removing a key closes the gap.

The keys are distinct by construction: `Dict` carries the proof, so a lookup
has one answer and removing a key leaves nothing behind to shadow it.

## Main definitions

* `Dict`: An association list with distinct keys.
* `Dict.get?`: The value of a key, if it has one.
* `Dict.set`: Assignment to a key.
* `Dict.erase`: Removal of a key.
* `Dict.moveToEnd`: A key that is present put last.
* `Dict.total`: A sum over the values.

## Theorems

* `Dict.get?_empty`: The empty dictionary has no keys.
* `Dict.get?_set`: A lookup after an assignment.
* `Dict.set_set`: Two assignments to one key.
* `Dict.get?_erase`: A lookup after a removal.
* `Dict.get?_moveToEnd`: A lookup after putting a key last.
* `Dict.length_set_le`, `Dict.length_erase_le`, `Dict.length_moveToEnd_le`: How
  many entries there are.
* `Dict.mem_entries_iff`, `Dict.mem_keys_iff`: An entry is listed exactly when it is
  looked up.
* `Dict.total_set`, `Dict.total_erase`: What an operation does to the sum.
-/

namespace Library

/-- A finite map from keys to values that keeps its keys in the order they
    were first assigned. -/
structure Dict (K V : Type) where
  entries : List (K × V)
  nodup : (entries.map Prod.fst).Nodup

namespace Dict

variable {K V : Type}

/-- The dictionary with no entries. -/
def empty : Dict K V := ⟨[], List.nodup_nil⟩

/-- The values, in the order of their keys. -/
def values (d : Dict K V) : List V := d.entries.map Prod.snd

/-- The sum of a measure over the values. -/
def total (f : V → ℕ) (d : Dict K V) : ℕ := (d.values.map f).sum

variable [DecidableEq K]

/-- The value of a key, if it has one. -/
def get? (d : Dict K V) (k : K) : Option V := d.entries.lookup k

/-- Replace the value of a key that is present, or put the key last. -/
def setEntries (k : K) (v : V) : List (K × V) → List (K × V)
  | [] => [(k, v)]
  | e :: es => if e.1 = k then (k, v) :: es else e :: setEntries k v es

theorem mem_keys_setEntries (k : K) (v : V) (es : List (K × V)) (x : K) :
    x ∈ (setEntries k v es).map Prod.fst ↔ x = k ∨ x ∈ es.map Prod.fst := by
  induction es with
  | nil => simp only [setEntries, List.map_cons, List.map_nil, List.mem_cons]
  | cons e es ih =>
      by_cases hek : e.1 = k
      · rw [setEntries, if_pos hek, List.map_cons, List.mem_cons, List.map_cons, List.mem_cons, hek]
        tauto
      · simp only [setEntries, if_neg hek, List.map_cons, List.mem_cons, ih]
        tauto

theorem mem_values_setEntries {k : K} {v b : V} {es : List (K × V)}
    (h : b ∈ (setEntries k v es).map Prod.snd) : b = v ∨ b ∈ es.map Prod.snd := by
  induction es with
  | nil => exact Or.inl (List.mem_singleton.mp h)
  | cons e es ih =>
      by_cases hek : e.1 = k
      · rw [setEntries, if_pos hek, List.map_cons, List.mem_cons] at h
        exact h.imp id (List.mem_cons_of_mem _)
      · rw [setEntries, if_neg hek, List.map_cons, List.mem_cons] at h
        rcases h with rfl | h
        · exact Or.inr List.mem_cons_self
        · exact (ih h).imp id (List.mem_cons_of_mem _)

theorem nodup_setEntries (k : K) (v : V) (es : List (K × V)) (h : (es.map Prod.fst).Nodup) :
    ((setEntries k v es).map Prod.fst).Nodup := by
  induction es with
  | nil => simp only [setEntries, List.map_cons, List.map_nil, List.nodup_cons,
      List.not_mem_nil, not_false_eq_true, List.nodup_nil, and_self]
  | cons e es ih =>
      rw [List.map_cons, List.nodup_cons] at h
      by_cases hek : e.1 = k
      · rw [setEntries, if_pos hek, List.map_cons, List.nodup_cons]
        exact ⟨by rw [← hek]; exact h.1, h.2⟩
      · rw [setEntries, if_neg hek, List.map_cons, List.nodup_cons, mem_keys_setEntries]
        exact ⟨fun hc => hc.elim hek h.1, ih h.2⟩

/-- Assignment: a key that is present keeps its place, a new key goes last. -/
def set (d : Dict K V) (k : K) (v : V) : Dict K V :=
  ⟨setEntries k v d.entries, nodup_setEntries k v d.entries d.nodup⟩

/-- Removal of a key, which does nothing when the key is absent. -/
def erase (d : Dict K V) (k : K) : Dict K V :=
  ⟨d.entries.filter (fun e => e.1 ≠ k), d.nodup.sublist (List.filter_sublist.map Prod.fst)⟩

@[simp] theorem get?_empty (k : K) : (empty : Dict K V).get? k = none := rfl

theorem lookup_setEntries (k : K) (v : V) (es : List (K × V)) (x : K) :
    (setEntries k v es).lookup x = if x = k then some v else es.lookup x := by
  induction es with
  | nil =>
      by_cases hx : x = k
      · simp only [setEntries, List.lookup_cons, hx, beq_self_eq_true, if_true]
      · simp only [setEntries, List.lookup_cons, List.lookup_nil, beq_eq_false_iff_ne.mpr hx,
          if_neg hx]
  | cons e es ih =>
      obtain ⟨a, b⟩ := e
      by_cases hak : a = k
      · subst hak
        by_cases hx : x = a
        · simp only [setEntries, List.lookup_cons, hx, beq_self_eq_true, if_true]
        · simp only [setEntries, List.lookup_cons, beq_eq_false_iff_ne.mpr hx, if_neg hx, if_true]
      · simp only [setEntries, if_neg hak, List.lookup_cons, ih]
        by_cases hx : x = a
        · -- The key looked up stands before the one assigned, so it is another key.
          simp only [hx, beq_self_eq_true, if_neg hak]
        · simp only [beq_eq_false_iff_ne.mpr hx]

@[simp] theorem get?_set (d : Dict K V) (k x : K) (v : V) :
    (d.set k v).get? x = if x = k then some v else d.get? x :=
  lookup_setEntries k v d.entries x

/-- The last of two assignments to a key counts. -/
@[simp] theorem set_set (d : Dict K V) (k : K) (v w : V) : (d.set k v).set k w = d.set k w := by
  have hentries : ∀ es : List (K × V),
      setEntries k w (setEntries k v es) = setEntries k w es := by
    intro es
    induction es with
    | nil => simp [setEntries]
    | cons e es ih =>
        by_cases hek : e.1 = k
        · simp [setEntries, hek]
        · simp [setEntries, hek, ih]
  unfold set
  simp only [hentries]

theorem lookup_filter_ne (es : List (K × V)) (k x : K) :
    (es.filter (fun e => e.1 ≠ k)).lookup x = if x = k then none else es.lookup x := by
  induction es with
  | nil => simp only [List.filter_nil, List.lookup_nil, ite_self]
  | cons e es ih =>
      obtain ⟨a, b⟩ := e
      by_cases hak : a = k
      · rw [List.filter_cons_of_neg (by simp only [hak, ne_eq, not_true_eq_false, decide_false,
          Bool.false_eq_true, not_false_eq_true]), ih, List.lookup_cons]
        by_cases hx : x = k
        · rw [if_pos hx, if_pos hx]
        · rw [if_neg hx, if_neg hx, hak, beq_eq_false_iff_ne.mpr hx]
      · rw [List.filter_cons_of_pos (by simp only [ne_eq, hak, not_false_eq_true, decide_true]),
          List.lookup_cons, List.lookup_cons, ih]
        by_cases hx : x = a
        · simp only [hx, beq_self_eq_true, if_neg hak]
        · simp only [beq_eq_false_iff_ne.mpr hx]

@[simp] theorem get?_erase (d : Dict K V) (k x : K) :
    (d.erase k).get? x = if x = k then none else d.get? x :=
  lookup_filter_ne d.entries k x

theorem mem_entries_iff (d : Dict K V) (k : K) (v : V) :
    (k, v) ∈ d.entries ↔ d.get? k = some v := by
  obtain ⟨es, hnd⟩ := d
  simp only [get?]
  induction es with
  | nil => simp only [List.not_mem_nil, List.lookup_nil, reduceCtorEq]
  | cons e es ih =>
      obtain ⟨a, b⟩ := e
      rw [List.map_cons, List.nodup_cons] at hnd
      rw [List.mem_cons, List.lookup_cons]
      by_cases hka : k = a
      · subst hka
        -- The rest lists no second entry for the head's key.
        have hrest : (k, v) ∉ es := fun hc => hnd.1 (List.mem_map.mpr ⟨_, hc, rfl⟩)
        simp only [Prod.mk.injEq, true_and, hrest, or_false, beq_self_eq_true, Option.some.injEq]
        exact eq_comm
      · simp only [Prod.mk.injEq, hka, false_and, false_or, beq_eq_false_iff_ne.mpr hka]
        exact ih hnd.2

theorem mem_keys_iff (d : Dict K V) (k : K) :
    k ∈ d.entries.map Prod.fst ↔ (d.get? k).isSome = true := by
  rw [List.mem_map, Option.isSome_iff_exists]
  constructor
  · intro h
    rcases h with ⟨e, he, hk⟩
    rw [← hk]
    exact ⟨e.2, (d.mem_entries_iff e.1 e.2).mp he⟩
  · intro h
    rcases h with ⟨v, hv⟩
    exact ⟨(k, v), (d.mem_entries_iff k v).mpr hv, rfl⟩

/-- Put a key that is present last. -/
def moveToEnd (d : Dict K V) (k : K) : Dict K V :=
  match d.get? k with
  | none => d
  | some v => (d.erase k).set k v

@[simp] theorem get?_moveToEnd (d : Dict K V) (k x : K) : (d.moveToEnd k).get? x = d.get? x := by
  unfold moveToEnd
  cases hk : d.get? k with
  | none => rfl
  | some v =>
      rw [get?_set, get?_erase]
      by_cases hx : x = k
      · rw [if_pos hx, hx, hk]
      · rw [if_neg hx, if_neg hx]

theorem length_setEntries_le (k : K) (v : V) (es : List (K × V)) :
    (setEntries k v es).length ≤ es.length + 1 := by
  induction es with
  | nil => exact Nat.le_refl _
  | cons e es ih =>
      by_cases hek : e.1 = k
      · rw [setEntries, if_pos hek, List.length_cons, List.length_cons]
        exact Nat.le_succ _
      · rw [setEntries, if_neg hek, List.length_cons, List.length_cons]
        exact Nat.succ_le_succ ih

theorem length_set_le (d : Dict K V) (k : K) (v : V) :
    (d.set k v).entries.length ≤ d.entries.length + 1 := length_setEntries_le k v d.entries

theorem length_erase_le (d : Dict K V) (k : K) : (d.erase k).entries.length ≤ d.entries.length :=
  List.length_filter_le _ _

theorem length_moveToEnd_le (d : Dict K V) (k : K) :
    (d.moveToEnd k).entries.length ≤ d.entries.length := by
  unfold moveToEnd
  cases hk : d.get? k with
  | none => exact Nat.le_refl _
  | some v =>
      have hmem : (k, v) ∈ d.entries := (mem_entries_iff d k v).mpr hk
      -- The entry that is removed makes room for the one that is added.
      have hlt : (d.erase k).entries.length < d.entries.length :=
        List.length_filter_lt_length_iff_exists.mpr ⟨(k, v), hmem, by simp⟩
      exact Nat.le_trans (length_set_le _ _ _) hlt

theorem sum_setEntries (f : V → ℕ) (k : K) (v : V) (es : List (K × V)) :
    (((setEntries k v es).map Prod.snd).map f).sum + (es.lookup k).elim 0 f
      = ((es.map Prod.snd).map f).sum + f v := by
  induction es with
  | nil => simp only [setEntries, List.map_cons, List.map_nil, List.sum_cons, List.sum_nil,
      List.lookup_nil, Option.elim_none, Nat.add_zero, Nat.zero_add]
  | cons e es ih =>
      obtain ⟨a, b⟩ := e
      by_cases hak : a = k
      · subst hak
        simp only [setEntries, if_true, List.map_cons, List.sum_cons, List.lookup_cons,
          beq_self_eq_true, Option.elim_some]
        omega
      · have hka : (k == a) = false := beq_eq_false_iff_ne.mpr (Ne.symm hak)
        simp only [setEntries, if_neg hak, List.map_cons, List.sum_cons, List.lookup_cons, hka]
        omega

/-- The value that is assigned comes in, the one that was there goes out. -/
theorem total_set (f : V → ℕ) (d : Dict K V) (k : K) (v : V) :
    (d.set k v).total f + (d.get? k).elim 0 f = d.total f + f v :=
  sum_setEntries f k v d.entries

theorem total_erase (f : V → ℕ) (d : Dict K V) (k : K) :
    (d.erase k).total f + (d.get? k).elim 0 f = d.total f := by
  obtain ⟨es, hnd⟩ := d
  simp only [total, values, erase, get?]
  induction es with
  | nil => rfl
  | cons e es ih =>
      obtain ⟨a, b⟩ := e
      rw [List.map_cons, List.nodup_cons] at hnd
      have hrest := ih hnd.2
      by_cases hak : a = k
      · subst hak
        -- The key stands nowhere in the rest, from which nothing goes.
        have hnone : es.lookup a = none := by
          rw [List.lookup_eq_none_iff]
          intro e he
          have hne : a ≠ e.1 := fun h => hnd.1 (List.mem_map.mpr ⟨e, he, h.symm⟩)
          exact bne_iff_ne.mpr hne
        rw [hnone, Option.elim_none] at hrest
        rw [List.filter_cons_of_neg (by simp only [ne_eq, not_true_eq_false, decide_false,
          Bool.false_eq_true, not_false_eq_true]), List.lookup_cons, beq_self_eq_true,
          List.map_cons, List.map_cons, List.sum_cons]
        dsimp only [Option.elim_some]
        omega
      · have hka : (k == a) = false := beq_eq_false_iff_ne.mpr (Ne.symm hak)
        rw [List.filter_cons_of_pos (by simp only [ne_eq, hak, not_false_eq_true, decide_true]),
          List.lookup_cons, hka, List.map_cons, List.map_cons, List.sum_cons, List.map_cons,
          List.map_cons, List.sum_cons]
        dsimp only
        omega

end Dict

end Library
