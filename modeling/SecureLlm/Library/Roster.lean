import Mathlib.Data.List.Perm.Subperm
import SecureLlm.Library.Dict

/-!
# Objects Filed Under Keys

Objects are made one after the other, each under a key of its own, and end. A
table files some of them under keys. The table accounts for the objects when
those it files are the ones that are alive, each under its own key.

An object is filed by plain assignment, so one that is there already goes out of
the table unseen; and an object that ends is removed by its key, so it takes
along whatever is filed there by then. In either case an object is left astray:
alive, and not filed. `accounted_enter_iff` and `accounted_retire_iff` say
exactly when this does not happen.

## Main definitions

* `Roster`: Objects and the table that files them.
* `Roster.enter`: A new object, filed under its key.
* `Roster.retire`: An object ends, and a key is removed.
* `Roster.Has`: An object with its key and number.
* `Roster.Keyed`: What is filed has the key it is filed under.
* `Roster.Accounted`: The table files what is alive.
* `Roster.Astray`: Alive, and not filed.
* `Roster.alive`: The objects that are alive.

## Theorems

* `getElem?_concat_cases`: A list with one more entry.
* `Roster.accounted_enter_iff`: Filing keeps the account when the key is free.
* `Roster.accounted_retire_iff`: Ending an object does when no other is filed
  under its key.
* `Roster.Astray.enter`: What is astray stays so.
* `Roster.length_alive_le`: No more is alive than is filed.
-/

namespace Library

/-- What a list with one more entry has at a place. -/
theorem getElem?_concat_cases {α : Type} {l : List α} {a x : α} {i : ℕ}
    (h : (l ++ [a])[i]? = some x) : l[i]? = some x ∨ i = l.length ∧ x = a := by
  by_cases hi : i < l.length
  · rw [List.getElem?_append_left hi] at h
    exact Or.inl h
  · have hlt : i < (l ++ [a]).length := (List.getElem?_eq_some_iff.mp h).1
    rw [List.length_append, List.length_singleton] at hlt
    have heq : i = l.length := by omega
    rw [heq, List.getElem?_concat_length] at h
    exact Or.inr ⟨heq, (Option.some.inj h).symm⟩

/-- Objects, by number, with their keys and whether they are alive, and a table
    that files some of them. -/
structure Roster (K : Type) where
  objects : List (K × Bool)
  table : Dict K ℕ

namespace Roster

variable {K : Type} [DecidableEq K]

/-- A new object is filed under its key. -/
def enter (r : Roster K) (k : K) : Roster K :=
  ⟨r.objects ++ [(k, true)], r.table.set k r.objects.length⟩

/-- An object ends, and a key is removed from the table. -/
def retire (r : Roster K) (k : K) (i : ℕ) : Roster K :=
  ⟨r.objects.modify i (fun o => (o.1, false)), r.table.erase k⟩

/-- There is an object with this key and this number. -/
def Has (r : Roster K) (k : K) (i : ℕ) : Prop := ∃ a, r.objects[i]? = some (k, a)

/-- What is filed has the key it is filed under. -/
def Keyed (r : Roster K) : Prop := ∀ k i, r.table.get? k = some i → r.Has k i

/-- What is filed is alive and what is alive is filed, under its own key. -/
structure Accounted (r : Roster K) : Prop where
  filed : ∀ k i, r.table.get? k = some i → r.objects[i]? = some (k, true)
  alive : ∀ k i, r.objects[i]? = some (k, true) → r.table.get? k = some i

/-- An object is alive and not filed under its key. -/
def Astray (r : Roster K) (k : K) (i : ℕ) : Prop :=
  r.objects[i]? = some (k, true) ∧ r.table.get? k ≠ some i

/-- The objects that are alive. -/
def alive (r : Roster K) : List (K × Bool) := r.objects.filter Prod.snd

variable {r : Roster K}

theorem Astray.not_accounted {k : K} {i : ℕ} (h : r.Astray k i) : ¬ r.Accounted :=
  fun hr => h.2 (hr.alive k i h.1)

theorem Accounted.keyed (h : r.Accounted) : r.Keyed := fun k i hk => ⟨true, h.filed k i hk⟩

/-- Only lookups count. -/
theorem Accounted.congr {d : Dict K ℕ} (hd : ∀ k, d.get? k = r.table.get? k)
    (h : r.Accounted) : (⟨r.objects, d⟩ : Roster K).Accounted where
  filed k i hk := h.filed k i ((hd k).symm.trans hk)
  alive k i hi := (hd k).trans (h.alive k i hi)

theorem Keyed.lt_length (h : r.Keyed) {k : K} {i : ℕ} (hk : r.table.get? k = some i) :
    i < r.objects.length := by
  rcases h k i hk with ⟨a, ha⟩
  exact (List.getElem?_eq_some_iff.mp ha).1

theorem getElem?_enter_of_lt (k : K) {i : ℕ} (hi : i < r.objects.length) :
    (r.enter k).objects[i]? = r.objects[i]? := List.getElem?_append_left hi

@[simp] theorem getElem?_enter_length (k : K) :
    (r.enter k).objects[r.objects.length]? = some (k, true) := List.getElem?_concat_length

theorem Has.enter {x : K} {i : ℕ} (h : r.Has x i) (k : K) : (r.enter k).Has x i := by
  rcases h with ⟨a, ha⟩
  exact ⟨a, (getElem?_enter_of_lt k (List.getElem?_eq_some_iff.mp ha).1).trans ha⟩

theorem Has.retire {x : K} {j : ℕ} (h : r.Has x j) (k : K) (i : ℕ) : (r.retire k i).Has x j := by
  rcases h with ⟨a, ha⟩
  refine ⟨if i = j then false else a, ?_⟩
  simp only [Roster.retire, List.getElem?_modify, ha, Option.map_eq_map, Option.map_some]
  split <;> rfl

theorem Keyed.enter (h : r.Keyed) (k : K) : (r.enter k).Keyed := by
  intro x i hx
  have hset : (r.enter k).table.get? x = if x = k then some r.objects.length
      else r.table.get? x := Dict.get?_set _ _ _ _
  rw [hset] at hx
  by_cases hxk : x = k
  · rw [if_pos hxk] at hx
    rw [← Option.some.inj hx, hxk]
    exact ⟨true, getElem?_enter_length k⟩
  · rw [if_neg hxk] at hx
    exact (h x i hx).enter k

theorem Keyed.retire (h : r.Keyed) (k : K) (i : ℕ) : (r.retire k i).Keyed := by
  intro x j hx
  have herase : (r.retire k i).table.get? x = if x = k then none else r.table.get? x :=
    Dict.get?_erase _ _ _
  rw [herase] at hx
  by_cases hxk : x = k
  · rw [if_pos hxk] at hx
    exact absurd hx nofun
  · rw [if_neg hxk] at hx
    exact (h x j hx).retire k i

/-- **Filing an object.** The account is kept exactly when the key is free. -/
theorem accounted_enter_iff (h : r.Accounted) (k : K) :
    (r.enter k).Accounted ↔ r.table.get? k = none := by
  constructor
  · intro hr
    by_contra hk
    rcases Option.ne_none_iff_exists'.mp hk with ⟨i, hi⟩
    -- The object that was there is alive, and the key is now another's.
    have hlt : i < r.objects.length := h.keyed.lt_length hi
    have halive := hr.alive k i ((getElem?_enter_of_lt k hlt).trans (h.filed k i hi))
    have hnew : (r.enter k).table.get? k = some r.objects.length := by
      rw [Roster.enter, Dict.get?_set, if_pos rfl]
    rw [hnew] at halive
    have heq : r.objects.length = i := Option.some.inj halive
    omega
  · intro hfree
    have hset : ∀ x, (r.enter k).table.get? x = if x = k then some r.objects.length
        else r.table.get? x := fun x => Dict.get?_set _ _ _ _
    constructor
    · intro x i hx
      rw [hset] at hx
      by_cases hxk : x = k
      · rw [if_pos hxk] at hx
        rw [← Option.some.inj hx, hxk, getElem?_enter_length]
      · rw [if_neg hxk] at hx
        rw [getElem?_enter_of_lt k (h.keyed.lt_length hx)]
        exact h.filed x i hx
    · intro x i hx
      rw [hset]
      rcases getElem?_concat_cases hx with hold | ⟨hi, hnew⟩
      · have hfiled : r.table.get? x = some i := h.alive x i hold
        have hxk : x ≠ k := by
          rintro rfl
          rw [hfree] at hfiled
          exact absurd hfiled nofun
        rw [if_neg hxk, hfiled]
      · have hxk : x = k := (Prod.mk.inj hnew).1
        rw [if_pos hxk, hi]

/-- **Ending an object.** The account is kept exactly when no other object is
    filed under its key. -/
theorem accounted_retire_iff (h : r.Accounted) {k : K} {i : ℕ} (hi : r.Has k i) :
    (r.retire k i).Accounted ↔ ∀ j, r.table.get? k = some j → j = i := by
  rcases hi with ⟨a, hi⟩
  have herase : ∀ x, (r.retire k i).table.get? x = if x = k then none else r.table.get? x :=
    fun x => Dict.get?_erase _ _ _
  have hobject : ∀ j, (r.retire k i).objects[j]? =
      if i = j then some (k, false) else r.objects[j]? := by
    intro j
    simp only [Roster.retire, List.getElem?_modify, Option.map_eq_map]
    by_cases hij : i = j
    · rw [if_pos hij, ← hij, hi]
      simp
    · rw [if_neg hij]
      simp [hij]
  -- The table lists nothing for the key any more, so no object may be alive under it.
  constructor
  · intro hr j hj
    by_contra hne
    have halive := hr.alive k j (by rw [hobject, if_neg (Ne.symm hne)]; exact h.filed k j hj)
    rw [herase, if_pos rfl] at halive
    exact absurd halive nofun
  · intro honly
    constructor
    · intro x j hx
      rw [herase] at hx
      by_cases hxk : x = k
      · rw [if_pos hxk] at hx
        exact absurd hx nofun
      · rw [if_neg hxk] at hx
        have hfiled : r.objects[j]? = some (x, true) := h.filed x j hx
        have hij : i ≠ j := by
          rintro rfl
          rw [hi] at hfiled
          exact hxk (Prod.mk.inj (Option.some.inj hfiled)).1.symm
        rw [hobject, if_neg hij, hfiled]
    · intro x j hx
      rw [hobject] at hx
      by_cases hij : i = j
      · rw [if_pos hij] at hx
        exact absurd hx nofun
      · rw [if_neg hij] at hx
        have hfiled : r.table.get? x = some j := h.alive x j hx
        have hxk : x ≠ k := by
          rintro rfl
          exact hij (honly j hfiled).symm
        rw [herase, if_neg hxk, hfiled]

/-- An object that another's end has taken out of the table. -/
theorem astray_retire (h : r.Accounted) {k : K} {i j : ℕ} (hj : r.table.get? k = some j)
    (hij : j ≠ i) : (r.retire k i).Astray k j := by
  constructor
  · simp only [Roster.retire, List.getElem?_modify, Option.map_eq_map, h.filed k j hj]
    simp [Ne.symm hij]
  · intro hc
    rw [Roster.retire, Dict.get?_erase, if_pos rfl] at hc
    exact absurd hc nofun

/-- What is astray stays so while others come. -/
theorem Astray.enter {k : K} {i : ℕ} (h : r.Astray k i) (x : K) : (r.enter x).Astray k i := by
  have hlt : i < r.objects.length := (List.getElem?_eq_some_iff.mp h.1).1
  constructor
  · rw [getElem?_enter_of_lt x hlt]
    exact h.1
  · intro hc
    rw [Roster.enter, Dict.get?_set] at hc
    by_cases hkx : k = x
    · rw [if_pos hkx] at hc
      have heq : r.objects.length = i := Option.some.inj hc
      omega
    · rw [if_neg hkx] at hc
      exact h.2 hc

/-- Two objects that are alive have different keys, and the keys are filed. -/
theorem length_alive_le (h : r.Accounted) : r.alive.length ≤ r.table.entries.length := by
  have hnodup : (r.alive.map Prod.fst).Nodup := by
    rw [List.Nodup, List.pairwise_map, alive, List.pairwise_filter,
      List.pairwise_iff_getElem]
    intro i j hi hj hij halivei halivej hkey
    have hati : r.objects[i]? = some (r.objects[i].1, true) := by
      rw [List.getElem?_eq_getElem hi, ← halivei]
    have hatj : r.objects[j]? = some (r.objects[i].1, true) := by
      rw [List.getElem?_eq_getElem hj, hkey, ← halivej]
    have hsame := (h.alive _ i hati).symm.trans (h.alive _ j hatj)
    have heq : i = j := Option.some.inj hsame
    omega
  have hsub : r.alive.map Prod.fst ⊆ r.table.entries.map Prod.fst := by
    intro k hk
    rcases List.mem_map.mp hk with ⟨⟨x, a⟩, hmem, rfl⟩
    rcases List.mem_filter.mp hmem with ⟨hobj, ha⟩
    rcases List.mem_iff_getElem?.mp hobj with ⟨i, hi⟩
    have halive : a = true := ha
    rw [halive] at hi
    exact List.mem_map.mpr ⟨(x, i), (Dict.mem_entries_iff _ _ _).mpr (h.alive x i hi), rfl⟩
  have hle := (hnodup.subperm hsub).length_le
  rwa [List.length_map, List.length_map] at hle

end Roster

end Library
