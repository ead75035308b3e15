import Mathlib.Data.List.DropRight
import Mathlib.Data.Rat.Defs
import SecureLlm.Library.Dict
import SecureLlm.Library.Isolation

/-!
# The Ring Log

A bounded buffer of log entries. `tail` walks it from the newest entry back. It
stops at the first entry that is older than the time it was given and at the
limit, and skips what its other filters do not let through.

So what it returns are the last entries that pass, of those after the last one
that is too old. An entry that is too old ends the walk whatever its other
fields are.

Times are exact here where the code has floats. A cutoff that is not a number
cuts nothing off, like none.

## Main definitions

* `LogEntry`, `RingLog`: An entry, and the buffer.
* `LogFilter`: The arguments of `tail`.
* `RingLog.tail`: The last entries that pass.
* `LogFilter.recent`, `LogFilter.admits`: What the walk reaches and lets through.

## Theorems

* `RingLog.tail_eq`: What `tail` returns.
* `RingLog.mem_tail`: What it returns passes.
* `LogFilter.shows_own`, `LogFilter.shows_eq_nil_of_own`: When the entries of one
  owner decide what is shown.
-/

namespace SecureLlm

open Library

/-- The value of a field: a string, or something else by its JSON. -/
inductive Value where
  | text (s : String)
  | other (json : String)
  deriving DecidableEq

structure LogEntry where
  ts : ℚ
  level : String
  component : String
  event : String
  fields : Dict String Value

/-- The buffer, oldest first. -/
structure RingLog (maxSize : ℕ) where
  buf : List LogEntry
  length_le : buf.length ≤ maxSize

/-- The arguments of `tail`. -/
structure LogFilter where
  limit : ℕ := 200
  level : Option String := none
  component : Option String := none
  since : Option ℚ := none
  clientFingerprint : Option String := none

/-- A string that is there and not empty. -/
def given (arg : Option String) : Option String := arg.filter (· ≠ "")

section

variable (lower : String → String)

namespace LogFilter

variable (f : LogFilter)

/-- `entry.ts < since`. -/
def older (entry : LogEntry) : Bool := f.since.any (entry.ts < ·)

def otherLevel (entry : LogEntry) : Bool :=
  (given f.level).any fun level => entry.level ≠ lower level

def otherComponent (entry : LogEntry) : Bool :=
  (given f.component).any fun component => !component.toList.isPrefixOf entry.component.toList

def otherClient (entry : LogEntry) : Bool :=
  (given f.clientFingerprint).any fun fp => entry.fields.get? "client_fp" ≠ some (.text fp)

end LogFilter

namespace RingLog

variable (f : LogFilter)

/-- The loop of `tail`, over the buffer reversed. -/
def walk : List LogEntry → List LogEntry → List LogEntry
  | [], out => out
  | entry :: rest, out =>
    if f.older entry then out
    else if f.otherLevel lower entry then walk rest out
    else if f.otherComponent entry then walk rest out
    else if f.otherClient entry then walk rest out
    else if f.limit ≤ (out ++ [entry]).length then out ++ [entry]
    else walk rest (out ++ [entry])

def tail {maxSize : ℕ} (ring : RingLog maxSize) : List LogEntry :=
  (walk lower f ring.buf.reverse []).reverse

end RingLog

namespace LogFilter

variable (f : LogFilter)

/-- The entries after the last one that is too old. -/
def recent (entries : List LogEntry) : List LogEntry := entries.rtakeWhile (fun e => !f.older e)

/-- Do the filters other than the time let an entry through? -/
def admits (entry : LogEntry) : Bool :=
  !f.otherLevel lower entry && !f.otherComponent entry && !f.otherClient entry

/-- What is shown of a list of entries. -/
def shows (entries : List LogEntry) : List LogEntry :=
  ((f.recent entries).filter (f.admits lower)).rtake (max 1 f.limit)

end LogFilter

namespace RingLog

variable {lower} {f : LogFilter}

/-- What the walk adds to what it has. -/
theorem walk_eq (entries out : List LogEntry) (hroom : out.length < max 1 f.limit) :
    walk lower f entries out = out ++
      ((entries.takeWhile (fun e => !f.older e)).filter (f.admits lower)).take
        (max 1 f.limit - out.length) := by
  induction entries generalizing out with
  | nil => simp only [walk, List.takeWhile_nil, List.filter_nil, List.take_nil, List.append_nil]
  | cons entry rest ih =>
      rw [walk]
      by_cases hold : f.older entry
      · rw [if_pos hold, List.takeWhile_cons_of_neg (by simp [hold]), List.filter_nil,
          List.take_nil, List.append_nil]
      · rw [if_neg hold, List.takeWhile_cons_of_pos (by simp [hold])]
        by_cases hadmits : f.admits lower entry
        · have hpass := hadmits
          simp only [LogFilter.admits, Bool.and_eq_true, Bool.not_eq_true'] at hpass
          rw [List.filter_cons_of_pos hadmits]
          simp only [hpass.1.1, hpass.1.2, hpass.2, Bool.false_eq_true, if_false]
          obtain ⟨n, hn⟩ : ∃ n, max 1 f.limit - out.length = n + 1 :=
            Nat.exists_eq_succ_of_ne_zero (by omega)
          rw [hn, List.take_succ_cons, List.length_append, List.length_singleton]
          by_cases hfull : f.limit ≤ out.length + 1
          · -- This one is the last, so nothing is taken of the rest.
            have hzero : n = 0 := by omega
            rw [if_pos hfull, hzero, List.take_zero]
          · rw [if_neg hfull, ih _ (by rw [List.length_append, List.length_singleton]; omega),
              List.append_assoc, List.singleton_append, List.length_append, List.length_singleton]
            rw [show max 1 f.limit - (out.length + 1) = n by omega]
        · rw [List.filter_cons_of_neg hadmits]
          have hskip : walk lower f rest out = out ++
              ((rest.takeWhile (fun e => !f.older e)).filter (f.admits lower)).take
                (max 1 f.limit - out.length) := ih out hroom
          rw [← hskip]
          cases hlevel : f.otherLevel lower entry with
          | true => rw [if_pos rfl]
          | false =>
              cases hcomponent : f.otherComponent entry with
              | true => simp
              | false =>
                  cases hclient : f.otherClient entry with
                  | true => simp
                  | false => exact absurd (by simp [LogFilter.admits, *]) hadmits

/-- **What `tail` returns.** -/
theorem tail_eq {maxSize : ℕ} (ring : RingLog maxSize) :
    ring.tail lower f = f.shows lower ring.buf := by
  unfold tail LogFilter.shows LogFilter.recent List.rtakeWhile
  have hroom : ([] : List LogEntry).length < max 1 f.limit := Nat.lt_of_lt_of_le Nat.one_pos
    (Nat.le_max_left 1 f.limit)
  rw [walk_eq _ _ hroom, List.nil_append, List.length_nil, Nat.sub_zero,
    List.rtake_eq_reverse_take_reverse, ← List.filter_reverse, List.reverse_reverse]

theorem mem_shows {entries : List LogEntry} {e : LogEntry} (h : e ∈ f.shows lower entries) :
    e ∈ entries ∧ f.admits lower e := by
  unfold LogFilter.shows LogFilter.recent at h
  have hmem := List.mem_of_mem_drop h
  have hsuffix := List.rtakeWhile_suffix (fun e => !f.older e) entries
  exact ⟨hsuffix.subset (List.mem_of_mem_filter hmem), (List.mem_filter.mp hmem).2⟩

/-- What `tail` returns passes the filters. -/
theorem mem_tail {maxSize : ℕ} {ring : RingLog maxSize} {e : LogEntry}
    (h : e ∈ ring.tail lower f) : e ∈ ring.buf ∧ f.admits lower e := by
  rw [tail_eq] at h
  exact mem_shows h

/-- Without filters `tail` returns the last entries. -/
theorem tail_limit {maxSize : ℕ} (ring : RingLog maxSize) (limit : ℕ) :
    ring.tail lower { limit } = ring.buf.rtake (max 1 limit) := by
  rw [tail_eq]
  unfold LogFilter.shows LogFilter.recent
  have hall : ring.buf.rtakeWhile (fun e => !({ limit } : LogFilter).older e) = ring.buf :=
    List.rtakeWhile_eq_self_iff.mpr fun _ _ => rfl
  have hpass : ring.buf.filter (({ limit } : LogFilter).admits lower) = ring.buf :=
    List.filter_eq_self.mpr fun _ _ => rfl
  rw [hall, hpass]

end RingLog

/-! ## Entries of one owner -/

namespace LogFilter

variable {lower} {f : LogFilter}

/-- Nothing is shown only if nothing passes. -/
theorem shows_eq_nil_iff {entries : List LogEntry} :
    f.shows lower entries = [] ↔ (f.recent entries).filter (f.admits lower) = [] := by
  unfold shows List.rtake
  rw [List.drop_eq_nil_iff, ← List.length_eq_zero_iff]
  omega

/-- An entry that passes and is the newest is the last that is shown. -/
theorem getLast?_shows {entries : List LogEntry} {e : LogEntry} (hnew : f.older e = false)
    (hpass : f.admits lower e) : (f.shows lower (entries ++ [e])).getLast? = some e := by
  have hrecent : f.recent (entries ++ [e]) = f.recent entries ++ [e] :=
    List.rtakeWhile_concat_pos _ _ _ (by simp [hnew])
  unfold shows List.rtake
  rw [hrecent, List.filter_append, List.filter_singleton, hpass, Bool.cond_true, List.getLast?_drop,
    if_neg, List.getLast?_concat]
  rw [List.length_append, List.length_singleton]
  omega

/-- Under an entry that is too old nothing is shown. -/
theorem shows_older {entries : List LogEntry} {e : LogEntry} (hold : f.older e) :
    f.shows lower (entries ++ [e]) = [] := by
  have hrecent : f.recent (entries ++ [e]) = [] :=
    List.rtakeWhile_concat_neg _ _ _ (by simp [hold])
  rw [shows_eq_nil_iff, hrecent, List.filter_nil]

variable {own : LogEntry → Bool} (hown : ∀ e, f.admits lower e → own e)

include hown

/-- Among the entries of an owner of all that pass, what passes is the same. -/
theorem filter_admits_own (entries : List LogEntry) :
    entries.filter (f.admits lower) = (entries.filter own).filter (f.admits lower) := by
  rw [List.filter_filter]
  refine List.filter_congr fun e _ => ?_
  cases hpass : f.admits lower e with
  | false => rfl
  | true => rw [hown e hpass, Bool.and_self]

/-- Without a cutoff what is shown depends on the owner's entries alone. -/
theorem shows_own (hsince : f.since = none) (entries : List LogEntry) :
    f.shows lower entries = f.shows lower (entries.filter own) := by
  have hall : ∀ l : List LogEntry, f.recent l = l := by
    intro l
    refine List.rtakeWhile_eq_self_iff.mpr fun e _ => ?_
    rw [older, hsince, Option.any_none, Bool.not_false]
  unfold shows
  rw [hall, hall, filter_admits_own hown]

/-- If nothing is shown of the owner's entries alone, nothing is shown. -/
theorem shows_eq_nil_of_own {entries : List LogEntry}
    (h : f.shows lower (entries.filter own) = []) : f.shows lower entries = [] := by
  rw [shows_eq_nil_iff] at h ⊢
  have hsuffix := suffix_filter_rtakeWhile (fun e => !f.older e) own entries
  rw [filter_admits_own hown]
  refine List.filter_eq_nil_iff.mpr fun e he => ?_
  exact List.filter_eq_nil_iff.mp h e (hsuffix.subset he)

end LogFilter

end

end SecureLlm
