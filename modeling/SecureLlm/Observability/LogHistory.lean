import Mathlib.Algebra.Order.Ring.Unbundled.Rat
import SecureLlm.Library.Scan
import SecureLlm.Observability.RingLog

/-!
# The Ring Log Over Its History

What `tail` is for: the last entries, of those still in the buffer, that satisfy the
filters, whatever calls of `add` have come before. The filters are on the events as
they were logged.

The walk stops at the first entry that is older than the cutoff, where its other
filters skip the entry. That is right as long as times never decrease along the
buffer. They are read from a clock before the lock is taken, so they can.

## Main definitions

* `AddCall`: A call of `add`, with what its clock says.
* `AddCall.entry`, `RingLog.add`: What it puts into the buffer.
* `LogFilter.satisfied`, `LogFilter.expected`: What `tail` is to return.
* `LogFilter.Reaches`: No entry that is too old hides another one.

## Theorems

* `RingLog.buf_addAll`: The buffer holds the last entries.
* `RingLog.tail_eq_expected_iff`: When `tail` returns what it is to return.
* `LogFilter.reaches_of_sorted`: It does if times never decrease.
-/

namespace SecureLlm

open Library

/-- A call of `add`: the event, and `time.time()`. -/
structure AddCall where
  now : ℚ
  event : Dict String Value

-- Python's `str`, and what `LogEntry` makes of a value for a `float`.
variable (str : Value → String) (float : Value → Option ℚ)

namespace AddCall

variable (call : AddCall)

/-- `str(event_dict.get("level", "info"))` -/
def level : String := str ((call.event.get? "level").getD (.text "info"))

/-- `event_dict.get("timestamp", time.time())`, which is none if it is no number. -/
def ts : Option ℚ := ((call.event.get? "timestamp").map float).getD (some call.now)

/-- `str(event_dict.get("logger", event_dict.get("component", "")))` -/
def component : String :=
  str ((call.event.get? "logger").getD ((call.event.get? "component").getD (.text "")))

/-- The items that have no field of their own. -/
def fields : Dict String Value :=
  ["timestamp", "level", "logger", "event", "component"].foldl Dict.erase call.event

/-- The entry that is added. There is none if the time is not one, in which case `add`
    raises. -/
def entry (lower : String → String) : Option LogEntry :=
  (call.ts float).map fun ts =>
    { ts, level := lower (call.level str), component := call.component str,
      event := str ((call.event.get? "event").getD (.text "")), fields := call.fields }

end AddCall

variable (lower : String → String)

namespace RingLog

variable {maxSize : ℕ}

def new (maxSize : ℕ) : RingLog maxSize := ⟨[], Nat.zero_le _⟩

/-- `self._buf.append(entry)`, of a deque with a bound. -/
def append (ring : RingLog maxSize) (entry : LogEntry) : RingLog maxSize :=
  ⟨keepLast maxSize ring.buf entry, by rw [keepLast, length_rtake]; exact Nat.min_le_left _ _⟩

/-- `add`, which raises where there is no entry. -/
def add (ring : RingLog maxSize) (call : AddCall) : Option (RingLog maxSize) :=
  (call.entry str float lower).map ring.append

/-- The sink swallows what `add` raises. -/
def sink (ring : RingLog maxSize) (call : AddCall) : RingLog maxSize :=
  (ring.add str float lower call).getD ring

/-- The buffer after some calls. -/
def addAll (maxSize : ℕ) (calls : List AddCall) : RingLog maxSize :=
  calls.foldl (sink str float lower) (new maxSize)

end RingLog

/-- The calls that added an entry, with it. -/
def logged (calls : List AddCall) : List (AddCall × LogEntry) :=
  calls.filterMap fun call => (call.entry str float lower).map (call, ·)

namespace RingLog

variable {maxSize : ℕ}

theorem buf_sink (ring : RingLog maxSize) (call : AddCall) :
    (ring.sink str float lower call).buf =
      ((logged str float lower [call]).map Prod.snd).foldl (keepLast maxSize) ring.buf := by
  rw [sink, add, logged, List.filterMap_cons, List.filterMap_nil]
  cases call.entry str float lower with
  | none => rfl
  | some entry => rfl

/-- The buffer holds the last entries that were added. -/
theorem buf_addAll (calls : List AddCall) :
    (addAll str float lower maxSize calls).buf =
      ((logged str float lower calls).map Prod.snd).rtake maxSize := by
  have hrun : ∀ (calls : List AddCall) (ring : RingLog maxSize),
      (calls.foldl (sink str float lower) ring).buf =
        ((logged str float lower calls).map Prod.snd).foldl (keepLast maxSize) ring.buf := by
    intro calls
    induction calls with
    | nil => exact fun ring => rfl
    | cons call calls ih =>
        intro ring
        have happend : logged str float lower (call :: calls) =
            logged str float lower [call] ++ logged str float lower calls := by
          rw [logged, logged, logged, ← List.filterMap_append, List.singleton_append]
        rw [List.foldl_cons, ih, buf_sink, happend, List.map_append, List.foldl_append]
  have hstart := foldl_keepLast maxSize ((logged str float lower calls).map Prod.snd) []
  rw [List.rtake_nil, List.nil_append] at hstart
  rw [addAll, hrun, ← hstart]
  rfl

end RingLog

namespace LogFilter

variable (f : LogFilter)

/-- Does an event that was logged satisfy all the filters that are given? -/
def satisfied (x : AddCall × LogEntry) : Bool :=
  f.since.all (· ≤ x.2.ts) &&
    (given f.level).all (fun level => lower (x.1.level str) = lower level) &&
    (given f.component).all (fun component =>
      component.toList.isPrefixOf (x.1.component str).toList) &&
    (given f.clientFingerprint).all (fun fp => x.1.event.get? "client_fp" = some (.text fp))

/-- What `tail` is to return: the last entries that satisfy the filters, of those of
    the newest ones. -/
def expected (maxSize : ℕ) (calls : List AddCall) : List LogEntry :=
  ((((logged str float lower calls).rtake maxSize).filter
    (f.satisfied str lower)).rtake f.limit).map Prod.snd

/-- Where an entry that is too old comes after one that satisfies the filters, as many
    that do as are asked for come after the old one. -/
def Reaches (entries : List (AddCall × LogEntry)) : Prop :=
  EnoughBehind (fun x => f.older x.2) (f.satisfied str lower) f.limit entries

variable {str float lower} {f : LogFilter}

theorem mem_logged {calls : List AddCall} {x : AddCall × LogEntry}
    (h : x ∈ logged str float lower calls) : x.1.entry str float lower = some x.2 := by
  rcases List.mem_filterMap.mp h with ⟨call, -, hx⟩
  rcases Option.map_eq_some_iff.mp hx with ⟨entry, hentry, rfl⟩
  exact hentry

/-- What the walk looks at in an entry is what was logged. -/
theorem satisfied_eq {x : AddCall × LogEntry} (h : x.1.entry str float lower = some x.2) :
    f.satisfied str lower x = (!f.older x.2 && f.admits lower x.2) := by
  rcases Option.map_eq_some_iff.mp h with ⟨ts, -, hentry⟩
  have holder : f.since.all (· ≤ x.2.ts) = !f.older x.2 := by
    rw [older]
    cases f.since with
    | none => rfl
    | some since =>
        rw [Option.all_some, Option.any_some, ← decide_not]
        exact decide_eq_decide.mpr not_lt.symm
  have hlevel : (given f.level).all (fun level => lower (x.1.level str) = lower level)
      = !f.otherLevel lower x.2 := by
    rw [otherLevel, ← hentry]
    cases given f.level with
    | none => rfl
    | some level =>
        rw [Option.all_some, Option.any_some, ← decide_not]
        exact decide_eq_decide.mpr not_not.symm
  have hcomponent : (given f.component).all (fun component =>
      component.toList.isPrefixOf (x.1.component str).toList) = !f.otherComponent x.2 := by
    rw [otherComponent, ← hentry]
    cases given f.component with
    | none => rfl
    | some component => rw [Option.all_some, Option.any_some, Bool.not_not]
  have hclient : (given f.clientFingerprint).all (fun fp =>
      x.1.event.get? "client_fp" = some (.text fp)) = !f.otherClient x.2 := by
    rw [otherClient, ← hentry]
    cases given f.clientFingerprint with
    | none => rfl
    | some fp =>
        have hget : x.1.fields.get? "client_fp" = x.1.event.get? "client_fp" := by
          simp [AddCall.fields]
        rw [Option.all_some, Option.any_some, ← decide_not, hget]
        exact decide_eq_decide.mpr not_not.symm
  rw [satisfied, holder, hlevel, hcomponent, hclient, admits, Bool.and_assoc, Bool.and_assoc,
    Bool.and_assoc]

/-- An entry that is too old satisfies nothing. -/
theorem not_satisfied_of_older (x : AddCall × LogEntry) (hx : f.older x.2) :
    f.satisfied str lower x = false := by
  rw [older] at hx
  rw [satisfied]
  cases hsince : f.since with
  | none =>
      rw [hsince] at hx
      cases hx
  | some since =>
      rw [hsince, Option.any_some, decide_eq_true_eq] at hx
      rw [Option.all_some, decide_eq_false (Rat.not_le.mpr hx)]
      rfl

/-- Where times never decrease along the buffer, nothing is hidden. -/
theorem reaches_of_sorted (entries : List (AddCall × LogEntry))
    (hsorted : entries.Pairwise fun x y => x.2.ts ≤ y.2.ts) : f.Reaches str lower entries := by
  refine enoughBehind_of_pairwise (hsorted.imp ?_)
  intro x y hle hpass
  rw [satisfied, Bool.and_eq_true, Bool.and_eq_true, Bool.and_eq_true] at hpass
  rw [older]
  cases hsince : f.since with
  | none => rfl
  | some since =>
      have hnew := hpass.1.1.1
      rw [hsince, Option.all_some, decide_eq_true_eq] at hnew
      rw [Option.any_some, decide_eq_false (Rat.not_lt.mpr (hnew.trans hle))]

end LogFilter

namespace RingLog

variable {str float lower} {f : LogFilter} {maxSize : ℕ}

/-- What `tail` returns, by the calls. -/
theorem tail_addAll (hlimit : 1 ≤ f.limit) (calls : List AddCall) :
    (addAll str float lower maxSize calls).tail lower f =
      (((((logged str float lower calls).rtake maxSize).rtakeWhile
        (fun x => !f.older x.2)).filter (f.satisfied str lower)).rtake f.limit).map Prod.snd := by
  have hmap : ∀ (n : ℕ) (l : List (AddCall × LogEntry)),
      (l.map Prod.snd).rtake n = (l.rtake n).map Prod.snd := by
    intro n l
    rw [List.rtake, List.rtake, List.length_map, List.map_drop]
  rw [tail_eq, buf_addAll, LogFilter.shows, LogFilter.recent, hmap, Nat.max_eq_right hlimit]
  generalize hl : (logged str float lower calls).rtake maxSize = l
  have hrecent : (l.map Prod.snd).rtakeWhile (fun e => !f.older e)
      = (l.rtakeWhile (fun x => !f.older x.2)).map Prod.snd := by
    rw [List.rtakeWhile, List.rtakeWhile, ← List.map_reverse, List.takeWhile_map,
      List.map_reverse]
    rfl
  rw [hrecent, List.filter_map, hmap]
  -- Behind the cutoff the other filters are all there is to satisfy.
  congr 2
  refine List.filter_congr fun x hx => ?_
  have hmem : x ∈ logged str float lower calls :=
    List.mem_of_mem_drop (hl ▸ (List.rtakeWhile_suffix _ l).subset hx)
  have hnew := List.mem_rtakeWhile_imp hx
  rw [LogFilter.satisfied_eq (LogFilter.mem_logged hmem), hnew, Bool.true_and]
  rfl

/-- **When `tail` returns what it is to return.** It does if and only if no entry of the
    buffer that is too old hides one that is to be returned. -/
theorem tail_eq_expected_iff (str : Value → String) (float : Value → Option ℚ)
    (lower : String → String) (f : LogFilter) (maxSize : ℕ) (calls : List AddCall)
    (hlimit : 1 ≤ f.limit) :
    (addAll str float lower maxSize calls).tail lower f
        = f.expected str float lower maxSize calls ↔
      f.Reaches str lower ((logged str float lower calls).rtake maxSize) := by
  rw [tail_addAll hlimit, LogFilter.expected]
  constructor
  · intro h
    refine enoughBehind_of_length LogFilter.not_satisfied_of_older ?_
    have hlength := congrArg List.length h
    rw [List.length_map, List.length_map] at hlength
    exact hlength
  · intro h
    rw [rtake_scan_eq LogFilter.not_satisfied_of_older h]

end RingLog

/-- An event with a time. -/
def AddCall.at (now : ℚ) (json : String) : AddCall :=
  ⟨now, Dict.empty.set "timestamp" (.other json)⟩

/-- What a `float` is made of two times. -/
def floatSample (v : Value) : Option ℚ :=
  if v = .other "10.0" then some 10 else if v = .other "5.0" then some 5 else none

/-- `str` of a string. -/
def strSample : Value → String
  | .text s => s
  | .other json => json

/-- The clock has been set back between two events. The second one is too old, and
    hides the first. -/
theorem tail_ne_expected :
    ¬ ∀ (f : LogFilter) (maxSize : ℕ) (calls : List AddCall), 1 ≤ f.limit →
      (RingLog.addAll strSample floatSample String.toLower maxSize calls).tail String.toLower f
        = f.expected strSample floatSample String.toLower maxSize calls := by
  intro h
  have hbad := h { since := some 7 } 10000 [.at 10 "10.0", .at 5 "5.0"] (by decide)
  exact absurd (congrArg List.length hbad) (by decide)

theorem tail_eq_expected_sample :
    (RingLog.addAll strSample floatSample String.toLower 10000
        [.at 5 "5.0", .at 10 "10.0"]).tail String.toLower { since := some 7 }
      = ({ since := some 7 } : LogFilter).expected strSample floatSample String.toLower 10000
        [.at 5 "5.0", .at 10 "10.0"] := by
  refine (RingLog.tail_eq_expected_iff strSample floatSample String.toLower _ 10000 _
    (by decide)).mpr (LogFilter.reaches_of_sorted _ ?_)
  decide

end SecureLlm
