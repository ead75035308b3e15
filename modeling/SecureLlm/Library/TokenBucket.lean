import Mathlib.Algebra.Order.Field.Basic
import Mathlib.Tactic.Linarith

/-!
# Token Buckets

A bucket fills with time, up to its capacity, and gives out a token while it has
a whole one. Its contents are brought up to date only when somebody asks.

Requests at one moment find no refill between them, so they drain the bucket:
after as many of them as it had tokens nothing is left for the next.

What a bucket gives out over some time is bounded by what it held and what flowed
in: the tokens pay for every grant, and a refused request moves the clock without
losing any (`tokens_take_le`). At the first request of a window the bucket holds
no more than its capacity, so that is what a window starts from.

## Main definitions

* `Bucket`: The tokens there were at the last request.
* `Bucket.refill`: What has flowed in since.
* `Bucket.take`: A request for a token.
* `Bucket.takes`: Some requests at one moment.
* `Bucket.serve`, `Bucket.leave`: Requests at some times, and the bucket after them.
* `Bucket.granted`: How many were granted in a window.

## Theorems

* `Bucket.take_full`: A full bucket gives out a token.
* `Bucket.tokens_takes`: Requests at one moment drain the bucket.
* `Bucket.take_takes`: A request after them gets nothing.
* `Bucket.leave_sound`: The tokens stay between none and the capacity.
* `Bucket.serve_spaced`: A request long enough after the one before is granted.
* `Bucket.granted_window_le`: The bound on every window.
-/

namespace Library

/-- The tokens of a bucket at the time of the last request. -/
structure Bucket (K : Type) where
  tokens : K
  last : K

namespace Bucket

variable {K : Type} [Field K] [LinearOrder K]

/-- Bring the contents up to date. -/
def refill (capacity rate : K) (b : Bucket K) (now : K) : Bucket K :=
  ⟨min capacity (b.tokens + (now - b.last) * rate), now⟩

/-- Take a token if there is a whole one. -/
def take (capacity rate : K) (b : Bucket K) (now : K) : Bucket K × Bool :=
  let b := b.refill capacity rate now
  if b.tokens < 1 then (b, false) else ({ b with tokens := b.tokens - 1 }, true)

/-- The bucket after some requests at one moment. -/
def takes (capacity rate now : K) : ℕ → Bucket K → Bucket K
  | 0, b => b
  | n + 1, b => takes capacity rate now n (b.take capacity rate now).1

/-- The answers to requests at some times. -/
def serve (capacity rate : K) : Bucket K → List K → List (K × Bool)
  | _, [] => []
  | b, t :: ts =>
    (t, (b.take capacity rate t).2) :: serve capacity rate (b.take capacity rate t).1 ts

/-- The bucket after them. -/
def leave (capacity rate : K) : Bucket K → List K → Bucket K
  | b, [] => b
  | b, t :: ts => leave capacity rate (b.take capacity rate t).1 ts

/-- How many requests were granted in a window. -/
def granted (start stop : K) (answers : List (K × Bool)) : ℕ :=
  answers.countP fun a => a.2 && decide (start ≤ a.1) && decide (a.1 ≤ stop)

/-- The tokens are between none and the capacity. -/
def Sound (capacity : K) (b : Bucket K) : Prop := 0 ≤ b.tokens ∧ b.tokens ≤ capacity

variable (capacity rate now : K)

theorem last_take (b : Bucket K) : (b.take capacity rate now).1.last = now := by
  dsimp only [take]
  split
  · rfl
  · rfl

/-- Nothing flows in when no time has passed. -/
theorem refill_same (b : Bucket K) (hlast : b.last = now) (hcap : b.tokens ≤ capacity) :
    b.refill capacity rate now = b := by
  unfold refill
  rw [hlast, sub_self, zero_mul, add_zero, min_eq_right hcap, ← hlast]

theorem take_full (hcap : 1 ≤ capacity) :
    ((⟨capacity, now⟩ : Bucket K).take capacity rate now).2 = true := by
  unfold take
  rw [refill_same capacity rate now ⟨capacity, now⟩ rfl (le_refl _)]
  rw [if_neg (not_lt.mpr hcap)]

/-- A grant and what is left are paid for by what was there and what flowed in. -/
theorem tokens_take_le (b : Bucket K) :
    (b.take capacity rate now).1.tokens + (if (b.take capacity rate now).2 then 1 else 0)
      ≤ b.tokens + (now - b.last) * rate := by
  have hfill : (b.refill capacity rate now).tokens ≤ b.tokens + (now - b.last) * rate :=
    min_le_right _ _
  dsimp only [take]
  split
  · rw [if_neg Bool.false_ne_true, add_zero]
    exact hfill
  · rw [if_pos rfl, sub_add_cancel]
    exact hfill

/-- A request finds what it would after bringing the contents up to date. -/
theorem take_refill (b : Bucket K) :
    (b.refill capacity rate now).take capacity rate now = b.take capacity rate now := by
  rw [take, refill_same capacity rate now (b.refill capacity rate now) rfl (min_le_left _ _), take]

theorem map_fst_serve (ts : List K) (b : Bucket K) :
    (b.serve capacity rate ts).map Prod.fst = ts := by
  induction ts generalizing b with
  | nil => rfl
  | cons t ts ih => rw [serve, List.map_cons, ih]

/-- Nothing is granted in a window that is over. -/
theorem granted_late (start stop : K) (ts : List K) (b : Bucket K) (h : ∀ t ∈ ts, stop < t) :
    granted start stop (b.serve capacity rate ts) = 0 := by
  rw [granted, List.countP_eq_zero]
  intro a ha
  have hmem : a.1 ∈ ts := by
    rw [← map_fst_serve capacity rate ts b]
    exact List.mem_map_of_mem ha
  rw [decide_eq_false (not_le.mpr (h a.1 hmem)), Bool.and_false]
  exact Bool.false_ne_true

omit [Field K] in
/-- What comes after a time that is behind the window is behind it as well. -/
theorem lt_of_late {stop t : K} {ts : List K} (hts : (t :: ts).Pairwise (· ≤ ·)) (h : stop < t) :
    ∀ t' ∈ t :: ts, stop < t' := by
  intro t' ht'
  rcases List.mem_cons.mp ht' with rfl | ht'
  · exact h
  · exact lt_of_lt_of_le h ((List.pairwise_cons.mp hts).1 t' ht')

variable [IsStrictOrderedRing K]

/-- Requests at one moment drain the bucket. -/
theorem tokens_takes (n : ℕ) (b : Bucket K) (hlast : b.last = now) (hcap : b.tokens ≤ capacity)
    (hn : b.tokens < n + 1) :
    (b.takes capacity rate now n).tokens < 1 ∧ (b.takes capacity rate now n).last = now ∧
      (b.takes capacity rate now n).tokens ≤ capacity := by
  induction n generalizing b with
  | zero =>
      rw [Nat.cast_zero, zero_add] at hn
      exact ⟨hn, hlast, hcap⟩
  | succ n ih =>
      rw [takes]
      have hnext : (b.take capacity rate now).1.tokens ≤ capacity ∧
          (b.take capacity rate now).1.tokens < n + 1 := by
        rw [Nat.cast_add, Nat.cast_one] at hn
        have hpos : (0 : K) ≤ n := Nat.cast_nonneg n
        unfold take
        rw [refill_same capacity rate now b hlast hcap]
        by_cases hlow : b.tokens < 1
        · rw [if_pos hlow]
          exact ⟨hcap, by linarith⟩
        · rw [if_neg hlow]
          exact ⟨by linarith, by linarith⟩
      exact ih _ (last_take capacity rate now b) hnext.1 hnext.2

/-- A request after enough others of the same moment gets nothing. -/
theorem take_takes (n : ℕ) (b : Bucket K) (hlast : b.last = now) (hcap : b.tokens ≤ capacity)
    (hn : b.tokens < n + 1) :
    ((b.takes capacity rate now n).take capacity rate now).2 = false := by
  rcases tokens_takes capacity rate now n b hlast hcap hn with ⟨hlow, hlast', hcap'⟩
  unfold take
  rw [refill_same capacity rate now _ hlast' hcap', if_pos hlow]

section Runs

variable {capacity rate now} (hrate : 0 < rate) (hcap : 1 ≤ capacity)

include hrate hcap in
theorem refill_sound (b : Bucket K) (hb : b.Sound capacity) (hnow : b.last ≤ now) :
    (b.refill capacity rate now).Sound capacity := by
  have hflow : 0 ≤ (now - b.last) * rate := mul_nonneg (sub_nonneg.mpr hnow) hrate.le
  refine ⟨le_min ?_ ?_, min_le_left _ _⟩
  · linarith
  · linarith [hb.1]

include hrate hcap in
/-- A request keeps the tokens within their bounds. -/
theorem take_sound (b : Bucket K) (hb : b.Sound capacity) (hnow : b.last ≤ now) :
    (b.take capacity rate now).1.Sound capacity := by
  have hfill := refill_sound hrate hcap b hb hnow
  dsimp only [take]
  split
  · exact hfill
  · rename_i hlow
    have hone := not_lt.mp hlow
    exact ⟨by linarith, by linarith [hfill.2]⟩

include hrate hcap in
/-- Long enough after the last request a token has flowed in. -/
theorem take_spaced (b : Bucket K) (hb : b.Sound capacity) (hnow : 1 / rate ≤ now - b.last) :
    (b.take capacity rate now).2 = true := by
  have hflow : 1 ≤ (now - b.last) * rate := (div_le_iff₀ hrate).mp hnow
  have hfull : 1 ≤ (b.refill capacity rate now).tokens :=
    le_min hcap (by linarith [hb.1])
  dsimp only [take]
  rw [if_neg (not_lt.mpr hfull)]

include hrate hcap in
/-- The tokens stay within their bounds, whatever is asked. -/
theorem leave_sound (ts : List K) (b : Bucket K) (hb : b.Sound capacity)
    (hts : (b.last :: ts).Pairwise (· ≤ ·)) : (b.leave capacity rate ts).Sound capacity := by
  induction ts generalizing b with
  | nil => exact hb
  | cons t ts ih =>
      rw [List.pairwise_cons] at hts
      refine ih _ (take_sound hrate hcap b hb (hts.1 t List.mem_cons_self)) ?_
      rw [last_take]
      exact hts.2

include hrate hcap in
/-- A request long enough after the one before it is granted. -/
theorem serve_spaced (ts : List K) (b : Bucket K) (hb : b.Sound capacity)
    (hts : (b.last :: ts).Pairwise (· ≤ ·)) (before after : List (K × Bool)) (x y : K × Bool)
    (h : b.serve capacity rate ts = before ++ x :: y :: after) (hxy : 1 / rate ≤ y.1 - x.1) :
    y.2 = true := by
  induction ts generalizing b before with
  | nil => exact absurd h (by simp only [serve, List.nil_eq, List.append_eq_nil_iff, reduceCtorEq,
      and_false, not_false_eq_true])
  | cons t ts ih =>
      rw [List.pairwise_cons] at hts
      have hsound := take_sound hrate hcap b hb (hts.1 t List.mem_cons_self)
      have hlast := last_take capacity rate t b
      rw [serve] at h
      cases before with
      | cons z before =>
          refine ih _ hsound ?_ before (List.cons.inj h).2
          rw [hlast]
          exact hts.2
      | nil =>
          rcases List.cons.inj h with ⟨hx, hrest⟩
          cases ts with
          | nil => exact absurd hrest (by simp only [serve, reduceCtorEq, not_false_eq_true])
          | cons t' ts =>
              -- The bucket's clock is at the request before.
              rcases List.cons.inj hrest with ⟨hy, -⟩
              rw [← hy]
              refine take_spaced hrate hcap _ hsound ?_
              rw [hlast]
              rw [← hx, ← hy] at hxy
              exact hxy

include hrate hcap in
/-- What is granted up to a time is paid for by the tokens and the inflow. -/
theorem granted_le (start stop : K) (ts : List K) (b : Bucket K) (hb : b.Sound capacity)
    (hts : (b.last :: ts).Pairwise (· ≤ ·)) (hstop : b.last ≤ stop) :
    (granted start stop (b.serve capacity rate ts) : K)
      ≤ b.tokens + (stop - b.last) * rate := by
  induction ts generalizing b with
  | nil =>
      rw [serve, granted, List.countP_nil, Nat.cast_zero]
      have hflow : 0 ≤ (stop - b.last) * rate := mul_nonneg (sub_nonneg.mpr hstop) hrate.le
      linarith [hb.1]
  | cons t ts ih =>
      rw [List.pairwise_cons] at hts
      have hnow := hts.1 t List.mem_cons_self
      by_cases hlate : t ≤ stop
      · have hpaid := tokens_take_le capacity rate t b
        have hrest := ih (b.take capacity rate t).1 (take_sound hrate hcap b hb hnow)
          (by rw [last_take]; exact hts.2) (by rw [last_take]; exact hlate)
        rw [last_take] at hrest
        have hflow : (stop - t) * rate + (t - b.last) * rate = (stop - b.last) * rate := by
          rw [← add_mul, sub_add_sub_cancel]
        rw [serve, granted, List.countP_cons, Nat.cast_add, ← granted]
        cases hgrant : (b.take capacity rate t).2 with
        | false =>
            rw [hgrant, if_neg Bool.false_ne_true, add_zero] at hpaid
            simp only [Bool.false_and, Bool.false_eq_true, if_false, Nat.cast_zero, add_zero]
            linarith
        | true =>
            rw [hgrant, if_pos rfl] at hpaid
            -- A grant counts for the window only if it is in it.
            have hone : ((if (true && decide (start ≤ t) && decide (t ≤ stop)) = true then 1
                else 0 : ℕ) : K) ≤ 1 := by
              split
              · rw [Nat.cast_one]
              · rw [Nat.cast_zero]
                exact zero_le_one
            linarith
      · -- All that is left is behind the window.
        have hnone := granted_late capacity rate start stop (t :: ts) b
          (lt_of_late hts.2 (not_le.mp hlate))
        have hflow : 0 ≤ (stop - b.last) * rate := mul_nonneg (sub_nonneg.mpr hstop) hrate.le
        rw [hnone, Nat.cast_zero]
        linarith [hb.1]

include hrate hcap in
/-- In every window no more is granted than the capacity and what flows in. -/
theorem granted_window_le (start stop : K) (hwindow : start ≤ stop) (ts : List K) (b : Bucket K)
    (hb : b.Sound capacity) (hts : (b.last :: ts).Pairwise (· ≤ ·)) :
    (granted start stop (b.serve capacity rate ts) : K) ≤ capacity + rate * (stop - start) := by
  have hinflow : 0 ≤ rate * (stop - start) := mul_nonneg hrate.le (sub_nonneg.mpr hwindow)
  induction ts generalizing b with
  | nil =>
      rw [serve, granted, List.countP_nil, Nat.cast_zero]
      linarith
  | cons t ts ih =>
      rw [List.pairwise_cons] at hts
      have hnow := hts.1 t List.mem_cons_self
      by_cases hearly : t < start
      · -- A request before the window leaves the bucket as sound as it was.
        have hrest := ih (b.take capacity rate t).1 (take_sound hrate hcap b hb hnow)
          (by rw [last_take]; exact hts.2)
        rw [serve, granted, List.countP_cons_of_neg, ← granted]
        · exact hrest
        · rw [decide_eq_false (not_le.mpr hearly), Bool.and_false, Bool.false_and]
          exact Bool.false_ne_true
      · by_cases hlate : t ≤ stop
        · -- The window starts from the contents at its first request.
          have hfill := refill_sound hrate hcap b hb hnow
          have hsame : b.serve capacity rate (t :: ts)
              = (b.refill capacity rate t).serve capacity rate (t :: ts) := by
            rw [serve, serve, take_refill]
          have hpaid := granted_le hrate hcap start stop (t :: ts) (b.refill capacity rate t) hfill
            (List.pairwise_cons.mpr ⟨fun t' ht' => by
              rcases List.mem_cons.mp ht' with rfl | ht'
              · exact le_refl _
              · exact (List.pairwise_cons.mp hts.2).1 t' ht', hts.2⟩) hlate
          have hclock : (b.refill capacity rate t).last = t := rfl
          have hless : (stop - t) * rate ≤ rate * (stop - start) := by
            rw [mul_comm]
            exact mul_le_mul_of_nonneg_left (by linarith) hrate.le
          rw [hclock] at hpaid
          rw [hsame]
          linarith [hfill.2]
        · rw [granted_late capacity rate start stop (t :: ts) b
            (lt_of_late hts.2 (not_le.mp hlate)), Nat.cast_zero]
          linarith

end Runs

end Bucket

end Library
