import SecureLlm.Middleware.RateLimit

/-!
# The Bound of a Bucket

What the calls of `_allow` for one key are answered, among the calls for all
keys. Each key has a bucket of its own, made full at the key's first call, so the
answers for a key are those of one bucket to the times of its calls
(`answersFor_eq`), and what is known of a bucket is known of them.

## Main definitions

* `RateLimitMiddleware.allowAll`, `RateLimitMiddleware.afterAll`: Calls, and the
  buckets after them.
* `RateLimitMiddleware.answersFor`: What the calls for one key are answered.
* `timesOf`: When they are.

## Theorems

* `answersFor_eq`: The answers for a key are those of its bucket.
* `token_bucket_bound`: The bound on every window.
-/

namespace SecureLlm

open Library

namespace RateLimitMiddleware

variable (mw : RateLimitMiddleware)

/-- Calls of `_allow` with what they are answered. -/
def allowAll : Dict String (Bucket ℚ) → List (String × ℚ) → List (String × ℚ × Bool)
  | _, [] => []
  | buckets, (key, now) :: rest =>
    let (buckets, allowed) := mw.allow buckets key now
    (key, now, allowed) :: allowAll buckets rest

/-- The buckets after the calls. -/
def afterAll : Dict String (Bucket ℚ) → List (String × ℚ) → Dict String (Bucket ℚ)
  | buckets, [] => buckets
  | buckets, (key, now) :: rest => afterAll (mw.allow buckets key now).1 rest

/-- When the calls for a key are made, and what they are answered. -/
def answersFor (key : String) (calls : List (String × ℚ)) : List (ℚ × Bool) :=
  ((mw.allowAll .empty calls).filter fun call => call.1 = key).map Prod.snd

end RateLimitMiddleware

open RateLimitMiddleware

/-- When the calls for a key are made. -/
def timesOf (key : String) (calls : List (String × ℚ)) : List ℚ :=
  (calls.filter fun call => call.1 = key).map Prod.snd

namespace RateLimitMiddleware

variable (mw : RateLimitMiddleware)

/-- The bucket of a key, or the one that its first call makes. -/
def bucketAt (bucket : Option (Bucket ℚ)) (now : ℚ) : Bucket ℚ := bucket.getD ⟨mw.capacity, now⟩

/-- What one bucket answers, if it is made at the first call. -/
def served (bucket : Option (Bucket ℚ)) : List ℚ → List (ℚ × Bool)
  | [] => []
  | t :: ts => (mw.bucketAt bucket t).serve mw.capacity mw.rate (t :: ts)

/-- And what is left of it. -/
def left (bucket : Option (Bucket ℚ)) : List ℚ → Option (Bucket ℚ)
  | [] => bucket
  | t :: ts => some ((mw.bucketAt bucket t).leave mw.capacity mw.rate (t :: ts))

theorem get?_allow (buckets : Dict String (Bucket ℚ)) (key : String) (now : ℚ) (x : String) :
    (mw.allow buckets key now).1.get? x = if x = key then
      some ((mw.bucketAt (buckets.get? key) now).take mw.capacity mw.rate now).1
      else buckets.get? x := by
  rw [allow, bucketAt]
  exact Dict.get?_set _ _ _ _

/-- Once there is a bucket, the later calls are answered by what the first leaves. -/
theorem served_some (bucket : Bucket ℚ) (ts : List ℚ) :
    mw.served (some bucket) ts = bucket.serve mw.capacity mw.rate ts := by
  cases ts with
  | nil => rfl
  | cons t ts => rfl

theorem left_some (bucket : Bucket ℚ) (ts : List ℚ) :
    mw.left (some bucket) ts = some (bucket.leave mw.capacity mw.rate ts) := by
  cases ts with
  | nil => rfl
  | cons t ts => rfl

/-- The calls for a key are answered by its bucket alone. -/
theorem allowAll_served (key : String) (calls : List (String × ℚ))
    (buckets : Dict String (Bucket ℚ)) :
    ((mw.allowAll buckets calls).filter fun call => call.1 = key).map Prod.snd
      = mw.served (buckets.get? key) (timesOf key calls) := by
  induction calls generalizing buckets with
  | nil => rfl
  | cons call rest ih =>
      rcases call with ⟨other, now⟩
      have hrest := ih (mw.allow buckets other now).1
      rw [get?_allow] at hrest
      rw [allowAll, timesOf]
      dsimp only
      -- A call for the key is the next request to its bucket, and another leaves it alone.
      by_cases hkey : other = key
      · rw [if_pos hkey.symm, served_some] at hrest
        simp only [List.filter_cons, hkey, decide_true, if_true, List.map_cons] at hrest ⊢
        rw [hrest]
        rfl
      · rw [if_neg (Ne.symm hkey)] at hrest
        simp only [List.filter_cons, hkey, decide_false, Bool.false_eq_true, if_false]
        exact hrest

/-- And they leave what they leave of it. -/
theorem get?_afterAll (key : String) (calls : List (String × ℚ))
    (buckets : Dict String (Bucket ℚ)) :
    (mw.afterAll buckets calls).get? key = mw.left (buckets.get? key) (timesOf key calls) := by
  induction calls generalizing buckets with
  | nil => rfl
  | cons call rest ih =>
      rcases call with ⟨other, now⟩
      rw [afterAll, ih, get?_allow, timesOf, timesOf]
      by_cases hkey : other = key
      · rw [if_pos hkey.symm, left_some]
        simp only [List.filter_cons, hkey, decide_true, if_true, List.map_cons]
        rfl
      · rw [if_neg (Ne.symm hkey)]
        simp only [List.filter_cons, hkey, decide_false, Bool.false_eq_true, if_false]

/-- The answers for a key are those of a bucket that is full at its first call. -/
theorem answersFor_eq (key : String) (calls : List (String × ℚ)) :
    mw.answersFor key calls = mw.served none (timesOf key calls) := by
  rw [answersFor, allowAll_served, Dict.get?_empty]

theorem rate_init_pos (rpm : ℤ) : 0 < (init rpm).rate := by
  have h : (1 : ℚ) ≤ (max 1 rpm : ℤ) := by exact_mod_cast le_max_left 1 rpm
  rw [init]
  dsimp only
  linarith

end RateLimitMiddleware

theorem pairwise_timesOf (key : String) (calls : List (String × ℚ))
    (h : calls.Pairwise fun c d => c.2 ≤ d.2) : (timesOf key calls).Pairwise (· ≤ ·) :=
  List.pairwise_map.mpr (h.sublist List.filter_sublist)

/-- The calls for a key on their own are at the same times. -/
theorem timesOf_filter (key : String) (calls : List (String × ℚ)) :
    timesOf key (calls.filter fun call => call.1 = key) = timesOf key calls := by
  rw [timesOf, timesOf, List.filter_filter]
  simp only [Bool.and_self]

/-- **The bound of a bucket.** Whatever calls are made for all keys, at times that
    do not go back: in every window the calls allowed for a key are at most the
    capacity and what flows in, its tokens stay between none and the capacity, a
    call as long after the one before it as a token takes is allowed, and calls for
    other keys change none of this. -/
theorem token_bucket_bound (rpm : ℤ) (key : String) (calls : List (String × ℚ))
    (hsorted : calls.Pairwise fun c d => c.2 ≤ d.2) :
    (∀ s d, 0 ≤ d → (Bucket.granted s (s + d) ((init rpm).answersFor key calls) : ℚ)
      ≤ (init rpm).capacity + (init rpm).rate * d) ∧
    (∀ bucket, ((init rpm).afterAll .empty calls).get? key = some bucket →
      0 ≤ bucket.tokens ∧ bucket.tokens ≤ (init rpm).capacity) ∧
    (∀ before x y after, (init rpm).answersFor key calls = before ++ x :: y :: after →
      1 / (init rpm).rate ≤ y.1 - x.1 → y.2 = true) ∧
    (init rpm).answersFor key calls
      = (init rpm).answersFor key (calls.filter fun call => call.1 = key) ∧
    ((init rpm).afterAll .empty calls).get? key
      = ((init rpm).afterAll .empty (calls.filter fun call => call.1 = key)).get? key := by
  have hrate := rate_init_pos rpm
  have hcap := capacity_init rpm
  have htimes := pairwise_timesOf key calls hsorted
  rw [answersFor_eq, answersFor_eq, get?_afterAll, get?_afterAll, timesOf_filter,
    Dict.get?_empty]
  cases htimesEq : timesOf key calls with
  | nil =>
      refine ⟨?_, ?_, ?_, rfl, rfl⟩
      · intro s d hd
        rw [served, Bucket.granted, List.countP_nil, Nat.cast_zero]
        have hflow : 0 ≤ (init rpm).rate * d := mul_nonneg hrate.le hd
        linarith
      · intro bucket hbucket
        cases hbucket
      · intro before x y after h
        exact absurd h (by simp only [served, List.nil_eq, List.append_eq_nil_iff, reduceCtorEq,
          and_false, not_false_eq_true])
  | cons t ts =>
      -- The first call finds a full bucket of its own time.
      rw [htimesEq] at htimes
      have hfull : ((init rpm).bucketAt none t).Sound (init rpm).capacity :=
        ⟨by linarith [show ((init rpm).bucketAt none t).tokens = (init rpm).capacity from rfl],
          le_refl _⟩
      have hstart : (((init rpm).bucketAt none t).last :: t :: ts).Pairwise (· ≤ ·) := by
        refine List.pairwise_cons.mpr ⟨fun t' ht' => ?_, htimes⟩
        rcases List.mem_cons.mp ht' with rfl | ht'
        · exact le_refl _
        · exact (List.pairwise_cons.mp htimes).1 t' ht'
      refine ⟨?_, ?_, ?_, rfl, rfl⟩
      · intro s d hd
        have hbound := Bucket.granted_window_le hrate hcap s (s + d) (by linarith) (t :: ts) _ hfull
          hstart
        rw [add_sub_cancel_left] at hbound
        exact hbound
      · intro bucket hbucket
        rw [left, Option.some.injEq] at hbucket
        rw [← hbucket]
        exact Bucket.leave_sound hrate hcap (t :: ts) _ hfull hstart
      · intro before x y after h hxy
        exact Bucket.serve_spaced hrate hcap (t :: ts) _ hfull hstart before after x y h hxy

/-- The theorem on a burst of two calls between calls of another client. -/
theorem token_bucket_bound_sample :
    (Bucket.granted 0 (0 + 1) ((init 60).answersFor "a" [("b", 0), ("a", 0), ("b", 0), ("a", 1)])
      : ℚ) ≤ (init 60).capacity + (init 60).rate * 1 :=
  (token_bucket_bound 60 "a" [("b", 0), ("a", 0), ("b", 0), ("a", 1)] (by decide +kernel)).1 0 1
    (by decide +kernel)

end SecureLlm
