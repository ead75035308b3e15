import SecureLlm.Library.Tally
import SecureLlm.Models.Tenants
import SecureLlm.Routers.Listings

/-!
# The List of Tenants

What a super admin is shown of the tenants: those of the allowlist, those of the
registries and those of the live sessions, each once and in order, with how many
clients, sessions and models are theirs.

To count its models every tenant's registry is made, and its directory with it. So
a tenant that was shown is in every later list, whatever has become of its clients
and sessions, and also after a restart.

## Main definitions

* `TenantInfo`: A row of the list.
* `adminTenantsList`: The handler.
* `TenantsHost`: The registries, and the lists that were shown.
* `Listing.Right`: What a list should say.

## Theorems

* `tenantRows_run`: Counting the models is a use of each registry.
* `tenants_listed`: What every list says, in every run.
-/

namespace SecureLlm

open Library Transition Models

structure TenantInfo where
  name : String
  clients : ℕ
  revokedClients : ℕ
  activeSessions : ℕ
  models : ℕ
  deriving DecidableEq

/-- How many clients a tenant has, and how many of them are revoked. -/
structure ClientCounts where
  clients : ℕ := 0
  revoked : ℕ := 0

def ClientCounts.add (counts : ClientCounts) (c : AuthorizedClient) : ClientCounts where
  clients := counts.clients + 1
  revoked := if c.revoked then counts.revoked + 1 else counts.revoked

def fromAllowlist (allowlist : List AuthorizedClient) : Dict String ClientCounts :=
  tally AuthorizedClient.tenant ClientCounts.add {} allowlist

def sessionsByTenant (sessions : List Session) : Dict String ℕ :=
  tally Session.tenant (fun n _ => n + 1) 0 sessions

section

variable {E M : Type} (fmt : EntryFormat E M)

/-- The tenants of the list, sorted. -/
def tenantNames (server : MultiTenantRegistry E M) (allowlist : List AuthorizedClient)
    (sessions : List Session) : List String :=
  (((fromAllowlist allowlist).entries.map Prod.fst ++ server.knownTenants ++
    (sessionsByTenant sessions).entries.map Prod.fst).dedup).insertionSort fun a b => a ≤ b

/-- The rows of the list, one after the other. A registry that is made for one of them
    is in the cache from then on. -/
def tenantRows (allowlist : List AuthorizedClient) (sessions : List Session)
    (found : String → List (Option M)) :
    List String → MultiTenantRegistry E M → List TenantInfo × MultiTenantRegistry E M
  | [], server => ([], server)
  | name :: rest, server =>
    let opened := server.forTenant fmt name (found name)
    let counts := ((fromAllowlist allowlist).get? name).getD {}
    let later := tenantRows allowlist sessions found rest opened
    ({ name
       clients := counts.clients
       revokedClients := counts.revoked
       activeSessions := ((sessionsByTenant sessions).get? name).getD 0
       models := (opened.registry name).all.length } :: later.1, later.2)

/-- `/v1/admin/tenants/list`, with `session_manager.all()`. Who is no super admin is
    denied it. -/
def adminTenantsList (session : Session) (allowlist : List AuthorizedClient)
    (sessions : List Session) (found : String → List (Option M))
    (server : MultiTenantRegistry E M) : Option (List TenantInfo) × MultiTenantRegistry E M :=
  if session.isSuper then
    let answer := tenantRows fmt allowlist sessions found
      (tenantNames server allowlist sessions) server
    (some answer.1, answer.2)
  else (none, server)

end

/-- A list that was shown, with what it was made from: the clients, the live sessions,
    the tenants that had a registry before, and how many entries each tenant's lists. -/
structure Listing where
  allowlist : List AuthorizedClient
  sessions : List Session
  before : List String
  listed : String → ℕ
  rows : List TenantInfo

/-- The list with these rows, shown while the registries are as they are. -/
def Models.Tenancy.listing {E M : Type} (w : Tenancy E M) (allowlist : List AuthorizedClient)
    (sessions : List Session) (rows : List TenantInfo) : Listing where
  allowlist := allowlist
  sessions := sessions
  before := w.used
  listed name := (w.family name).all.length
  rows := rows

/-- The registries, and the lists that were shown so far. -/
structure TenantsHost (E M : Type) where
  tenancy : Tenancy E M
  listings : List Listing

/-- What happens to the registries, or a request for the list while the allowlist and
    the sessions are as they then happen to be. -/
inductive TenantsEvent (E M : Type) where
  | tenancy (e : TenancyEvent E M)
  | list (session : Session) (allowlist : List AuthorizedClient) (sessions : List Session)
      (found : String → List (Option M))

namespace TenantsHost

variable {E M : Type} [DecidableEq M] (fmt : EntryFormat E M)

def start : TenantsHost E M := ⟨.start, []⟩

def step (h : TenantsHost E M) : TenantsEvent E M → Option (TenantsHost E M)
  | .tenancy e => (h.tenancy.step fmt e).map fun tenancy => { h with tenancy }
  | .list session allowlist sessions found =>
    if ∀ name ∈ tenantNames h.tenancy.server allowlist sessions,
        (found name).Perm (h.tenancy.server.directory name).sidecars.values then
      let answer := adminTenantsList fmt session allowlist sessions found h.tenancy.server
      match answer.1 with
      | none => some h
      | some rows => some
        { tenancy := { h.tenancy with
            server := answer.2
            used := (rows.map TenantInfo.name).reverse ++ h.tenancy.used }
          listings := h.listings ++ [h.tenancy.listing allowlist sessions rows] }
    else none

def Careful (h : TenantsHost E M) : TenantsEvent E M → Prop
  | .tenancy e => h.tenancy.Careful fmt e
  | .list _ _ _ _ => True

end TenantsHost

/-- A check for careful steps. -/
def TenantsHost.careful {E M : Type} (fmt : EntryFormat E M) (h : TenantsHost E M) :
    TenantsEvent E M → Bool
  | .tenancy e => h.tenancy.careful fmt e
  | .list _ _ _ _ => true

/-- Each tenant is shown once and in order, with its own clients, revoked clients and
    sessions; all of them are counted; and but for the default tenant, those shown have
    a client, a session or a registry. -/
structure Listing.Right (ℓ : Listing) : Prop where
  sorted : (ℓ.rows.map TenantInfo.name).Pairwise (· < ·)
  counts : ∀ row ∈ ℓ.rows,
    row.clients = ℓ.allowlist.countP (fun c => c.tenant = row.name) ∧
    row.revokedClients = (ℓ.allowlist.filter (·.revoked)).countP (fun c => c.tenant = row.name) ∧
    row.activeSessions = ℓ.sessions.countP fun s => s.tenant = row.name
  clients : (ℓ.rows.map TenantInfo.clients).sum = ℓ.allowlist.length
  revoked : (ℓ.rows.map TenantInfo.revokedClients).sum = (ℓ.allowlist.filter (·.revoked)).length
  active : (ℓ.rows.map TenantInfo.activeSessions).sum = ℓ.sessions.length
  named : ∀ name, name ≠ defaultTenant → (name ∈ ℓ.rows.map TenantInfo.name ↔
    (∃ c ∈ ℓ.allowlist, c.tenant = name) ∨ (∃ s ∈ ℓ.sessions, s.tenant = name) ∨
      name ∈ ℓ.before)

/-! ## Counting -/

theorem foldl_add (counts : ClientCounts) (clients : List AuthorizedClient) :
    (clients.foldl ClientCounts.add counts).clients = counts.clients + clients.length ∧
      (clients.foldl ClientCounts.add counts).revoked =
        counts.revoked + clients.countP (·.revoked) := by
  induction clients generalizing counts with
  | nil => exact ⟨rfl, rfl⟩
  | cons c rest ih =>
      rcases ih (counts.add c) with ⟨hclients, hrevoked⟩
      rw [List.foldl_cons, hclients, hrevoked, List.length_cons, List.countP_cons]
      unfold ClientCounts.add
      dsimp only
      cases c.revoked with
      | true =>
          simp only [if_true]
          omega
      | false =>
          simp only [Bool.false_eq_true, if_false]
          omega

theorem counts_fromAllowlist (allowlist : List AuthorizedClient) (name : String) :
    (((fromAllowlist allowlist).get? name).getD {}).clients =
        allowlist.countP (fun c => c.tenant = name) ∧
      (((fromAllowlist allowlist).get? name).getD {}).revoked =
        (allowlist.filter (·.revoked)).countP fun c => c.tenant = name := by
  have hfold := foldl_add {} (allowlist.filter fun c => c.tenant = name)
  have hlength : (allowlist.filter fun c => c.tenant = name).length =
      allowlist.countP fun c => c.tenant = name := List.countP_eq_length_filter.symm
  have hrevoked : (allowlist.filter fun c => c.tenant = name).countP (·.revoked) =
      (allowlist.filter (·.revoked)).countP fun c => c.tenant = name := by
    rw [List.countP_filter, List.countP_filter]
    exact List.countP_congr fun c _ => by rw [Bool.and_comm]
  rw [hlength, hrevoked, Nat.zero_add, Nat.zero_add] at hfold
  unfold fromAllowlist
  rw [get?_tally]
  by_cases hname : name ∈ allowlist.map AuthorizedClient.tenant
  · rw [if_pos hname, Option.getD_some]
    exact hfold
  · -- No client is of the tenant, and there are no counts of it.
    have hnone : allowlist.filter (fun c => decide (c.tenant = name)) = [] := by
      rw [List.filter_eq_nil_iff]
      intro c hc hsame
      exact hname (List.mem_map.mpr ⟨c, hc, of_decide_eq_true hsame⟩)
    rw [if_neg hname, Option.getD_none]
    rw [hnone, List.foldl_nil] at hfold
    exact hfold

theorem count_sessionsByTenant (sessions : List Session) (name : String) :
    ((sessionsByTenant sessions).get? name).getD 0 =
      sessions.countP fun s => s.tenant = name := by
  have hfold : ∀ (n : ℕ) (xs : List Session), xs.foldl (fun n _ => n + 1) n = n + xs.length := by
    intro n xs
    induction xs generalizing n with
    | nil => rfl
    | cons s rest ih =>
        rw [List.foldl_cons, ih, List.length_cons]
        omega
  unfold sessionsByTenant
  rw [get?_tally, hfold, Nat.zero_add, ← List.countP_eq_length_filter]
  by_cases hname : name ∈ sessions.map Session.tenant
  · rw [if_pos hname, Option.getD_some]
  · rw [if_neg hname, Option.getD_none]
    refine (List.countP_eq_zero.mpr fun s hs hsame => ?_).symm
    exact hname (List.mem_map.mpr ⟨s, hs, of_decide_eq_true hsame⟩)

section

variable {E M : Type} {fmt : EntryFormat E M} {server : MultiTenantRegistry E M}
  {allowlist : List AuthorizedClient} {sessions : List Session}
  {found : String → List (Option M)}

theorem mem_tenantNames (name : String) : name ∈ tenantNames server allowlist sessions ↔
    (∃ c ∈ allowlist, c.tenant = name) ∨ name ∈ server.knownTenants ∨
      ∃ s ∈ sessions, s.tenant = name := by
  unfold tenantNames
  rw [List.mem_insertionSort, List.mem_dedup, List.mem_append, List.mem_append, or_assoc]
  exact or_congr (mem_keys_tally _ _ _ _ _) (or_congr Iff.rfl (mem_keys_tally _ _ _ _ _))

theorem tenantNames_sorted :
    (tenantNames server allowlist sessions).Pairwise (· < ·) := by
  have hnodup : (tenantNames server allowlist sessions).Nodup := by
    unfold tenantNames
    exact (List.perm_insertionSort _ _).nodup_iff.mpr (List.nodup_dedup _)
  have hsorted : (tenantNames server allowlist sessions).Pairwise (· ≤ ·) := by
    unfold tenantNames
    exact List.pairwise_insertionSort _ _
  refine (hsorted.and hnodup).imp ?_
  intro a b h
  exact lt_of_le_of_ne h.1 h.2

theorem names_tenantRows (names : List String) :
    (tenantRows fmt allowlist sessions found names server).1.map TenantInfo.name = names := by
  induction names generalizing server with
  | nil => rfl
  | cons name rest ih =>
      unfold tenantRows
      dsimp only
      rw [List.map_cons, ih]

/-- What a row says of clients and sessions. -/
theorem counts_tenantRows (names : List String) (row : TenantInfo)
    (h : row ∈ (tenantRows fmt allowlist sessions found names server).1) :
    row.clients = allowlist.countP (fun c => c.tenant = row.name) ∧
      row.revokedClients = (allowlist.filter (·.revoked)).countP (fun c => c.tenant = row.name) ∧
      row.activeSessions = sessions.countP fun s => s.tenant = row.name := by
  induction names generalizing server with
  | nil => exact absurd h List.not_mem_nil
  | cons name rest ih =>
      unfold tenantRows at h
      dsimp only at h
      rcases List.mem_cons.mp h with rfl | hrest
      · have hcounts := counts_fromAllowlist allowlist name
        exact ⟨hcounts.1, hcounts.2, count_sessionsByTenant sessions name⟩
      · exact ih hrest

/-- The tenants' registries once all of the names had a row. -/
def Models.Tenancy.listed (fmt : EntryFormat E M) (allowlist : List AuthorizedClient)
    (sessions : List Session) (found : String → List (Option M)) (names : List String)
    (w : Tenancy E M) : Tenancy E M where
  server := (tenantRows fmt allowlist sessions found names w.server).2
  family := w.family
  used := names.reverse ++ w.used

variable [DecidableEq M]

/-- One registry is made, if it is not there. -/
theorem step_open (fmt : EntryFormat E M) {w : Tenancy E M} {name : String}
    (hfound : (found name).Perm (w.server.directory name).sidecars.values) :
    w.step fmt (.use name (found name) .all) =
      some ⟨w.server.forTenant fmt name (found name), w.family, name :: w.used⟩ := by
  unfold Tenancy.step
  dsimp only
  rw [if_pos hfound]
  have hfamily : Function.update w.family name (w.family name) = w.family :=
    Function.update_eq_self name w.family
  exact congrArg (fun f => some (Tenancy.mk _ f _)) hfamily

/-- **Counting the models** is a use of each registry, one after the other. -/
theorem tenantRows_run (names : List String) (w : Tenancy E M)
    (hfound : ∀ name ∈ names, (found name).Perm (w.server.directory name).sidecars.values) :
    Run (Tenancy.step fmt) (fun t e _ => t.Careful fmt e) w
      (w.listed fmt allowlist sessions found names) := by
  induction names generalizing w with
  | nil => exact .start
  | cons name rest ih =>
      have hopen := step_open fmt (hfound name List.mem_cons_self)
      refine (Run.tail _ _ _ .start trivial hopen).trans ?_
      have hrest := ih ⟨w.server.forTenant fmt name (found name), w.family, name :: w.used⟩
        fun other hother => by
          rw [MultiTenantRegistry.directory_forTenant]
          exact hfound other (List.mem_cons_of_mem _ hother)
      have hsame : w.listed fmt allowlist sessions found (name :: rest) = Tenancy.listed fmt
          allowlist sessions found rest
            ⟨w.server.forTenant fmt name (found name), w.family, name :: w.used⟩ := by
        change Tenancy.mk _ w.family ((name :: rest).reverse ++ w.used) =
          Tenancy.mk _ w.family (rest.reverse ++ name :: w.used)
        rw [List.reverse_cons, List.append_assoc]
        rfl
      rw [hsame]
      exact hrest

/-- Where the registries are transparent, the models counted are the tenant's own. -/
theorem models_tenantRows (hplain : fmt.Plain) (names : List String) (w : Tenancy E M)
    (hfiled : ∀ name, (w.family name).Filed fmt) (h : w.Transparent fmt)
    (hfound : ∀ name ∈ names, (found name).Perm (w.server.directory name).sidecars.values)
    (row : TenantInfo)
    (hrow : row ∈ (tenantRows fmt allowlist sessions found names w.server).1) :
    row.models = (w.family row.name).all.length := by
  induction names generalizing w with
  | nil => exact absurd hrow List.not_mem_nil
  | cons name rest ih =>
      have hname := hfound name List.mem_cons_self
      unfold tenantRows at hrow
      dsimp only at hrow
      rcases List.mem_cons.mp hrow with rfl | hrest
      · exact (h.opened name (found name) hname).length_all
      · have hopen := step_open fmt hname
        refine ih ⟨w.server.forTenant fmt name (found name), w.family, name :: w.used⟩ hfiled
          ((Tenancy.transparent_step_iff hplain hfiled h hopen).mp trivial) ?_ hrest
        intro other hother
        rw [MultiTenantRegistry.directory_forTenant]
        exact hfound other (List.mem_cons_of_mem _ hother)

end

namespace TenantsHost

variable {E M : Type} [DecidableEq M] {fmt : EntryFormat E M} {h : TenantsHost E M}

/-- What a request for the list does: nothing, or it shows one. -/
theorem step_list {session : Session} {allowlist : List AuthorizedClient}
    {sessions : List Session} {found : String → List (Option M)} {u : TenantsHost E M}
    (hstep : h.step fmt (.list session allowlist sessions found) = some u) :
    (∀ name ∈ tenantNames h.tenancy.server allowlist sessions,
        (found name).Perm (h.tenancy.server.directory name).sidecars.values) ∧
      (u = h ∨ u = ⟨h.tenancy.listed fmt allowlist sessions found
          (tenantNames h.tenancy.server allowlist sessions),
        h.listings ++ [h.tenancy.listing allowlist sessions (tenantRows fmt allowlist sessions
          found (tenantNames h.tenancy.server allowlist sessions) h.tenancy.server).1]⟩) := by
  unfold step at hstep
  dsimp only at hstep
  by_cases hfound : ∀ name ∈ tenantNames h.tenancy.server allowlist sessions,
      (found name).Perm (h.tenancy.server.directory name).sidecars.values
  · rw [if_pos hfound] at hstep
    refine ⟨hfound, ?_⟩
    unfold adminTenantsList at hstep
    by_cases hsuper : session.isSuper = true
    · rw [if_pos hsuper] at hstep
      dsimp only at hstep
      rw [names_tenantRows, Option.some.injEq] at hstep
      exact Or.inr hstep.symm
    · rw [if_neg hsuper, Option.some.injEq] at hstep
      exact Or.inl hstep.symm
  · rw [if_neg hfound] at hstep
    exact absurd hstep (by simp)

omit [DecidableEq M] in
/-- **A list that is shown is right.** -/
theorem right_of_list {allowlist : List AuthorizedClient} {sessions : List Session}
    {found : String → List (Option M)} {w : Tenancy E M} (htracked : w.Tracked) :
    (w.listing allowlist sessions (tenantRows fmt allowlist sessions found
      (tenantNames w.server allowlist sessions) w.server).1).Right := by
  have hsorted : (tenantNames w.server allowlist sessions).Pairwise (· < ·) := tenantNames_sorted
  have hnodup : (tenantNames w.server allowlist sessions).Nodup :=
    hsorted.imp fun hless => ne_of_lt hless
  -- A column that says something of each name adds up over the names.
  have hsum : ∀ (column : TenantInfo → ℕ) (f : String → ℕ),
      (∀ row ∈ (tenantRows fmt allowlist sessions found
        (tenantNames w.server allowlist sessions) w.server).1, column row = f row.name) →
      ((tenantRows fmt allowlist sessions found
        (tenantNames w.server allowlist sessions) w.server).1.map column).sum =
          ((tenantNames w.server allowlist sessions).map f).sum := by
    intro column f hcolumn
    have hmap : ((tenantRows fmt allowlist sessions found (tenantNames w.server allowlist sessions)
        w.server).1.map TenantInfo.name).map f =
          (tenantNames w.server allowlist sessions).map f := by
      rw [names_tenantRows]
    rw [List.map_map] at hmap
    rw [List.map_congr_left hcolumn]
    exact congrArg List.sum hmap
  refine ⟨?_, fun row hrow => counts_tenantRows _ row hrow, ?_, ?_, ?_, fun name hname => ?_⟩
  · unfold Tenancy.listing
    dsimp only
    rw [names_tenantRows]
    exact hsorted
  · refine (hsum _ (fun name => allowlist.countP fun c => c.tenant = name)
      fun row hrow => (counts_tenantRows _ row hrow).1).trans ?_
    exact sum_countP_keys AuthorizedClient.tenant _ hnodup allowlist fun c hc =>
      (mem_tenantNames _).mpr (Or.inl ⟨c, hc, rfl⟩)
  · refine (hsum _ (fun name => (allowlist.filter (·.revoked)).countP fun c =>
      c.tenant = name) fun row hrow => (counts_tenantRows _ row hrow).2.1).trans ?_
    exact sum_countP_keys AuthorizedClient.tenant _ hnodup _ fun c hc =>
      (mem_tenantNames _).mpr (Or.inl ⟨c, (List.mem_filter.mp hc).1, rfl⟩)
  · refine (hsum _ (fun name => sessions.countP fun s => s.tenant = name)
      fun row hrow => (counts_tenantRows _ row hrow).2.2).trans ?_
    exact sum_countP_keys Session.tenant _ hnodup sessions fun s hs =>
      (mem_tenantNames _).mpr (Or.inr (Or.inr ⟨s, hs, rfl⟩))
  · unfold Tenancy.listing
    dsimp only
    rw [names_tenantRows, mem_tenantNames, htracked.knowsUsed name, if_neg hname]
    exact or_congr Iff.rfl or_comm

/-- The tenants of a list. -/
def names (ℓ : Listing) : List String := ℓ.rows.map TenantInfo.name

/-- The lists so far are right, and the tenants they show have registries. -/
structure Sound (h : TenantsHost E M) : Prop where
  tracked : h.tenancy.Tracked
  right : ∀ ℓ ∈ h.listings, ℓ.Right
  used : ∀ ℓ ∈ h.listings, ∀ name ∈ names ℓ, name ∈ h.tenancy.used
  kept : h.listings.Pairwise fun earlier later =>
    ∀ name, name ≠ defaultTenant → name ∈ names earlier → name ∈ names later

omit [DecidableEq M] in
theorem sound_start : (start : TenantsHost E M).Sound where
  tracked := Tenancy.tracked_start
  right _ hmem := absurd hmem List.not_mem_nil
  used _ hmem := absurd hmem List.not_mem_nil
  kept := List.Pairwise.nil

theorem Sound.step {e : TenantsEvent E M} {u : TenantsHost E M} (hs : h.Sound)
    (hstep : h.step fmt e = some u) : u.Sound := by
  cases e with
  | tenancy e =>
      rcases Option.map_eq_some_iff.mp hstep with ⟨w, hw, rfl⟩
      exact ⟨hs.tracked.step hw, hs.right,
        fun ℓ hℓ name hname => Tenancy.used_step hw (hs.used ℓ hℓ name hname), hs.kept⟩
  | list session allowlist sessions found =>
      rcases step_list hstep with ⟨hfound, rfl | rfl⟩
      · exact hs
      · have hrun : Run (Tenancy.step fmt) (fun t e _ => t.Careful fmt e) h.tenancy
            (h.tenancy.listed fmt allowlist sessions found _) := tenantRows_run _ _ hfound
        have hlater := hrun.invariant (fun t => t.Tracked ∧ ∀ name ∈ h.tenancy.used, name ∈ t.used)
          ⟨hs.tracked, fun _ hname => hname⟩ fun t e v ht _ hv =>
            ⟨ht.1.step hv, fun name hname => Tenancy.used_step hv (ht.2 name hname)⟩
        have hright : (h.tenancy.listing allowlist sessions (tenantRows fmt allowlist sessions
            found _ h.tenancy.server).1).Right := right_of_list hs.tracked
        refine ⟨hlater.1, fun ℓ hℓ => ?_, fun ℓ hℓ name hname => ?_, ?_⟩
        · rcases List.mem_append.mp hℓ with hbefore | hlast
          · exact hs.right ℓ hbefore
          · rw [List.mem_singleton.mp hlast]
            exact hright
        · rcases List.mem_append.mp hℓ with hbefore | hlast
          · exact hlater.2 name (hs.used ℓ hbefore name hname)
          · rw [List.mem_singleton.mp hlast] at hname
            unfold names Tenancy.listing at hname
            rw [names_tenantRows] at hname
            exact List.mem_append_left _ (List.mem_reverse.mpr hname)
        · refine List.pairwise_append.mpr ⟨hs.kept, List.pairwise_singleton _ _, ?_⟩
          intro earlier hearlier later hlast name hname hshown
          rw [List.mem_singleton.mp hlast]
          exact (hright.named name hname).mpr
            (Or.inr (Or.inr (hs.used earlier hearlier name hshown)))

/-- The models of the lists so far are counted right, and the registries are
    transparent. -/
structure Counted (fmt : EntryFormat E M) (h : TenantsHost E M) : Prop where
  filed : ∀ name, (h.tenancy.family name).Filed fmt
  transparent : h.tenancy.Transparent fmt
  models : ∀ ℓ ∈ h.listings, ∀ row ∈ ℓ.rows, row.models = ℓ.listed row.name

omit [DecidableEq M] in
theorem counted_start (hplain : fmt.Plain) : (start : TenantsHost E M).Counted fmt where
  filed _ := Registry.filed_start
  transparent := Tenancy.transparent_start hplain
  models _ hmem := absurd hmem List.not_mem_nil

theorem Counted.step (hplain : fmt.Plain) {e : TenantsEvent E M} {u : TenantsHost E M}
    (hc : h.Counted fmt) (hcareful : h.Careful fmt e) (hstep : h.step fmt e = some u) :
    u.Counted fmt := by
  cases e with
  | tenancy e =>
      rcases Option.map_eq_some_iff.mp hstep with ⟨w, hw, rfl⟩
      exact ⟨Tenancy.filed_step hc.filed hw,
        (Tenancy.transparent_step_iff hplain hc.filed hc.transparent hw).mp hcareful, hc.models⟩
  | list session allowlist sessions found =>
      rcases step_list hstep with ⟨hfound, rfl | rfl⟩
      · exact hc
      · have hrun : Run (Tenancy.step fmt) (fun t e _ => t.Careful fmt e) h.tenancy
            (h.tenancy.listed fmt allowlist sessions found _) := tenantRows_run _ _ hfound
        have hlater := hrun.invariant
          (fun t => (∀ name, (t.family name).Filed fmt) ∧ t.Transparent fmt)
          ⟨hc.filed, hc.transparent⟩ fun t e v ht hok hv => ⟨Tenancy.filed_step ht.1 hv,
            (Tenancy.transparent_step_iff hplain ht.1 ht.2 hv).mp hok⟩
        refine ⟨hlater.1, hlater.2, fun ℓ hℓ row hrow => ?_⟩
        rcases List.mem_append.mp hℓ with hbefore | hlast
        · exact hc.models ℓ hbefore row hrow
        · rw [List.mem_singleton.mp hlast] at hrow ⊢
          exact models_tenantRows hplain _ _ hc.filed hc.transparent hfound row hrow

end TenantsHost

/-- **The tenants that are listed.** In every run, with whatever clients and sessions
    there are at each request: every list shows each tenant once and in order, counts
    all clients, revoked clients and sessions, each at its tenant, and shows all that an
    earlier list has shown, but perhaps the default tenant. And where downloads are
    careful, it counts the models of each tenant's own registry. -/
theorem tenants_listed {E M : Type} [DecidableEq M] (fmt : EntryFormat E M) (hplain : fmt.Plain)
    (h : TenantsHost E M) :
    (Run (TenantsHost.step fmt) anyStep .start h →
      (∀ ℓ ∈ h.listings, ℓ.Right) ∧
      h.listings.Pairwise fun earlier later => ∀ name, name ≠ defaultTenant →
        name ∈ earlier.rows.map TenantInfo.name → name ∈ later.rows.map TenantInfo.name) ∧
    (Run (TenantsHost.step fmt) (fun t e _ => t.Careful fmt e) .start h →
      ∀ ℓ ∈ h.listings, ∀ row ∈ ℓ.rows, row.models = ℓ.listed row.name) := by
  constructor
  · intro hrun
    have hsound : h.Sound := hrun.invariant TenantsHost.Sound TenantsHost.sound_start
      fun t e u ht _ hstep => ht.step hstep
    exact ⟨hsound.right, hsound.kept⟩
  · intro hrun
    have hcounted : h.Counted fmt := hrun.invariant (fun t => t.Counted fmt)
      (TenantsHost.counted_start hplain) fun t e u ht hok hstep => ht.step hplain hok hstep
    exact hcounted.models

theorem TenantsHost.careful_sound {E M : Type} {fmt : EntryFormat E M} {h : TenantsHost E M}
    {e : TenantsEvent E M} (hcheck : h.careful fmt e = true) : h.Careful fmt e := by
  cases e with
  | tenancy e => exact Tenancy.careful_sound hcheck
  | list session allowlist sessions found => trivial

/-- A super admin's session, to run the model on. -/
def Session.superSample : Session := { (default : Session) with scopes := {"super_admin"} }

/-- A client of a tenant, to run the model on. -/
def AuthorizedClient.ofTenant (tenant : String) : AuthorizedClient :=
  ⟨"client", [], [], [], true, none, none, tenant⟩

/-- A tenant with one client that is revoked, and after a restart with none. -/
theorem tenants_listed_sample :
    ∃ h : TenantsHost ModelEntry ModelMeta,
      h.listings.map Listing.rows = [[⟨"acme", 1, 1, 0, 0⟩], [⟨"acme", 0, 0, 1, 1⟩]] ∧
      (∀ ℓ ∈ h.listings, ℓ.Right) ∧
      ∀ ℓ ∈ h.listings, ∀ row ∈ ℓ.rows, row.models = ℓ.listed row.name := by
  have hplay : ((playIf (fun h e => TenantsHost.careful (modelFormat 0) h e)
      (TenantsHost.step (modelFormat 0)) .start
        [.list .superSample [.ofTenant "acme"] [] fun _ => [],
          .tenancy (.use "acme" [] (.download (.sample "llama" "1") [1])),
          .tenancy .restart, .list .superSample [] [{ Session.superSample with tenant := "acme" }]
            fun _ => [some (writeMeta (.sample "llama" "1"))]]).any fun h => decide
          (h.listings.map Listing.rows = [[⟨"acme", 1, 1, 0, 0⟩], [⟨"acme", 0, 0, 1, 1⟩]])) =
            true := by
    decide +kernel
  rcases (Option.any_eq_true _ _).mp hplay with ⟨h, hh, hend⟩
  have hlisted := tenants_listed (modelFormat 0) (modelFormat_plain 0) h
  refine ⟨h, of_decide_eq_true hend, (hlisted.1 ?_).1, hlisted.2 ?_⟩
  · exact run_of_playIf _ _ (fun _ _ _ _ => trivial) hh
  · exact run_of_playIf _ _ (fun _ _ _ hcheck => TenantsHost.careful_sound hcheck) hh

end SecureLlm
