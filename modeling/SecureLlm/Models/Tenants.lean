import Mathlib.Data.List.Dedup
import Mathlib.Data.List.Sort
import Mathlib.Data.String.Basic
import Mathlib.Logic.Function.Basic
import SecureLlm.Models.Crashes

/-!
# A Registry for Each Tenant

Every tenant has a directory of its own under the base, and the registry over it is
made when the tenant first needs it, and cached until the server stops. The default
tenant has the base itself.

What this comes to is a family of registries, one for each tenant, that are open
from the start and never closed: an operation is one on the tenant's own and leaves
the others alone, and neither the first use nor a restart shows. That is so as long
as the list of each can be read back from its sidecars.

Which tenants there are is told by the directories. So a named tenant is known from
its first use on, across restarts; the default tenant only while it is cached or
has a sidecar.

## Main definitions

* `tenantSubdir`: The directory of a tenant.
* `MultiTenantRegistry`: The directories, and the registries that have been made.
* `MultiTenantRegistry.forTenant`: The registry of a tenant, made if need be.
* `MultiTenantRegistry.knownTenants`: The tenants it knows of.
* `Tenancy`: Beside it, the family of registries it stands for.
* `Tenancy.Transparent`: It cannot be told from the family.

## Theorems

* `TenantOp.apply_alike`: An operation on two registries that are alike.
* `Tenancy.transparent_step_iff`: Which operations keep the family's appearance.
* `lazy_registries_transparent`: In which runs that is so, and the tenants known.
-/

namespace SecureLlm

open Library

namespace Models

/-- The directory of a tenant, from the base. A tenant's name is that of a directory
    where the allowlist has it from, so it is one component. -/
def tenantSubdir (tenant : String) : List String :=
  if tenant = defaultTenant then [] else ["tenants", tenant]

/-- The files of a registry, without its list. -/
structure Directory (M : Type) where
  sidecars : Dict String (Option M)
  ciphertexts : Dict String Bytes

/-- The directories under the base, and the lists of the registries in the cache. -/
structure MultiTenantRegistry (E M : Type) where
  dirs : Dict (List String) (Directory M)
  cache : Dict String (Dict String E)

/-- What a request does with the registry of its tenant. -/
inductive TenantOp (E : Type) where
  | all
  | download (entry : E) (ciphertext : Bytes)
  | remove (id : String)

section

variable {E M : Type} (fmt : EntryFormat E M)

def TenantOp.apply (r : Registry E M) : TenantOp E → Registry E M
  | .all => r
  | .download entry ciphertext => (r.encrypt fmt entry ciphertext).add fmt entry
  | .remove id => (r.remove fmt id).1

/-- A download gives a listed id the contents it has, and listed contents the id they
    have. -/
def TenantOp.Careful (r : Registry E M) : TenantOp E → Prop
  | .download entry _ => r.Careful fmt (.add entry)
  | _ => True

def Registry.files (r : Registry E M) : Directory M := ⟨r.sidecars, r.ciphertexts⟩

/-- Two registries with the same files, and the same list once it is read back. -/
structure Registry.Alike (r r' : Registry E M) : Prop where
  files : r.files = r'.files
  list : ∀ id, (r.get id).map fmt.stored = (r'.get id).map fmt.stored

end

namespace MultiTenantRegistry

variable {E M : Type} (fmt : EntryFormat E M)

def start : MultiTenantRegistry E M := ⟨.empty, .empty⟩

variable (w : MultiTenantRegistry E M)

/-- The files of a tenant. A directory that is not there has none. -/
def directory (tenant : String) : Directory M :=
  (w.dirs.get? (tenantSubdir tenant)).getD ⟨.empty, .empty⟩

/-- The registry of a tenant that is in the cache, with its files. -/
def registry (tenant : String) : Registry E M where
  byId := (w.cache.get? tenant).getD .empty
  sidecars := (w.directory tenant).sidecars
  ciphertexts := (w.directory tenant).ciphertexts

/-- The registry of a tenant is made on first use, and its directory with it unless
    that is there. The sidecars are read in the order `glob` finds them in. -/
def forTenant (tenant : String) (found : List (Option M)) : MultiTenantRegistry E M :=
  match w.cache.get? tenant with
  | some _ => w
  | none =>
    { dirs := w.dirs.set (tenantSubdir tenant) (w.directory tenant)
      cache := w.cache.set tenant (Registry.reload fmt found) }

/-- A tenant's registry after an operation. -/
def keep (tenant : String) (r : Registry E M) : MultiTenantRegistry E M where
  dirs := w.dirs.set (tenantSubdir tenant) r.files
  cache := w.cache.set tenant r.byId

/-- One request. -/
def use (tenant : String) (found : List (Option M)) : TenantOp E → MultiTenantRegistry E M
  | .all => w.forTenant fmt tenant found
  | op => (w.forTenant fmt tenant found).keep tenant
      (op.apply fmt ((w.forTenant fmt tenant found).registry tenant))

/-- The server stops and starts again. -/
def restart : MultiTenantRegistry E M := { w with cache := .empty }

/-- The name of a directory right under `tenants`. -/
def tenantOf : List String → Option String
  | ["tenants", name] => some name
  | _ => none

/-- The tenants in the cache, the default one if a sidecar is found in the base, and
    those that have a directory, sorted. -/
def knownTenants : List String :=
  ((w.cache.entries.map Prod.fst ++
    (if (w.directory defaultTenant).sidecars.values = [] then [] else [defaultTenant]) ++
    w.dirs.entries.filterMap fun e => tenantOf e.1).dedup).insertionSort fun a b => a ≤ b

end MultiTenantRegistry

/-- The registries of the tenants, the family they stand for, and the tenants that
    have ever used theirs. -/
structure Tenancy (E M : Type) where
  server : MultiTenantRegistry E M
  family : String → Registry E M
  used : List String

/-- A request of a tenant, whose registry finds the sidecars in some order if it is
    made for it, or a restart. -/
inductive TenancyEvent (E M : Type) where
  | use (tenant : String) (found : List (Option M)) (op : TenantOp E)
  | restart

namespace Tenancy

variable {E M : Type} (fmt : EntryFormat E M)

def start : Tenancy E M := ⟨.start, fun _ => .start, []⟩

variable (w : Tenancy E M)

/-- One step. In the family it is one on the tenant's own registry, or nothing. -/
def step [DecidableEq M] (w : Tenancy E M) : TenancyEvent E M → Option (Tenancy E M)
  | .use tenant found op =>
    if found.Perm (w.server.directory tenant).sidecars.values then
      some
        { server := w.server.use fmt tenant found op
          family := Function.update w.family tenant (op.apply fmt (w.family tenant))
          used := tenant :: w.used }
    else none
  | .restart => some { w with server := w.server.restart }

def Careful : TenancyEvent E M → Prop
  | .use tenant _ op => op.Careful fmt (w.family tenant)
  | .restart => True

/-- Whichever tenant's registry is needed next, it is like the family's, also if there
    is a restart before. -/
structure Transparent : Prop where
  opened : ∀ tenant found, found.Perm (w.server.directory tenant).sidecars.values →
    ((w.server.forTenant fmt tenant found).registry tenant).Alike fmt (w.family tenant)
  reopened : ∀ tenant found, found.Perm (w.server.directory tenant).sidecars.values → ∀ id,
    ((w.server.restart.forTenant fmt tenant found).registry tenant).get id =
      ((w.family tenant).get id).map fmt.stored

/-- The default tenant is known while it is cached or has a sidecar, and any other from
    its first use on. -/
def KnowsUsed : Prop :=
  ∀ tenant, tenant ∈ w.server.knownTenants ↔
    if tenant = defaultTenant then
      (w.server.cache.get? tenant).isSome = true ∨
        (w.server.directory tenant).sidecars.values ≠ []
    else tenant ∈ w.used

end Tenancy

section

variable {E M : Type} {fmt : EntryFormat E M} {r r' : Registry E M}

theorem Registry.Alike.get_isSome (h : r.Alike fmt r') (id : String) :
    (r.get id).isSome = (r'.get id).isSome := by
  have hlist := congrArg Option.isSome (h.list id)
  rwa [Option.isSome_map, Option.isSome_map] at hlist

/-- Registries that are alike list as many entries. -/
theorem Registry.Alike.length_all {r r' : Registry E M} (h : r.Alike fmt r') :
    r.all.length = r'.all.length := by
  have hkeys : (r.byId.entries.map Prod.fst).Perm (r'.byId.entries.map Prod.fst) := by
    rw [List.perm_ext_iff_of_nodup r.byId.nodup r'.byId.nodup]
    intro id
    rw [Dict.mem_keys_iff, Dict.mem_keys_iff]
    exact Bool.eq_iff_iff.mp (h.get_isSome id)
  have hlength := hkeys.length_eq
  rw [List.length_map, List.length_map] at hlength
  unfold Registry.all Dict.values
  rw [List.length_map, List.length_map]
  exact hlength

/-- Entries that are read back as one have the same two files. -/
theorem EntryFormat.paths_of_stored {e e' : E} (h : fmt.stored e = fmt.stored e') :
    fmt.path e = fmt.path e' ∧ fmt.ciphertextPath e = fmt.ciphertextPath e' := by
  have hpath : fmt.path e = fmt.path e' := by
    rw [← fmt.path_stored e, ← fmt.path_stored e', h]
  exact ⟨hpath, (fmt.ciphertextPath_inj e e').mpr ((fmt.path_inj e e').mp hpath)⟩

theorem Registry.get_eq (r : Registry E M) (id : String) : r.byId.get? id = r.get id := rfl

/-- **Registries that are alike stay so.** -/
theorem TenantOp.apply_alike (op : TenantOp E) (h : r.Alike fmt r') :
    (op.apply fmt r).Alike fmt (op.apply fmt r') := by
  have hsidecars : r.sidecars = r'.sidecars := congrArg Directory.sidecars h.files
  have hciphertexts : r.ciphertexts = r'.ciphertexts := congrArg Directory.ciphertexts h.files
  cases op with
  | all => exact h
  | download entry ciphertext =>
      refine ⟨?_, fun id => ?_⟩
      · change Directory.mk (r.sidecars.set _ _) (r.ciphertexts.set _ _) =
          Directory.mk (r'.sidecars.set _ _) (r'.ciphertexts.set _ _)
        rw [hsidecars, hciphertexts]
      · change (((r.encrypt fmt entry ciphertext).add fmt entry).get id).map fmt.stored =
          (((r'.encrypt fmt entry ciphertext).add fmt entry).get id).map fmt.stored
        rw [Registry.get_add, Registry.get_add]
        by_cases hid : id = fmt.id entry
        · rw [if_pos hid, if_pos hid]
        · rw [if_neg hid, if_neg hid]
          exact h.list id
  | remove id =>
      refine ⟨?_, fun id' => ?_⟩
      · change (r.remove fmt id).1.files = (r'.remove fmt id).1.files
        have hlist := h.list id
        unfold Registry.remove
        rw [Registry.get_eq, Registry.get_eq]
        rcases hr : r.get id with _ | e
        · rw [hr, Option.map_none] at hlist
          rw [Option.map_eq_none_iff.mp hlist.symm]
          exact h.files
        · rw [hr, Option.map_some] at hlist
          rcases Option.map_eq_some_iff.mp hlist.symm with ⟨e', he', hstored⟩
          rw [he']
          have hpaths := EntryFormat.paths_of_stored hstored
          change Directory.mk (r.sidecars.erase _) (r.ciphertexts.erase _) =
            Directory.mk (r'.sidecars.erase _) (r'.ciphertexts.erase _)
          rw [hsidecars, hciphertexts, hpaths.1, hpaths.2]
      · change ((r.remove fmt id).1.get id').map fmt.stored =
          ((r'.remove fmt id).1.get id').map fmt.stored
        rw [Registry.get_remove, Registry.get_remove]
        by_cases hid : id' = id
        · rw [if_pos hid, if_pos hid]
        · rw [if_neg hid, if_neg hid]
          exact h.list id'

theorem TenantOp.apply_filed (op : TenantOp E) (h : r.Filed fmt) :
    (op.apply fmt r).Filed fmt := by
  cases op with
  | all => exact h
  | download entry ciphertext =>
      have hstep : r.step fmt (.add entry) = some (r.add fmt entry) := rfl
      have hadded : (r.add fmt entry).Filed fmt := h.step hstep
      exact hadded
  | remove id =>
      have hstep : r.step fmt (.remove id) = some (r.remove fmt id).1 := rfl
      exact h.step hstep

theorem TenantOp.persists_iff (op : TenantOp E) (hfiled : r.Filed fmt) (h : r.Persists fmt) :
    op.Careful fmt r ↔ (op.apply fmt r).Persists fmt := by
  cases op with
  | all => exact iff_of_true trivial h
  | download entry ciphertext =>
      have hstep : r.step fmt (.add entry) = some (r.add fmt entry) := rfl
      exact Registry.persists_step_iff hfiled h hstep
  | remove id =>
      have hstep : r.step fmt (.remove id) = some (r.remove fmt id).1 := rfl
      exact Registry.persists_step_iff hfiled h hstep

end

theorem tenantSubdir_inj {t t' : String} (h : tenantSubdir t = tenantSubdir t') : t = t' := by
  unfold tenantSubdir at h
  by_cases ht : t = defaultTenant
  · by_cases ht' : t' = defaultTenant
    · rw [ht, ht']
    · rw [if_pos ht, if_neg ht'] at h
      exact absurd h (by simp)
  · by_cases ht' : t' = defaultTenant
    · rw [if_neg ht, if_pos ht'] at h
      exact absurd h (by simp)
    · rw [if_neg ht, if_neg ht'] at h
      simpa using h

theorem tenantSubdir_eq_iff (tenant name : String) :
    tenantSubdir tenant = ["tenants", name] ↔ tenant = name ∧ name ≠ defaultTenant := by
  unfold tenantSubdir
  by_cases ht : tenant = defaultTenant
  · rw [if_pos ht]
    refine ⟨fun h => absurd h (by simp), fun h => absurd (h.1.symm.trans ht) h.2⟩
  · rw [if_neg ht]
    constructor
    · intro h
      have hname : tenant = name := by simpa using h
      rw [← hname]
      exact ⟨rfl, ht⟩
    · intro h
      rw [h.1]

namespace MultiTenantRegistry

variable {E M : Type} {fmt : EntryFormat E M} {w : MultiTenantRegistry E M}

@[simp] theorem files_registry (tenant : String) : (w.registry tenant).files = w.directory tenant :=
  rfl

@[simp] theorem directory_restart (tenant : String) :
    w.restart.directory tenant = w.directory tenant := rfl

/-- Writing to one tenant's directory leaves the others. -/
theorem directory_set {cache : Dict String (Dict String E)} (tenant tenant' : String)
    (d : Directory M) :
    (MultiTenantRegistry.mk (w.dirs.set (tenantSubdir tenant) d) cache).directory tenant' =
      if tenant' = tenant then d else w.directory tenant' := by
  unfold directory
  dsimp only
  rw [Dict.get?_set]
  by_cases hsame : tenant' = tenant
  · rw [if_pos hsame, hsame, if_pos rfl, Option.getD_some]
  · rw [if_neg hsame, if_neg fun h => hsame (tenantSubdir_inj h)]

@[simp] theorem directory_forTenant (tenant tenant' : String) (found : List (Option M)) :
    (w.forTenant fmt tenant found).directory tenant' = w.directory tenant' := by
  unfold forTenant
  cases w.cache.get? tenant with
  | some list => rfl
  | none =>
      rw [directory_set]
      by_cases hsame : tenant' = tenant
      · rw [if_pos hsame, hsame]
      · rw [if_neg hsame]

theorem get?_cache_forTenant (tenant tenant' : String) (found : List (Option M)) :
    (w.forTenant fmt tenant found).cache.get? tenant' =
      if tenant' = tenant then some ((w.cache.get? tenant).getD (Registry.reload fmt found))
      else w.cache.get? tenant' := by
  unfold forTenant
  cases hcached : w.cache.get? tenant with
  | some list =>
      by_cases hsame : tenant' = tenant
      · rw [if_pos hsame, hsame, Option.getD_some]
        exact hcached
      · rw [if_neg hsame]
  | none =>
      dsimp only
      rw [Dict.get?_set, Option.getD_none]

/-- The list a request of a tenant sees. -/
theorem byId_forTenant (tenant : String) (found : List (Option M)) :
    ((w.forTenant fmt tenant found).registry tenant).byId =
      (w.cache.get? tenant).getD (Registry.reload fmt found) := by
  unfold registry
  dsimp only
  rw [get?_cache_forTenant, if_pos rfl, Option.getD_some]

theorem directory_keep (tenant tenant' : String) (r : Registry E M) :
    (w.keep tenant r).directory tenant' =
      if tenant' = tenant then r.files else w.directory tenant' :=
  directory_set tenant tenant' r.files

theorem directory_use (tenant tenant' : String) (found : List (Option M)) (op : TenantOp E) :
    (w.use fmt tenant found op).directory tenant' =
      if tenant' = tenant then
        (op.apply fmt ((w.forTenant fmt tenant found).registry tenant)).files
      else w.directory tenant' := by
  cases op with
  | all =>
      unfold use
      rw [directory_forTenant]
      by_cases hsame : tenant' = tenant
      · rw [if_pos hsame, hsame, ← directory_forTenant tenant tenant found]
        rfl
      · rw [if_neg hsame]
  | download entry ciphertext =>
      unfold use
      rw [directory_keep, directory_forTenant]
  | remove id =>
      unfold use
      rw [directory_keep, directory_forTenant]

theorem get?_cache_keep (tenant tenant' : String) (found : List (Option M)) (r : Registry E M) :
    ((w.forTenant fmt tenant found).keep tenant r).cache.get? tenant' =
      if tenant' = tenant then some r.byId else w.cache.get? tenant' := by
  unfold keep
  dsimp only
  rw [Dict.get?_set, get?_cache_forTenant]
  by_cases hsame : tenant' = tenant
  · rw [if_pos hsame, if_pos hsame]
  · rw [if_neg hsame, if_neg hsame, if_neg hsame]

theorem get?_cache_use (tenant tenant' : String) (found : List (Option M)) (op : TenantOp E) :
    (w.use fmt tenant found op).cache.get? tenant' =
      if tenant' = tenant then
        some (op.apply fmt ((w.forTenant fmt tenant found).registry tenant)).byId
      else w.cache.get? tenant' := by
  cases op with
  | all =>
      unfold use
      rw [get?_cache_forTenant, ← byId_forTenant]
      rfl
  | download entry ciphertext =>
      unfold use
      exact get?_cache_keep _ _ _ _
  | remove id =>
      unfold use
      exact get?_cache_keep _ _ _ _

/-- The directories once a tenant's registry is there: that of the tenant is one of
    them, if the ones in the cache have theirs. -/
theorem isSome_dirs_forTenant (tenant : String) (found : List (Option M)) (path : List String)
    (hmade : ∀ t, (w.cache.get? t).isSome = true →
      (w.dirs.get? (tenantSubdir t)).isSome = true) :
    ((w.forTenant fmt tenant found).dirs.get? path).isSome = true ↔
      tenantSubdir tenant = path ∨ (w.dirs.get? path).isSome = true := by
  unfold forTenant
  cases hcached : w.cache.get? tenant with
  | some list =>
      refine (or_iff_right_of_imp fun hpath => ?_).symm
      rw [← hpath]
      exact hmade tenant (by rw [hcached, Option.isSome_some])
  | none =>
      dsimp only
      rw [Dict.get?_set]
      by_cases hpath : path = tenantSubdir tenant
      · rw [if_pos hpath]
        exact iff_of_true rfl (Or.inl hpath.symm)
      · rw [if_neg hpath, or_iff_right (Ne.symm hpath)]

theorem isSome_dirs_keep (tenant : String) (r : Registry E M) (path : List String) :
    ((w.keep tenant r).dirs.get? path).isSome = true ↔
      tenantSubdir tenant = path ∨ (w.dirs.get? path).isSome = true := by
  unfold keep
  dsimp only
  rw [Dict.get?_set]
  by_cases hpath : path = tenantSubdir tenant
  · rw [if_pos hpath]
    exact iff_of_true rfl (Or.inl hpath.symm)
  · rw [if_neg hpath, or_iff_right (Ne.symm hpath)]

/-- The directories after a request. -/
theorem isSome_dirs_use (tenant : String) (found : List (Option M)) (op : TenantOp E)
    (path : List String) (hmade : ∀ t, (w.cache.get? t).isSome = true →
      (w.dirs.get? (tenantSubdir t)).isSome = true) :
    ((w.use fmt tenant found op).dirs.get? path).isSome = true ↔
      tenantSubdir tenant = path ∨ (w.dirs.get? path).isSome = true := by
  have hkeep : ∀ r : Registry E M,
      (((w.forTenant fmt tenant found).keep tenant r).dirs.get? path).isSome = true ↔
        tenantSubdir tenant = path ∨ (w.dirs.get? path).isSome = true := by
    intro r
    rw [isSome_dirs_keep, isSome_dirs_forTenant tenant found path hmade]
    tauto
  cases op with
  | all => exact isSome_dirs_forTenant tenant found path hmade
  | download entry ciphertext => exact hkeep _
  | remove id => exact hkeep _

theorem tenantOf_eq_iff (path : List String) (tenant : String) :
    tenantOf path = some tenant ↔ path = ["tenants", tenant] := by
  unfold tenantOf
  split
  · rename_i name
    constructor
    · intro h
      rw [Option.some.inj h]
    · intro h
      simpa using h
  · rename_i hother
    constructor
    · intro h
      exact absurd h (by simp)
    · intro h
      exact absurd h (hother tenant)

theorem mem_knownTenants (tenant : String) :
    tenant ∈ w.knownTenants ↔ (w.cache.get? tenant).isSome = true ∨
      (tenant = defaultTenant ∧ (w.directory defaultTenant).sidecars.values ≠ []) ∨
      (w.dirs.get? ["tenants", tenant]).isSome = true := by
  unfold knownTenants
  rw [List.mem_insertionSort, List.mem_dedup, List.mem_append, List.mem_append, or_assoc]
  refine or_congr (w.cache.mem_keys_iff tenant) (or_congr ?_ ?_)
  · by_cases hempty : (w.directory defaultTenant).sidecars.values = []
    · rw [if_pos hempty]
      exact iff_of_false List.not_mem_nil fun h => h.2 hempty
    · rw [if_neg hempty, List.mem_singleton, and_iff_left hempty]
  · rw [List.mem_filterMap, ← w.dirs.mem_keys_iff, List.mem_map]
    refine exists_congr fun e => and_congr_right fun _ => ?_
    exact tenantOf_eq_iff e.1 tenant

end MultiTenantRegistry

namespace Tenancy

variable {E M : Type} {fmt : EntryFormat E M} {w : Tenancy E M}

/-- What makes the registries transparent: the files are the family's, so are the lists
    in the cache, and the family's own can be read back. -/
structure Faithful (fmt : EntryFormat E M) (w : Tenancy E M) : Prop where
  files : ∀ tenant, w.server.directory tenant = (w.family tenant).files
  cached : ∀ tenant list, w.server.cache.get? tenant = some list → ∀ id,
    (list.get? id).map fmt.stored = ((w.family tenant).get id).map fmt.stored
  persists : ∀ tenant, (w.family tenant).Persists fmt

theorem Faithful.alike (hplain : fmt.Plain) (h : w.Faithful fmt) {tenant : String}
    {found : List (Option M)} (hfound : found.Perm (w.server.directory tenant).sidecars.values) :
    ((w.server.forTenant fmt tenant found).registry tenant).Alike fmt (w.family tenant) := by
  refine ⟨?_, fun id => ?_⟩
  · rw [MultiTenantRegistry.files_registry, MultiTenantRegistry.directory_forTenant]
    exact h.files tenant
  · unfold Registry.get
    rw [MultiTenantRegistry.byId_forTenant]
    cases hcached : w.server.cache.get? tenant with
    | some list => exact h.cached tenant list hcached id
    | none =>
        rw [h.files tenant] at hfound
        have hread := h.persists tenant found hfound id
        change ((Registry.reload fmt found).get? id).map fmt.stored = _
        unfold Registry.reload
        rw [hread, Option.map_map]
        refine congrArg (fun f => Option.map f _) (funext fun e => ?_)
        exact hplain.stored_stored e

/-- **Faithfulness is transparency.** -/
theorem transparent_iff (hplain : fmt.Plain) : w.Transparent fmt ↔ w.Faithful fmt := by
  constructor
  · intro h
    have hfiles : ∀ tenant, w.server.directory tenant = (w.family tenant).files := by
      intro tenant
      have hopened := (h.opened tenant _ (List.Perm.refl _)).files
      rw [MultiTenantRegistry.files_registry, MultiTenantRegistry.directory_forTenant] at hopened
      exact hopened
    refine ⟨hfiles, fun tenant list hlist id => ?_, fun tenant found hfound id => ?_⟩
    · have hopened := (h.opened tenant _ (List.Perm.refl _)).list id
      unfold Registry.get at hopened
      rw [MultiTenantRegistry.byId_forTenant, hlist] at hopened
      exact hopened
    · have hreopened := h.reopened tenant found (by rw [hfiles tenant]; exact hfound) id
      unfold Registry.get at hreopened
      rw [MultiTenantRegistry.byId_forTenant] at hreopened
      exact hreopened
  · intro h
    refine ⟨fun tenant found hfound => h.alike hplain hfound, fun tenant found hfound id => ?_⟩
    unfold Registry.get
    rw [MultiTenantRegistry.byId_forTenant]
    rw [h.files tenant] at hfound
    exact h.persists tenant found hfound id

/-- What a request does, in the registries and in the family. -/
theorem step_use [DecidableEq M] {tenant : String} {found : List (Option M)} {op : TenantOp E}
    {u : Tenancy E M} (hstep : w.step fmt (.use tenant found op) = some u) :
    found.Perm (w.server.directory tenant).sidecars.values ∧
      u = { server := w.server.use fmt tenant found op
            family := Function.update w.family tenant (op.apply fmt (w.family tenant))
            used := tenant :: w.used } := by
  unfold step at hstep
  dsimp only at hstep
  by_cases hfound : found.Perm (w.server.directory tenant).sidecars.values
  · rw [if_pos hfound, Option.some.injEq] at hstep
    exact ⟨hfound, hstep.symm⟩
  · rw [if_neg hfound] at hstep
    exact absurd hstep (by simp)

theorem used_step [DecidableEq M] {e : TenancyEvent E M} {u : Tenancy E M}
    (hstep : w.step fmt e = some u) {tenant : String} (h : tenant ∈ w.used) : tenant ∈ u.used := by
  cases e with
  | restart =>
      rw [← Option.some.inj hstep]
      exact h
  | use tenant' found op =>
      rcases step_use hstep with ⟨_, rfl⟩
      exact List.mem_cons_of_mem _ h

theorem filed_step [DecidableEq M] {e : TenancyEvent E M} {u : Tenancy E M}
    (h : ∀ tenant, (w.family tenant).Filed fmt) (hstep : w.step fmt e = some u) (tenant : String) :
    (u.family tenant).Filed fmt := by
  cases e with
  | restart =>
      rw [← Option.some.inj hstep]
      exact h tenant
  | use tenant' found op =>
      rcases step_use hstep with ⟨_, rfl⟩
      dsimp only
      by_cases hsame : tenant = tenant'
      · rw [hsame, Function.update_self]
        exact op.apply_filed (h tenant')
      · rw [Function.update_of_ne hsame]
        exact h tenant

theorem Faithful.restart (h : w.Faithful fmt) :
    ({ w with server := w.server.restart } : Tenancy E M).Faithful fmt where
  files := h.files
  cached tenant list hlist := absurd hlist (by simp [MultiTenantRegistry.restart])
  persists := h.persists

theorem transparent_start (hplain : fmt.Plain) : (start : Tenancy E M).Transparent fmt := by
  rw [transparent_iff hplain]
  refine ⟨fun _ => rfl, fun tenant list hlist => ?_, fun _ => Registry.persists_start⟩
  exact absurd hlist (by simp [start, MultiTenantRegistry.start])

/-- **Which operations keep the registries transparent.** -/
theorem transparent_step_iff [DecidableEq M] {e : TenancyEvent E M} {u : Tenancy E M}
    (hplain : fmt.Plain) (hfiled : ∀ tenant, (w.family tenant).Filed fmt)
    (h : w.Transparent fmt) (hstep : w.step fmt e = some u) :
    w.Careful fmt e ↔ u.Transparent fmt := by
  rw [transparent_iff hplain] at h ⊢
  cases e with
  | restart =>
      rw [← Option.some.inj hstep]
      exact iff_of_true trivial h.restart
  | use tenant found op =>
      rcases step_use hstep with ⟨hfound, rfl⟩
      have hpersists := op.persists_iff (hfiled tenant) (h.persists tenant)
      constructor
      · intro hcareful
        have halike := TenantOp.apply_alike op (h.alike hplain hfound)
        refine ⟨fun tenant' => ?_, fun tenant' list hlist id => ?_, fun tenant' => ?_⟩
        · dsimp only
          rw [MultiTenantRegistry.directory_use]
          by_cases hsame : tenant' = tenant
          · rw [if_pos hsame, hsame, Function.update_self]
            exact halike.files
          · rw [if_neg hsame, Function.update_of_ne hsame]
            exact h.files tenant'
        · dsimp only at hlist ⊢
          rw [MultiTenantRegistry.get?_cache_use] at hlist
          by_cases hsame : tenant' = tenant
          · rw [if_pos hsame, Option.some.injEq] at hlist
            rw [hsame, Function.update_self, ← hlist]
            exact halike.list id
          · rw [if_neg hsame] at hlist
            rw [Function.update_of_ne hsame]
            exact h.cached tenant' list hlist id
        · dsimp only
          by_cases hsame : tenant' = tenant
          · rw [hsame, Function.update_self]
            exact hpersists.mp hcareful
          · rw [Function.update_of_ne hsame]
            exact h.persists tenant'
      · intro hu
        have hlists := hu.persists tenant
        dsimp only at hlists
        rw [Function.update_self] at hlists
        exact hpersists.mpr hlists

/-- Whoever is in the cache has used it and has a directory, and the tenants'
    directories are of those who have. -/
structure Tracked (w : Tenancy E M) : Prop where
  cached : ∀ tenant, (w.server.cache.get? tenant).isSome = true → tenant ∈ w.used
  made : ∀ tenant, (w.server.cache.get? tenant).isSome = true →
    (w.server.dirs.get? (tenantSubdir tenant)).isSome = true
  dirs : ∀ tenant, (w.server.dirs.get? ["tenants", tenant]).isSome = true ↔
    tenant ≠ defaultTenant ∧ tenant ∈ w.used

theorem tracked_start : (start : Tenancy E M).Tracked where
  cached tenant h := absurd h (by simp [start, MultiTenantRegistry.start])
  made tenant h := absurd h (by simp [start, MultiTenantRegistry.start])
  dirs tenant := by simp [start, MultiTenantRegistry.start]

theorem Tracked.step [DecidableEq M] {e : TenancyEvent E M} {u : Tenancy E M} (h : w.Tracked)
    (hstep : w.step fmt e = some u) : u.Tracked := by
  cases e with
  | restart =>
      rw [← Option.some.inj hstep]
      have hnone : ∀ tenant, (w.server.restart.cache.get? tenant).isSome ≠ true := by
        intro tenant
        simp [MultiTenantRegistry.restart]
      exact ⟨fun tenant hcached => absurd hcached (hnone tenant),
        fun tenant hcached => absurd hcached (hnone tenant), h.dirs⟩
  | use tenant found op =>
      rcases step_use hstep with ⟨_, rfl⟩
      refine ⟨fun tenant' hcached => ?_, fun tenant' hcached => ?_, fun tenant' => ?_⟩
      · dsimp only at hcached ⊢
        rw [MultiTenantRegistry.get?_cache_use] at hcached
        by_cases hsame : tenant' = tenant
        · rw [hsame]
          exact List.mem_cons_self
        · rw [if_neg hsame] at hcached
          exact List.mem_cons_of_mem _ (h.cached tenant' hcached)
      · dsimp only at hcached ⊢
        rw [MultiTenantRegistry.isSome_dirs_use _ _ _ _ h.made]
        rw [MultiTenantRegistry.get?_cache_use] at hcached
        by_cases hsame : tenant' = tenant
        · exact Or.inl (by rw [hsame])
        · rw [if_neg hsame] at hcached
          exact Or.inr (h.made tenant' hcached)
      · dsimp only
        rw [MultiTenantRegistry.isSome_dirs_use _ _ _ _ h.made, tenantSubdir_eq_iff,
          h.dirs tenant', List.mem_cons]
        tauto

theorem Tracked.knowsUsed (h : w.Tracked) : w.KnowsUsed := by
  intro tenant
  rw [MultiTenantRegistry.mem_knownTenants, h.dirs tenant]
  by_cases hdefault : tenant = defaultTenant
  · rw [if_pos hdefault, hdefault]
    simp
  · rw [if_neg hdefault]
    have hcached := h.cached tenant
    tauto

end Tenancy

open Registry Transition

/-- **Lazy registries are always open.** In every run of requests and restarts, the
    tenants that are known are those that have used their registries, but for the
    default one. And the runs in which no download lists an id with other contents, or
    listed contents under another id, in its tenant's own registry are those in which
    no tenant can ever tell its registry, or that after a restart, from one of its own
    that is open all the time. -/
theorem lazy_registries_transparent {E M : Type} [DecidableEq M] (fmt : EntryFormat E M)
    (hplain : fmt.Plain) (w : Tenancy E M) :
    (Run (Tenancy.step fmt) anyStep .start w → w.KnowsUsed) ∧
    (Run (Tenancy.step fmt) (fun t e _ => t.Careful fmt e) .start w ↔
      Run (Tenancy.step fmt) (fun _ _ u => u.Transparent fmt) .start w) := by
  constructor
  · intro hrun
    have htracked : w.Tracked := hrun.invariant Tenancy.Tracked Tenancy.tracked_start
      fun t e u ht _ hstep => ht.step hstep
    exact htracked.knowsUsed
  · have hstart : (Tenancy.start : Tenancy E M).Transparent fmt := Tenancy.transparent_start hplain
    exact run_iff (fun t => ∀ tenant, (t.family tenant).Filed fmt) (fun t => t.Transparent fmt)
      (fun t e => t.Careful fmt e) (fun _ => filed_start) hstart
      (fun t e u ht hstep tenant => Tenancy.filed_step ht hstep tenant)
      fun t e u ht h hstep => Tenancy.transparent_step_iff hplain ht h hstep

/-- A check for careful steps. -/
def Tenancy.careful {E M : Type} (fmt : EntryFormat E M) (w : Tenancy E M) :
    TenancyEvent E M → Bool
  | .use tenant _ (.download entry _) => (w.family tenant).byId.entries.all fun p =>
      decide (p.1 = fmt.id entry ↔ fmt.sha256 p.2 = fmt.sha256 entry)
  | _ => true

theorem Tenancy.careful_sound {E M : Type} {fmt : EntryFormat E M} {w : Tenancy E M}
    {e : TenancyEvent E M} (h : w.careful fmt e = true) : w.Careful fmt e := by
  cases e with
  | restart => trivial
  | use tenant found op =>
      cases op with
      | all => trivial
      | remove id => trivial
      | download entry ciphertext =>
          intro id e he
          exact of_decide_eq_true (List.all_eq_true.mp h (id, e)
            (((w.family tenant).byId.mem_entries_iff id e).mpr he))

/-- Two tenants list other contents under one id, and one of them needs its registry
    again after a restart. -/
theorem lazy_registries_transparent_sample :
    ∃ w : Tenancy ModelEntry ModelMeta, w.server.knownTenants = ["acme", "default"] ∧
      (w.server.cache.entries.map Prod.fst = ["acme"] ∧ w.KnowsUsed) ∧
      Run (Tenancy.step (modelFormat 0)) (fun _ _ u => u.Transparent (modelFormat 0)) .start w := by
  have hplay : ((playIf (Tenancy.careful (modelFormat 0)) (Tenancy.step (modelFormat 0)) .start
      [.use "acme" [] (.download (.sample "llama" "1") [1]),
        .use "default" [] (.download (.sample "llama" "2") [2]), .restart,
        .use "acme" [some (writeMeta (.sample "llama" "1"))] .all]).any (fun w => decide
          (w.server.knownTenants = ["acme", "default"] ∧
            w.server.cache.entries.map Prod.fst = ["acme"]))) = true := by
    decide +kernel
  rcases (Option.any_eq_true _ _).mp hplay with ⟨w, hw, hend⟩
  rcases of_decide_eq_true hend with ⟨hknown, hcached⟩
  have hrun : Run (Tenancy.step (modelFormat 0)) (fun t e _ => t.Careful (modelFormat 0) e)
      .start w := run_of_playIf _ _ (fun _ _ _ h => Tenancy.careful_sound h) hw
  have hlazy := lazy_registries_transparent (modelFormat 0) (modelFormat_plain 0) w
  refine ⟨w, hknown, ⟨hcached, hlazy.1 ?_⟩, hlazy.2.mp hrun⟩
  exact run_of_playIf _ _ (fun _ _ _ _ => trivial) hw

end Models

end SecureLlm
