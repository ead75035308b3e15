import Mathlib.Data.List.Sort
import Mathlib.Data.String.Basic
import SecureLlm.Crypto.Keystore
import SecureLlm.Library.Layers

/-!
# The Allowlist's Files

The root file of the allowlist and one file for each tenant, in a directory of
its own. The files are layers: the root first, then the tenants' in the order of
their names, and within a file the entries in theirs. What decides about a key is
the last entry of the last file that lists it.

A file that is read for a tenant forces that tenant on its entries, and the root
forces the default one, so that what a file says about tenants is never read.

The TOML parser has read the files already. Of an entry that is not there the
field is missing, and a value of `tenant` is kept as its text.

## Main definitions

* `ClientRow`: An entry of a file.
* `AllowlistTree`: The files.
* `loadAllowlist`: Reading them.
* `TenantDir.decides`: What a tenant's directory decides about a key.
* `Keystore.inForce`: The allowlist after a reload.

## Theorems

* `parseClientsFile_ok`: What a file of well-formed entries gives.
* `loadAllowlist_ok`: What well-formed files give.
* `loadAllowlist_eraseTenants`: What the files say about tenants is not read.
* `allowlist_confined`: Keys are confined to the directory that lists them.
-/

namespace SecureLlm

open Library

def Keystore.defaultTenant : String := "default"

/-- An entry of a file, as the parser gives it. -/
structure ClientRow where
  name : Option String := none
  x25519Pk : Option String
  ed25519Pk : Option String
  scopes : Option (List String) := none
  revoked : Option Bool := none
  notBefore : Option ℤ := none
  notAfter : Option ℤ := none
  tenant : Option String := none
  deriving DecidableEq, Repr

/-- `base64.b64decode(entry[key])`. -/
def decodeKey : Option String → Except Exc Bytes
  | none => .error .keyError
  | some text =>
    match b64decode false text with
    | some key => .ok key
    | none => .error .binasciiError

/-- `x or y` on optional texts: an empty text counts as absent. -/
def orElseText (x y : Option String) : Option String :=
  match x with
  | some s => if s = "" then y else some s
  | none => y

/-- The client of an entry. The tenant that is forced on it wins over its own. -/
def ClientRow.load (forcedTenant : Option String) (entry : ClientRow) :
    Except Exc AuthorizedClient := do
  let xPk ← decodeKey entry.x25519Pk
  let ePk ← decodeKey entry.ed25519Pk
  if xPk.length ≠ 32 ∨ ePk.length ≠ 32 then
    .error (.valueError ("client " ++ entry.name.getD "?" ++ ": bad pk length"))
  else
    return {
      name := entry.name.getD (String.ofList ((hex xPk).toList.take 16))
      x25519Pk := xPk
      ed25519Pk := ePk
      scopes := entry.scopes.getD []
      revoked := entry.revoked.getD false
      notBefore := entry.notBefore
      notAfter := entry.notAfter
      -- `forced_tenant or str(entry.get("tenant", DEFAULT_TENANT))`.
      tenant := (orElseText forcedTenant none).getD (entry.tenant.getD Keystore.defaultTenant) }

/-- The clients of a file by their keys; a file that does not exist has none. -/
def parseClientsFile (forcedTenant : Option String) :
    Option (List ClientRow) → Except Exc (Dict Bytes AuthorizedClient)
  | none => .ok Dict.empty
  | some rows => rows.foldlM (fun out entry => do
      let client ← entry.load forcedTenant
      return out.set client.x25519Pk client) Dict.empty

/-- An entry of the tenants' directory, with the file in it if it is a directory
    that has one. -/
structure TenantDir where
  name : String
  isDir : Bool := true
  file : Option (List ClientRow)
  deriving DecidableEq, Repr

/-- The files of an allowlist. The names in a directory are distinct, and none is
    empty. -/
structure AllowlistTree where
  root : Option (List ClientRow)
  tenants : Option (List TenantDir)
  names_nodup : ((tenants.getD []).map TenantDir.name).Nodup
  names_ne : ∀ sub ∈ tenants.getD [], sub.name ≠ ""

/-- What one entry of the tenants' directory adds. -/
def addTenant (out : Dict Bytes AuthorizedClient) (sub : TenantDir) :
    Except Exc (Dict Bytes AuthorizedClient) :=
  if ¬ sub.isDir then .ok out
  else do
    let tenantEntries ← parseClientsFile (some sub.name) sub.file
    return out.update tenantEntries

/-- `sorted(tenants_dir.iterdir())`. -/
def sortedDirs (dirs : List TenantDir) : List TenantDir :=
  dirs.insertionSort fun a b => a.name ≤ b.name

/-- The root file, and over it the tenants' files in the order of their names. -/
def loadAllowlist (tree : AllowlistTree) : Except Exc (Dict Bytes AuthorizedClient) := do
  let out ← parseClientsFile (some Keystore.defaultTenant) tree.root
  match tree.tenants with
  | none => return out
  | some dirs => (sortedDirs dirs).foldlM addTenant out

/-- The allowlist after a reload, whether it returned or raised: the assignment is
    the last thing a reload does. -/
def Keystore.inForce (keystore : Keystore)
    (load : String → Except Exc (Dict Bytes AuthorizedClient)) : Dict Bytes AuthorizedClient :=
  match keystore.reloadAllowlist load with
  | .ok (reloaded, _) => reloaded.allowlist
  | .error _ => keystore.allowlist

/-- The key an entry is for, if it decodes. -/
def ClientRow.key (row : ClientRow) : Option Bytes := (decodeKey row.x25519Pk).toOption

/-- The client of an entry under a tenant, if the entry is well formed. -/
def ClientRow.client (tenant : String) (row : ClientRow) : Option AuthorizedClient :=
  (row.load (some tenant)).toOption

/-- The keys decode, and have the right length. -/
def ClientRow.WellFormed (row : ClientRow) : Prop :=
  ∃ xPk ePk, decodeKey row.x25519Pk = .ok xPk ∧ decodeKey row.ed25519Pk = .ok ePk ∧
    xPk.length = 32 ∧ ePk.length = 32

/-- A key decodes to the wrong length. -/
def ClientRow.WrongLength (row : ClientRow) : Prop :=
  ∃ key, (decodeKey row.x25519Pk = .ok key ∨ decodeKey row.ed25519Pk = .ok key) ∧ key.length ≠ 32

/-- The last entry for a key. -/
def lastEntry (key : Bytes) (rows : List ClientRow) : Option ClientRow :=
  lastWhere (fun row => row.key = some key) rows

/-- The entries of a tenant's file. -/
def TenantDir.rows (sub : TenantDir) : List ClientRow := if sub.isDir then sub.file.getD [] else []

/-- The entries of the root file, the tenants' directories, and all entries. -/
def AllowlistTree.rootRows (tree : AllowlistTree) : List ClientRow := tree.root.getD []

def AllowlistTree.dirs (tree : AllowlistTree) : List TenantDir := tree.tenants.getD []

def AllowlistTree.allRows (tree : AllowlistTree) : List ClientRow :=
  tree.rootRows ++ tree.dirs.flatMap TenantDir.rows

theorem AllowlistTree.mem_allRows {tree : AllowlistTree} {sub : TenantDir} {row : ClientRow}
    (hsub : sub ∈ tree.dirs) (hrow : row ∈ sub.rows) : row ∈ tree.allRows :=
  List.mem_append_right _ (List.mem_flatMap.mpr ⟨sub, hsub, hrow⟩)

/-- A tenant's file lists a key. -/
def TenantDir.Lists (sub : TenantDir) (key : Bytes) : Prop := ∃ row ∈ sub.rows, row.key = some key

theorem ClientRow.load_ok (row : ClientRow) (tenant : String) (htenant : tenant ≠ "")
    (h : row.WellFormed) : ∃ client, row.load (some tenant) = .ok client ∧
      row.client tenant = some client ∧ row.key = some client.x25519Pk ∧
      client.tenant = tenant := by
  rcases h with ⟨xPk, ePk, hx, he, hxlen, helen⟩
  have hlen : ¬ (xPk.length ≠ 32 ∨ ePk.length ≠ 32) := by
    rw [hxlen, helen]
    tauto
  have hload : row.load (some tenant) = .ok {
      name := row.name.getD (String.ofList ((hex xPk).toList.take 16))
      x25519Pk := xPk
      ed25519Pk := ePk
      scopes := row.scopes.getD []
      revoked := row.revoked.getD false
      notBefore := row.notBefore
      notAfter := row.notAfter
      tenant := tenant } := by
    simp only [ClientRow.load, hx, he, bind, Except.bind, if_neg hlen, orElseText, if_neg htenant,
      Option.getD_some, pure, Except.pure]
  refine ⟨_, hload, ?_, ?_, rfl⟩
  · rw [ClientRow.client, hload]
    rfl
  · rw [ClientRow.key, hx]
    rfl

/-- A wrong length is raised for, or something before it is. -/
theorem ClientRow.load_wrongLength (row : ClientRow) (tenant : Option String)
    (h : row.WrongLength) : ∃ e, row.load tenant = .error e := by
  rcases h with ⟨key, hkey, hlen⟩
  cases hx : decodeKey row.x25519Pk with
  | error e => exact ⟨e, by simp only [ClientRow.load, hx, bind, Except.bind]⟩
  | ok xPk =>
      cases he : decodeKey row.ed25519Pk with
      | error e => exact ⟨e, by simp only [ClientRow.load, hx, he, bind, Except.bind]⟩
      | ok ePk =>
          have hbad : xPk.length ≠ 32 ∨ ePk.length ≠ 32 := by
            rcases hkey with hkey | hkey
            · rw [hx, Except.ok.injEq] at hkey
              exact Or.inl (hkey ▸ hlen)
            · rw [he, Except.ok.injEq] at hkey
              exact Or.inr (hkey ▸ hlen)
          exact ⟨.valueError ("client " ++ row.name.getD "?" ++ ": bad pk length"), by
            simp only [ClientRow.load, hx, he, bind, Except.bind, if_pos hbad]⟩

/-- Well-formed entries are loaded over what is there, the last one for a key on
    top. -/
theorem foldlM_load_ok (tenant : String) (htenant : tenant ≠ "") (rows : List ClientRow)
    (out : Dict Bytes AuthorizedClient) (h : ∀ row ∈ rows, row.WellFormed) :
    ∃ out', rows.foldlM (fun out entry => do
        let client ← entry.load (some tenant)
        return out.set client.x25519Pk client) out = .ok out' ∧
      ∀ key, out'.get? key
        = ((lastEntry key rows).bind (ClientRow.client tenant)).or (out.get? key) := by
  induction rows generalizing out with
  | nil => exact ⟨out, rfl, fun key => rfl⟩
  | cons row rows ih =>
      rcases row.load_ok tenant htenant (h row List.mem_cons_self) with
        ⟨client, hload, hclient, hkey, -⟩
      rcases ih (out.set client.x25519Pk client) fun r hr => h r (List.mem_cons_of_mem row hr) with
        ⟨out', hout, hget⟩
      refine ⟨out', ?_, ?_⟩
      · rw [List.foldlM_cons, hload]
        exact hout
      · intro key
        rw [hget key, lastEntry, lastEntry, lastWhere_cons, Dict.get?_set, hkey]
        cases hlast : lastWhere (fun row => row.key = some key) rows with
        | some last =>
            -- A later entry decides, and it is well formed.
            have hmem := (lastWhere_eq_some _ _ _ hlast).2
            rcases last.load_ok tenant htenant (h last (List.mem_cons_of_mem row hmem)) with
              ⟨c, -, hc, -, -⟩
            rw [Option.some_or, Option.bind_some, hc, Option.some_or, Option.some_or]
        | none =>
            rw [Option.none_or, Option.bind_none, Option.none_or]
            -- This entry decides, or says nothing about the key.
            by_cases hsame : client.x25519Pk = key
            · rw [if_pos hsame.symm, hsame, if_pos (decide_eq_true rfl), Option.bind_some, hclient,
                Option.some_or]
            · have hdiff : ¬ decide (some client.x25519Pk = some key) = true := by
                rw [decide_eq_true_eq, Option.some.injEq]
                exact hsame
              rw [if_neg (Ne.symm hsame), if_neg hdiff, Option.bind_none, Option.none_or]

/-- A file of well-formed entries gives each key its last entry. -/
theorem parseClientsFile_ok (tenant : String) (htenant : tenant ≠ "")
    (file : Option (List ClientRow)) (h : ∀ row ∈ file.getD [], row.WellFormed) :
    ∃ out, parseClientsFile (some tenant) file = .ok out ∧
      ∀ key, out.get? key = (lastEntry key (file.getD [])).bind (ClientRow.client tenant) := by
  cases file with
  | none => exact ⟨Dict.empty, rfl, fun key => rfl⟩
  | some rows =>
      rcases foldlM_load_ok tenant htenant rows Dict.empty h with ⟨out, hout, hget⟩
      refine ⟨out, hout, fun key => ?_⟩
      rw [hget key, Dict.get?_empty, Option.or_none, Option.getD_some]

/-- What a tenant's directory decides about a key. -/
def TenantDir.decides (key : Bytes) (sub : TenantDir) : Option AuthorizedClient :=
  (lastEntry key sub.rows).bind (ClientRow.client sub.name)

/-- A tenant's directory of well-formed entries is laid over what is there. -/
theorem addTenant_ok (out : Dict Bytes AuthorizedClient) (sub : TenantDir) (hname : sub.name ≠ "")
    (h : ∀ row ∈ sub.rows, row.WellFormed) :
    ∃ out', addTenant out sub = .ok out' ∧
      ∀ key, out'.get? key = (sub.decides key).or (out.get? key) := by
  cases hdir : sub.isDir with
  -- What is no directory is passed over.
  | false =>
      refine ⟨out, ?_, ?_⟩
      · rw [addTenant, if_pos (by rw [hdir]; exact Bool.false_ne_true)]
      · intro key
        rw [TenantDir.decides, TenantDir.rows, if_neg (by rw [hdir]; exact Bool.false_ne_true)]
        rfl
  | true =>
      have hrows : sub.rows = sub.file.getD [] := by rw [TenantDir.rows, if_pos hdir]
      rw [hrows] at h
      rcases parseClientsFile_ok sub.name hname sub.file h with ⟨entries, hentries, hget⟩
      refine ⟨out.update entries, ?_, ?_⟩
      · rw [addTenant, if_neg (not_not.mpr hdir), hentries]
        rfl
      · intro key
        rw [Dict.get?_update, hget key, TenantDir.decides, hrows]

/-- A directory decides about exactly the keys that it lists. -/
theorem TenantDir.decides_isSome_iff (key : Bytes) (sub : TenantDir) (hname : sub.name ≠ "")
    (h : ∀ row ∈ sub.rows, row.WellFormed) :
    (sub.decides key).isSome = true ↔ sub.Lists key := by
  rw [TenantDir.decides]
  cases hlast : lastEntry key sub.rows with
  | none =>
      rw [Option.bind_none, Option.isSome_none]
      refine ⟨fun hfalse => absurd hfalse Bool.false_ne_true, ?_⟩
      rintro ⟨row, hrow, hkey⟩
      exact absurd (decide_eq_true hkey) ((lastWhere_eq_none _ _).mp hlast row hrow)
  | some row =>
      rcases lastWhere_eq_some _ _ _ hlast with ⟨hkey, hrow⟩
      rcases row.load_ok sub.name hname (h row hrow) with ⟨client, -, hclient, -, -⟩
      rw [Option.bind_some, hclient, Option.isSome_some]
      exact ⟨fun _ => ⟨row, hrow, of_decide_eq_true hkey⟩, fun _ => rfl⟩

/-- Directories of well-formed entries are laid over what is there, the last one
    that decides about a key on top. -/
theorem foldlM_addTenant_ok (dirs : List TenantDir) (out : Dict Bytes AuthorizedClient)
    (hnames : ∀ sub ∈ dirs, sub.name ≠ "")
    (h : ∀ sub ∈ dirs, ∀ row ∈ sub.rows, row.WellFormed) :
    ∃ out', dirs.foldlM addTenant out = .ok out' ∧
      ∀ key, out'.get? key
        = ((lastWhere (fun sub => (TenantDir.decides key sub).isSome) dirs).bind
            (TenantDir.decides key)).or (out.get? key) := by
  induction dirs generalizing out with
  | nil => exact ⟨out, rfl, fun key => rfl⟩
  | cons sub dirs ih =>
      rcases addTenant_ok out sub (hnames sub List.mem_cons_self) (h sub List.mem_cons_self) with
        ⟨mid, hmid, hgetMid⟩
      obtain ⟨out', hout, hget⟩ := ih mid (fun s hs => hnames s (List.mem_cons_of_mem sub hs))
        fun s hs => h s (List.mem_cons_of_mem sub hs)
      refine ⟨out', ?_, ?_⟩
      · rw [List.foldlM_cons, hmid]
        exact hout
      · intro key
        rw [hget key, lastWhere_cons, hgetMid key]
        cases hlast : lastWhere (fun sub => (TenantDir.decides key sub).isSome) dirs with
        | some last =>
            rcases Option.isSome_iff_exists.mp (lastWhere_eq_some _ _ _ hlast).1 with
              ⟨client, hclient⟩
            rw [Option.some_or, Option.bind_some, hclient, Option.some_or, Option.some_or]
        | none =>
            rw [Option.none_or, Option.bind_none, Option.none_or]
            cases hdecides : sub.decides key with
            | none =>
                rw [Option.isSome_none, if_neg Bool.false_ne_true, Option.bind_none,
                  Option.none_or]
            | some client =>
                rw [Option.isSome_some, if_pos rfl, Option.bind_some, hdecides]

theorem mem_sortedDirs (dirs : List TenantDir) (sub : TenantDir) :
    sub ∈ sortedDirs dirs ↔ sub ∈ dirs :=
  (List.perm_insertionSort _ dirs).mem_iff

theorem pairwise_sortedDirs (dirs : List TenantDir) :
    (sortedDirs dirs).Pairwise fun a b => a.name ≤ b.name := by
  have : Std.Total fun a b : TenantDir => a.name ≤ b.name := ⟨fun a b => le_total a.name b.name⟩
  have : IsTrans TenantDir fun a b => a.name ≤ b.name := ⟨fun _ _ _ => le_trans⟩
  exact List.pairwise_insertionSort _ dirs

/-- Well-formed files load, the tenants' over the root's. -/
theorem loadAllowlist_ok (tree : AllowlistTree) (h : ∀ row ∈ tree.allRows, row.WellFormed) :
    ∃ out, loadAllowlist tree = .ok out ∧
      ∀ key, out.get? key
        = ((lastWhere (fun sub => (TenantDir.decides key sub).isSome) (sortedDirs tree.dirs)).bind
            (TenantDir.decides key)).or
          ((lastEntry key tree.rootRows).bind (ClientRow.client Keystore.defaultTenant)) := by
  obtain ⟨root, hroot, hgetRoot⟩ := parseClientsFile_ok Keystore.defaultTenant (by decide) tree.root
    fun row hrow => h row (List.mem_append_left _ hrow)
  obtain ⟨out, hout, hget⟩ := foldlM_addTenant_ok (sortedDirs tree.dirs) root
    (fun sub hsub => tree.names_ne sub ((mem_sortedDirs _ sub).mp hsub))
    (fun sub hsub row hrow =>
      h row (AllowlistTree.mem_allRows ((mem_sortedDirs _ sub).mp hsub) hrow))
  refine ⟨out, ?_, fun key => ?_⟩
  · rw [loadAllowlist, hroot]
    rw [AllowlistTree.dirs] at hout
    cases htenants : tree.tenants with
    | none =>
        rw [htenants] at hout
        exact hout
    | some dirs =>
        rw [htenants] at hout
        exact hout
  · rw [hget key, hgetRoot key, AllowlistTree.rootRows]

/-- The directory that decides about a key is the greatest one that lists it. -/
theorem loadAllowlist_listed (tree : AllowlistTree) (h : ∀ row ∈ tree.allRows, row.WellFormed)
    (key : Bytes) (hlisted : ∃ sub ∈ tree.dirs, sub.Lists key) :
    ∃ sub, lastWhere (fun sub => (TenantDir.decides key sub).isSome) (sortedDirs tree.dirs)
        = some sub ∧ sub ∈ tree.dirs ∧ sub.Lists key ∧
      ∀ other ∈ tree.dirs, other.Lists key → other = sub ∨ other.name < sub.name := by
  have hdecides (sub : TenantDir) (hsub : sub ∈ tree.dirs) :
      (sub.decides key).isSome = true ↔ sub.Lists key :=
    sub.decides_isSome_iff key (tree.names_ne sub hsub) fun row hrow =>
      h row (AllowlistTree.mem_allRows hsub hrow)
  rcases hlisted with ⟨first, hfirst, hlists⟩
  cases hlast : lastWhere (fun sub => (TenantDir.decides key sub).isSome)
      (sortedDirs tree.dirs) with
  | none =>
      exact absurd ((hdecides first hfirst).mpr hlists)
        ((lastWhere_eq_none _ _).mp hlast first ((mem_sortedDirs _ first).mpr hfirst))
  | some sub =>
      rcases lastWhere_eq_some _ _ _ hlast with ⟨hsome, hmem⟩
      have hsub := (mem_sortedDirs _ sub).mp hmem
      refine ⟨sub, rfl, hsub, (hdecides sub hsub).mp hsome, ?_⟩
      intro other hother hlistsOther
      have hle := rel_lastWhere (fun a b => a.name ≤ b.name) (fun _ => le_rfl) _ _ sub
        (pairwise_sortedDirs tree.dirs) hlast other ((mem_sortedDirs _ other).mpr hother)
        ((hdecides other hother).mpr hlistsOther)
      rcases hle.eq_or_lt with hsame | hlt
      · exact Or.inl (List.inj_on_of_nodup_map tree.names_nodup hother hsub hsame)
      · exact Or.inr hlt

/-- An entry with a key of the wrong length anywhere is raised for. -/
theorem loadAllowlist_wrongLength (tree : AllowlistTree)
    (h : ∃ row ∈ tree.allRows, row.WrongLength) : ∃ e, loadAllowlist tree = .error e := by
  rcases h with ⟨row, hrow, hwrong⟩
  have hparse (tenant : String) (file : Option (List ClientRow)) (hmem : row ∈ file.getD []) :
      ∃ e, parseClientsFile (some tenant) file = .error e := by
    cases file with
    | none => exact absurd hmem List.not_mem_nil
    | some rows =>
        refine foldlM_error _ rows row hmem (fun out => ?_) Dict.empty
        rcases row.load_wrongLength (some tenant) hwrong with ⟨e, he⟩
        exact ⟨e, by rw [he]; rfl⟩
  -- The root is parsed first, so a tenant's entry is raised for if the root is not.
  rcases List.mem_append.mp hrow with hroot | htenants
  · rcases hparse Keystore.defaultTenant tree.root hroot with ⟨e, he⟩
    exact ⟨e, by rw [loadAllowlist, he]; rfl⟩
  · rcases List.mem_flatMap.mp htenants with ⟨sub, hsub, hin⟩
    have hadd (out : Dict Bytes AuthorizedClient) : ∃ e, addTenant out sub = .error e := by
      cases hdir : sub.isDir with
      | false =>
          rw [TenantDir.rows, if_neg (by rw [hdir]; exact Bool.false_ne_true)] at hin
          exact absurd hin List.not_mem_nil
      | true =>
          rw [TenantDir.rows, if_pos hdir] at hin
          rcases hparse sub.name sub.file hin with ⟨e, he⟩
          exact ⟨e, by rw [addTenant, if_neg (not_not.mpr hdir), he]; rfl⟩
    rw [AllowlistTree.dirs] at hsub
    cases hroot : parseClientsFile (some Keystore.defaultTenant) tree.root with
    | error e => exact ⟨e, by rw [loadAllowlist, hroot]; rfl⟩
    | ok root =>
        cases hdirs : tree.tenants with
        | none =>
            rw [hdirs] at hsub
            exact absurd hsub List.not_mem_nil
        | some dirs =>
            rw [hdirs] at hsub
            obtain ⟨e, he⟩ := foldlM_error addTenant (sortedDirs dirs) sub
              ((mem_sortedDirs dirs sub).mpr hsub) hadd root
            exact ⟨e, by rw [loadAllowlist, hroot, hdirs]; exact he⟩

/-- A file without what it says about tenants. -/
def eraseTenants (rows : List ClientRow) : List ClientRow :=
  rows.map fun row => { row with tenant := none }

def TenantDir.eraseTenants (sub : TenantDir) : TenantDir :=
  { sub with file := sub.file.map SecureLlm.eraseTenants }

/-- Two trees are the same but for what their files say about tenants. -/
def AllowlistTree.SameButTenants (a b : AllowlistTree) : Prop :=
  a.root.map eraseTenants = b.root.map eraseTenants ∧
    a.tenants.map (List.map TenantDir.eraseTenants)
      = b.tenants.map (List.map TenantDir.eraseTenants)

/-- What a file says about tenants is not read under a tenant. -/
theorem parseClientsFile_eraseTenants (tenant : String) (htenant : tenant ≠ "")
    (file : Option (List ClientRow)) :
    parseClientsFile (some tenant) (file.map eraseTenants)
      = parseClientsFile (some tenant) file := by
  have hload (row : ClientRow) :
      ClientRow.load (some tenant) { row with tenant := none } = row.load (some tenant) := by
    simp only [ClientRow.load, orElseText, if_neg htenant, Option.getD_some]
  cases file with
  | none => rfl
  | some rows =>
      simp only [Option.map_some, eraseTenants, parseClientsFile, List.foldlM_map, hload]

theorem addTenant_eraseTenants (out : Dict Bytes AuthorizedClient) (sub : TenantDir)
    (hname : sub.name ≠ "") : addTenant out sub.eraseTenants = addTenant out sub := by
  rw [addTenant, addTenant, TenantDir.eraseTenants]
  dsimp only
  rw [parseClientsFile_eraseTenants sub.name hname]

theorem foldlM_addTenant_eraseTenants (dirs : List TenantDir) (out : Dict Bytes AuthorizedClient)
    (hnames : ∀ sub ∈ dirs, sub.name ≠ "") :
    (dirs.map TenantDir.eraseTenants).foldlM addTenant out = dirs.foldlM addTenant out := by
  induction dirs generalizing out with
  | nil => rfl
  | cons sub dirs ih =>
      rw [List.map_cons, List.foldlM_cons, List.foldlM_cons,
        addTenant_eraseTenants out sub (hnames sub List.mem_cons_self)]
      exact bind_congr fun out' => ih out' fun s hs => hnames s (List.mem_cons_of_mem sub hs)

theorem sortedDirs_eraseTenants (dirs : List TenantDir) :
    sortedDirs (dirs.map TenantDir.eraseTenants)
      = (sortedDirs dirs).map TenantDir.eraseTenants := by
  rw [sortedDirs, sortedDirs]
  exact (List.map_insertionSort _ _ TenantDir.eraseTenants dirs fun _ _ _ _ => Iff.rfl).symm

theorem loadAllowlist_eraseTenants (a b : AllowlistTree) (h : a.SameButTenants b) :
    loadAllowlist a = loadAllowlist b := by
  have hroot : parseClientsFile (some Keystore.defaultTenant) a.root
      = parseClientsFile (some Keystore.defaultTenant) b.root := by
    rw [← parseClientsFile_eraseTenants Keystore.defaultTenant (by decide) a.root, h.1,
      parseClientsFile_eraseTenants Keystore.defaultTenant (by decide) b.root]
  -- Each side is what it is without the tenants in its files.
  have herased (tree : AllowlistTree) (dirs : List TenantDir) (hdirs : tree.tenants = some dirs)
      (out : Dict Bytes AuthorizedClient) :
      (sortedDirs dirs).foldlM addTenant out
        = (sortedDirs (dirs.map TenantDir.eraseTenants)).foldlM addTenant out := by
    rw [sortedDirs_eraseTenants, foldlM_addTenant_eraseTenants]
    intro sub hsub
    refine tree.names_ne sub ?_
    rw [hdirs]
    exact (mem_sortedDirs dirs sub).mp hsub
  rw [loadAllowlist, loadAllowlist, hroot]
  refine bind_congr fun out => ?_
  have htenants := h.2
  cases ha : a.tenants with
  | none =>
      cases hb : b.tenants with
      | none => rfl
      | some dirs =>
          rw [ha, hb] at htenants
          cases htenants
  | some dirs =>
      cases hb : b.tenants with
      | none =>
          rw [ha, hb] at htenants
          cases htenants
      | some dirs' =>
          rw [ha, hb, Option.map_some, Option.map_some, Option.some.injEq] at htenants
          dsimp only
          rw [herased a dirs ha, htenants, ← herased b dirs' hb]

/-- A reload that raises leaves the allowlist in force. -/
theorem inForce_of_error (keystore : Keystore)
    (load : String → Except Exc (Dict Bytes AuthorizedClient)) (e : Exc)
    (h : ∀ path, load path = .error e) : keystore.inForce load = keystore.allowlist := by
  rw [Keystore.inForce, Keystore.reloadAllowlist]
  cases keystore.allowlistPath with
  | none => rfl
  | some path =>
      dsimp only
      rw [h path]
      rfl

/-- **Keys are confined to the directory that lists them.** With well-formed
    files, a key that tenants' directories list is what the last entry for it in
    the greatest of them says, under that directory's name; any other key is what
    the last entry of the root file says, under the default tenant, or not there.
    What files say about tenants changes nothing. And a key of the wrong length
    anywhere is raised for, and leaves the allowlist in force. -/
theorem allowlist_confined :
    (∀ tree : AllowlistTree, (∀ row ∈ tree.allRows, row.WellFormed) →
      ∃ out, loadAllowlist tree = .ok out ∧ ∀ key,
        ((∃ sub ∈ tree.dirs, sub.Lists key) →
          ∃ sub ∈ tree.dirs, sub.Lists key ∧
            (∀ other ∈ tree.dirs, other.Lists key → other = sub ∨ other.name < sub.name) ∧
            ∃ row client, lastEntry key sub.rows = some row ∧
              row.client sub.name = some client ∧ out.get? key = some client ∧
              client.tenant = sub.name) ∧
        ((∀ sub ∈ tree.dirs, ¬ sub.Lists key) → (∃ row ∈ tree.rootRows, row.key = some key) →
          ∃ row client, lastEntry key tree.rootRows = some row ∧
            row.client Keystore.defaultTenant = some client ∧ out.get? key = some client ∧
            client.tenant = Keystore.defaultTenant) ∧
        ((∀ sub ∈ tree.dirs, ¬ sub.Lists key) → (∀ row ∈ tree.rootRows, row.key ≠ some key) →
          out.get? key = none)) ∧
    (∀ a b : AllowlistTree, a.SameButTenants b → loadAllowlist a = loadAllowlist b) ∧
    ∀ tree : AllowlistTree, (∃ row ∈ tree.allRows, row.WrongLength) →
      (∃ e, loadAllowlist tree = .error e) ∧
        ∀ keystore : Keystore, keystore.inForce (fun _ => loadAllowlist tree)
          = keystore.allowlist := by
  refine ⟨?_, loadAllowlist_eraseTenants, ?_⟩
  · intro tree hwell
    rcases loadAllowlist_ok tree hwell with ⟨out, hout, hget⟩
    have hnone (key : Bytes) (hkey : ∀ sub ∈ tree.dirs, ¬ sub.Lists key) :
        lastWhere (fun sub => (TenantDir.decides key sub).isSome) (sortedDirs tree.dirs)
          = none := by
      rw [lastWhere_eq_none]
      intro sub hsub hsome
      have hmem := (mem_sortedDirs _ sub).mp hsub
      exact hkey sub hmem ((sub.decides_isSome_iff key (tree.names_ne sub hmem) fun row hrow =>
        hwell row (AllowlistTree.mem_allRows hmem hrow)).mp hsome)
    refine ⟨out, hout, fun key => ⟨?_, ?_, ?_⟩⟩
    · intro hlisted
      rcases loadAllowlist_listed tree hwell key hlisted with ⟨sub, hlast, hsub, hlists, hmax⟩
      rcases Option.isSome_iff_exists.mp (lastWhere_eq_some _ _ _ hlast).1 with ⟨client, hclient⟩
      have hfound := hget key
      rw [hlast, Option.bind_some, hclient, Option.some_or] at hfound
      rw [TenantDir.decides, Option.bind_eq_some_iff] at hclient
      rcases hclient with ⟨row, hrow, hclient⟩
      obtain ⟨client', -, hclient', -, htenant⟩ := row.load_ok sub.name (tree.names_ne sub hsub)
        (hwell row (AllowlistTree.mem_allRows hsub (lastWhere_eq_some _ _ _ hrow).2))
      rw [hclient, Option.some.injEq] at hclient'
      exact ⟨sub, hsub, hlists, hmax, row, client, hrow, hclient, hfound, hclient' ▸ htenant⟩
    · rintro hkey ⟨row, hrow, hrowKey⟩
      have hfound := hget key
      rw [hnone key hkey, Option.bind_none, Option.none_or] at hfound
      cases hlast : lastEntry key tree.rootRows with
      | none =>
          exact absurd (decide_eq_true hrowKey) ((lastWhere_eq_none _ _).mp hlast row hrow)
      | some last =>
          obtain ⟨client, -, hclient, -, htenant⟩ := last.load_ok Keystore.defaultTenant (by decide)
            (hwell last (List.mem_append_left _ (lastWhere_eq_some _ _ _ hlast).2))
          rw [hlast, Option.bind_some, hclient] at hfound
          exact ⟨last, client, rfl, hclient, hfound, htenant⟩
    · intro hkey hroot
      have hlast : lastEntry key tree.rootRows = none :=
        (lastWhere_eq_none _ _).mpr fun row hrow hrowKey =>
          hroot row hrow (of_decide_eq_true hrowKey)
      rw [hget key, hnone key hkey, hlast]
      rfl
  · intro tree hwrong
    rcases loadAllowlist_wrongLength tree hwrong with ⟨e, he⟩
    exact ⟨⟨e, he⟩, fun keystore => inForce_of_error keystore _ e fun _ => he⟩

/-- The theorem on two tenants and the root that all list one key. -/
theorem allowlist_confined_sample :
    let row (name : String) : ClientRow :=
      { name := some name, x25519Pk := some (b64e (pad32 [1])), ed25519Pk := some (b64e (pad32 [2]))
        tenant := some "evil" }
    let tree : AllowlistTree :=
      { root := some [row "r"]
        tenants := some [⟨"b", true, some [row "b", row "c"]⟩, ⟨"a", true, some [row "a"]⟩]
        names_nodup := by decide
        names_ne := by decide }
    ∃ out client, loadAllowlist tree = .ok out ∧ out.get? (pad32 [1]) = some client ∧
      client.tenant = "b" := by
  intro row tree
  have hdecode (b : Bytes) : decodeKey (some (b64e b)) = .ok b := by
    rw [decodeKey, b64e, b64decode_b64encode]
  have hrow (name : String) : (row name).WellFormed :=
    ⟨pad32 [1], pad32 [2], hdecode _, hdecode _, length_pad32 _, length_pad32 _⟩
  have hkey (name : String) : (row name).key = some (pad32 [1]) := by
    rw [ClientRow.key, hdecode]
    rfl
  have hrows : tree.allRows = [row "r", row "b", row "c", row "a"] := rfl
  obtain ⟨out, hout, hlookup⟩ := allowlist_confined.1 tree (by
    intro r hr
    rw [hrows] at hr
    simp only [List.mem_cons, List.not_mem_nil, or_false] at hr
    rcases hr with rfl | rfl | rfl | rfl
    · exact hrow "r"
    · exact hrow "b"
    · exact hrow "c"
    · exact hrow "a")
  have hb : (⟨"b", true, some [row "b", row "c"]⟩ : TenantDir) ∈ tree.dirs :=
    List.mem_cons_self
  have hlists : (⟨"b", true, some [row "b", row "c"]⟩ : TenantDir).Lists (pad32 [1]) :=
    ⟨row "b", List.mem_cons_self, hkey "b"⟩
  rcases (hlookup (pad32 [1])).1 ⟨_, hb, hlists⟩ with
    ⟨sub, hsub, -, hmax, _, client, -, -, hfound, htenant⟩
  refine ⟨out, client, hout, hfound, ?_⟩
  rw [htenant]
  rcases hmax _ hb hlists with rfl | hlt
  · rfl
  · -- No other directory comes after it.
    rcases List.mem_cons.mp hsub with rfl | hsub
    · rfl
    · rw [List.mem_singleton.mp hsub] at hlt
      exact absurd hlt (by decide)

end SecureLlm
