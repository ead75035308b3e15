import SecureLlm.Models.Registry

/-!
# Crashes and Restarts

What a registry makes of its directory when the server stops in the middle of a
download or a removal and is started again. On disk an operation is a list of
writes, and a crash leaves the first few of them. The list in memory is lost; the
new one is made from the sidecars, in whatever order they are found.

The ciphertext gets its name by a rename once it is complete. The sidecar does not:
it is truncated and then written. So a crash in between loses an entry whose
sidecar was there already. And a removal unlinks the ciphertext first, so after a
crash in between the entry is listed with nothing to load. Short of these two a
crash is harmless: the operation has happened, or it has not.

## Main definitions

* `Store`: A registry and the scratch files of its directory.
* `StoreOp.writes`, `Store.perform`: An operation on disk, and all of it.
* `Store.step`: An operation, or one that is cut short, and a restart.
* `Store.Consistent`: List and sidecars agree, and every entry has its ciphertext.
* `Store.AllOrNothing`: What a maintainer would want of a step.
* `Store.Unbroken`: The steps that are so.

## Theorems

* `Store.restart_paired`: A restart from sidecars that are in order.
* `Store.get_restart_lost`: A restart without a sidecar.
* `Store.crash_download_iff`, `Store.crash_remove_iff`: Where a crash is harmless.
* `crash_consistent_iff`: In which runs every operation is all or nothing.
-/

namespace SecureLlm

open Library

namespace Models

/-- A format whose entries are read back as they are written from then on, and that
    reads nothing from an incomplete sidecar. -/
structure EntryFormat.Plain {E M : Type} (fmt : EntryFormat E M) : Prop where
  stored_stored : ∀ e, fmt.stored (fmt.stored e) = fmt.stored e
  read_none : fmt.read none = none

theorem modelFormat_plain (time : ℚ) : (modelFormat time).Plain := ⟨fun _ => rfl, rfl⟩

theorem loraFormat_plain (time : ℚ) : (loraFormat time).Plain := ⟨fun _ => rfl, rfl⟩

/-- A registry, and the scratch files in its directory. -/
structure Store (E M : Type) where
  registry : Registry E M
  scratch : Dict String Bytes

/-- The end of a download, from its encryption on, or a removal. Midway the scratch
    file of a download holds something that is not complete. -/
inductive StoreOp (E : Type) where
  | download (entry : E) (ciphertext torn : Bytes)
  | remove (id : String)

/-- An operation, or one that is cut short after a number of writes, and a restart
    that finds the sidecars in some order. -/
inductive StoreEvent (E M : Type) where
  | perform (op : StoreOp E)
  | crash (op : StoreOp E) (n : ℕ) (found : List (Option M))

namespace Store

variable {E M : Type} (fmt : EntryFormat E M)

def start : Store E M := ⟨.start, .empty⟩

variable (s : Store E M)

def get (id : String) : Option E := s.registry.get id

def setCiphertexts (ciphertexts : Dict String Bytes) : Store E M :=
  { s with registry := { s.registry with ciphertexts } }

def setSidecars (sidecars : Dict String (Option M)) : Store E M :=
  { s with registry := { s.registry with sidecars } }

def setById (byId : Dict String E) : Store E M :=
  { s with registry := { s.registry with byId } }

/-- `dst.with_suffix(dst.suffix + ".tmp")`. -/
def scratchPath (entry : E) : String := fmt.ciphertextPath entry ++ ".tmp"

/-- What an operation writes, one after the other. A sidecar that is truncated, or
    written in part, is no JSON object. -/
def writes : StoreOp E → List (Store E M → Store E M)
  | .download entry ciphertext torn =>
    [fun s => { s with scratch := s.scratch.set (scratchPath fmt entry) torn },
      fun s => { s with scratch := s.scratch.set (scratchPath fmt entry) ciphertext },
      -- `os.replace`
      fun s => { s with scratch := s.scratch.erase (scratchPath fmt entry) }.setCiphertexts
        (s.registry.ciphertexts.set (fmt.ciphertextPath entry) ciphertext),
      fun s => s.setSidecars (s.registry.sidecars.set (fmt.path entry) none),
      fun s => s.setSidecars (s.registry.sidecars.set (fmt.path entry) (fmt.write entry))]
  | .remove id =>
    match s.get id with
    | none => []
    | some entry =>
      [fun s => s.setCiphertexts (s.registry.ciphertexts.erase (fmt.ciphertextPath entry)),
        fun s => s.setSidecars (s.registry.sidecars.erase (fmt.path entry))]

/-- The first of an operation's writes. -/
def written (op : StoreOp E) (n : ℕ) : Store E M :=
  ((s.writes fmt op).take n).foldl (fun s write => write s) s

/-- The whole operation: all its writes, and the list in memory. -/
def perform (op : StoreOp E) : Store E M :=
  let t := (s.writes fmt op).foldl (fun s write => write s) s
  match op with
  | .download entry _ _ => t.setById (s.registry.byId.set (fmt.id entry) entry)
  | .remove id => if (s.get id).isSome then t.setById (s.registry.byId.erase id) else t

/-- A registry is made over the directory again. -/
def restart (found : List (Option M)) : Store E M := s.setById (Registry.reload fmt found)

/-- One step. -/
def step [DecidableEq M] (s : Store E M) : StoreEvent E M → Option (Store E M)
  | .perform op => some (s.perform fmt op)
  | .crash op n found =>
    let t := s.written fmt op n
    if found.Perm t.registry.sidecars.values then some (t.restart fmt found) else none

/-- Every entry that is listed has its ciphertext. -/
def Sealed : Prop :=
  ∀ id entry, s.get id = some entry →
    (s.registry.ciphertexts.get? (fmt.ciphertextPath entry)).isSome = true

/-- The sidecars give the list back, and every entry has its ciphertext. -/
structure Consistent : Prop where
  persists : s.registry.Persists fmt
  hasCiphertext : s.Sealed fmt

/-- The list is another one as it is read back. -/
def ListsAs (live : Dict String E) : Prop :=
  ∀ id, s.get id = (live.get? id).map fmt.stored

/-- A step ends in a consistent store, and after a crash the operation has happened
    or it has not. -/
def AllOrNothing (e : StoreEvent E M) (u : Store E M) : Prop :=
  u.Consistent fmt ∧
    match e with
    | .perform _ => True
    | .crash op _ _ =>
        u.ListsAs fmt s.registry.byId ∨ u.ListsAs fmt (s.perform fmt op).registry.byId

/-- What is listed is careful, no crash comes between truncating a sidecar that was
    there and writing it, and none between the two files of a removal. -/
def Unbroken : StoreEvent E M → Prop
  | .perform (.download entry _ _) => s.registry.Careful fmt (.add entry)
  | .perform (.remove _) => True
  | .crash (.download entry _ _) n _ =>
    (n = 4 → ∀ id e, s.get id = some e → fmt.sha256 e ≠ fmt.sha256 entry) ∧
      (5 ≤ n → s.registry.Careful fmt (.add entry))
  | .crash (.remove id) n _ => (s.get id).isSome = true → n ≠ 1

/-- The sidecars are under the names of what is read from them. -/
def Named (sidecars : Dict String (Option M)) : Prop :=
  ∀ p f x, sidecars.get? p = some f → fmt.read f = some x → fmt.path x = p

variable {fmt s}

theorem Named.set {sidecars : Dict String (Option M)} (h : Named fmt sidecars) (entry : E)
    {g : Option M} (hg : ∀ x, fmt.read g = some x → fmt.path x = fmt.path entry) :
    Named fmt (sidecars.set (fmt.path entry) g) := by
  intro p f x hp hx
  rw [Dict.get?_set] at hp
  by_cases hpe : p = fmt.path entry
  · rw [if_pos hpe, Option.some.injEq] at hp
    rw [← hp] at hx
    rw [hpe]
    exact hg x hx
  · rw [if_neg hpe] at hp
    exact h p f x hp hx

theorem Named.erase {sidecars : Dict String (Option M)} (h : Named fmt sidecars) (path : String) :
    Named fmt (sidecars.erase path) := by
  intro p f x hp hx
  rw [Dict.get?_erase] at hp
  by_cases hpe : p = path
  · rw [if_pos hpe] at hp
    exact absurd hp (by simp)
  · rw [if_neg hpe] at hp
    exact h p f x hp hx

/-- The entries of a list that was made again are under their ids. -/
theorem id_of_reload {found : List (Option M)} {id : String} {e : E}
    (h : (Registry.reload fmt found).get? id = some e) : fmt.id e = id := by
  rcases Format.get?_rebuildFrom_cases fmt.toFormat Dict.empty found id with
    ⟨hsame, _⟩ | ⟨g, _, y, _, hy, hlast⟩
  · have hnone : (Registry.reload fmt found).get? id = none := hsame
    rw [hnone] at h
    exact absurd h (by simp)
  · have hsome : (Registry.reload fmt found).get? id = some y := hlast
    rw [hsome, Option.some.injEq] at h
    rw [← h]
    exact hy

theorem step_crash [DecidableEq M] {op : StoreOp E} {n : ℕ} {found : List (Option M)}
    {u : Store E M} (h : s.step fmt (.crash op n found) = some u) :
    found.Perm (s.written fmt op n).registry.sidecars.values ∧
      u = (s.written fmt op n).restart fmt found := by
  have hif : (if found.Perm (s.written fmt op n).registry.sidecars.values then
    some ((s.written fmt op n).restart fmt found) else none) = some u := h
  by_cases hperm : found.Perm (s.written fmt op n).registry.sidecars.values
  · rw [if_pos hperm, Option.some.injEq] at hif
    exact ⟨hperm, hif.symm⟩
  · rw [if_neg hperm] at hif
    exact absurd hif (by simp)

/-! ## What an operation leaves -/

@[simp] theorem perform_download (entry : E) (ciphertext torn : Bytes) :
    (s.perform fmt (.download entry ciphertext torn)).registry =
      (s.registry.encrypt fmt entry ciphertext).add fmt entry := by
  simp [perform, writes, setById, setSidecars, setCiphertexts, Registry.add, Registry.encrypt]

theorem writes_unlisted {id : String} (h : s.get id = none) : s.writes fmt (.remove id) = [] := by
  simp [writes, h]

theorem writes_listed {id : String} {entry : E} (h : s.get id = some entry) :
    s.writes fmt (.remove id) =
      [fun s => s.setCiphertexts (s.registry.ciphertexts.erase (fmt.ciphertextPath entry)),
        fun s => s.setSidecars (s.registry.sidecars.erase (fmt.path entry))] := by
  simp [writes, h]

@[simp] theorem perform_remove (id : String) :
    (s.perform fmt (.remove id)).registry = (s.registry.remove fmt id).1 := by
  unfold Registry.remove perform
  cases hget : s.get id with
  | none =>
      have hget' : s.registry.byId.get? id = none := hget
      simp [hget, hget', writes_unlisted hget]
  | some entry =>
      have hget' : s.registry.byId.get? id = some entry := hget
      simp [hget, hget', writes_listed hget, setById, setSidecars, setCiphertexts]

theorem filed_remove {r : Registry E M} (h : r.Filed fmt) (id : String) :
    (r.remove fmt id).1.Filed fmt :=
  have hstep : r.step fmt (.remove id) = some (r.remove fmt id).1 := rfl
  h.step hstep

/-! ## Restarts -/

/-- **A restart.** Where the sidecars are those of a list, the list is made again, as
    it is read back, and agrees with them. -/
theorem restart_paired (hplain : fmt.Plain) {live : Dict String E} {found : List (Option M)}
    (hfiled : fmt.toFormat.Filed live s.registry.sidecars)
    (hpaired : fmt.Paired live s.registry.sidecars.values)
    (hfound : found.Perm s.registry.sidecars.values) :
    (s.restart fmt found).ListsAs fmt live ∧ (s.restart fmt found).registry.Persists fmt := by
  have hagrees := (Format.agrees_iff live s.registry.sidecars.values hfiled.byId).mpr hpaired
  refine ⟨hagrees found hfound, fun order horder id => ?_⟩
  have hlist : (s.restart fmt found).registry.byId.get? id = (live.get? id).map fmt.stored :=
    hagrees found hfound id
  rw [hlist, hagrees order horder id, Option.map_map]
  cases live.get? id with
  | none => rfl
  | some e => exact congrArg some (hplain.stored_stored e).symm

theorem ciphertextPath_stored (e : E) : fmt.ciphertextPath (fmt.stored e) = fmt.ciphertextPath e :=
  (fmt.ciphertextPath_inj _ _).mpr ((fmt.path_inj _ _).mp (fmt.path_stored e))

/-- Every entry of the list made again has a ciphertext if it had one before. -/
theorem ListsAs.sealed {live : Dict String E} (h : s.ListsAs fmt live)
    (hlive : ∀ id e, live.get? id = some e →
      (s.registry.ciphertexts.get? (fmt.ciphertextPath e)).isSome = true) : s.Sealed fmt := by
  intro id entry hentry
  rw [h id] at hentry
  rcases Option.map_eq_some_iff.mp hentry with ⟨e, he, rfl⟩
  rw [ciphertextPath_stored]
  exact hlive id e he

/-- **A restart without a sidecar.** An entry whose sidecar has been replaced by one
    that gives its id to nobody is gone. -/
theorem get_restart_lost {r : Registry E M} {f : Option M} {found : List (Option M)} {id : String}
    {e : E} (hfiled : r.Filed fmt) (hpersists : r.Persists fmt) (he : r.get id = some e)
    (hread : ∀ x, fmt.read f = some x → fmt.id x ≠ id)
    (hfound : found.Perm (r.sidecars.set (fmt.path e) f).values) :
    (Registry.reload fmt found).get? id = none := by
  have hpaired := (Registry.persists_iff hfiled).mp hpersists
  rcases Format.get?_rebuildFrom_cases fmt.toFormat Dict.empty found id with
    ⟨hsame, _⟩ | ⟨f', hf', x, hx, hid, _⟩
  · exact hsame
  · exfalso
    rcases (Format.mem_values_iff f').mp (hfound.mem_iff.mp hf') with ⟨p, hp⟩
    rw [Dict.get?_set] at hp
    by_cases hpe : p = fmt.path e
    · rw [if_pos hpe] at hp
      rw [← Option.some.inj hp] at hx
      exact hread x hx hid
    · -- Any other sidecar that gives the id is the entry's own.
      rw [if_neg hpe] at hp
      rcases hpaired.listed f' ((Format.mem_values_iff f').mpr ⟨p, hp⟩) x hx with ⟨e', he', hstored⟩
      rw [hid] at he'
      have hsame : e' = e := by
        have he'' : r.byId.get? id = some e := he
        rw [he''] at he'
        exact (Option.some.inj he').symm
      have hpath := hfiled.byPath p f' x hp hx
      rw [← hstored, fmt.path_stored, hsame] at hpath
      exact hpe hpath.symm

/-- A crash that leaves the sidecars of one of the two lists, and the ciphertexts of
    its entries, is harmless. -/
theorem allOrNothing_restart (hplain : fmt.Plain) {t : Store E M} {op : StoreOp E} {n : ℕ}
    {live : Dict String E} {found : List (Option M)}
    (hlive : live = s.registry.byId ∨ live = (s.perform fmt op).registry.byId)
    (hfiled : fmt.toFormat.Filed live t.registry.sidecars)
    (hpaired : fmt.Paired live t.registry.sidecars.values)
    (hciphertexts : ∀ id e, live.get? id = some e →
      (t.registry.ciphertexts.get? (fmt.ciphertextPath e)).isSome = true)
    (hfound : found.Perm t.registry.sidecars.values) :
    s.AllOrNothing fmt (.crash op n found) (t.restart fmt found) := by
  rcases restart_paired hplain hfiled hpaired hfound with ⟨hlists, hpersists⟩
  refine ⟨⟨hpersists, ListsAs.sealed hlists hciphertexts⟩, ?_⟩
  rcases hlive with rfl | rfl
  · exact Or.inl hlists
  · exact Or.inr hlists

section Crash

variable (hfiled : s.registry.Filed fmt) (h : s.Consistent fmt)
include hfiled h

/-- A sidecar of contents that nobody has may be anything that is not read. -/
theorem paired_truncate (hplain : fmt.Plain) {entry : E}
    (hnew : ∀ id e, s.get id = some e → fmt.sha256 e ≠ fmt.sha256 entry) :
    fmt.toFormat.Filed s.registry.byId (s.registry.sidecars.set (fmt.path entry) none) ∧
      fmt.Paired s.registry.byId (s.registry.sidecars.set (fmt.path entry) none).values := by
  have hpaired := (Registry.persists_iff hfiled).mp h.persists
  have hnamed : Named fmt (s.registry.sidecars.set (fmt.path entry) none) :=
    Named.set hfiled.byPath entry fun x hx => by
      rw [hplain.read_none] at hx
      exact absurd hx (by simp)
  refine ⟨⟨hfiled.byId, hnamed⟩, fun id e he => ?_, fun f hf x hx => ?_⟩
  · rcases hpaired.file hfiled he with ⟨f, hf, hread⟩
    have hpath : fmt.path e ≠ fmt.path entry := fun hc =>
      hnew id e he ((fmt.path_inj _ _).mp hc)
    exact ⟨f, (Format.mem_values_iff f).mpr ⟨_, by rw [Dict.get?_set, if_neg hpath, hf]⟩, hread⟩
  · rcases (Format.mem_values_iff f).mp hf with ⟨p, hp⟩
    rw [Dict.get?_set] at hp
    by_cases hpe : p = fmt.path entry
    · rw [if_pos hpe] at hp
      rw [← Option.some.inj hp, hplain.read_none] at hx
      exact absurd hx (by simp)
    · rw [if_neg hpe] at hp
      exact hpaired.listed f ((Format.mem_values_iff f).mpr ⟨p, hp⟩) x hx

omit hfiled in
/-- Once the new ciphertext is there every entry still has one, and so has the new. -/
theorem isSome_ciphertexts_set (entry : E) (ciphertext : Bytes) (id : String) (e : E)
    (he : (s.registry.byId.set (fmt.id entry) entry).get? id = some e ∨ s.get id = some e) :
    ((s.registry.ciphertexts.set (fmt.ciphertextPath entry) ciphertext).get?
      (fmt.ciphertextPath e)).isSome = true := by
  rw [Dict.get?_set]
  by_cases hpath : fmt.ciphertextPath e = fmt.ciphertextPath entry
  · rw [if_pos hpath]
    rfl
  · rw [if_neg hpath]
    rcases he with hset | hold
    · rw [Dict.get?_set] at hset
      by_cases hid : id = fmt.id entry
      · rw [if_pos hid, Option.some.injEq] at hset
        exact absurd (by rw [hset]) hpath
      · rw [if_neg hid] at hset
        exact h.hasCiphertext id e hset
    · exact h.hasCiphertext id e hold

/-- A whole download is consistent if what it lists is careful. -/
theorem perform_download_iff (entry : E) (ciphertext torn : Bytes) :
    s.registry.Careful fmt (.add entry) ↔
      (s.perform fmt (.download entry ciphertext torn)).Consistent fmt := by
  have hencrypted : (s.registry.encrypt fmt entry ciphertext).Filed fmt := hfiled
  have hiff : (s.registry.encrypt fmt entry ciphertext).Careful fmt (.add entry) ↔ _ :=
    Registry.persists_step_iff hencrypted h.persists rfl
  constructor
  · intro hcareful
    refine ⟨?_, fun id e he => ?_⟩
    · rw [perform_download]
      exact hiff.mp hcareful
    · rw [get, perform_download] at he
      rw [perform_download]
      exact isSome_ciphertexts_set h entry ciphertext id e (Or.inl he)
  · intro hu
    have hpersists := hu.persists
    rw [perform_download] at hpersists
    exact hiff.mpr hpersists

/-- No two entries have the same contents. -/
theorem sha256_ne {id id' : String} {e e' : E} (he : s.get id = some e) (he' : s.get id' = some e')
    (hne : id' ≠ id) : fmt.sha256 e' ≠ fmt.sha256 e := by
  intro hsame
  have hpaired := (Registry.persists_iff hfiled).mp h.persists
  rcases hpaired.file hfiled he with ⟨f, hf, hread⟩
  rcases hpaired.file hfiled he' with ⟨f', hf', hread'⟩
  rw [(fmt.path_inj e' e).mpr hsame, hf] at hf'
  rw [← Option.some.inj hf', hread] at hread'
  have hid := congrArg fmt.id (Option.some.inj hread')
  rw [fmt.id_stored, fmt.id_stored, hfiled.byId id e he, hfiled.byId id' e' he'] at hid
  exact hne hid.symm

/-- Removing an entry takes no other's ciphertext. -/
theorem isSome_ciphertexts_erase {id : String} {entry : E} (hentry : s.get id = some entry)
    (id' : String) (e : E) (he : (s.registry.byId.erase id).get? id' = some e) :
    ((s.registry.ciphertexts.erase (fmt.ciphertextPath entry)).get?
      (fmt.ciphertextPath e)).isSome = true := by
  rw [Dict.get?_erase] at he
  by_cases hid : id' = id
  · rw [if_pos hid] at he
    exact absurd he (by simp)
  · rw [if_neg hid] at he
    have hne := sha256_ne hfiled h hentry he hid
    rw [Dict.get?_erase, if_neg fun hc => hne ((fmt.ciphertextPath_inj _ _).mp hc)]
    exact h.hasCiphertext id' e he

/-- And a whole removal always is. -/
theorem perform_remove_consistent (id : String) :
    (s.perform fmt (.remove id)).Consistent fmt := by
  refine ⟨?_, fun id' e he => ?_⟩
  · rw [perform_remove]
    have hcareful : s.registry.Careful fmt (.remove id) := trivial
    exact (Registry.persists_step_iff hfiled h.persists rfl).mp hcareful
  · rw [get, perform_remove] at he
    rw [perform_remove]
    unfold Registry.remove at he ⊢
    cases hget : s.registry.byId.get? id with
    | none =>
        simp only [hget] at he ⊢
        exact h.hasCiphertext id' e he
    | some entry =>
        simp only [hget] at he ⊢
        exact isSome_ciphertexts_erase hfiled h hget id' e he

omit hfiled h in
/-- What is listed is listed after a download, whether it has happened or not. -/
theorem AllOrNothing.listed {entry : E} {ciphertext torn : Bytes} {n : ℕ} {found : List (Option M)}
    {u : Store E M}
    (hall : s.AllOrNothing fmt (.crash (.download entry ciphertext torn) n found) u) {id : String}
    {e : E} (he : s.get id = some e) : u.get id ≠ none := by
  have hbyId : s.registry.byId.get? id = some e := he
  rcases hall.2 with hold | hnew
  · rw [hold id, hbyId]
    simp
  · rw [hnew id, perform_download]
    unfold Registry.add
    rw [Dict.get?_set]
    by_cases hid : id = fmt.id entry
    · rw [if_pos hid]
      simp
    · rw [if_neg hid]
      show (s.registry.byId.get? id).map fmt.stored ≠ none
      rw [hbyId]
      simp

omit hfiled h in
/-- A list that was made again from the sidecars and agrees with them lists no two of
    them under one id. -/
theorem stored_eq_of_persists {r : Registry E M} {found : List (Option M)} {f f' : Option M}
    {x x' : E} (hbyId : r.byId = Registry.reload fmt found) (hpersists : r.Persists fmt)
    (hf : f ∈ r.sidecars.values) (hx : fmt.read f = some x) (hf' : f' ∈ r.sidecars.values)
    (hx' : fmt.read f' = some x') (hid : fmt.id x = fmt.id x') : x = x' := by
  have hids : ∀ i e, r.byId.get? i = some e → fmt.id e = i := by
    intro i e he
    rw [hbyId] at he
    exact id_of_reload he
  have hpaired := (Format.agrees_iff r.byId r.sidecars.values hids).mp hpersists
  rcases hpaired.listed f hf x hx with ⟨e, he, hstored⟩
  rcases hpaired.listed f' hf' x' hx' with ⟨e', he', hstored'⟩
  rw [← hid, he, Option.some.injEq] at he'
  rw [← hstored, ← hstored', he']

/-- **A download that is cut short** is all or nothing unless the crash comes right
    after the sidecar of listed contents was truncated, or what it had listed by then
    is not careful. -/
theorem crash_download_iff (hplain : fmt.Plain) (entry : E) (ciphertext torn : Bytes) (n : ℕ)
    (found : List (Option M))
    (hfound : found.Perm
      (s.written fmt (.download entry ciphertext torn) n).registry.sidecars.values) :
    s.Unbroken fmt (.crash (.download entry ciphertext torn) n found) ↔
      s.AllOrNothing fmt (.crash (.download entry ciphertext torn) n found)
        ((s.written fmt (.download entry ciphertext torn) n).restart fmt found) := by
  have hpaired := (Registry.persists_iff hfiled).mp h.persists
  -- Up to the rename, and after it, nothing that is listed is touched.
  have hearly : ∀ t : Store E M, t.registry.sidecars = s.registry.sidecars →
      (t.registry.ciphertexts = s.registry.ciphertexts ∨ t.registry.ciphertexts =
        s.registry.ciphertexts.set (fmt.ciphertextPath entry) ciphertext) →
      found.Perm t.registry.sidecars.values →
      s.AllOrNothing fmt (.crash (.download entry ciphertext torn) n found)
        (t.restart fmt found) := by
    intro t hsidecars hciphertexts hperm
    refine allOrNothing_restart hplain (Or.inl rfl) ?_ ?_ (fun id e he => ?_) hperm
    · rw [hsidecars]
      exact hfiled
    · rw [hsidecars]
      exact hpaired
    · rcases hciphertexts with hsame | hset
      · rw [hsame]
        exact h.hasCiphertext id e he
      · rw [hset]
        exact isSome_ciphertexts_set h entry ciphertext id e (Or.inr he)
  by_cases hlate : 5 ≤ n
  · have hwritten : (s.written fmt (.download entry ciphertext torn) n).registry.sidecars =
        s.registry.sidecars.set (fmt.path entry) (fmt.write entry) ∧
        (s.written fmt (.download entry ciphertext torn) n).registry.ciphertexts =
          s.registry.ciphertexts.set (fmt.ciphertextPath entry) ciphertext := by
      unfold written
      rw [List.take_of_length_le (by simp [writes]; omega)]
      simp [writes, setSidecars, setCiphertexts]
    rw [hwritten.1] at hfound
    constructor
    · intro hok
      have hapart := Registry.apart_iff entry |>.mpr (hok.2 hlate)
      refine allOrNothing_restart hplain (Or.inr rfl) ?_ ?_ (fun id e he => ?_)
        (by rw [hwritten.1]; exact hfound)
      · rw [hwritten.1, perform_download]
        exact Format.Filed.add hfiled entry
      · rw [hwritten.1, perform_download]
        exact (Format.paired_add_iff hpaired hfiled entry).mpr hapart
      · rw [hwritten.2]
        rw [perform_download] at he
        exact isSome_ciphertexts_set h entry ciphertext id e (Or.inl he)
    · intro hall
      refine ⟨fun hc => absurd hc (by omega), fun _ id e he => ⟨fun hid => ?_, fun hsame => ?_⟩⟩
      · -- The sidecar the id had before would give it too.
        by_contra hne
        have hpath : fmt.path e ≠ fmt.path entry := fun hc => hne ((fmt.path_inj _ _).mp hc)
        rcases hpaired.file hfiled he with ⟨f, hf, hread⟩
        have hold :
            f ∈ (s.written fmt (.download entry ciphertext torn) n).registry.sidecars.values :=
          (Format.mem_values_iff f).mpr
            ⟨fmt.path e, by rw [hwritten.1, Dict.get?_set, if_neg hpath, hf]⟩
        have hnew : fmt.write entry ∈
            (s.written fmt (.download entry ciphertext torn) n).registry.sidecars.values :=
          (Format.mem_values_iff _).mpr
            ⟨fmt.path entry, by rw [hwritten.1, Dict.get?_set, if_pos rfl]⟩
        have hstored : fmt.stored e = fmt.stored entry :=
          stored_eq_of_persists rfl hall.1.persists hold hread hnew (fmt.read_write entry)
            (by rw [fmt.id_stored, fmt.id_stored, hfiled.byId id e he, hid])
        have hpaths := congrArg fmt.path hstored
        rw [fmt.path_stored, fmt.path_stored] at hpaths
        exact hpath hpaths
      · by_contra hne
        refine hall.listed he ?_
        refine get_restart_lost (f := fmt.write entry) hfiled h.persists he (fun x hx hid => ?_) ?_
        · rw [fmt.read_write, Option.some.injEq] at hx
          rw [← hx, fmt.id_stored] at hid
          exact hne hid.symm
        · rw [(fmt.path_inj e entry).mpr hsame]
          exact hfound
  · by_cases hfour : n = 4
    · have hwritten : (s.written fmt (.download entry ciphertext torn) n).registry.sidecars =
          s.registry.sidecars.set (fmt.path entry) none ∧
          (s.written fmt (.download entry ciphertext torn) n).registry.ciphertexts =
            s.registry.ciphertexts.set (fmt.ciphertextPath entry) ciphertext := by
        rw [hfour]
        exact ⟨rfl, rfl⟩
      rw [hwritten.1] at hfound
      constructor
      · intro hok
        have htruncated := paired_truncate hfiled h hplain (hok.1 hfour)
        refine allOrNothing_restart hplain (Or.inl rfl) ?_ ?_ (fun id e he => ?_)
          (by rw [hwritten.1]; exact hfound)
        · rw [hwritten.1]
          exact htruncated.1
        · rw [hwritten.1]
          exact htruncated.2
        · rw [hwritten.2]
          exact isSome_ciphertexts_set h entry ciphertext id e (Or.inr he)
      · intro hall
        refine ⟨fun _ id e he hsame => hall.listed he ?_, fun hc => absurd hc hlate⟩
        refine get_restart_lost (f := none) hfiled h.persists he (fun x hx => ?_) ?_
        · rw [hplain.read_none] at hx
          exact absurd hx (by simp)
        · rw [(fmt.path_inj e entry).mpr hsame]
          exact hfound
    · refine iff_of_true ⟨fun hc => absurd hc hfour, fun hc => absurd hc hlate⟩ ?_
      have hcases : n = 0 ∨ n = 1 ∨ n = 2 ∨ n = 3 := by omega
      rcases hcases with rfl | rfl | rfl | rfl
      · exact hearly _ rfl (Or.inl rfl) hfound
      · exact hearly _ rfl (Or.inl rfl) hfound
      · exact hearly _ rfl (Or.inl rfl) hfound
      · exact hearly _ rfl (Or.inr rfl) hfound

/-- **A removal that is cut short** is all or nothing unless the crash comes between
    its two files. -/
theorem crash_remove_iff (hplain : fmt.Plain) (id : String) (n : ℕ) (found : List (Option M))
    (hfound : found.Perm (s.written fmt (.remove id) n).registry.sidecars.values) :
    s.Unbroken fmt (.crash (.remove id) n found) ↔
      s.AllOrNothing fmt (.crash (.remove id) n found)
        ((s.written fmt (.remove id) n).restart fmt found) := by
  have hpaired := (Registry.persists_iff hfiled).mp h.persists
  cases hget : s.get id with
  | none =>
      have hwritten : s.written fmt (.remove id) n = s := by
        unfold written
        rw [writes_unlisted hget, List.take_nil, List.foldl_nil]
      rw [hwritten] at hfound ⊢
      refine iff_of_true (fun hc => ?_) ?_
      · rw [hget] at hc
        exact absurd hc (by simp)
      · exact allOrNothing_restart hplain (Or.inl rfl) hfiled hpaired h.hasCiphertext hfound
  | some entry =>
      by_cases hzero : n = 0
      · rw [hzero] at hfound ⊢
        refine iff_of_true (fun _ => by omega) ?_
        exact allOrNothing_restart hplain (Or.inl rfl) hfiled hpaired h.hasCiphertext hfound
      · by_cases hone : n = 1
        · have hwritten : s.written fmt (.remove id) n = s.setCiphertexts
              (s.registry.ciphertexts.erase (fmt.ciphertextPath entry)) := by
            unfold written
            rw [writes_listed hget, hone]
            rfl
          rw [hwritten] at hfound ⊢
          refine iff_of_false (fun hc => hc (by rw [hget]; rfl) hone) (fun hall => ?_)
          -- The entry is listed, and its ciphertext is not there.
          have hlists := (restart_paired (s := s.setCiphertexts
            (s.registry.ciphertexts.erase (fmt.ciphertextPath entry))) hplain hfiled hpaired
              hfound).1 id
          have hbyId : s.registry.byId.get? id = some entry := hget
          rw [hbyId, Option.map_some] at hlists
          have hthere := hall.1.hasCiphertext id _ hlists
          rw [ciphertextPath_stored] at hthere
          have hgone : (s.registry.ciphertexts.erase (fmt.ciphertextPath entry)).get?
              (fmt.ciphertextPath entry) = none := by
            rw [Dict.get?_erase, if_pos rfl]
          have hsome : ((s.registry.ciphertexts.erase (fmt.ciphertextPath entry)).get?
            (fmt.ciphertextPath entry)).isSome = true := hthere
          rw [hgone] at hsome
          exact absurd hsome (by simp)
        · have hwritten : s.written fmt (.remove id) n =
              (s.setCiphertexts (s.registry.ciphertexts.erase (fmt.ciphertextPath entry))).setSidecars
                (s.registry.sidecars.erase (fmt.path entry)) := by
            unfold written
            rw [writes_listed hget, List.take_of_length_le (by simp; omega)]
            rfl
          rw [hwritten] at hfound ⊢
          have hlist : s.registry.byId.erase id = (s.perform fmt (.remove id)).registry.byId := by
            rw [perform_remove]
            unfold Registry.remove
            have hbyId : s.registry.byId.get? id = some entry := hget
            rw [hbyId]
          refine iff_of_true (fun _ => hone) ?_
          exact allOrNothing_restart hplain (Or.inr hlist)
            (Format.Filed.remove hfiled id (fmt.path entry))
            (Format.paired_remove hpaired hfiled hget) (isSome_ciphertexts_erase hfiled h hget) hfound

end Crash

/-! ## Runs -/

theorem consistent_start : (start : Store E M).Consistent fmt :=
  ⟨Registry.persists_start, fun _ _ he => absurd he (by simp [get, start, Registry.get,
    Registry.start])⟩

/-- One write leaves the sidecars under their names. -/
theorem named_write (hplain : fmt.Plain) {op : StoreOp E} {write : Store E M → Store E M}
    (hwrite : write ∈ s.writes fmt op) {t : Store E M} (ht : Named fmt t.registry.sidecars) :
    Named fmt (write t).registry.sidecars := by
  cases op with
  | download entry ciphertext torn =>
      simp only [writes, List.mem_cons, List.not_mem_nil, or_false] at hwrite
      rcases hwrite with rfl | rfl | rfl | rfl | rfl
      · exact ht
      · exact ht
      · exact ht
      · exact ht.set entry fun x hx => by
          rw [hplain.read_none] at hx
          exact absurd hx (by simp)
      · exact ht.set entry fun x hx => by
          rw [fmt.read_write, Option.some.injEq] at hx
          rw [← hx, fmt.path_stored]
  | remove id =>
      cases hget : s.get id with
      | none =>
          rw [writes_unlisted hget] at hwrite
          exact absurd hwrite List.not_mem_nil
      | some entry =>
          rw [writes_listed hget] at hwrite
          simp only [List.mem_cons, List.not_mem_nil, or_false] at hwrite
          rcases hwrite with rfl | rfl
          · exact ht
          · exact ht.erase _

/-- And so do any number of them. -/
theorem named_written (hplain : fmt.Plain) (hfiled : s.registry.Filed fmt) (op : StoreOp E)
    (n : ℕ) : Named fmt (s.written fmt op n).registry.sidecars := by
  have hfold : ∀ (ws : List (Store E M → Store E M)) (t : Store E M),
      (∀ write ∈ ws, write ∈ s.writes fmt op) → Named fmt t.registry.sidecars →
      Named fmt (ws.foldl (fun s write => write s) t).registry.sidecars := by
    intro ws
    induction ws with
    | nil => exact fun t _ ht => ht
    | cons write ws ih =>
        intro t hmem ht
        exact ih (write t) (fun w hw => hmem w (List.mem_cons_of_mem _ hw))
          (named_write hplain (hmem write List.mem_cons_self) ht)
  exact hfold _ s (fun write hwrite => List.mem_of_mem_take hwrite) hfiled.byPath

/-- Each step keeps entries and sidecars under their names. -/
theorem filed_step [DecidableEq M] (hplain : fmt.Plain) {e : StoreEvent E M} {u : Store E M}
    (hfiled : s.registry.Filed fmt) (hstep : s.step fmt e = some u) : u.registry.Filed fmt := by
  cases e with
  | perform op =>
      rw [← Option.some.inj hstep]
      cases op with
      | download entry ciphertext torn =>
          rw [perform_download]
          exact Format.Filed.add hfiled entry
      | remove id =>
          rw [perform_remove]
          exact filed_remove hfiled id
  | crash op n found =>
      rw [(step_crash hstep).2]
      exact ⟨fun _ _ he => id_of_reload he, named_written hplain hfiled op n⟩

/-- **The step lemma.** -/
theorem unbroken_iff [DecidableEq M] (hplain : fmt.Plain) {e : StoreEvent E M} {u : Store E M}
    (hfiled : s.registry.Filed fmt) (h : s.Consistent fmt) (hstep : s.step fmt e = some u) :
    s.Unbroken fmt e ↔ s.AllOrNothing fmt e u := by
  cases e with
  | perform op =>
      rw [← Option.some.inj hstep]
      cases op with
      | download entry ciphertext torn =>
          refine (perform_download_iff hfiled h entry ciphertext torn).trans ?_
          exact ⟨fun hu => ⟨hu, trivial⟩, fun hu => hu.1⟩
      | remove id => exact iff_of_true trivial ⟨perform_remove_consistent hfiled h id, trivial⟩
  | crash op n found =>
      rcases step_crash hstep with ⟨hfound, rfl⟩
      cases op with
      | download entry ciphertext torn =>
          exact crash_download_iff hfiled h hplain entry ciphertext torn n found hfound
      | remove id => exact crash_remove_iff hfiled h hplain id n found hfound

end Store

open Store Transition

/-- **Crash consistency.** The runs of downloads, removals and crashes in which no
    listed id gets other contents, no listed contents another id, and no crash comes
    right after the sidecar of listed contents was truncated or between the two files
    of a removal, are those after each step of which the directory gives the list
    back, every entry has its ciphertext, and an operation that was cut short has
    happened or has not. -/
theorem crash_consistent_iff {E M : Type} [DecidableEq M] (fmt : EntryFormat E M)
    (hplain : fmt.Plain) (s : Store E M) :
    Run (step fmt) (fun t e _ => Unbroken fmt t e) start s ↔
      Run (step fmt) (AllOrNothing fmt) start s :=
  run_iff_steps (fun t => t.registry.Filed fmt) (Consistent fmt) (fun t e _ => Unbroken fmt t e)
    (AllOrNothing fmt) Registry.filed_start consistent_start
    (fun _ _ _ hfiled hstep => filed_step hplain hfiled hstep) (fun _ _ _ hu => hu.1)
    (fun _ _ _ hfiled h hstep => unbroken_iff hplain hfiled h hstep)

/-- A check for unbroken steps. -/
def Store.unbroken {E M : Type} (fmt : EntryFormat E M) (s : Store E M) : StoreEvent E M → Bool
  | .perform (.download entry _ _) => s.registry.byId.entries.all fun p =>
      decide (p.1 = fmt.id entry ↔ fmt.sha256 p.2 = fmt.sha256 entry)
  | .perform (.remove _) => true
  | .crash (.download entry _ _) n _ => decide (n < 5) && s.registry.byId.entries.all fun p =>
      decide (fmt.sha256 p.2 ≠ fmt.sha256 entry)
  | .crash (.remove _) n _ => decide (n ≠ 1)

theorem Store.unbroken_sound {E M : Type} {fmt : EntryFormat E M} {s : Store E M}
    {e : StoreEvent E M} (h : s.unbroken fmt e = true) : s.Unbroken fmt e := by
  have hmem : ∀ id e, s.registry.get id = some e → (id, e) ∈ s.registry.byId.entries :=
    fun id e he => (s.registry.byId.mem_entries_iff id e).mpr he
  cases e with
  | perform op =>
      cases op with
      | download entry ciphertext torn =>
          exact fun id e he => of_decide_eq_true (List.all_eq_true.mp h _ (hmem id e he))
      | remove id => trivial
  | crash op n found =>
      cases op with
      | download entry ciphertext torn =>
          rcases Bool.and_eq_true_iff.mp h with ⟨hn, hall⟩
          have hlt : n < 5 := of_decide_eq_true hn
          refine ⟨fun _ id e he => ?_, fun hc => absurd hc (by omega)⟩
          exact of_decide_eq_true (p := fmt.sha256 e ≠ fmt.sha256 entry)
            (List.all_eq_true.mp hall _ (hmem id e he))
      | remove id => exact fun _ => of_decide_eq_true (p := n ≠ 1) h

/-- The same on a run: a download is cut short before its sidecar is written and done
    again, and a removal after its files are gone. -/
theorem crash_consistent_iff_sample :
    ∃ s : Store ModelEntry ModelMeta, (s.registry.byId.entries.map Prod.fst = ["llama"] ∧
      s.registry.ciphertexts.entries.map Prod.fst = ["1.gguf.age"]) ∧
      Run (step (modelFormat 0)) (AllOrNothing (modelFormat 0)) start s := by
  have hplay : ((playIf (Store.unbroken (modelFormat 0)) (step (modelFormat 0)) start
      [.crash (.download (.sample "llama" "1") [1, 2] [1]) 4 [none],
        .perform (.download (.sample "llama" "1") [1, 2] []),
        .perform (.download (.sample "mistral" "2") [3] []),
        .crash (.remove "mistral") 2 [some (writeMeta (.sample "llama" "1"))]]).any (fun s =>
          decide (s.registry.byId.entries.map Prod.fst = ["llama"] ∧
            s.registry.ciphertexts.entries.map Prod.fst = ["1.gguf.age"]))) = true := by
    decide +kernel
  rcases (Option.any_eq_true _ _).mp hplay with ⟨s, hs, hend⟩
  refine ⟨s, of_decide_eq_true hend, ?_⟩
  exact (crash_consistent_iff (modelFormat 0) (modelFormat_plain 0) s).mp
    (run_of_playIf _ _ (fun _ _ _ h => Store.unbroken_sound h) hs)

end Models

end SecureLlm
