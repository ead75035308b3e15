import Mathlib.Data.Rat.Defs
import SecureLlm.Library.Catalog
import SecureLlm.Library.Transition
import SecureLlm.Library.Encoding

/-!
# The Registries

The catalogs of encrypted models and of LoRA adapters. A registry lists entries
by id, and for each it has two files in its directory, a sidecar with the
metadata and the ciphertext, both named by the hash of the plaintext. When the
server starts, the list is made again from the sidecars.

The two registries do the same to different entries, so they are one registry
over two formats. A directory is kept as two tables here, the sidecars and the
ciphertexts: the endings of their names tell them apart.

The list is by id and the files are by hash. They go apart when an id gets new
contents, whose sidecar does not replace the old one, and when two ids have the
same contents, whose sidecars do replace each other.

## Main definitions

* `ModelEntry`, `LoraEntry`: What a registry lists.
* `ModelMeta`, `LoraMeta`: The JSON objects in the sidecars.
* `writeMeta`, `readMeta`, `writeLoraMeta`, `readLoraMeta`: To and from them.
* `Registry`: A registry and its directory.
* `Registry.reload`, `Registry.get`, `Registry.add`, `Registry.remove`: Its
  operations.
* `Registry.Persists`: Reading the sidecars again gives the list back.
* `Registry.Careful`: The operations that keep it so.

## Theorems

* `Registry.persists_step_iff`: Which operations keep list and files together.
* `registry_persists`: The runs of careful operations are the runs that persist.
* `superseded_model_returns`: A model that was replaced and is back after a
  restart.
-/

namespace SecureLlm

open Library

namespace Models

def defaultTenant : String := "default"

structure ModelEntry where
  id : String
  sha256Plaintext : String
  repoId : String
  filename : String
  bytesPlaintext : ℕ
  bytesCiphertext : ℕ
  nCtxMax : Option ℤ := none
  downloadedAt : ℚ
  tenant : String := defaultTenant
  clipCompanion : Option String := none
  deriving DecidableEq

def ModelEntry.ciphertextPath (entry : ModelEntry) : String := entry.sha256Plaintext ++ ".gguf.age"

def ModelEntry.metaPath (entry : ModelEntry) : String := entry.sha256Plaintext ++ ".meta.json"

structure LoraEntry where
  id : String
  sha256Plaintext : String
  repoId : String
  filename : String
  bytesPlaintext : ℕ
  bytesCiphertext : ℕ
  baseModelId : Option String := none
  downloadedAt : ℚ
  deriving DecidableEq

def LoraEntry.ciphertextPath (entry : LoraEntry) : String :=
  entry.sha256Plaintext ++ ".lora.gguf.age"

def LoraEntry.metaPath (entry : LoraEntry) : String := entry.sha256Plaintext ++ ".lora.meta.json"

/-- The JSON object in a model's sidecar. The last three fields may be missing. -/
structure ModelMeta where
  id : String
  sha256 : String
  repoId : String
  filename : String
  bytesPlaintext : ℕ
  bytesCiphertext : ℕ
  nCtxMax : Option ℤ
  downloadedAt : Option ℚ
  clipCompanion : Option String
  deriving DecidableEq

/-- The JSON object in an adapter's sidecar. The last two fields may be missing. -/
structure LoraMeta where
  id : String
  sha256 : String
  repoId : String
  filename : String
  bytesPlaintext : ℕ
  bytesCiphertext : ℕ
  baseModelId : Option String
  downloadedAt : Option ℚ
  deriving DecidableEq

def writeMeta (entry : ModelEntry) : ModelMeta where
  id := entry.id
  sha256 := entry.sha256Plaintext
  repoId := entry.repoId
  filename := entry.filename
  bytesPlaintext := entry.bytesPlaintext
  bytesCiphertext := entry.bytesCiphertext
  nCtxMax := entry.nCtxMax
  downloadedAt := some entry.downloadedAt
  clipCompanion := entry.clipCompanion

/-- The entry in a sidecar. The time is for one that does not say when it was
    downloaded. The tenant is not in the sidecar. -/
def readMeta (time : ℚ) (data : ModelMeta) : ModelEntry where
  id := data.id
  sha256Plaintext := data.sha256
  repoId := data.repoId
  filename := data.filename
  bytesPlaintext := data.bytesPlaintext
  bytesCiphertext := data.bytesCiphertext
  nCtxMax := data.nCtxMax
  downloadedAt := data.downloadedAt.getD time
  clipCompanion := data.clipCompanion

def writeLoraMeta (entry : LoraEntry) : LoraMeta where
  id := entry.id
  sha256 := entry.sha256Plaintext
  repoId := entry.repoId
  filename := entry.filename
  bytesPlaintext := entry.bytesPlaintext
  bytesCiphertext := entry.bytesCiphertext
  baseModelId := entry.baseModelId
  downloadedAt := some entry.downloadedAt

def readLoraMeta (time : ℚ) (data : LoraMeta) : LoraEntry where
  id := data.id
  sha256Plaintext := data.sha256
  repoId := data.repoId
  filename := data.filename
  bytesPlaintext := data.bytesPlaintext
  bytesCiphertext := data.bytesCiphertext
  baseModelId := data.baseModelId
  downloadedAt := data.downloadedAt.getD time

/-- How a registry names and writes its entries: what a `Format` says, and the
    name of the ciphertext. A sidecar that is no JSON object is `none`. -/
structure EntryFormat (E M : Type) extends Format String String E (Option M) where
  sha256 : E → String
  ciphertextPath : E → String
  path_inj : ∀ e e', path e = path e' ↔ sha256 e = sha256 e'
  ciphertextPath_inj : ∀ e e', ciphertextPath e = ciphertextPath e' ↔ sha256 e = sha256 e'

theorem append_right_inj_iff (a b suffix : String) : a ++ suffix = b ++ suffix ↔ a = b := by
  constructor
  · intro h
    have hlist := congrArg String.toList h
    rw [String.toList_append, String.toList_append] at hlist
    exact String.toList_inj.mp (List.append_cancel_right hlist)
  · rintro rfl
    rfl

/-- Models, read back at a time. -/
def modelFormat (time : ℚ) : EntryFormat ModelEntry ModelMeta where
  id := ModelEntry.id
  path := ModelEntry.metaPath
  write entry := some (writeMeta entry)
  read := Option.map (readMeta time)
  stored entry := { entry with tenant := defaultTenant }
  read_write _ := rfl
  id_stored _ := rfl
  path_stored _ := rfl
  sha256 := ModelEntry.sha256Plaintext
  ciphertextPath := ModelEntry.ciphertextPath
  path_inj _ _ := append_right_inj_iff _ _ _
  ciphertextPath_inj _ _ := append_right_inj_iff _ _ _

/-- Adapters, read back at a time. -/
def loraFormat (time : ℚ) : EntryFormat LoraEntry LoraMeta where
  id := LoraEntry.id
  path := LoraEntry.metaPath
  write entry := some (writeLoraMeta entry)
  read := Option.map (readLoraMeta time)
  stored entry := entry
  read_write _ := rfl
  id_stored _ := rfl
  path_stored _ := rfl
  sha256 := LoraEntry.sha256Plaintext
  ciphertextPath := LoraEntry.ciphertextPath
  path_inj _ _ := append_right_inj_iff _ _ _
  ciphertextPath_inj _ _ := append_right_inj_iff _ _ _

/-- A registry with its directory: the sidecars and the ciphertexts by name. -/
structure Registry (E M : Type) where
  byId : Dict String E
  sidecars : Dict String (Option M)
  ciphertexts : Dict String Bytes

abbrev ModelRegistry : Type := Registry ModelEntry ModelMeta

abbrev LoraRegistry : Type := Registry LoraEntry LoraMeta

namespace Registry

variable {E M : Type} (fmt : EntryFormat E M)

/-- A registry over an empty directory. -/
def start : Registry E M := ⟨.empty, .empty, .empty⟩

/-- `_reload`, with the sidecars in the order `glob` finds them in. -/
def reload (found : List (Option M)) : Dict String E := fmt.rebuild found

variable (r : Registry E M)

def all : List E := r.byId.values

def get (id : String) : Option E := r.byId.get? id

/-- Write the sidecar, then list the entry. -/
def add (entry : E) : Registry E M :=
  { r with
    byId := r.byId.set (fmt.id entry) entry
    sidecars := r.sidecars.set (fmt.path entry) (fmt.write entry) }

/-- Take the entry off the list, then unlink its two files. -/
def remove (id : String) : Registry E M × Bool :=
  match r.byId.get? id with
  | none => (r, false)
  | some entry =>
    ({ byId := r.byId.erase id
       sidecars := r.sidecars.erase (fmt.path entry)
       ciphertexts := r.ciphertexts.erase (fmt.ciphertextPath entry) }, true)

/-- `encrypt_file` to the entry's ciphertext. -/
def encrypt (entry : E) (ciphertext : Bytes) : Registry E M :=
  { r with ciphertexts := r.ciphertexts.set (fmt.ciphertextPath entry) ciphertext }

/-- An operation on a registry. -/
inductive Op (E : Type) where
  | add (entry : E)
  | remove (id : String)

/-- One operation. -/
def step : Op E → Option (Registry E M)
  | .add entry => some (r.add fmt entry)
  | .remove id => some (r.remove fmt id).1

/-- Read again in any order, the sidecars give the list back as far as they have
    it. -/
def Persists : Prop := fmt.Agrees r.byId r.sidecars.values

/-- An id that is listed is added with the contents it has, and contents that
    are listed are added under the id they have. -/
def Careful : Op E → Prop
  | .add entry => ∀ id e, r.get id = some e →
      (id = fmt.id entry ↔ fmt.sha256 e = fmt.sha256 entry)
  | .remove _ => True

/-- Entries and sidecars are under their names. -/
def Filed : Prop := fmt.toFormat.Filed r.byId r.sidecars

variable {fmt r}

@[simp] theorem get_add (entry : E) (id : String) :
    (r.add fmt entry).get id = if id = fmt.id entry then some entry else r.get id :=
  Dict.get?_set _ _ _ _

@[simp] theorem get_remove (id id' : String) :
    (r.remove fmt id).1.get id' = if id' = id then none else r.get id' := by
  unfold remove
  cases hid : r.byId.get? id with
  | some entry => exact Dict.get?_erase _ _ _
  | none =>
      by_cases hsame : id' = id
      · rw [if_pos hsame, hsame]
        exact hid
      · rw [if_neg hsame]

theorem filed_start : (start : Registry E M).Filed fmt :=
  ⟨fun _ _ h => absurd h nofun, fun _ _ _ h _ => absurd h nofun⟩

theorem persists_iff (h : r.Filed fmt) :
    r.Persists fmt ↔ fmt.Paired r.byId r.sidecars.values :=
  Format.agrees_iff _ _ h.byId

theorem persists_start : (start : Registry E M).Persists fmt :=
  (persists_iff filed_start).mpr
    ⟨fun _ _ h => absurd h nofun, fun _ hf => absurd hf List.not_mem_nil⟩

theorem Filed.step {op : Op E} {u : Registry E M} (h : r.Filed fmt)
    (hstep : r.step fmt op = some u) : u.Filed fmt := by
  cases op with
  | add entry =>
      rw [← Option.some.inj hstep]
      exact Format.Filed.add h entry
  | remove id =>
      rw [← Option.some.inj hstep, remove]
      cases r.byId.get? id with
      | none => exact h
      | some entry => exact Format.Filed.remove h id (fmt.path entry)

theorem apart_iff (entry : E) : fmt.Apart r.byId entry ↔ r.Careful fmt (.add entry) := by
  constructor
  · intro h id e he
    exact (h id e he).trans (fmt.path_inj e entry)
  · intro h id e he
    exact (h id e he).trans (fmt.path_inj e entry).symm

/-- **Which operations keep list and sidecars together.** -/
theorem persists_step_iff {op : Op E} {u : Registry E M} (hfiled : r.Filed fmt)
    (h : r.Persists fmt) (hstep : r.step fmt op = some u) :
    r.Careful fmt op ↔ u.Persists fmt := by
  have hpaired := (persists_iff hfiled).mp h
  rw [persists_iff (hfiled.step hstep)]
  cases op with
  | add entry =>
      rw [← Option.some.inj hstep, ← apart_iff]
      exact (Format.paired_add_iff hpaired hfiled entry).symm
  | remove id =>
      refine iff_of_true trivial ?_
      rw [← Option.some.inj hstep, remove]
      cases hid : r.byId.get? id with
      | none => exact hpaired
      | some entry => exact Format.paired_remove hpaired hfiled hid

end Registry

open Registry Transition

/-- **Registry persistence.** The runs of a registry, from an empty directory,
    each of whose additions gives a listed id the contents it has and listed
    contents the id they have, are those after each operation of which the
    sidecars, read again in any order, give the list back. -/
theorem registry_persists (time : ℚ) (r : ModelRegistry) :
    Run (step (modelFormat time)) (fun r op _ => Careful (modelFormat time) r op) start r ↔
      Run (step (modelFormat time)) (fun _ _ u => Persists (modelFormat time) u) start r :=
  run_iff (Filed (modelFormat time)) (Persists (modelFormat time)) (Careful (modelFormat time))
    filed_start persists_start (fun _ _ _ hfiled hstep => hfiled.step hstep)
    (fun _ _ _ hfiled h hstep => persists_step_iff hfiled h hstep)

/-- An entry for a model, to run the model on. -/
def ModelEntry.sample (id sha256 : String) : ModelEntry where
  id := id
  sha256Plaintext := sha256
  repoId := "org/model"
  filename := id ++ ".gguf"
  bytesPlaintext := 1
  bytesCiphertext := 1
  downloadedAt := 0

/-- A model is downloaded, and downloaded again when its contents have changed.
    Both sidecars are there, and read in the one order they give the model as it
    was at first. -/
theorem superseded_model_returns :
    ∃ r found, Run (step (modelFormat 0)) anyStep start r ∧ found.Perm r.sidecars.values ∧
      (r.get "llama").map ModelEntry.sha256Plaintext = some "2" ∧
      ((reload (modelFormat 0) found).get? "llama").map ModelEntry.sha256Plaintext = some "1" := by
  have hplay : ((play (step (modelFormat 0)) start
      [.add (.sample "llama" "1"), .add (.sample "llama" "2")]).any (fun r => decide
        ((r.get "llama").map ModelEntry.sha256Plaintext = some "2" ∧
          ((reload (modelFormat 0) r.sidecars.values.reverse).get? "llama").map
            ModelEntry.sha256Plaintext = some "1"))) = true := by
    decide +kernel
  rcases (Option.any_eq_true _ _).mp hplay with ⟨r, hr, hend⟩
  rcases of_decide_eq_true hend with ⟨hlive, hrebuilt⟩
  exact ⟨r, _, run_of_play _ hr, List.reverse_perm _, hlive, hrebuilt⟩

end Models

end SecureLlm
