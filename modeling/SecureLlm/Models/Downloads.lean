import SecureLlm.Crypto.Kdf
import SecureLlm.Models.Registry

/-!
# Downloads and Removals

A download fetches a file, checks it, writes its ciphertext to the registry's
directory under the hash of its contents and then lists it. It runs in a thread,
so other downloads and removals come in between.

Removing an entry unlinks the files of its hash. That they may also be the files
of another entry, or of a download that has written its ciphertext and has not
listed it yet, is not looked at.

## Main definitions

* `normalizeId`: The id of a file's entry.
* `checkRepoAllowed`, `checkDiskQuota`, `vet`: What a download is refused for.
* `ModelEntry.ofDownload`, `LoraEntry.ofDownload`: The entries that are listed.
* `Downloads`: A registry and the downloads under way.
* `Downloads.step`: A step of a download, or a removal.
* `Downloads.Intact`: Every entry has its files.
* `Downloads.Spares`: A removal leaves the files of the others alone.
* `Downloads.Careful`: The steps that keep it so.

## Theorems

* `Downloads.spares_step_iff`: Which steps do no damage.
* `removal_spares_others`: The runs of careful steps are the runs without damage.
* `removal_takes_other`: A removal that takes the ciphertext of another entry.
-/

namespace SecureLlm

open Library

namespace Models

/-- `Path(filename).name`. -/
def pathName (filename : List Char) : List Char :=
  ((filename.splitOn '/').filter fun part => part ≠ [] ∧ part ≠ ['.']).getLast?.getD []

/-- `Path(filename).stem`: the name up to its last dot, unless that comes first
    or last. -/
def stem (filename : List Char) : List Char :=
  let name := pathName filename
  match name.reverse.dropWhile (· ≠ '.') with
  | '.' :: before =>
    if before ≠ [] ∧ name.getLast? ≠ some '.' then before.reverse else name
  | _ => name

def normalizeId (filename : String) : String :=
  String.ofList ((stem filename.toList).map fun c => if c = ' ' then '_' else c)

/-- What is asked of a download. Only adapters have a base model. -/
structure DownloadRequest where
  repoId : String
  filename : String
  expectedSha256 : Option String := none
  baseModelId : Option String := none

structure DownloadSettings where
  allowedRepoPrefixes : List String
  diskQuotaGb : ℤ

def checkRepoAllowed (repoId : String) (allowed : List String) : Except ErrorCode Unit :=
  if allowed = [] ∨ allowed.any (fun p => p.toList.isPrefixOf repoId.toList) then .ok ()
  else .error .repoNotAllowed

def checkDiskQuota (ciphertexts : Dict String Bytes) (quotaGb : ℤ) (incomingBytes : ℕ) :
    Except ErrorCode Unit :=
  let used := (ciphertexts.values.map List.length).sum
  if quotaGb * 2 ^ 30 < used + incomingBytes then .error .diskQuotaExceeded else .ok ()

section Vetting

variable (crypto : Primitives)

/-- `sha256_file`. -/
def sha256File (plaintext : Bytes) : String := hex (crypto.sha256 plaintext)

/-- A download up to where it encrypts. What was fetched, if anything, passes all
    checks, or the download fails. An expected hash that is empty counts as
    none. -/
def vet (settings : DownloadSettings) (ciphertexts : Dict String Bytes) (request : DownloadRequest)
    (fetched : Option Bytes) : Except ErrorCode Bytes := do
  checkRepoAllowed request.repoId settings.allowedRepoPrefixes
  match fetched with
  | none => .error .downloadFailed
  | some plaintext =>
    checkDiskQuota ciphertexts settings.diskQuotaGb plaintext.length
    let sha := sha256File crypto plaintext
    if request.expectedSha256.any (fun e => decide (e ≠ "" ∧ sha.toLower ≠ e.toLower)) then
      .error .sha256Mismatch
    else return plaintext

end Vetting

/-- What a download lists: the request, the hash and the two sizes. -/
def ModelEntry.ofDownload (request : DownloadRequest) (sha : String)
    (bytesPlaintext bytesCiphertext : ℕ) (time : ℚ) : ModelEntry where
  id := normalizeId request.filename
  sha256Plaintext := sha
  repoId := request.repoId
  filename := request.filename
  bytesPlaintext := bytesPlaintext
  bytesCiphertext := bytesCiphertext
  downloadedAt := time

def LoraEntry.ofDownload (request : DownloadRequest) (sha : String)
    (bytesPlaintext bytesCiphertext : ℕ) (time : ℚ) : LoraEntry where
  id := normalizeId request.filename
  sha256Plaintext := sha
  repoId := request.repoId
  filename := request.filename
  bytesPlaintext := bytesPlaintext
  bytesCiphertext := bytesCiphertext
  baseModelId := request.baseModelId
  downloadedAt := time

/-- How far a download is: what it fetched has passed the checks, or the
    ciphertext is written and the entry made. -/
inductive Download (E : Type) where
  | vetted (request : DownloadRequest) (plaintext : Bytes)
  | encrypted (entry : E)

/-- A registry and the downloads under way. -/
structure Downloads (E M : Type) where
  registry : Registry E M
  tasks : ℕ → Option (Download E)

/-- How one of the two kinds is downloaded: into which registry, under which
    settings, and what is listed. -/
structure Downloader (E M : Type) where
  crypto : Primitives
  settings : DownloadSettings
  fmt : EntryFormat E M
  entry : DownloadRequest → String → ℕ → ℕ → ℚ → E

/-- `download_and_seal`. -/
def modelDownloader (crypto : Primitives) (settings : DownloadSettings) :
    Downloader ModelEntry ModelMeta := ⟨crypto, settings, modelFormat 0, ModelEntry.ofDownload⟩

/-- `download_and_seal_lora`. -/
def loraDownloader (crypto : Primitives) (settings : DownloadSettings) :
    Downloader LoraEntry LoraMeta := ⟨crypto, settings, loraFormat 0, LoraEntry.ofDownload⟩

namespace Downloads

variable {E M : Type}

def start : Downloads E M := ⟨.start, fun _ => none⟩

/-- What happens to a registry. -/
inductive Event where
  /-- A download has fetched a file, or not, and checks it. -/
  | fetch (k : ℕ) (request : DownloadRequest) (fetched : Option Bytes)
  /-- It writes the ciphertext. -/
  | encrypt (k : ℕ) (ciphertext : Bytes) (time : ℚ)
  /-- It lists its entry. -/
  | add (k : ℕ)
  | remove (id : String)

variable (dl : Downloader E M) (d : Downloads E M)

def setTask (k : ℕ) (task : Option (Download E)) : Downloads E M :=
  { d with tasks := Function.update d.tasks k task }

/-- One step. A download that fails leaves nothing behind. -/
def step : Event → Option (Downloads E M)
  | .fetch k request fetched =>
    match d.tasks k with
    | some _ => none
    | none =>
      match vet dl.crypto dl.settings d.registry.ciphertexts request fetched with
      | .error _ => some d
      | .ok plaintext => some (d.setTask k (some (.vetted request plaintext)))
  | .encrypt k ciphertext time =>
    match d.tasks k with
    | some (.vetted request plaintext) =>
      let entry := dl.entry request (sha256File dl.crypto plaintext) plaintext.length
        ciphertext.length time
      some ({ d with registry := d.registry.encrypt dl.fmt entry ciphertext }.setTask k
        (some (.encrypted entry)))
    | _ => none
  | .add k =>
    match d.tasks k with
    | some (.encrypted entry) =>
      some ({ d with registry := d.registry.add dl.fmt entry }.setTask k none)
    | _ => none
  | .remove id => some { d with registry := (d.registry.remove dl.fmt id).1 }

/-- The entry's ciphertext is there to be opened, and so is its sidecar. -/
def HasFiles (r : Registry E M) (entry : E) : Prop :=
  (r.ciphertexts.get? (dl.fmt.ciphertextPath entry)).isSome = true ∧
    (r.sidecars.get? (dl.fmt.path entry)).isSome = true

/-- Every entry that is listed has its files. -/
def Intact : Prop :=
  ∀ id entry, d.registry.get id = some entry → HasFiles dl d.registry entry

/-- If the event removes an entry, the files of those that stay listed are as
    they were. -/
def Spares (dl : Downloader E M) (d : Downloads E M) (e : Event) (u : Downloads E M) : Prop :=
  ∀ id, e = .remove id → ∀ id' entry, u.registry.get id' = some entry →
    u.registry.ciphertexts.get? (dl.fmt.ciphertextPath entry) =
        d.registry.ciphertexts.get? (dl.fmt.ciphertextPath entry) ∧
      u.registry.sidecars.get? (dl.fmt.path entry) =
        d.registry.sidecars.get? (dl.fmt.path entry)

/-- No other entry has the contents of one that is removed, and the ciphertext of
    one that is added is still there. -/
def Careful (dl : Downloader E M) (d : Downloads E M) : Event → Prop
  | .remove id => ∀ entry, d.registry.get id = some entry →
      ∀ id' other, d.registry.get id' = some other → id' ≠ id →
        dl.fmt.sha256 other ≠ dl.fmt.sha256 entry
  | .add k => ∀ entry, d.tasks k = some (.encrypted entry) →
      (d.registry.ciphertexts.get? (dl.fmt.ciphertextPath entry)).isSome = true
  | _ => True

variable {dl d} {u : Downloads E M}

theorem intact_start : (start : Downloads E M).Intact dl := fun _ _ h => absurd h nofun

/-- What is listed after a removal was listed under another id. -/
theorem get_remove {id : String} {entry : E} (hentry : d.registry.get id = some entry)
    (id' : String) :
    (d.registry.remove dl.fmt id).1.get id' = if id' = id then none else d.registry.get id' := by
  have hentry' : d.registry.byId.get? id = some entry := hentry
  rw [Registry.remove, hentry', Registry.get, Dict.get?_erase]
  rfl

theorem remove_unlisted {id : String} (h : d.registry.get id = none) :
    (d.registry.remove dl.fmt id).1 = d.registry := by
  have h' : d.registry.byId.get? id = none := h
  rw [Registry.remove, h']

/-- The files of an entry with other contents than those removed. -/
theorem files_remove {id : String} {entry : E} (hentry : d.registry.get id = some entry)
    (other : E) (hne : dl.fmt.sha256 other ≠ dl.fmt.sha256 entry) :
    (d.registry.remove dl.fmt id).1.ciphertexts.get? (dl.fmt.ciphertextPath other) =
        d.registry.ciphertexts.get? (dl.fmt.ciphertextPath other) ∧
      (d.registry.remove dl.fmt id).1.sidecars.get? (dl.fmt.path other) =
        d.registry.sidecars.get? (dl.fmt.path other) := by
  have hentry' : d.registry.byId.get? id = some entry := hentry
  rw [Registry.remove, hentry']
  constructor
  · rw [Dict.get?_erase, if_neg fun hc => hne ((dl.fmt.ciphertextPath_inj _ _).mp hc)]
  · rw [Dict.get?_erase, if_neg fun hc => hne ((dl.fmt.path_inj _ _).mp hc)]

/-- Those of one with the contents removed are gone. -/
theorem ciphertext_remove {id : String} {entry : E} (hentry : d.registry.get id = some entry)
    (other : E) (hsame : dl.fmt.sha256 other = dl.fmt.sha256 entry) :
    (d.registry.remove dl.fmt id).1.ciphertexts.get? (dl.fmt.ciphertextPath other) = none := by
  have hentry' : d.registry.byId.get? id = some entry := hentry
  rw [Registry.remove, hentry', Dict.get?_erase,
    if_pos ((dl.fmt.ciphertextPath_inj _ _).mpr hsame)]

theorem Intact.encrypt (h : d.Intact dl) (entry : E) (ciphertext : Bytes) (k : ℕ)
    (task : Option (Download E)) :
    ({ d with registry := d.registry.encrypt dl.fmt entry ciphertext }.setTask k task).Intact
      dl := by
  intro id other hother
  refine ⟨?_, (h id other hother).2⟩
  show ((d.registry.ciphertexts.set _ _).get? _).isSome = true
  rw [Dict.get?_set]
  split
  · rfl
  · exact (h id other hother).1

/-- Once it is listed an entry has its files if its ciphertext is there. -/
theorem intact_add_iff (h : d.Intact dl) (entry : E) (k : ℕ) (task : Option (Download E)) :
    ({ d with registry := d.registry.add dl.fmt entry }.setTask k task).Intact dl ↔
      (d.registry.ciphertexts.get? (dl.fmt.ciphertextPath entry)).isSome = true := by
  have hget : ∀ id, (d.registry.add dl.fmt entry).get id =
      if id = dl.fmt.id entry then some entry else d.registry.get id :=
    fun id => Dict.get?_set _ _ _ _
  constructor
  · intro hu
    exact (hu (dl.fmt.id entry) entry ((hget _).trans (if_pos rfl))).1
  · intro hthere id other hother
    have hother' := (hget id).symm.trans hother
    have hsidecar : ∀ p, (d.registry.sidecars.get? p).isSome = true ∨ p = dl.fmt.path entry →
        ((d.registry.add dl.fmt entry).sidecars.get? p).isSome = true := by
      intro p hp
      rw [Registry.add, Dict.get?_set]
      split
      · rfl
      · rename_i hne
        exact hp.resolve_right hne
    by_cases hid : id = dl.fmt.id entry
    · rw [if_pos hid] at hother'
      rw [← Option.some.inj hother']
      exact ⟨hthere, hsidecar _ (Or.inr rfl)⟩
    · rw [if_neg hid] at hother'
      rcases h id other hother' with ⟨hciphertext, hs⟩
      exact ⟨hciphertext, hsidecar _ (Or.inl hs)⟩

/-- **Which steps do no damage.** -/
theorem spares_step_iff {e : Event} (h : d.Intact dl) (hstep : d.step dl e = some u) :
    d.Careful dl e ↔ Spares dl d e u ∧ u.Intact dl := by
  cases e with
  | fetch k request fetched =>
      have hu : u.registry = d.registry := by
        simp only [step] at hstep
        split at hstep
        · exact absurd hstep nofun
        · split at hstep
          · rw [← Option.some.inj hstep]
          · rw [← Option.some.inj hstep]
            rfl
      refine iff_of_true trivial ⟨nofun, fun id entry hentry => ?_⟩
      rw [hu] at hentry ⊢
      exact h id entry hentry
  | encrypt k ciphertext time =>
      simp only [step] at hstep
      split at hstep
      · rw [← Option.some.inj hstep]
        exact iff_of_true trivial ⟨nofun, h.encrypt _ ciphertext k _⟩
      · exact absurd hstep nofun
  | add k =>
      simp only [step] at hstep
      split at hstep
      · rename_i entry hk
        rw [← Option.some.inj hstep, intact_add_iff h entry k none]
        constructor
        · intro hc
          exact ⟨nofun, hc entry hk⟩
        · rintro ⟨_, hthere⟩ entry' hk'
          rw [hk] at hk'
          obtain rfl : entry = entry' := by simpa using hk'
          exact hthere
      · exact absurd hstep nofun
  | remove id =>
      rw [← Option.some.inj hstep]
      cases hid : d.registry.get id with
      | none =>
          have hsame : (d.registry.remove dl.fmt id).1 = d.registry := remove_unlisted hid
          refine iff_of_true (fun entry hentry => ?_) ⟨fun id' _ id'' entry _ => ?_, ?_⟩
          · rw [hid] at hentry
            exact absurd hentry nofun
          · rw [hsame]
            exact ⟨rfl, rfl⟩
          · intro id' entry hentry
            rw [hsame] at hentry ⊢
            exact h id' entry hentry
      | some entry =>
          constructor
          · intro hc
            have hfiles : ∀ id' other, (d.registry.remove dl.fmt id).1.get id' = some other →
                d.registry.get id' = some other ∧ dl.fmt.sha256 other ≠ dl.fmt.sha256 entry := by
              intro id' other hother
              rw [get_remove hid] at hother
              by_cases hid' : id' = id
              · rw [if_pos hid'] at hother
                exact absurd hother nofun
              · rw [if_neg hid'] at hother
                exact ⟨hother, hc entry hid id' other hother hid'⟩
            refine ⟨fun _ _ id' other hother => ?_, fun id' other hother => ?_⟩
            · exact files_remove hid other (hfiles id' other hother).2
            · rcases hfiles id' other hother with ⟨hold, hne⟩
              rcases files_remove hid other hne with ⟨hciphertext, hsidecar⟩
              rcases h id' other hold with ⟨hc', hs'⟩
              exact ⟨by rw [hciphertext]; exact hc', by rw [hsidecar]; exact hs'⟩
          · rintro ⟨_, hintact⟩ entry' hentry' id' other hother hne hsame
            rw [hid] at hentry'
            rw [← Option.some.inj hentry'] at hsame
            -- The removal has taken the ciphertext of the other entry.
            have hlisted : (d.registry.remove dl.fmt id).1.get id' = some other := by
              rw [get_remove hid, if_neg hne]
              exact hother
            have hthere := (hintact id' other hlisted).1
            rw [ciphertext_remove hid other hsame] at hthere
            exact absurd hthere nofun

/-- The runs of careful steps are the runs without damage, for either kind. -/
theorem careful_iff_spares (dl : Downloader E M) (d : Downloads E M) :
    Transition.Run (step dl) (fun d e _ => Careful dl d e) start d ↔
      Transition.Run (step dl) (fun d e u => Spares dl d e u ∧ Intact dl u) start d :=
  Transition.run_iff_steps (fun _ => True) (Intact dl) (fun d e _ => Careful dl d e)
    (fun d e u => Spares dl d e u ∧ Intact dl u) trivial intact_start (fun _ _ _ _ _ => trivial)
    (fun _ _ _ hu => hu.2) (fun _ _ _ _ h hstep => spares_step_iff h hstep)

end Downloads

open Downloads Transition

/-- **Removing one entry damages no other.** For models as for adapters: the runs
    of downloads and removals in which no entry is removed while another has the
    same contents, and none is listed after its ciphertext was removed, are those
    in which each removal leaves the files of the others alone, and after each
    step of which every listed entry has its files. -/
theorem removal_spares_others (crypto : Primitives) (settings : DownloadSettings) :
    (∀ d, Run (step (modelDownloader crypto settings))
        (fun d e _ => Careful (modelDownloader crypto settings) d e) start d ↔
      Run (step (modelDownloader crypto settings))
        (fun d e u => Spares (modelDownloader crypto settings) d e u ∧
          Intact (modelDownloader crypto settings) u) start d) ∧
    ∀ d, Run (step (loraDownloader crypto settings))
        (fun d e _ => Careful (loraDownloader crypto settings) d e) start d ↔
      Run (step (loraDownloader crypto settings))
        (fun d e u => Spares (loraDownloader crypto settings) d e u ∧
          Intact (loraDownloader crypto settings) u) start d :=
  ⟨careful_iff_spares (modelDownloader crypto settings),
    careful_iff_spares (loraDownloader crypto settings)⟩

/-- A downloader to run the model on. -/
def modelDownloaderSample : Downloader ModelEntry ModelMeta := modelDownloader .sample ⟨[], 1⟩

/-- Two files with the same contents are downloaded and the first is removed. The
    second is listed still, and its ciphertext is gone. -/
theorem removal_takes_other :
    ∃ d, Run (step modelDownloaderSample) anyStep start d ∧
      (d.registry.get "b").isSome = true ∧ ¬ Intact modelDownloaderSample d := by
  have hplay : ((play (step modelDownloaderSample) start
      [.fetch 0 ⟨"org/model", "a.gguf", none, none⟩ (some [1]), .encrypt 0 [2] 0, .add 0,
        .fetch 1 ⟨"org/model", "b.gguf", none, none⟩ (some [1]), .encrypt 1 [3] 0, .add 1,
        .remove "a"]).any (fun d => decide ((d.registry.get "b").isSome = true ∧
          (d.registry.get "b").all (fun entry =>
            (d.registry.ciphertexts.get? entry.ciphertextPath).isNone) = true))) = true := by
    decide +kernel
  rcases (Option.any_eq_true _ _).mp hplay with ⟨d, hd, hend⟩
  rcases of_decide_eq_true hend with ⟨hlisted, hgone⟩
  rcases Option.isSome_iff_exists.mp hlisted with ⟨entry, hentry⟩
  refine ⟨d, run_of_play _ hd, hlisted, fun hintact => ?_⟩
  have hthere := (hintact "b" entry hentry).1
  rw [hentry, Option.all_some, Option.isNone_iff_eq_none] at hgone
  rw [show modelDownloaderSample.fmt.ciphertextPath entry = entry.ciphertextPath from rfl,
    hgone] at hthere
  exact absurd hthere nofun

end Models

end SecureLlm
