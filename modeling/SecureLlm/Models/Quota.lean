import SecureLlm.Models.Downloads

/-!
# The Disk Quota

The ciphertexts of a tenant are in two directories, one for models and one for
adapters beside it, which share a quota. The calls here come one at a time and
each is run to its end.

A download is checked against the quota once, when it has been fetched. What is
checked is the size of the plaintext on top of what is in the directory it goes
to. That leaves out the other directory and what encryption adds, and counts a
blob that is written over.

## Main definitions

* `Encryption`: What the code uses of age.
* `Transfer`: How a download goes.
* `downloadAndSeal`: A download, for either kind.
* `Stores`: The two registries of a tenant.
* `Stores.call`: One call.
* `Stores.Fits`: What the check leaves out fits.
* `Stores.Within`: What the quota promises of a call.

## Theorems

* `used_seal`: What a download that is sealed does to its directory.
* `fitsBeside_iff`: When a download keeps to the quota.
* `Stores.fits_iff_within`: Which calls keep to the quota.
* `quota_holds`: The runs of calls that fit are the runs within the quota.
* `quota_not_shared`: A model and an adapter that together go beyond it.
-/

namespace SecureLlm

open Library

namespace Models

/-- What the code uses of age: the ciphertext that a seed makes of a plaintext. -/
structure Encryption where
  encrypt : (seed : ℕ) → Bytes → Bytes

/-- A download with what it comes upon: what is fetched, the seed of the encryption
    if the ciphertext can be written, whether the sidecar can be, and the time. -/
structure Transfer where
  request : DownloadRequest
  fetched : Option Bytes
  seed : Option ℕ
  recorded : Bool := true
  time : ℚ := 0

/-- The exceptions of a download. -/
inductive TransferError where
  | downloadError (code : ErrorCode)
  | osError
  deriving DecidableEq

section Sealing

variable {E M : Type} (age : Encryption) (dl : Downloader E M) (r : Registry E M) (t : Transfer)

/-- The sizes of a directory's ciphertexts together. -/
def Registry.used : ℕ := r.ciphertexts.total List.length

/-- The entry of what is fetched. -/
def sealedEntry (plaintext : Bytes) (seed : ℕ) : E :=
  dl.entry t.request (sha256File dl.crypto plaintext) plaintext.length
    (age.encrypt seed plaintext).length t.time

/-- `download_and_seal` and `download_and_seal_lora`, from start to end. -/
def downloadAndSeal : Registry E M × Except TransferError E :=
  match vet dl.crypto dl.settings r.ciphertexts t.request t.fetched with
  | .error code => (r, .error (.downloadError code))
  | .ok plaintext =>
    match t.seed with
    | none => (r, .error .osError)
    | some seed =>
      let entry := sealedEntry age dl t plaintext seed
      -- The ciphertext is there from here on, also if the sidecar cannot be written.
      let r := r.encrypt dl.fmt entry (age.encrypt seed plaintext)
      if t.recorded then (r.add dl.fmt entry, .ok entry) else (r, .error .osError)

/-- The size of the blob that is written over, if there is one. -/
def replaced (plaintext : Bytes) (seed : ℕ) : ℕ :=
  (r.ciphertexts.get? (dl.fmt.ciphertextPath (sealedEntry age dl t plaintext seed))).elim 0
    List.length

/-- What the check leaves of the quota. -/
def spare (plaintext : Bytes) : ℤ :=
  dl.settings.diskQuotaGb * 2 ^ 30 - (r.used + plaintext.length)

/-- The other directory and what encryption adds fit into what the check leaves and
    what is written over. A call that writes nothing fits if the quota is not below
    nothing. -/
def FitsBeside (others : ℕ) : Prop :=
  match vet dl.crypto dl.settings r.ciphertexts t.request t.fetched with
  | .error code => code = .diskQuotaExceeded ∨ 0 ≤ dl.settings.diskQuotaGb
  | .ok plaintext =>
    match t.seed with
    | none => 0 ≤ dl.settings.diskQuotaGb
    | some seed =>
      others + ((age.encrypt seed plaintext).length - plaintext.length : ℤ) ≤
        spare dl r plaintext + replaced age dl r t plaintext seed

/-- What a download that is sealed does to its directory. -/
theorem used_seal (plaintext : Bytes) (seed : ℕ)
    (hvet : vet dl.crypto dl.settings r.ciphertexts t.request t.fetched = .ok plaintext)
    (hseed : t.seed = some seed) :
    (downloadAndSeal age dl r t).1.used + replaced age dl r t plaintext seed
        = r.used + (age.encrypt seed plaintext).length ∧
      (downloadAndSeal age dl r t).2 ≠ .error (.downloadError .diskQuotaExceeded) := by
  have hset := Dict.total_set List.length r.ciphertexts
    (dl.fmt.ciphertextPath (sealedEntry age dl t plaintext seed)) (age.encrypt seed plaintext)
  rw [downloadAndSeal, hvet]
  dsimp only
  rw [hseed]
  dsimp only
  cases t.recorded with
  | true => exact ⟨hset, by simp⟩
  | false => exact ⟨hset, by simp⟩

/-- Any other leaves it as it is. -/
theorem downloadAndSeal_refused (code : ErrorCode)
    (hvet : vet dl.crypto dl.settings r.ciphertexts t.request t.fetched = .error code) :
    downloadAndSeal age dl r t = (r, .error (.downloadError code)) := by
  rw [downloadAndSeal, hvet]

theorem downloadAndSeal_failed (plaintext : Bytes)
    (hvet : vet dl.crypto dl.settings r.ciphertexts t.request t.fetched = .ok plaintext)
    (hseed : t.seed = none) : downloadAndSeal age dl r t = (r, .error .osError) := by
  rw [downloadAndSeal, hvet]
  dsimp only
  rw [hseed]

/-- Where what is stored keeps to any quota that is not below nothing, a quota has room for
    no more than that exactly if it is not below nothing. -/
theorem quota_nonneg_iff {quota : ℤ} {size size' : ℕ}
    (h : 0 ≤ quota → (size : ℤ) ≤ quota * 2 ^ 30) (hle : size' ≤ size) :
    0 ≤ quota ↔ (size' : ℤ) ≤ quota * 2 ^ 30 := by
  constructor
  · intro hquota
    have hsize := h hquota
    omega
  · intro hsize
    omega

/-- **When a download keeps to the quota** with what the other directory holds, if
    both kept to it before. -/
theorem fitsBeside_iff (others : ℕ)
    (h : 0 ≤ dl.settings.diskQuotaGb →
      ((r.used + others : ℕ) : ℤ) ≤ dl.settings.diskQuotaGb * 2 ^ 30) :
    FitsBeside age dl r t others ↔
      ((downloadAndSeal age dl r t).2 ≠ .error (.downloadError .diskQuotaExceeded) →
        (((downloadAndSeal age dl r t).1.used + others : ℕ) : ℤ) ≤
          dl.settings.diskQuotaGb * 2 ^ 30) := by
  have hsame := quota_nonneg_iff h (Nat.le_refl _)
  rw [FitsBeside]
  cases hvet : vet dl.crypto dl.settings r.ciphertexts t.request t.fetched with
  | error code =>
      rw [downloadAndSeal_refused age dl r t code hvet]
      dsimp only
      by_cases hcode : code = .diskQuotaExceeded
      · exact iff_of_true (Or.inl hcode) fun hne => absurd (by rw [hcode]) hne
      -- Another refusal leaves what is stored as it is.
      · have hne : (Except.error (.downloadError code) : Except TransferError E) ≠
            .error (.downloadError .diskQuotaExceeded) := by
          simp only [ne_eq, Except.error.injEq, TransferError.downloadError.injEq]
          exact hcode
        rw [or_iff_right hcode, hsame]
        exact ⟨fun hwithin _ => hwithin, fun hwithin => hwithin hne⟩
  | ok plaintext =>
      dsimp only
      cases hseed : t.seed with
      | none =>
          rw [downloadAndSeal_failed age dl r t plaintext hvet hseed]
          dsimp only
          rw [hsame]
          exact ⟨fun hwithin _ => hwithin, fun hwithin => hwithin (by simp)⟩
      -- The sizes before and after differ by the ciphertext and by what it replaces.
      | some seed =>
          rcases used_seal age dl r t plaintext seed hvet hseed with ⟨hused, hok⟩
          dsimp only
          rw [spare]
          constructor
          · intro hfits _
            omega
          · intro hwithin
            have := hwithin hok
            omega

end Sealing

/-- The two registries of a tenant. -/
structure Stores where
  models : ModelRegistry
  loras : LoraRegistry

/-- A call on one of them. -/
inductive StoreCall where
  | downloadModel (t : Transfer)
  | downloadLora (t : Transfer)
  | removeModel (id : String)
  | removeLora (id : String)

namespace Stores

variable (age : Encryption) (crypto : Primitives) (settings : DownloadSettings) (s : Stores)

/-- A tenant that has nothing yet. -/
def start : Stores := ⟨.start, .start⟩

/-- The sizes of all ciphertexts together. -/
def used : ℕ := s.models.used + s.loras.used

/-- One call, with what it raises. -/
def call : StoreCall → Stores × Except TransferError Unit
  | .downloadModel t =>
    let (models, result) := downloadAndSeal age (modelDownloader crypto settings) s.models t
    ({ s with models := models }, result.map fun _ => ())
  | .downloadLora t =>
    let (loras, result) := downloadAndSeal age (loraDownloader crypto settings) s.loras t
    ({ s with loras := loras }, result.map fun _ => ())
  | .removeModel id => ({ s with models := (s.models.remove (modelFormat 0) id).1 }, .ok ())
  | .removeLora id => ({ s with loras := (s.loras.remove (loraFormat 0) id).1 }, .ok ())

def step (c : StoreCall) : Option Stores := some (s.call age crypto settings c).1

/-- A download fits beside what is in the other directory. -/
def Fits : StoreCall → Prop
  | .downloadModel t => FitsBeside age (modelDownloader crypto settings) s.models t s.loras.used
  | .downloadLora t => FitsBeside age (loraDownloader crypto settings) s.loras t s.models.used
  | .removeModel _ => 0 ≤ settings.diskQuotaGb
  | .removeLora _ => 0 ≤ settings.diskQuotaGb

/-- Unless the call is refused for the quota, all that is stored after it is within
    the quota. -/
def Within (c : StoreCall) (u : Stores) : Prop :=
  (s.call age crypto settings c).2 ≠ .error (.downloadError .diskQuotaExceeded) →
    (u.used : ℤ) ≤ settings.diskQuotaGb * 2 ^ 30

end Stores

/-- A removal adds nothing. -/
theorem used_remove_le {E M : Type} (fmt : EntryFormat E M) (r : Registry E M) (id : String) :
    (r.remove fmt id).1.used ≤ r.used := by
  rw [Registry.remove]
  cases r.byId.get? id with
  | none => exact Nat.le_refl _
  | some entry =>
      have herase := Dict.total_erase List.length r.ciphertexts (fmt.ciphertextPath entry)
      exact Nat.le.intro herase

/-- A download that is refused for the quota leaves its directory as it is. -/
theorem downloadAndSeal_exceeded {E M : Type} (age : Encryption) (dl : Downloader E M)
    (r : Registry E M) (t : Transfer)
    (h : (downloadAndSeal age dl r t).2 = .error (.downloadError .diskQuotaExceeded)) :
    (downloadAndSeal age dl r t).1 = r := by
  cases hvet : vet dl.crypto dl.settings r.ciphertexts t.request t.fetched with
  | error code => rw [downloadAndSeal_refused age dl r t code hvet]
  | ok plaintext =>
      cases hseed : t.seed with
      | none => rw [downloadAndSeal_failed age dl r t plaintext hvet hseed]
      | some seed => exact absurd h (used_seal age dl r t plaintext seed hvet hseed).2

namespace Stores

variable {age : Encryption} {crypto : Primitives} {settings : DownloadSettings} {s u : Stores}
  {c : StoreCall}

theorem map_ne_exceeded {E : Type} (result : Except TransferError E) :
    result.map (fun _ => ()) ≠ .error (.downloadError .diskQuotaExceeded) ↔
      result ≠ .error (.downloadError .diskQuotaExceeded) := by
  cases result with
  | error e => simp only [Except.map, ne_eq, Except.error.injEq]
  | ok entry => simp only [Except.map, ne_eq, reduceCtorEq]

/-- **Which calls keep to the quota**, where what is stored is within it before. -/
theorem fits_iff_within
    (h : 0 ≤ settings.diskQuotaGb → (s.used : ℤ) ≤ settings.diskQuotaGb * 2 ^ 30)
    (hstep : s.step age crypto settings c = some u) :
    s.Fits age crypto settings c ↔ s.Within age crypto settings c u := by
  rw [← Option.some.inj hstep]
  rw [used] at h
  cases c with
  | downloadModel t =>
      have hiff := fitsBeside_iff age (modelDownloader crypto settings) s.models t s.loras.used h
      rw [Fits, hiff, Within, call, map_ne_exceeded, used]
      exact Iff.rfl
  | downloadLora t =>
      have hiff := fitsBeside_iff age (loraDownloader crypto settings) s.loras t s.models.used
        (by rw [Nat.add_comm]; exact h)
      rw [Fits, hiff, Within, call, map_ne_exceeded, used, Nat.add_comm]
      exact Iff.rfl
  | removeModel id =>
      have hle := used_remove_le (modelFormat 0) s.models id
      have hiff := quota_nonneg_iff h (Nat.add_le_add_right hle s.loras.used)
      rw [Fits, hiff, Within, call, used]
      exact ⟨fun hwithin _ => hwithin, fun hwithin => hwithin (by simp)⟩
  | removeLora id =>
      have hle := used_remove_le (loraFormat 0) s.loras id
      have hiff := quota_nonneg_iff h (Nat.add_le_add_left hle s.models.used)
      rw [Fits, hiff, Within, call, used]
      exact ⟨fun hwithin _ => hwithin, fun hwithin => hwithin (by simp)⟩

/-- A call that is refused for the quota changes nothing. -/
theorem call_exceeded
    (h : (s.call age crypto settings c).2 = .error (.downloadError .diskQuotaExceeded)) :
    (s.call age crypto settings c).1 = s := by
  cases c with
  | downloadModel t =>
      have hexceeded := not_not.mp ((map_ne_exceeded _).not.mp (not_not.mpr h))
      rw [call]
      dsimp only
      rw [downloadAndSeal_exceeded age _ s.models t hexceeded]
  | downloadLora t =>
      have hexceeded := not_not.mp ((map_ne_exceeded _).not.mp (not_not.mpr h))
      rw [call]
      dsimp only
      rw [downloadAndSeal_exceeded age _ s.loras t hexceeded]
  | removeModel id => cases h
  | removeLora id => cases h

end Stores

open Stores Transition

/-- **The disk quota.** The runs of downloads and removals of a tenant who starts with
    nothing, in each of which what the checks leave out fits, are those after each
    call of which, unless it is refused for the quota, models and adapters together
    are within it. -/
theorem quota_holds (age : Encryption) (crypto : Primitives) (settings : DownloadSettings)
    (s : Stores) :
    Run (step age crypto settings) (fun s c _ => Fits age crypto settings s c) start s ↔
      Run (step age crypto settings) (fun s c u => Within age crypto settings s c u) start s := by
  refine run_iff_keeping (fun _ => True)
    (fun s => 0 ≤ settings.diskQuotaGb → (s.used : ℤ) ≤ settings.diskQuotaGb * 2 ^ 30) _ _ trivial
    ?_ (fun _ _ _ _ _ => trivial) ?_ (fun _ _ _ _ h hstep => fits_iff_within h hstep)
  · intro hquota
    have hnothing : (start : Stores).used = 0 := rfl
    rw [hnothing]
    omega
  · intro t c u h hstep hwithin hquota
    -- A call that is refused for the quota promises nothing, but changes nothing either.
    by_cases hexceeded :
        (t.call age crypto settings c).2 = .error (.downloadError .diskQuotaExceeded)
    · rw [← Option.some.inj hstep, call_exceeded hexceeded]
      exact h hquota
    · exact hwithin hexceeded

/-- What is fetched passes the checks if the repository and the size do and no hash
    is expected. -/
theorem vet_ok (crypto : Primitives) (settings : DownloadSettings)
    (ciphertexts : Dict String Bytes) (request : DownloadRequest) (plaintext : Bytes)
    (hrepo : checkRepoAllowed request.repoId settings.allowedRepoPrefixes = .ok ())
    (hquota : checkDiskQuota ciphertexts settings.diskQuotaGb plaintext.length = .ok ())
    (hsha : request.expectedSha256 = none) :
    vet crypto settings ciphertexts request (some plaintext) = .ok plaintext := by
  unfold vet
  rw [hrepo]
  simp only [hquota, hsha]
  rfl

/-- An encryption that adds a byte, to run the model on. -/
def Encryption.sample : Encryption where
  encrypt _ plaintext := plaintext ++ [0]

/-- The download of a file of some size. -/
def Transfer.sample (filename : String) (size : ℕ) : Transfer where
  request := { repoId := "org/model", filename := filename }
  fetched := some (List.replicate size 0)
  seed := some 0

/-- Where every repository is allowed, a file that fits into an empty directory is
    sealed. -/
theorem used_sample {E M : Type} (dl : Downloader E M) (filename : String) (size : ℕ)
    (hrepos : dl.settings.allowedRepoPrefixes = [])
    (hsize : (size : ℤ) ≤ dl.settings.diskQuotaGb * 2 ^ 30) :
    (downloadAndSeal .sample dl .start (.sample filename size)).1.used = size + 1 ∧
      (downloadAndSeal .sample dl .start (.sample filename size)).2 ≠
        .error (.downloadError .diskQuotaExceeded) := by
  have hquota : checkDiskQuota (Registry.start : Registry E M).ciphertexts
      dl.settings.diskQuotaGb (List.replicate size (0 : UInt8)).length = .ok () := by
    have hempty : ((Registry.start : Registry E M).ciphertexts.values.map List.length).sum = 0 :=
      rfl
    rw [checkDiskQuota, List.length_replicate]
    refine if_neg ?_
    rw [hempty]
    omega
  have hrepo : checkRepoAllowed "org/model" dl.settings.allowedRepoPrefixes = .ok () := by
    rw [checkRepoAllowed, hrepos, if_pos (Or.inl rfl)]
  have hvet := vet_ok dl.crypto dl.settings _ (Transfer.sample filename size).request _ hrepo
    hquota rfl
  rcases used_seal .sample dl .start (.sample filename size) _ 0 hvet rfl with ⟨hused, hok⟩
  have hreplaced : replaced .sample dl .start (.sample filename size) (List.replicate size 0) 0
      = 0 := rfl
  have hnothing : (Registry.start : Registry E M).used = 0 := rfl
  have hlength : (Encryption.sample.encrypt 0 (List.replicate size 0)).length = size + 1 := by
    rw [Encryption.sample, List.length_append, List.length_replicate, List.length_singleton]
  rw [hreplaced, hnothing, hlength] at hused
  exact ⟨by omega, hok⟩

/-- Two files of one size, a model and then an adapter, whose check looks into its own
    directory only, go beyond a quota of one gibibyte that each of them fits into. -/
theorem within_sample (size : ℕ) (hsize : size ≤ 2 ^ 30) (hboth : 2 ^ 30 < 2 * size) :
    ∃ s c u, Run (step .sample .sample ⟨[], 1⟩) anyStep start s ∧
      step .sample .sample ⟨[], 1⟩ s c = some u ∧ ¬ Within .sample .sample ⟨[], 1⟩ s c u := by
  obtain ⟨hmodel, -⟩ := used_sample (modelDownloader .sample ⟨[], 1⟩) "a.gguf" size rfl
    (by dsimp only [modelDownloader]; omega)
  obtain ⟨hlora, hok⟩ := used_sample (loraDownloader .sample ⟨[], 1⟩) "b.gguf" size rfl
    (by dsimp only [loraDownloader]; omega)
  have hused : (call .sample .sample ⟨[], 1⟩
      (call .sample .sample ⟨[], 1⟩ start (.downloadModel (.sample "a.gguf" size))).1
      (.downloadLora (.sample "b.gguf" size))).1.used = size + 1 + (size + 1) :=
    congrArg₂ (fun a b : ℕ => a + b) hmodel hlora
  refine ⟨_, .downloadLora (.sample "b.gguf" size), _,
    .tail _ _ (.downloadModel (.sample "a.gguf" size)) .start trivial rfl, rfl, ?_⟩
  intro hwithin
  have hle := hwithin ((map_ne_exceeded _).mpr hok)
  rw [hused] at hle
  dsimp only at hle
  omega

/-- A model and an adapter of three quarters of a gibibyte do. -/
theorem quota_not_shared :
    ∃ s c u, Run (step .sample .sample ⟨[], 1⟩) anyStep start s ∧
      step .sample .sample ⟨[], 1⟩ s c = some u ∧ ¬ Within .sample .sample ⟨[], 1⟩ s c u :=
  within_sample (3 * 2 ^ 28) (by omega) (by omega)

end Models

end SecureLlm
