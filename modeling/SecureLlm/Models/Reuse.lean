import Mathlib.Data.String.Basic
import Mathlib.Tactic.IntervalCases
import SecureLlm.Library.Decimal
import SecureLlm.Models.Manager
import SecureLlm.Models.Registry

/-!
# Reuse of Slots

A request is served by the slot under its key, whoever had it loaded. The key is
a text of the tenant, the model, the mode and the LoRA set, with colons in
between. Names may have colons of their own, the adapters are sorted, and their
scales are written with four digits after the point.

The backend uses the first adapter in the order of the request, with the scale it
has. So any adapter makes the key too coarse: another request with almost the
same scale has the same key. Without adapters the key says what is loaded,
unless tenant, model and mode read the same in another way.

## Main definitions

* `Scale`: The scale of an adapter.
* `loraFingerprint`: `_lora_fingerprint`.
* `LoadArgs`: The arguments of `ensure_loaded`.
* `Registries.build`: What `_load` makes the backend of.
* `Registries.SoundFor`: Every request with the key of a request has its backend.

## Theorems

* `getLast?_cacheKey`: Keys with and without adapters differ in the end.
* `slot_reuse_sound_iff`: Which requests share their keys only with their like.
* `scales_share_slot`: Two scales that share a slot.
-/

namespace SecureLlm

open Library

namespace Models

/-- A scale as a float has it: a sign and an exact magnitude. -/
structure Scale where
  negative : Bool
  magnitude : ℚ
  nonneg : 0 ≤ magnitude

/-- The number. Both zeros are the same number. -/
def Scale.value (s : Scale) : ℚ := if s.negative then -s.magnitude else s.magnitude

/-- `f"{scale:.4f}"`. -/
def Scale.text (s : Scale) : String := fixed 4 s.negative s.magnitude

/-- The order of pairs of an id and a scale. -/
def loraLe (a b : String × Scale) : Bool :=
  a.1 < b.1 || a.1 = b.1 && a.2.value ≤ b.2.value

def loraText (l : String × Scale) : String := l.1 ++ "@" ++ l.2.text

/-- `_lora_fingerprint`. -/
def loraFingerprint (loras : List (String × Scale)) : String :=
  "+".intercalate ((loras.mergeSort loraLe).map loraText)

/-- The arguments of `ensure_loaded` that the key is made of. -/
structure LoadArgs where
  tenant : String
  modelId : String
  mode : String
  loras : List (String × Scale)

namespace LoadArgs

variable (a : LoadArgs)

/-- The request these are the arguments of. -/
def request (nCtx : Option ℤ) (job : Option (Kind × Bool)) : Request :=
  ⟨a.tenant, a.modelId, nCtx, a.mode, loraFingerprint a.loras, job⟩

def cacheKey : String := (a.request none none).cacheKey

/-- What the key says besides the adapters. -/
def names : String := a.tenant ++ ":" ++ a.modelId ++ ":" ++ a.mode

end LoadArgs

/-- The registries of all tenants. -/
structure Registries where
  models : String → ModelRegistry
  loras : String → LoraRegistry

/-- What a backend is made of, files by their contents: the model, whether it
    embeds, and the adapter it applies with its scale. -/
structure Built where
  model : String
  embedding : Bool
  adapter : Option (String × ℚ)
  deriving DecidableEq

namespace Registries

variable (reg : Registries)

/-- All ids are registered. -/
def Lists (tenant modelId : String) (ids : List String) : Prop :=
  (reg.models tenant).get modelId ≠ none ∧ ∀ lid ∈ ids, (reg.loras tenant).get lid ≠ none

def Registered (a : LoadArgs) : Prop := reg.Lists a.tenant a.modelId (a.loras.map Prod.fst)

/-- `lora_paths`, in the order of the request. -/
def loraPaths (tenant : String) (loras : List (String × Scale)) : Option (List (String × ℚ)) :=
  loras.mapM fun l => ((reg.loras tenant).get l.1).map fun e => (e.sha256Plaintext, l.2.value)

/-- The backend `_load` makes. Of the adapters the backend applies the first. -/
def build (a : LoadArgs) : Option Built := do
  let entry ← (reg.models a.tenant).get a.modelId
  let paths ← reg.loraPaths a.tenant a.loras
  return ⟨entry.sha256Plaintext, a.mode = "embedding", paths.head?⟩

/-- Whatever the scales of the adapters, every request with the same key has the
    same backend. -/
def SoundFor (tenant modelId mode : String) (ids : List String) : Prop :=
  ∀ (loras : List (String × Scale)) (b : LoadArgs), loras.map Prod.fst = ids →
    reg.Registered b → (LoadArgs.mk tenant modelId mode loras).cacheKey = b.cacheKey →
    reg.build ⟨tenant, modelId, mode, loras⟩ = reg.build b

/-- However tenant, model and mode are read off their text, the model has the same
    contents and the mode embeds or not. -/
def Unambiguous (tenant modelId mode : String) : Prop :=
  ∀ tenant' modelId' mode' : String, (reg.models tenant').get modelId' ≠ none →
    tenant ++ ":" ++ modelId ++ ":" ++ mode = tenant' ++ ":" ++ modelId' ++ ":" ++ mode' →
    ((reg.models tenant).get modelId).map (·.sha256Plaintext) =
        ((reg.models tenant').get modelId').map (·.sha256Plaintext) ∧
      (mode = "embedding" ↔ mode' = "embedding")

end Registries

/-! ## Keys -/

theorem cacheKey_eq (a : LoadArgs) : a.cacheKey = a.names ++ ":" ++ loraFingerprint a.loras := by
  simp only [LoadArgs.cacheKey, LoadArgs.names, LoadArgs.request, Request.cacheKey,
    String.append_assoc]

/-- The fingerprint ends in a digit if there are adapters. -/
theorem getLast?_loraFingerprint {loras : List (String × Scale)} (h : loras ≠ []) :
    ∃ d < 10, (loraFingerprint loras).toList.getLast? = some (Nat.digitChar d) := by
  rcases List.eq_nil_or_concat (loras.mergeSort loraLe) with hnil | ⟨init, l, hsort⟩
  · have hlength : (loras.mergeSort loraLe).length = loras.length := List.length_mergeSort loras
    rw [hnil] at hlength
    exact absurd (List.length_eq_zero_iff.mp hlength.symm) h
  rcases getLast?_fixed 3 l.2.negative l.2.magnitude with ⟨d, hd, hlast⟩
  have htext : l.2.text.toList.getLast? = some (Nat.digitChar d) := hlast
  refine ⟨d, hd, ?_⟩
  -- The last adapter's text is the end of the fingerprint.
  have hend : ∃ first, loraFingerprint loras = first ++ l.2.text := by
    rw [loraFingerprint, hsort, List.concat_eq_append, List.map_append, List.map_singleton,
      loraText]
    by_cases hinit : init = []
    · exact ⟨l.1 ++ "@", by rw [hinit, List.map_nil, List.nil_append, String.intercalate_singleton]⟩
    · refine ⟨"+".intercalate (init.map loraText) ++ "+" ++ (l.1 ++ "@"), ?_⟩
      rw [String.intercalate_append_of_ne_nil (fun hmap => hinit (List.map_eq_nil_iff.mp hmap))
        (List.cons_ne_nil _ _), String.intercalate_singleton]
      simp only [String.append_assoc]
  rcases hend with ⟨first, hfirst⟩
  rw [hfirst, String.toList_append, List.getLast?_append, htext, Option.some_or]

theorem loraFingerprint_nil : loraFingerprint [] = "" := by
  rw [loraFingerprint, List.mergeSort_nil, List.map_nil, String.intercalate_nil]

/-- A key ends in a colon exactly where there are no adapters. -/
theorem getLast?_cacheKey (a : LoadArgs) :
    a.cacheKey.toList.getLast? = some ':' ↔ a.loras = [] := by
  rw [cacheKey_eq]
  constructor
  · intro h
    by_contra hne
    rcases getLast?_loraFingerprint hne with ⟨d, hd, hlast⟩
    rw [String.toList_append, List.getLast?_append, hlast, Option.some_or, Option.some.injEq] at h
    interval_cases d <;> exact absurd h (by decide)
  · intro h
    rw [h, loraFingerprint_nil, String.append_empty, String.toList_append]
    exact List.getLast?_concat

/-- The ids in the fingerprint are sorted whatever the scales. -/
theorem map_fst_mergeSort (loras : List (String × Scale)) :
    ((loras.mergeSort loraLe).map Prod.fst).Pairwise (· ≤ ·) := by
  have htotal : ∀ a b : String × Scale, (loraLe a b || loraLe b a) = true := by
    intro a b
    simp only [loraLe, Bool.or_eq_true, Bool.and_eq_true, decide_eq_true_eq]
    rcases lt_trichotomy a.1 b.1 with hlt | heq | hgt
    · exact Or.inl (Or.inl hlt)
    · rcases le_total a.2.value b.2.value with hle | hle
      · exact Or.inl (Or.inr ⟨heq, hle⟩)
      · exact Or.inr (Or.inr ⟨heq.symm, hle⟩)
    · exact Or.inr (Or.inl hgt)
  have htrans : ∀ a b c : String × Scale, loraLe a b = true → loraLe b c = true →
      loraLe a c = true := by
    intro a b c
    simp only [loraLe, Bool.or_eq_true, Bool.and_eq_true, decide_eq_true_eq]
    rintro (hab | ⟨hab, hle⟩) (hbc | ⟨hbc, hle'⟩)
    · exact Or.inl (hab.trans hbc)
    · exact Or.inl (hbc ▸ hab)
    · exact Or.inl (hab ▸ hbc)
    · exact Or.inr ⟨hab.trans hbc, hle.trans hle'⟩
  refine List.pairwise_map.mpr ((List.pairwise_mergeSort htrans htotal loras).imp fun {a b} h => ?_)
  simp only [loraLe, Bool.or_eq_true, Bool.and_eq_true, decide_eq_true_eq] at h
  rcases h with hlt | ⟨heq, -⟩
  · exact le_of_lt hlt
  · exact le_of_eq heq

/-- Adapters with the same ids have one fingerprint if their scales have one
    text. -/
theorem loraFingerprint_congr {loras loras' : List (String × Scale)} (text : String)
    (hids : loras.map Prod.fst = loras'.map Prod.fst) (h : ∀ l ∈ loras, l.2.text = text)
    (h' : ∀ l ∈ loras', l.2.text = text) : loraFingerprint loras = loraFingerprint loras' := by
  have hwrite : ∀ {ls : List (String × Scale)}, (∀ l ∈ ls, l.2.text = text) →
      (ls.mergeSort loraLe).map loraText =
        ((ls.mergeSort loraLe).map Prod.fst).map (fun id => id ++ "@" ++ text) := by
    intro ls hls
    rw [List.map_map]
    refine List.map_congr_left fun l hl => ?_
    rw [Function.comp_apply, loraText, hls l (List.mem_mergeSort.mp hl)]
  have hperm : ((loras.mergeSort loraLe).map Prod.fst).Perm
      ((loras'.mergeSort loraLe).map Prod.fst) := by
    refine ((List.mergeSort_perm loras loraLe).map Prod.fst).trans ?_
    rw [hids]
    exact ((List.mergeSort_perm loras' loraLe).map Prod.fst).symm
  have hsorted : (loras.mergeSort loraLe).map Prod.fst = (loras'.mergeSort loraLe).map Prod.fst :=
    List.Perm.eq_of_pairwise (fun _ _ _ _ => le_antisymm) (map_fst_mergeSort loras)
      (map_fst_mergeSort loras') hperm
  rw [loraFingerprint, loraFingerprint, hwrite h, hwrite h', hsorted]

/-! ## Which requests are sound -/

/-- The scale of one, and the next that has its text. -/
def Scale.one : Scale := ⟨false, 1, by decide⟩

def Scale.nearOne : Scale := ⟨false, 1 + 1 / 65536, by norm_num⟩

theorem text_nearOne : Scale.nearOne.text = Scale.one.text := by
  have hnear := fixed_add 4 false 1 (1 / 65536) (by norm_num) (by norm_num)
  rw [Nat.cast_one] at hnear
  exact hnear

namespace Registries

variable {reg : Registries}

theorem exists_get {tenant modelId : String} (h : (reg.models tenant).get modelId ≠ none) :
    ∃ entry, (reg.models tenant).get modelId = some entry := Option.ne_none_iff_exists'.mp h

/-- What is made of a model without adapters. -/
theorem build_nil {tenant modelId : String} (mode : String) {entry : ModelEntry}
    (h : (reg.models tenant).get modelId = some entry) :
    reg.build ⟨tenant, modelId, mode, []⟩ =
      some ⟨entry.sha256Plaintext, mode = "embedding", none⟩ := by
  simp only [build, h, loraPaths]
  rfl

/-- What is made of a model with adapters that are all registered. -/
theorem build_cons {tenant modelId : String} (mode : String) {entry : ModelEntry}
    (h : (reg.models tenant).get modelId = some entry) (l : String × Scale)
    (rest : List (String × Scale))
    (hl : ∀ l' ∈ l :: rest, (reg.loras tenant).get l'.1 ≠ none) :
    ∃ adapter, (reg.loras tenant).get l.1 = some adapter ∧
      reg.build ⟨tenant, modelId, mode, l :: rest⟩ =
        some ⟨entry.sha256Plaintext, mode = "embedding",
          some (adapter.sha256Plaintext, l.2.value)⟩ := by
  have hpaths : ∀ ls : List (String × Scale), (∀ l' ∈ ls, (reg.loras tenant).get l'.1 ≠ none) →
      ∃ paths, reg.loraPaths tenant ls = some paths := by
    intro ls hls
    induction ls with
    | nil => exact ⟨[], rfl⟩
    | cons l' ls ih =>
        rcases Option.ne_none_iff_exists'.mp (hls l' List.mem_cons_self) with ⟨e, he⟩
        rcases ih (fun x hx => hls x (List.mem_cons_of_mem _ hx)) with ⟨paths, hpaths⟩
        unfold loraPaths at hpaths ⊢
        rw [List.mapM_cons, he, hpaths]
        exact ⟨_, rfl⟩
  rcases Option.ne_none_iff_exists'.mp (hl l List.mem_cons_self) with ⟨adapter, hadapter⟩
  rcases hpaths rest (fun x hx => hl x (List.mem_cons_of_mem _ hx)) with ⟨paths, hrest⟩
  refine ⟨adapter, hadapter, ?_⟩
  unfold loraPaths at hrest
  simp only [build, h, loraPaths, List.mapM_cons, hadapter, hrest]
  rfl

end Registries

open Registries

/-- With adapters, another request with the key has another scale. -/
theorem not_soundFor_cons {reg : Registries} {tenant modelId : String} (mode : String)
    {id : String} {rest : List String} (hreg : reg.Lists tenant modelId (id :: rest)) :
    ¬ reg.SoundFor tenant modelId mode (id :: rest) := by
  intro hsound
  rcases exists_get hreg.1 with ⟨entry, hentry⟩
  let others : List (String × Scale) := rest.map (fun id => (id, .one))
  have hids : ∀ s : Scale, ((id, s) :: others).map Prod.fst = id :: rest := by
    intro s
    simp [others, Function.comp_def]
  have hlisted : ∀ s : Scale, ∀ l ∈ (id, s) :: others, (reg.loras tenant).get l.1 ≠ none := by
    intro s l hl
    refine hreg.2 l.1 ?_
    rw [← hids s]
    exact List.mem_map_of_mem hl
  have htext : ∀ s : Scale, s.text = Scale.one.text →
      ∀ l ∈ (id, s) :: others, l.2.text = Scale.one.text := by
    intro s hs l hl
    rcases List.mem_cons.mp hl with rfl | hmem
    · exact hs
    · rcases List.mem_map.mp hmem with ⟨_, _, rfl⟩
      rfl
  have hkey : (LoadArgs.mk tenant modelId mode ((id, .one) :: others)).cacheKey =
      (LoadArgs.mk tenant modelId mode ((id, .nearOne) :: others)).cacheKey := by
    rw [cacheKey_eq, cacheKey_eq, loraFingerprint_congr Scale.one.text
      ((hids _).trans (hids _).symm) (htext _ rfl) (htext _ text_nearOne)]
    rfl
  have hbuild := hsound _ _ (hids .one) ⟨hreg.1, by rw [hids]; exact hreg.2⟩ hkey
  rcases build_cons mode hentry (id, .one) others (hlisted _) with ⟨adapter, hadapter, hone⟩
  rcases build_cons mode hentry (id, .nearOne) others (hlisted _) with ⟨adapter', -, hnear⟩
  rw [hone, hnear] at hbuild
  simp only [Option.some.injEq, Built.mk.injEq, Prod.mk.injEq, true_and] at hbuild
  have hne : Scale.one.value ≠ Scale.nearOne.value := by decide +kernel
  exact hne hbuild.2

/-- **Which requests share their keys only with their like.** -/
theorem slot_reuse_sound_iff (reg : Registries) (tenant modelId mode : String) (ids : List String)
    (hreg : reg.Lists tenant modelId ids) :
    reg.SoundFor tenant modelId mode ids ↔ ids = [] ∧ reg.Unambiguous tenant modelId mode := by
  rcases exists_get hreg.1 with ⟨entry, hentry⟩
  constructor
  · intro hsound
    cases ids with
    | cons id rest => exact absurd hsound (not_soundFor_cons mode hreg)
    | nil =>
        refine ⟨rfl, fun tenant' modelId' mode' hlisted htext => ?_⟩
        rcases exists_get hlisted with ⟨entry', hentry'⟩
        have hkey : (LoadArgs.mk tenant modelId mode []).cacheKey =
            (LoadArgs.mk tenant' modelId' mode' []).cacheKey := by
          rw [cacheKey_eq, cacheKey_eq, LoadArgs.names, LoadArgs.names, htext]
        have hbuild := hsound [] ⟨tenant', modelId', mode', []⟩ rfl ⟨hlisted, nofun⟩ hkey
        rw [build_nil mode hentry, build_nil mode' hentry'] at hbuild
        simp only [Option.some.injEq, Built.mk.injEq, and_true, decide_eq_decide] at hbuild
        rw [hentry, hentry', Option.map_some, Option.map_some, hbuild.1]
        exact ⟨rfl, hbuild.2⟩
  · rintro ⟨rfl, hun⟩ loras ⟨tenant', modelId', mode', loras'⟩ hids hb hkey
    have hnil : loras = [] := List.map_eq_nil_iff.mp hids
    rw [hnil] at hkey ⊢
    have hlast := (getLast?_cacheKey ⟨tenant, modelId, mode, []⟩).mpr rfl
    rw [hkey] at hlast
    have hnil' : loras' = [] := (getLast?_cacheKey ⟨tenant', modelId', mode', loras'⟩).mp hlast
    rw [hnil'] at hkey ⊢
    rcases exists_get hb.1 with ⟨entry', hentry'⟩
    have htext : tenant ++ ":" ++ modelId ++ ":" ++ mode =
        tenant' ++ ":" ++ modelId' ++ ":" ++ mode' := by
      rw [cacheKey_eq, cacheKey_eq] at hkey
      exact (append_right_inj_iff _ _ _).mp ((append_right_inj_iff _ _ _).mp hkey)
    rcases hun tenant' modelId' mode' hb.1 htext with ⟨hsha, hmode⟩
    rw [hentry, hentry', Option.map_some, Option.map_some, Option.some.injEq] at hsha
    rw [build_nil mode hentry, build_nil mode' hentry', hsha, decide_eq_decide.mpr hmode]

/-- The registries of a server with one model and one adapter. -/
def Registries.sample : Registries where
  models _ := { (Registry.start : ModelRegistry) with
    byId := Dict.empty.set "llama" (.sample "llama" "1") }
  loras _ := { (Registry.start : LoraRegistry) with
    byId := Dict.empty.set "style" ⟨"style", "2", "", "style.gguf", 1, 1, none, 0⟩ }

theorem slot_reuse_sound_iff_sample :
    Registries.sample.Lists "default" "llama" ["style"] ∧
      (Registries.sample.SoundFor "default" "llama" "chat" ["style"] ↔
        ["style"] = [] ∧ Registries.sample.Unambiguous "default" "llama" "chat") := by
  have hlists : Registries.sample.Lists "default" "llama" ["style"] := by
    refine ⟨by decide, fun lid hlid => ?_⟩
    rw [List.mem_singleton.mp hlid]
    decide
  exact ⟨hlists, slot_reuse_sound_iff .sample "default" "llama" "chat" ["style"] hlists⟩

/-- Two requests for one adapter at different scales share a key, though another backend would be
built for each. -/
theorem scales_share_slot :
    (LoadArgs.mk "default" "llama" "chat" [("style", .one)]).cacheKey =
        (LoadArgs.mk "default" "llama" "chat" [("style", .nearOne)]).cacheKey ∧
      Registries.sample.build ⟨"default", "llama", "chat", [("style", .one)]⟩ =
        some ⟨"1", false, some ("2", 1)⟩ ∧
      Registries.sample.build ⟨"default", "llama", "chat", [("style", .nearOne)]⟩ =
        some ⟨"1", false, some ("2", 1 + 1 / 65536)⟩ ∧
      some (Built.mk "1" false (some ("2", 1))) ≠
        some ⟨"1", false, some ("2", 1 + 1 / 65536)⟩ := by
  refine ⟨?_, ?_, ?_, ?_⟩
  all_goals decide +kernel

end Models

end SecureLlm
