import SecureLlm.Crypto.AtRest
import SecureLlm.Models.Registry

/-!
# Loading a Model

`_load` decrypts a model and its adapters into tmpfs, one file after the other,
makes the backend while the files are there, and unlinks them all. Each file is
on the stack of what will be unlinked from when it has been written.

So nothing is left of a load that ends between two files, or in the backend. What
is left is the file that was being written when it ended.

## Main definitions

* `LlamaBackend`: What the constructor is given.
* `load`: Loading, up to the backend.
* `AllLand`: No file that is made fails to be written.

## Theorems

* `enterLoras_spec`: What the adapters leave in the directory and on the stack.
* `load_leaves_nothing_iff`: When a load leaves nothing.
* `failed_write_stays`: A load that leaves a file.
-/

namespace SecureLlm

open Library

namespace Models

structure LoadSettings where
  nGpuLayers : ℤ
  nThreads : ℤ

/-- What a backend is made of. -/
structure LlamaBackend where
  modelPath : String
  nCtx : ℤ
  nGpuLayers : ℤ
  nThreads : ℤ
  embedding : Bool
  loraPaths : List (String × ℚ)

variable (decrypt : Bytes → Option Bytes) (construct : LlamaBackend → Except String Unit)

/-- The files of the adapters, from the one of a number on, with the stack of
    what will be unlinked. -/
def enterLoras (loraReg : Option LoraRegistry) (io : ℕ → FileIo) :
    ℕ → List (String × ℚ) → Dict String Bytes → List String →
      Dict String Bytes × List String × Except LoadError (List (String × ℚ))
  | _, [], tmpfs, stack => (tmpfs, stack, .ok [])
  | i, (lid, scale) :: rest, tmpfs, stack =>
    -- `ensure_loaded` has looked for the adapters, but that was before.
    match loraReg with
    | none => (tmpfs, stack, .error .assertionError)
    | some reg =>
      match reg.get lid with
      | none => (tmpfs, stack, .error .assertionError)
      | some lentry =>
        match enterTmpfs decrypt (reg.ciphertexts.get? lentry.ciphertextPath) (io i) tmpfs with
        | (tmpfs, .error e) => (tmpfs, stack, .error e)
        | (tmpfs, .ok lpath) =>
          let (tmpfs, stack, paths) := enterLoras loraReg io (i + 1) rest tmpfs (lpath :: stack)
          (tmpfs, stack, paths.map ((lpath, scale) :: ·))

/-- The end of the `with`: what is on the stack is unlinked. -/
def unwind (stack : List String) (tmpfs : Dict String Bytes) : Dict String Bytes :=
  stack.foldl (fun tmpfs name => exitTmpfs name tmpfs) tmpfs

/-- `_load`, up to where the slot is made: the directory after it, and the backend
    or what is raised. The file of a number is made as its `FileIo` says. -/
def load (settings : LoadSettings) (registry : ModelRegistry) (loraReg : Option LoraRegistry)
    (entry : ModelEntry) (nCtx : ℤ) (mode : String) (loras : List (String × ℚ)) (io : ℕ → FileIo)
    (tmpfs : Dict String Bytes) : Dict String Bytes × Except LoadError LlamaBackend :=
  match enterTmpfs decrypt (registry.ciphertexts.get? entry.ciphertextPath) (io 0) tmpfs with
  -- Nothing is on the stack yet.
  | (tmpfs, .error e) => (tmpfs, .error e)
  | (tmpfs, .ok plain) =>
    match enterLoras decrypt loraReg io 1 loras tmpfs [plain] with
    | (tmpfs, stack, .error e) => (unwind stack tmpfs, .error e)
    | (tmpfs, stack, .ok loraPaths) =>
      let backend : LlamaBackend := {
        modelPath := plain
        nCtx := nCtx
        nGpuLayers := settings.nGpuLayers
        nThreads := settings.nThreads
        embedding := mode = "embedding"
        loraPaths := loraPaths }
      match construct backend with
      | .error message => (unwind stack tmpfs, .error (.backendError message))
      | .ok () => (unwind stack tmpfs, .ok backend)

/-- The blob of an adapter, if it is registered and there. -/
def loraBlob (loraReg : Option LoraRegistry) (spec : String × ℚ) : Option Bytes :=
  loraReg.bind fun reg => (reg.get spec.1).bind fun lentry =>
    reg.ciphertexts.get? lentry.ciphertextPath

/-- Of the blobs from a number on, each that a file is made for lands. A load goes no
    further than the first blob that no file is made for. -/
def AllLand (io : ℕ → FileIo) : ℕ → Dict String Bytes → List (Option Bytes) → Prop
  | _, _, [] => True
  | i, tmpfs, blob :: rest =>
    match made decrypt blob (io i) tmpfs with
    | none => True
    | some plaintext =>
      (io i).Lands plaintext.length ∧ AllLand io (i + 1) (tmpfs.set (io i).name plaintext) rest

/-- The call leaves no file that was not there. -/
def LeavesNothing (before after : Dict String Bytes) : Prop :=
  ∀ name, before.get? name = none → after.get? name = none

theorem get?_unwind (stack : List String) (tmpfs : Dict String Bytes) (name : String) :
    (unwind stack tmpfs).get? name = if name ∈ stack then none else tmpfs.get? name := by
  induction stack generalizing tmpfs with
  | nil => rw [if_neg List.not_mem_nil]; rfl
  | cons top stack ih =>
      rw [unwind, List.foldl_cons, ← unwind, ih, exitTmpfs, Dict.get?_erase]
      by_cases htop : name = top
      · rw [if_pos htop, ite_self, if_pos (List.mem_cons.mpr (Or.inl htop))]
      · by_cases hstack : name ∈ stack
        · rw [if_pos hstack, if_pos (List.mem_cons_of_mem top hstack)]
        · have hnot : name ∉ top :: stack := fun h =>
            (List.mem_cons.mp h).elim htop hstack
          rw [if_neg hstack, if_neg htop, if_neg hnot]

/-- A directory is the one before with the files on a stack in it, none of which was
    there before. -/
structure Holds (before : Dict String Bytes) (stack : List String) (tmpfs : Dict String Bytes) :
    Prop where
  others : ∀ name, name ∉ stack → tmpfs.get? name = before.get? name
  fresh : ∀ name ∈ stack, before.get? name = none
  there : ∀ name ∈ stack, tmpfs.get? name ≠ none

/-- What the stack has is gone once it is unwound. -/
theorem Holds.unwind {before tmpfs : Dict String Bytes} {stack : List String}
    (h : Holds before stack tmpfs) : LeavesNothing before (unwind stack tmpfs) := by
  intro name hname
  rw [get?_unwind]
  by_cases hstack : name ∈ stack
  · rw [if_pos hstack]
  · rw [if_neg hstack, h.others name hstack, hname]

/-- A file that is made goes on the stack. -/
theorem Holds.push {before tmpfs : Dict String Bytes} {stack : List String}
    (h : Holds before stack tmpfs) (name : String) (content : Bytes)
    (hfree : tmpfs.get? name = none) : Holds before (name :: stack) (tmpfs.set name content) := by
  refine ⟨?_, ?_, ?_⟩
  · intro other hother
    rw [List.mem_cons, not_or] at hother
    rw [Dict.get?_set, if_neg hother.1, h.others other hother.2]
  · intro other hother
    rcases List.mem_cons.mp hother with rfl | hother
    · by_cases hstack : other ∈ stack
      · exact h.fresh other hstack
      · rw [← h.others other hstack, hfree]
    · exact h.fresh other hother
  · intro other hother
    rw [Dict.get?_set]
    split
    · exact Option.some_ne_none content
    · rename_i hother'
      exact h.there other ((List.mem_cons.mp hother).resolve_left hother')

/-- Something is there that was not, and is not on the stack. -/
def Leaks (before : Dict String Bytes) (stack : List String) (tmpfs : Dict String Bytes) : Prop :=
  ∃ name, name ∉ stack ∧ before.get? name = none ∧ tmpfs.get? name ≠ none

theorem Leaks.unwind {before tmpfs : Dict String Bytes} {stack : List String}
    (h : Leaks before stack tmpfs) : ¬ LeavesNothing before (unwind stack tmpfs) := by
  rcases h with ⟨name, hstack, hbefore, hthere⟩
  intro hnothing
  have hgone := hnothing name hbefore
  rw [get?_unwind, if_neg hstack] at hgone
  exact hthere hgone

/-- A file that is made and is not put on the stack is leaked. -/
theorem Holds.leaks {before tmpfs : Dict String Bytes} {stack : List String}
    (h : Holds before stack tmpfs) (name : String) (content : Bytes)
    (hfree : tmpfs.get? name = none) : Leaks before stack (tmpfs.set name content) := by
  have hstack : name ∉ stack := fun hmem => h.there name hmem hfree
  refine ⟨name, hstack, ?_, ?_⟩
  · rw [← h.others name hstack, hfree]
  · rw [Dict.get?_set, if_pos rfl]
    exact Option.some_ne_none content

/-- An adapter for which no file is made ends the loop. -/
theorem enterLoras_refused (loraReg : Option LoraRegistry) (io : ℕ → FileIo) (i : ℕ)
    (spec : String × ℚ) (rest : List (String × ℚ)) (tmpfs : Dict String Bytes)
    (stack : List String) (h : made decrypt (loraBlob loraReg spec) (io i) tmpfs = none) :
    ∃ e, enterLoras decrypt loraReg io i (spec :: rest) tmpfs stack
      = (tmpfs, stack, .error e) := by
  rcases spec with ⟨lid, scale⟩
  cases loraReg with
  | none => exact ⟨.assertionError, rfl⟩
  | some reg =>
      rw [enterLoras]
      dsimp only
      cases hentry : reg.get lid with
      | none => exact ⟨.assertionError, rfl⟩
      | some lentry =>
          rw [loraBlob, Option.bind_some, hentry, Option.bind_some] at h
          rcases enterTmpfs_refused decrypt _ (io i) tmpfs h with ⟨e, he⟩
          exact ⟨e, by simp only [he]⟩

/-- One for which a file is made goes on where everything lands, and ends it
    otherwise with the file there. -/
theorem enterLoras_made (loraReg : Option LoraRegistry) (io : ℕ → FileIo) (i : ℕ)
    (spec : String × ℚ) (rest : List (String × ℚ)) (tmpfs : Dict String Bytes)
    (stack : List String) (plaintext : Bytes)
    (h : made decrypt (loraBlob loraReg spec) (io i) tmpfs = some plaintext) :
    tmpfs.get? (io i).name = none ∧
      ((io i).Lands plaintext.length → ∃ paths,
        enterLoras decrypt loraReg io i (spec :: rest) tmpfs stack
          = ((enterLoras decrypt loraReg io (i + 1) rest (tmpfs.set (io i).name plaintext)
                ((io i).name :: stack)).1,
              (enterLoras decrypt loraReg io (i + 1) rest (tmpfs.set (io i).name plaintext)
                ((io i).name :: stack)).2.1, paths)) ∧
      (¬ (io i).Lands plaintext.length → ∃ content e,
        enterLoras decrypt loraReg io i (spec :: rest) tmpfs stack
          = (tmpfs.set (io i).name content, stack, .error e)) := by
  rcases spec with ⟨lid, scale⟩
  cases loraReg with
  | none =>
      rw [loraBlob, Option.bind_none, made_none] at h
      cases h
  | some reg =>
      rw [loraBlob, Option.bind_some] at h
      cases hentry : reg.get lid with
      | none =>
          rw [hentry, Option.bind_none, made_none] at h
          cases h
      | some lentry =>
          rw [hentry, Option.bind_some] at h
          rcases enterTmpfs_made decrypt _ (io i) tmpfs plaintext h with ⟨hfree, hlands, hfails⟩
          refine ⟨hfree, ?_, ?_⟩
          · intro hl
            exact ⟨(enterLoras decrypt (some reg) io (i + 1) rest
              (tmpfs.set (io i).name plaintext) ((io i).name :: stack)).2.2.map
                (((io i).name, scale) :: ·),
              by simp only [enterLoras, hentry, hlands hl]⟩
          · intro hl
            rcases hfails hl with ⟨content, e, he⟩
            exact ⟨content, e, by simp only [enterLoras, hentry, he]⟩

/-- What the adapters leave: where every file lands all that is made is on the stack,
    and otherwise a file is leaked. -/
theorem enterLoras_spec (loraReg : Option LoraRegistry) (io : ℕ → FileIo)
    (before : Dict String Bytes) (loras : List (String × ℚ)) (i : ℕ) (tmpfs : Dict String Bytes)
    (stack : List String) (h : Holds before stack tmpfs) :
    (AllLand decrypt io i tmpfs (loras.map (loraBlob loraReg)) →
      Holds before (enterLoras decrypt loraReg io i loras tmpfs stack).2.1
        (enterLoras decrypt loraReg io i loras tmpfs stack).1) ∧
    (¬ AllLand decrypt io i tmpfs (loras.map (loraBlob loraReg)) →
      Leaks before (enterLoras decrypt loraReg io i loras tmpfs stack).2.1
        (enterLoras decrypt loraReg io i loras tmpfs stack).1) := by
  induction loras generalizing i tmpfs stack with
  | nil => exact ⟨fun _ => h, fun hnot => absurd trivial hnot⟩
  | cons spec rest ih =>
      rw [List.map_cons, AllLand]
      cases hmade : made decrypt (loraBlob loraReg spec) (io i) tmpfs with
      | none =>
          rcases enterLoras_refused decrypt loraReg io i spec rest tmpfs stack hmade with ⟨e, he⟩
          rw [he]
          exact ⟨fun _ => h, fun hnot => absurd trivial hnot⟩
      | some plaintext =>
          rcases enterLoras_made decrypt loraReg io i spec rest tmpfs stack plaintext hmade with
            ⟨hfree, hlands, hfails⟩
          dsimp only
          by_cases hl : (io i).Lands plaintext.length
          -- The file is on the stack, and the others are as they were.
          · rcases hlands hl with ⟨paths, hgo⟩
            have hrest := ih (i + 1) _ _ (h.push (io i).name plaintext hfree)
            rw [hgo]
            exact ⟨fun hall => hrest.1 hall.2,
              fun hnot => hrest.2 fun hall => hnot ⟨hl, hall⟩⟩
          -- It is in the directory and nowhere else.
          · rcases hfails hl with ⟨content, e, he⟩
            rw [he]
            exact ⟨fun hall => absurd hall.1 hl,
              fun _ => h.leaks (io i).name content hfree⟩

/-- **When a load leaves nothing.** Whatever a load is given and wherever it ends, it
    leaves no file in the directory exactly where no file that it makes fails to be
    written and closed. -/
theorem load_leaves_nothing_iff (settings : LoadSettings) (registry : ModelRegistry)
    (loraReg : Option LoraRegistry) (entry : ModelEntry) (nCtx : ℤ) (mode : String)
    (loras : List (String × ℚ)) (io : ℕ → FileIo) (tmpfs : Dict String Bytes) :
    LeavesNothing tmpfs (load decrypt construct settings registry loraReg entry nCtx mode loras io
        tmpfs).1 ↔
      AllLand decrypt io 0 tmpfs (registry.ciphertexts.get? entry.ciphertextPath ::
        loras.map (loraBlob loraReg)) := by
  have hstart : Holds tmpfs [] tmpfs :=
    ⟨fun _ _ => rfl, fun _ h => absurd h List.not_mem_nil, fun _ h => absurd h List.not_mem_nil⟩
  rw [AllLand, load]
  cases hmade : made decrypt (registry.ciphertexts.get? entry.ciphertextPath) (io 0) tmpfs with
  | none =>
      rcases enterTmpfs_refused decrypt _ (io 0) tmpfs hmade with ⟨e, he⟩
      simp only [he]
      exact iff_of_true (fun _ h => h) trivial
  | some plaintext =>
      rcases enterTmpfs_made decrypt _ (io 0) tmpfs plaintext hmade with ⟨hfree, hlands, hfails⟩
      dsimp only
      by_cases hl : (io 0).Lands plaintext.length
      · have hspec := enterLoras_spec decrypt loraReg io tmpfs loras 1 _ _
          (hstart.push (io 0).name plaintext hfree)
        rw [hlands hl]
        dsimp only
        -- However it ends from here on, the stack is unwound.
        have hunwound : LeavesNothing tmpfs (unwind
            (enterLoras decrypt loraReg io 1 loras (tmpfs.set (io 0).name plaintext)
              [(io 0).name]).2.1
            (enterLoras decrypt loraReg io 1 loras (tmpfs.set (io 0).name plaintext)
              [(io 0).name]).1) ↔
            (io 0).Lands plaintext.length ∧ AllLand decrypt io (0 + 1)
              (tmpfs.set (io 0).name plaintext) (loras.map (loraBlob loraReg)) := by
          constructor
          · intro hnothing
            by_contra hnot
            exact (hspec.2 fun hall => hnot ⟨hl, hall⟩).unwind hnothing
          · rintro ⟨-, hall⟩
            exact (hspec.1 hall).unwind
        rw [← hunwound]
        cases hloras : enterLoras decrypt loraReg io 1 loras (tmpfs.set (io 0).name plaintext)
            [(io 0).name] with
        | mk tmpfs' rest =>
            rcases rest with ⟨stack, paths⟩
            cases paths with
            | error e => exact Iff.rfl
            | ok paths =>
                dsimp only
                split
                · exact Iff.rfl
                · exact Iff.rfl
      -- The model's own file fails, with nothing on the stack.
      · rcases hfails hl with ⟨content, e, he⟩
        rw [he]
        dsimp only
        refine iff_of_false ?_ fun hall => hl hall.1
        exact (hstart.leaks (io 0).name content hfree).unwind

/-- A registry with a model whose blob is three bytes. -/
def ModelRegistry.blob (entry : ModelEntry) : ModelRegistry :=
  (Registry.start.add (modelFormat 0) entry).encrypt (modelFormat 0) entry [1, 2, 3]

/-- A load of it whose second write finds the directory full. -/
def loadFull : Dict String Bytes × Except LoadError LlamaBackend :=
  load some (fun _ => .ok ()) ⟨0, 4⟩ (.blob (.sample "llama" "1")) none (.sample "llama" "1") 4096
    "chat" [] (fun _ => { uuid := "u", writes := [.wrote 2, .wrote 0] }) .empty

/-- Two bytes of the model are in the directory after that load. -/
theorem failed_write_stays :
    loadFull.1.get? "u.gguf" = some [1, 2] ∧ ¬ LeavesNothing .empty loadFull.1 := by
  have hthere : loadFull.1.get? "u.gguf" = some [1, 2] := by
    decide +kernel
  refine ⟨hthere, ?_⟩
  intro hnothing
  have hgone := hnothing "u.gguf" rfl
  rw [hthere] at hgone
  cases hgone

end Models

end SecureLlm
