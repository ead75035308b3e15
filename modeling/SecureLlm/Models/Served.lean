import SecureLlm.Models.Reuse

/-!
# Slots and the Registries

`ensure_loaded` looks the model up in the registry of the tenant. If a slot is
loaded under the key of the request, it returns that slot. Otherwise it looks
the adapters up as well and loads a slot, from the ciphertexts the registries
list by then. After that nobody looks at what a slot was made of, so it is
right to return it only while the ids it was made for list the same contents.

Contents get another place in the registries when something is downloaded, and
lose it when something is removed. The router that removes a model unloads it
first; the one that removes an adapter unloads nothing, and neither does a
download. A registry also may change while a call waits for room, and its model
is the one it looked up before.

A download is a thread's. It writes the ciphertext and then lists the entry,
with the loop at work or not.

## Main definitions

* `Registries.listedSha`: The contents listed for an id.
* `Registries.contents`: What `_load` reads.
* `Origin`: What a slot was loaded for, and made of.
* `Answer`: What a call of `ensure_loaded` came to.
* `Served`: The manager, the registries, and what is asked of the manager.
* `Served.step`: One step.
* `Served.Right`: The answer the registries ask for.
* `Served.Orderly`: The steps that change nothing in use and find what they look
  for.

## Theorems

* `Registries.listedSha_add`, `Registries.listedSha_remove`: What is listed after
  a change.
* `Registries.matches_of_contents`: What is loaded is of what is listed.
-/

namespace SecureLlm

open Library

namespace Models

namespace Registries

variable (reg : Registries)

/-- The contents a tenant's registry lists for an id. -/
def listedSha {E M : Type} (fmt : EntryFormat E M) (regs : String → Registry E M)
    (tenant id : String) : Option String :=
  ((regs tenant).get id).map fmt.sha256

def modelSha (tenant id : String) : Option String := listedSha (modelFormat 0) reg.models tenant id

def loraSha (tenant id : String) : Option String := listedSha (loraFormat 0) reg.loras tenant id

def setModels (tenant : String) (models : ModelRegistry) : Registries :=
  { reg with models := Function.update reg.models tenant models }

def setLoras (tenant : String) (loras : LoraRegistry) : Registries :=
  { reg with loras := Function.update reg.loras tenant loras }

/-- The contents of the adapters of a request, each with a ciphertext to read. -/
def loraContents (tenant : String) : List (String × Scale) → Option (List String)
  | [] => some []
  | l :: rest => do
    let entry ← (reg.loras tenant).get l.1
    let _ ← (reg.loras tenant).ciphertexts.get? entry.ciphertextPath
    let shas ← loraContents tenant rest
    return entry.sha256Plaintext :: shas

/-- What `_load` reads: the model as it was looked up, and the adapters as they
    are listed now. -/
def contents (a : LoadArgs) (entry : ModelEntry) : Option (String × List String) := do
  let _ ← (reg.models a.tenant).ciphertexts.get? entry.ciphertextPath
  let shas ← reg.loraContents a.tenant a.loras
  return (entry.sha256Plaintext, shas)

end Registries

/-- The ids of the adapters. -/
def LoadArgs.ids (a : LoadArgs) : List String := a.loras.map Prod.fst

/-- The same model and adapters of one tenant, in any order and at any scale. -/
def LoadArgs.Same (a b : LoadArgs) : Prop :=
  a.tenant = b.tenant ∧ a.modelId = b.modelId ∧ ∀ lid, lid ∈ a.ids ↔ lid ∈ b.ids

/-- The arguments a slot was loaded for, and the contents of the model and of the
    adapters it was made of. -/
structure Origin where
  args : LoadArgs
  model : String
  loras : List String

/-- A slot is of the contents that are listed for these arguments. -/
structure Origin.Matches (o : Origin) (reg : Registries) (a : LoadArgs) : Prop where
  model : reg.modelSha a.tenant a.modelId = some o.model
  listed : ∀ lid ∈ a.ids, reg.loraSha a.tenant lid ≠ none
  loras : ∀ sha, sha ∈ o.loras ↔ ∃ lid ∈ a.ids, reg.loraSha a.tenant lid = some sha

/-- What `ensure_loaded` comes to: a slot, `MODEL_NOT_FOUND` or another
    exception. -/
inductive Ensured where
  | slot (b : ℕ)
  | notFound
  | failed
  deriving DecidableEq

/-- What a call came to, with the registries as they were then. -/
structure Answer where
  args : LoadArgs
  registries : Registries
  result : Ensured

/-- Who waits for a task of the manager: a call of `ensure_loaded`, with the entry
    it has looked up, or `remove_model`. -/
inductive Caller where
  | ensure (a : LoadArgs) (entry : ModelEntry)
  | remove (tenant id : String)

/-- The manager with the registries. A slot and its origin have one number, and
    the answers are listed newest first. -/
structure Served where
  manager : ModelManager
  registries : Registries
  built : List Origin
  callers : ℕ → Option Caller
  answers : List Answer

/-- Something happens. -/
inductive ServedEvent where
  /-- The two writes of a download. -/
  | encryptModel (tenant : String) (entry : ModelEntry) (ciphertext : Bytes)
  | addModel (tenant : String) (entry : ModelEntry)
  | encryptLora (tenant : String) (entry : LoraEntry) (ciphertext : Bytes)
  | addLora (tenant : String) (entry : LoraEntry)
  /-- `remove_model` begins. -/
  | removeModel (k : ℕ) (tenant id : String)
  /-- `admin_loras_rm`. -/
  | removeLora (tenant id : String)
  /-- `ensure_loaded` is called. -/
  | ensure (k : ℕ) (a : LoadArgs) (nCtx : Option ℤ) (job : Option (Kind × Bool))
  /-- Anything else the manager does. -/
  | manager (e : ModelManager.Event)

/-- Does a task that is through leave by an exception? -/
def ModelManager.TaskEvent.raises : ModelManager.TaskEvent → Bool
  | .abort | .cancel => true
  | _ => false

namespace Served

open ModelManager

/-- Nothing is loaded and nothing listed. -/
def start : Served := ⟨.start, ⟨fun _ => .start, fun _ => .start⟩, [], fun _ => none, []⟩

variable (cfg : Config) (s : Served)

/-- A call ends. -/
def answer (a : LoadArgs) (result : Ensured) : Served :=
  { s with answers := ⟨a, s.registries, result⟩ :: s.answers }

/-- Who waits for a task from now on. -/
def setCaller (k : ℕ) (caller : Option Caller) : Served :=
  { s with callers := Function.update s.callers k caller }

def setManager (manager : ModelManager) : Served := { s with manager }

def setRegistries (registries : Registries) : Served := { s with registries }

/-- A slot has been made. -/
def build (o : Origin) : Served := { s with built := s.built ++ [o] }

/-- The slot a call finds when it has got the lock. -/
def found (k : ℕ) : TaskEvent → Ensured
  | .acquire _ =>
    match s.manager.work k with
    | some (.acquire r) => ((s.manager.hit r).map .slot).getD .failed
    | _ => .failed
  | _ => .failed

/-- A task of the manager has made a step to `m`. If it has loaded a slot, or is
    through, who waits for it goes on. -/
def goOn (k : ℕ) (e : TaskEvent) (m : ModelManager) : Option Served :=
  let next := (s.setManager m).setCaller k none
  if s.manager.slots.length < m.slots.length then
    match s.callers k with
    | some (.ensure a entry) => do
      let (model, loras) ← s.registries.contents a entry
      some ((next.build ⟨a, model, loras⟩).answer a (.slot s.manager.slots.length))
    | _ => none
  else
    match m.work k, s.callers k with
    | some _, _ => some (s.setManager m)
    | none, some (.ensure a _) => some (next.answer a (s.found k e))
    | none, some (.remove tenant id) =>
      if e.raises then some next
      else some (next.setRegistries (s.registries.setModels tenant
        ((s.registries.models tenant).remove (modelFormat 0) id).1))
    | none, none => some next

/-- One step. -/
def step : ServedEvent → Option Served
  | .encryptModel tenant entry ciphertext =>
    some (s.setRegistries (s.registries.setModels tenant
      ((s.registries.models tenant).encrypt (modelFormat 0) entry ciphertext)))
  | .addModel tenant entry =>
    some (s.setRegistries (s.registries.setModels tenant
      ((s.registries.models tenant).add (modelFormat 0) entry)))
  | .encryptLora tenant entry ciphertext =>
    some (s.setRegistries (s.registries.setLoras tenant
      ((s.registries.loras tenant).encrypt (loraFormat 0) entry ciphertext)))
  | .addLora tenant entry =>
    some (s.setRegistries (s.registries.setLoras tenant
      ((s.registries.loras tenant).add (loraFormat 0) entry)))
  -- The slots of the model are unloaded first, and then its entry is removed.
  | .removeModel k tenant id => do
    let m ← s.manager.step cfg (.task k (.forceUnload tenant id))
    (s.setCaller k (some (.remove tenant id))).goOn k (.forceUnload tenant id) m
  -- Nothing is unloaded for an adapter.
  | .removeLora tenant id =>
    if s.manager.busy then none
    else some (s.setRegistries (s.registries.setLoras tenant
      ((s.registries.loras tenant).remove (loraFormat 0) id).1))
  | .ensure k a nCtx job =>
    if s.manager.busy then none
    else match (s.registries.models a.tenant).get a.modelId with
      | none => some (s.answer a .notFound)
      | some entry =>
        match s.manager.hit (a.request nCtx job) with
        -- A slot that is loaded is returned before the adapters are looked up.
        | some b => do
          let m ← s.manager.step cfg (.task k (.request (a.request nCtx job)))
          some ((s.setManager m).answer a (.slot b))
        | none =>
          if a.ids.all fun lid => ((s.registries.loras a.tenant).get lid).isSome then do
            let m ← s.manager.step cfg (.task k (.request (a.request nCtx job)))
            some ((s.setManager m).setCaller k (some (.ensure a entry)))
          else some (s.answer a .notFound)
  | .manager (.task _ (.request _)) => none
  | .manager (.task k e) => do
    let m ← s.manager.step cfg (.task k e)
    s.goOn k e m
  | .manager e => (s.manager.step cfg e).map s.setManager

/-! ## What is asked of the steps -/

/-- A slot in the table. -/
def Serves (o : Origin) : Prop :=
  ∃ key b, s.manager.loaded.get? key = some b ∧ s.built[b]? = some o

/-- A call that has looked up its ids waits. -/
def Awaits (a : LoadArgs) (entry : ModelEntry) : Prop := ∃ k, s.callers k = some (.ensure a entry)

/-- These arguments are those of a slot in the table, or of a call that waits. -/
def InUse (a : LoadArgs) : Prop := (∃ o, s.Serves o ∧ o.args = a) ∨ ∃ entry, s.Awaits a entry

/-- A call that is answered with a slot gets one of the contents its ids are
    listed with, and one whose ids are not all listed gets `MODEL_NOT_FOUND`. -/
def Right (built : List Origin) (answer : Answer) : Prop :=
  (∀ b, answer.result = .slot b →
    ∃ o, built[b]? = some o ∧ o.Matches answer.registries answer.args) ∧
  (¬ answer.registries.Registered answer.args → answer.result = .notFound)

/-- A slot that is found under the key of a request was loaded for the same
    model and adapters. -/
def Finds (a : LoadArgs) (r : Request) : Prop :=
  ∀ b o, s.manager.hit r = some b → s.built[b]? = some o → o.args.Same a

/-- No slot in the table and no call that waits is for this model. -/
def Spares (tenant id : String) : Prop := ∀ a, s.InUse a → ¬ (a.tenant = tenant ∧ a.modelId = id)

/-- **The steps in order.** A download lists the contents an id in use has. What
    is removed is not in use then. And a slot that is found was loaded for the
    same ids. -/
def Orderly (t : Served) (e : ServedEvent) (u : Served) : Prop :=
  match e with
  | .addModel tenant entry => ∀ a, t.InUse a → a.tenant = tenant → a.modelId = entry.id →
      t.registries.modelSha tenant entry.id = some entry.sha256Plaintext
  | .addLora tenant entry => ∀ o, t.Serves o → o.args.tenant = tenant → entry.id ∈ o.args.ids →
      t.registries.loraSha tenant entry.id = some entry.sha256Plaintext
  | .removeModel k tenant id => u.manager.work k = none → u.Spares tenant id
  | .removeLora tenant id => ∀ a, t.InUse a → ¬ (a.tenant = tenant ∧ id ∈ a.ids)
  | .ensure _ a nCtx job => t.Finds a (a.request nCtx job)
  | .manager (.task k e) =>
    (∀ tenant id, t.callers k = some (.remove tenant id) → e.raises = false →
      u.manager.work k = none → u.Spares tenant id) ∧
    (∀ loads a entry r, e = .acquire loads → t.callers k = some (.ensure a entry) →
      t.manager.work k = some (.acquire r) → t.Finds a r)
  | _ => True

end Served

/-! ## What registries list -/

namespace Registries

variable {reg reg' : Registries}

theorem listedSha_update {E M : Type} (fmt : EntryFormat E M) (regs : String → Registry E M)
    (tenant tenant' id : String) (r : Registry E M) :
    listedSha fmt (Function.update regs tenant r) tenant' id =
      if tenant' = tenant then (r.get id).map fmt.sha256 else listedSha fmt regs tenant' id := by
  unfold listedSha
  rw [Function.update_apply]
  by_cases ht : tenant' = tenant
  · rw [if_pos ht, if_pos ht]
  · rw [if_neg ht, if_neg ht]

/-- An entry that is added is what its id lists. -/
theorem listedSha_add {E M : Type} (fmt : EntryFormat E M) (regs : String → Registry E M)
    (tenant tenant' id : String) (entry : E) :
    listedSha fmt (Function.update regs tenant ((regs tenant).add fmt entry)) tenant' id =
      if tenant' = tenant ∧ id = fmt.id entry then some (fmt.sha256 entry)
      else listedSha fmt regs tenant' id := by
  rw [listedSha_update, Registry.get_add]
  by_cases ht : tenant' = tenant
  · by_cases hid : id = fmt.id entry
    · rw [if_pos ht, if_pos hid, if_pos ⟨ht, hid⟩]
      rfl
    · rw [if_pos ht, if_neg hid, if_neg fun hc => hid hc.2, ht]
      rfl
  · rw [if_neg ht, if_neg fun hc => ht hc.1]

/-- An id that is removed lists nothing. -/
theorem listedSha_remove {E M : Type} (fmt : EntryFormat E M) (regs : String → Registry E M)
    (tenant tenant' id id' : String) :
    listedSha fmt (Function.update regs tenant ((regs tenant).remove fmt id).1) tenant' id' =
      if tenant' = tenant ∧ id' = id then none else listedSha fmt regs tenant' id' := by
  rw [listedSha_update, Registry.get_remove]
  by_cases ht : tenant' = tenant
  · by_cases hid : id' = id
    · rw [if_pos ht, if_pos hid, if_pos ⟨ht, hid⟩]
      rfl
    · rw [if_pos ht, if_neg hid, if_neg fun hc => hid hc.2, ht]
      rfl
  · rw [if_neg ht, if_neg fun hc => ht hc.1]

/-- A ciphertext changes nothing that is listed. -/
theorem listedSha_encrypt {E M : Type} (fmt : EntryFormat E M) (regs : String → Registry E M)
    (tenant tenant' id : String) (entry : E) (ciphertext : Bytes) :
    listedSha fmt (Function.update regs tenant ((regs tenant).encrypt fmt entry ciphertext))
      tenant' id = listedSha fmt regs tenant' id := by
  rw [listedSha_update]
  by_cases ht : tenant' = tenant
  · rw [if_pos ht, ht]
    rfl
  · rw [if_neg ht]

theorem listedSha_eq_none {E M : Type} {fmt : EntryFormat E M} {regs : String → Registry E M}
    {tenant id : String} : listedSha fmt regs tenant id = none ↔ (regs tenant).get id = none :=
  Option.map_eq_none_iff

theorem registered_iff (a : LoadArgs) : reg.Registered a ↔
    reg.modelSha a.tenant a.modelId ≠ none ∧ ∀ lid ∈ a.ids, reg.loraSha a.tenant lid ≠ none := by
  unfold Registered Lists modelSha loraSha LoadArgs.ids
  simp only [ne_eq, listedSha_eq_none]

/-- The adapters that are read are those that are listed. -/
theorem mem_loraContents {tenant : String} {loras : List (String × Scale)} {shas : List String}
    (h : reg.loraContents tenant loras = some shas) :
    (∀ lid ∈ loras.map Prod.fst, reg.loraSha tenant lid ≠ none) ∧
      ∀ sha, sha ∈ shas ↔ ∃ lid ∈ loras.map Prod.fst, reg.loraSha tenant lid = some sha := by
  induction loras generalizing shas with
  | nil =>
      rw [← Option.some.inj h]
      exact ⟨nofun, fun sha => ⟨nofun, fun ⟨_, hmem, _⟩ => absurd hmem List.not_mem_nil⟩⟩
  | cons l rest ih =>
      rcases Option.bind_eq_some_iff.mp h with ⟨entry, hentry, h⟩
      rcases Option.bind_eq_some_iff.mp h with ⟨_, _, h⟩
      rcases Option.bind_eq_some_iff.mp h with ⟨shas', hrest, h⟩
      rw [← Option.some.inj h, List.map_cons]
      have hsha : reg.loraSha tenant l.1 = some entry.sha256Plaintext := by
        rw [loraSha, listedSha, hentry]
        rfl
      rcases ih hrest with ⟨hlisted, hmem⟩
      refine ⟨fun lid hlid => ?_, fun sha => ?_⟩
      · rcases List.mem_cons.mp hlid with rfl | hin
        · rw [hsha]
          exact Option.some_ne_none _
        · exact hlisted lid hin
      · simp only [List.mem_cons, exists_eq_or_imp, hsha, hmem, Option.some.injEq]
        exact or_congr_left eq_comm

/-- A slot is made of what is listed, if its model still is. -/
theorem matches_of_contents {a : LoadArgs} {entry : ModelEntry} {model : String}
    {loras : List String} (hmodel : reg.modelSha a.tenant a.modelId = some entry.sha256Plaintext)
    (h : reg.contents a entry = some (model, loras)) : Origin.Matches ⟨a, model, loras⟩ reg a := by
  rcases Option.bind_eq_some_iff.mp h with ⟨_, _, h⟩
  rcases Option.bind_eq_some_iff.mp h with ⟨shas, hshas, h⟩
  rcases Prod.mk.inj (Option.some.inj h) with ⟨rfl, rfl⟩
  rcases mem_loraContents hshas with ⟨hlisted, hmem⟩
  exact ⟨hmodel, hlisted, hmem⟩

end Registries

namespace Origin.Matches

variable {o : Origin} {reg reg' : Registries} {a b : LoadArgs}

theorem congr (h : o.Matches reg a)
    (hmodel : reg'.modelSha a.tenant a.modelId = reg.modelSha a.tenant a.modelId)
    (hloras : ∀ lid ∈ a.ids, reg'.loraSha a.tenant lid = reg.loraSha a.tenant lid) :
    o.Matches reg' a where
  model := hmodel.trans h.model
  listed lid hlid := by
    rw [hloras lid hlid]
    exact h.listed lid hlid
  loras sha := by
    rw [h.loras sha]
    exact exists_congr fun lid => and_congr_right fun hlid => by rw [hloras lid hlid]

theorem same (h : o.Matches reg a) (hab : a.Same b) : o.Matches reg b where
  model := by
    rw [← hab.1, ← hab.2.1]
    exact h.model
  listed lid hlid := by
    rw [← hab.1]
    exact h.listed lid ((hab.2.2 lid).mpr hlid)
  loras sha := by
    rw [h.loras sha, ← hab.1]
    exact exists_congr fun lid => and_congr_left fun _ => hab.2.2 lid

theorem registered (h : o.Matches reg a) : reg.Registered a :=
  (Registries.registered_iff a).mpr ⟨by rw [h.model]; exact Option.some_ne_none _, h.listed⟩

end Origin.Matches

end Models

end SecureLlm
