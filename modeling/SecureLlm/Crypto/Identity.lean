import SecureLlm.Client.Agreement
import SecureLlm.Library.Exceptions
import SecureLlm.Library.Transition
import Mathlib.Tactic.IntervalCases

/-!
# The Server's Identity

The key files a server makes at its first start and reads at every later one. A
client pins the key of the first, so the later ones have to find the same. The
server may stop anywhere in between, a write of a secret may come out short, and
the operator changes the modes of the files. The server is their owner and has no
more rights than that: it reads what its owner may read.

The files are written one after the other, the secret of the encryption at rest
last, and a start needs that one too. So however a first start ends, no later one
comes up under another identity, or under public keys that do not belong to its
secrets. But a later start looks for the first of the files alone, to tell whether
there is an identity: one that was cut short leaves a directory that no start
completes and none reads.

## Main definitions

* `KeyDir`: The directory of the keys.
* `initWrites`, `loadServerIdentity`: Making the identity, file by file, and reading it.
* `boot`: What a start does with the directory.
* `mended`: The directory when the operator has set all modes to 0600.
* `KeyHost.OneIdentity`: All starts that come up are under one identity.
* `KeyHost.Serves`: The next start comes up, once the modes are mended.
* `KeyHost.Whole`: What is asked of the step that makes the identity.

## Theorems

* `read_performed`: What can be read after some of the writes.
* `KeyHost.serves_iff`: When the next start comes up.
* `server_identity_persists`: One identity in every run, and the runs in which the
  next start comes up.
-/

namespace SecureLlm

open Library Transition

/-- What a start or the command line's `init` fails with. -/
inductive BootError where
  | fileNotFound | fileExists | permission | keyLength | decode | emptyAge | ageFormat
  deriving DecidableEq

/-- A file, and its permission bits. -/
structure KeyFile where
  content : Bytes
  mode : ℕ
  deriving DecidableEq

abbrev KeyDir : Type := Dict String KeyFile

def x25519Key : String := "server.x25519.key"
def x25519Pub : String := "server.x25519.key.pub"
def ed25519Key : String := "server.ed25519.key"
def ed25519Pub : String := "server.ed25519.key.pub"
def ageKey : String := "server.age.key"

def keyFiles : List String := [x25519Key, x25519Pub, ed25519Key, ed25519Pub, ageKey]

/-- What is made anew for an identity: its secrets, the text of the age secret, if
    that library is there, and how many bytes of each secret its one write lands. -/
structure FreshKeys where
  x25519Sk : Bytes
  ed25519Sk : Bytes
  age : Option Bytes
  x25519Lands : ℕ
  ed25519Lands : ℕ
  ageLands : ℕ
  publicMode : ℕ
  x25519Sk_length : x25519Sk.length = 32
  ed25519Sk_length : ed25519Sk.length = 32

/-- Keys to run the model on. -/
def FreshKeys.sample : FreshKeys where
  x25519Sk := List.replicate 32 1
  ed25519Sk := List.replicate 32 2
  age := some [65, 10]
  x25519Lands := 32
  ed25519Lands := 32
  ageLands := 2
  publicMode := 0o644
  x25519Sk_length := rfl
  ed25519Sk_length := rfl

/-- A file that its owner may read. -/
def KeyFile.readable (file : KeyFile) : Bool := file.mode &&& 0o400 != 0

/-- A file that its owner may write. -/
def KeyFile.writable (file : KeyFile) : Bool := file.mode &&& 0o200 != 0

/-- A step of a function that writes files. -/
abbrev FileOp : Type := KeyDir → Except BootError KeyDir

/-- `os.open` with `O_CREAT | O_EXCL` and mode 0600. -/
def createSecret (name : String) : FileOp := fun dir =>
  if (dir.get? name).isSome then .error .fileExists else .ok (dir.set name ⟨[], 0o600⟩)

/-- `open(name, "wb")`, which truncates a file that is there. -/
def openPublic (name : String) (mode : ℕ) : FileOp := fun dir =>
  match dir.get? name with
  | none => .ok (dir.set name ⟨[], mode⟩)
  | some file =>
    if file.writable then .ok (dir.set name { file with content := [] }) else .error .permission

/-- A write to the file that was opened last. -/
def writeTo (name : String) (data : Bytes) : FileOp := fun dir =>
  match dir.get? name with
  | none => .error .fileNotFound
  | some file => .ok (dir.set name { file with content := data })

def chmod (dir : KeyDir) (name : String) (mode : ℕ) : KeyDir :=
  match dir.get? name with
  | none => dir
  | some file => dir.set name { file with mode }

/-- The directory when the modes of the key files have all been set to 0600. -/
def mended (dir : KeyDir) : KeyDir :=
  keyFiles.foldl (fun d name => chmod d name 0o600) dir

variable (crypto : Primitives)

namespace FreshKeys

variable (fresh : FreshKeys)

def identity : ServerIdentity where
  x25519Sk := fresh.x25519Sk
  x25519Pk := crypto.publicKey fresh.x25519Sk
  ed25519Sk := fresh.ed25519Sk
  ed25519Pk := crypto.verifyKey fresh.ed25519Sk

/-- What lands of the age secret. Without the library the file is left empty. -/
def ageText : Bytes := (fresh.age.getD []).take fresh.ageLands

end FreshKeys

/-- `init_server_identity`, one file operation after the other. -/
def initWrites (fresh : FreshKeys) (dir : KeyDir) : List FileOp :=
  [createSecret x25519Key, writeTo x25519Key (fresh.x25519Sk.take fresh.x25519Lands),
    openPublic x25519Pub fresh.publicMode, writeTo x25519Pub (crypto.publicKey fresh.x25519Sk),
    createSecret ed25519Key, writeTo ed25519Key (fresh.ed25519Sk.take fresh.ed25519Lands),
    openPublic ed25519Pub fresh.publicMode, writeTo ed25519Pub (crypto.verifyKey fresh.ed25519Sk)]
  ++ if (dir.get? ageKey).isSome then [] else [createSecret ageKey, writeTo ageKey fresh.ageText]

/-- One operation after the other, up to the first that raises. -/
def performOps : List FileOp → KeyDir → KeyDir × Except BootError Unit
  | [], dir => (dir, .ok ())
  | op :: ops, dir =>
    match op dir with
    | .error e => (dir, .error e)
    | .ok written => performOps ops written

/-- `path.read_bytes()`. -/
def readBytes (dir : KeyDir) (name : String) : Except BootError Bytes :=
  match dir.get? name with
  | none => .error .fileNotFound
  | some file => if file.readable then .ok file.content else .error .permission

/-- A file that its group or the world has any permission for. -/
def KeyFile.exposed (file : KeyFile) : Bool := file.mode &&& 0o077 != 0

def requireSecretPerms (dir : KeyDir) (name : String) : Except BootError Unit :=
  match dir.get? name with
  | none => .error .fileNotFound
  | some file => if file.exposed then .error .permission else .ok ()

/-- `PrivateKey(path.read_bytes())`, and `SigningKey` alike. -/
def readSecret (dir : KeyDir) (name : String) : Except BootError Bytes := do
  let secret ← readBytes dir name
  if secret.length = 32 then .ok secret else .error .keyLength

/-- The four key files. -/
def readIdentity (dir : KeyDir) : Except BootError ServerIdentity := do
  let x25519Sk ← readSecret dir x25519Key
  let ed25519Sk ← readSecret dir ed25519Key
  let x25519Pk ← readBytes dir x25519Pub
  let ed25519Pk ← readBytes dir ed25519Pub
  return { x25519Sk, x25519Pk, ed25519Sk, ed25519Pk }

def loadServerIdentity (dir : KeyDir) : Except BootError ServerIdentity := do
  requireSecretPerms dir x25519Key
  requireSecretPerms dir ed25519Key
  readIdentity dir

/-- The bytes `str.strip()` takes off the ends of an ASCII text. -/
def isSpaceByte (b : UInt8) : Bool :=
  9 ≤ b.toNat && b.toNat ≤ 13 || 0x1c ≤ b.toNat && b.toNat ≤ 0x20

def stripBytes (text : Bytes) : Bytes :=
  ((text.dropWhile isSpaceByte).reverse.dropWhile isSpaceByte).reverse

variable {A : Type} (fromStr : Bytes → Option A)

/-- What `AtRestKey` makes of the file's content; `fromStr` is `Identity.from_str`. -/
def parseAge (content : Bytes) : Except BootError A :=
  if content.any (fun b => 128 ≤ b.toNat) then .error .decode
  else if (stripBytes content).isEmpty then .error .emptyAge
  else match fromStr (stripBytes content) with
    | none => .error .ageFormat
    | some age => .ok age

/-- `AtRestKey.__init__`. -/
def atRestKey (dir : KeyDir) : Except BootError A := do
  let content ← readBytes dir ageKey
  parseAge fromStr content

/-- `FileKeystoreBackend.load_server_identity`, and the first half of
    `load_or_init_keystore`: one file stands for all. -/
def loadOrInit (fresh : FreshKeys) (dir : KeyDir) : KeyDir × Except BootError ServerIdentity :=
  if (dir.get? x25519Key).isNone then
    let written := performOps (initWrites crypto fresh dir) dir
    (written.1, written.2.map fun _ => fresh.identity crypto)
  else (dir, loadServerIdentity dir)

/-- What the start of a server does with the directory. -/
def boot (fresh : FreshKeys) (dir : KeyDir) : KeyDir × Except BootError (ServerIdentity × A) :=
  let loaded := loadOrInit crypto fresh dir
  (loaded.1, do
    let server ← loaded.2
    let age ← atRestKey fromStr loaded.1
    return (server, age))

/-- What the files give. -/
def readAll (dir : KeyDir) : Except BootError (ServerIdentity × A) := do
  let server ← readIdentity dir
  let age ← atRestKey fromStr dir
  return (server, age)

/-- What is in the files, whatever their modes. -/
def contents (dir : KeyDir) : Except BootError (ServerIdentity × A) :=
  readAll fromStr (mended dir)

/-- A start that was made: the directory before it, and what came of it. -/
structure Start (A : Type) where
  before : KeyDir
  result : Except BootError (ServerIdentity × A)

/-- The machine a server is started on again and again. -/
structure KeyHost (A : Type) where
  dir : KeyDir
  starts : List (Start A)

/-- A start; a start, or the command line's `init`, that ends after a number of file
    operations of its init, be it in a crash, an exception or because that is all it
    does; and a `chmod`. -/
inductive KeyEvent where
  | boot (fresh : FreshKeys)
  | stop (fresh : FreshKeys) (n : ℕ)
  | chmod (name : String) (mode : ℕ)

/-- What a complete init leaves in an empty directory. -/
def FreshKeys.dir (fresh : FreshKeys) : KeyDir :=
  ((((Dict.empty.set x25519Key ⟨fresh.x25519Sk.take fresh.x25519Lands, 0o600⟩).set x25519Pub
    ⟨crypto.publicKey fresh.x25519Sk, fresh.publicMode⟩).set ed25519Key
      ⟨fresh.ed25519Sk.take fresh.ed25519Lands, 0o600⟩).set ed25519Pub
        ⟨crypto.verifyKey fresh.ed25519Sk, fresh.publicMode⟩).set ageKey ⟨fresh.ageText, 0o600⟩

theorem FreshKeys.dir_made (fresh : FreshKeys) : (fresh.dir crypto).get? x25519Key ≠ none := by
  simp [FreshKeys.dir, x25519Key, x25519Pub, ed25519Key, ed25519Pub, ageKey]

theorem length_initWrites (fresh : FreshKeys) : (initWrites crypto fresh .empty).length = 10 := rfl

theorem performOps_initWrites (fresh : FreshKeys) :
    performOps (initWrites crypto fresh .empty) .empty = (fresh.dir crypto, .ok ()) := by
  simp [initWrites, performOps, createSecret, openPublic, writeTo, x25519Key, x25519Pub,
    ed25519Key, ed25519Pub, ageKey, FreshKeys.dir]

/-- Short of all the writes, the age secret is missing or empty, and from the first
    on there is the file a later start looks for. -/
theorem performed_few (fresh : FreshKeys) (n : ℕ) (h : n < 10) :
    (∀ file, (performOps ((initWrites crypto fresh .empty).take n) .empty).1.get? ageKey =
      some file → file.content = []) ∧
    (0 < n → ((performOps ((initWrites crypto fresh .empty).take n) .empty).1.get?
      x25519Key).isSome = true) := by
  interval_cases n <;> simp [initWrites, performOps, createSecret, openPublic, writeTo, x25519Key,
    x25519Pub, ed25519Key, ed25519Pub, ageKey]

section

variable {fromStr}

/-- All files can be read when the keys can and the age secret can. -/
theorem readAll_eq_ok_iff (dir : KeyDir) (x : ServerIdentity × A) :
    readAll fromStr dir = .ok x ↔
      readIdentity dir = .ok x.1 ∧ atRestKey fromStr dir = .ok x.2 := by
  unfold readAll
  rw [bind_ok_iff]
  constructor
  · intro h
    rcases h with ⟨server, hserver, h⟩
    rcases (bind_ok_iff _ _ _).mp h with ⟨age, hage, h⟩
    rw [← Except.ok.inj h]
    exact ⟨hserver, hage⟩
  · intro h
    refine ⟨x.1, h.1, (bind_ok_iff _ _ _).mpr ⟨x.2, h.2, rfl⟩⟩

/-- Where the first file is there a start changes nothing, and gives what is in the
    files, if the secrets are private. -/
theorem boot_of_isSome (fresh : FreshKeys) (dir : KeyDir) (h : (dir.get? x25519Key).isSome = true) :
    boot crypto fromStr fresh dir = (dir, do
      requireSecretPerms dir x25519Key
      requireSecretPerms dir ed25519Key
      readAll fromStr dir) := by
  have hsome : ¬ (dir.get? x25519Key).isNone = true := by
    rw [Option.isNone_iff_eq_none]
    intro hnone
    rw [hnone] at h
    exact absurd h (by simp)
  rw [boot, loadOrInit, if_neg hsome]
  simp only [loadServerIdentity, readAll, bind_assoc]

/-- What can be read is the content of a file that its owner may read. -/
theorem readBytes_eq_ok_iff (dir : KeyDir) (name : String) (content : Bytes) :
    readBytes dir name = .ok content ↔
      ∃ file, dir.get? name = some file ∧ file.readable = true ∧ file.content = content := by
  unfold readBytes
  cases dir.get? name with
  | none => exact iff_of_false nofun (by rintro ⟨file, hfile, -⟩; cases hfile)
  | some file =>
      dsimp only
      by_cases hreadable : file.readable = true
      · rw [if_pos hreadable]
        constructor
        · intro h
          exact ⟨file, rfl, hreadable, Except.ok.inj h⟩
        · rintro ⟨file', hfile, -, rfl⟩
          rw [Option.some.inj hfile]
      · rw [if_neg hreadable]
        refine iff_of_false nofun ?_
        rintro ⟨file', hfile, hreadable', -⟩
        rw [← Option.some.inj hfile] at hreadable'
        exact hreadable hreadable'

theorem atRestKey_empty (dir : KeyDir) (h : ∀ file, dir.get? ageKey = some file → file.content = [])
    (age : A) : atRestKey fromStr dir ≠ .ok age := by
  intro hage
  rcases (bind_ok_iff _ _ _).mp hage with ⟨content, hcontent, hparse⟩
  rcases (readBytes_eq_ok_iff _ _ _).mp hcontent with ⟨file, hfile, -, rfl⟩
  rw [h file hfile] at hparse
  cases hparse

theorem KeyFile.readable_private (content : Bytes) :
    (⟨content, 0o600⟩ : KeyFile).readable = true := by
  have howner : (0o600 &&& 0o400 != 0) = true := by decide
  exact howner

theorem get?_chmod (dir : KeyDir) (name other : String) (mode : ℕ) :
    (chmod dir name mode).get? other = if other = name then
      (dir.get? name).map fun file => { file with mode } else dir.get? other := by
  unfold chmod
  cases hfile : dir.get? name with
  | none =>
      by_cases h : other = name
      · rw [if_pos h, h]
        exact hfile
      · rw [if_neg h]
  | some file => exact Dict.get?_set _ _ _ _

theorem get?_chmod_eq_none (dir : KeyDir) (name other : String) (mode : ℕ) :
    (chmod dir name mode).get? other = none ↔ dir.get? other = none := by
  rw [get?_chmod]
  by_cases h : other = name
  · rw [if_pos h, h, Option.map_eq_none_iff]
  · rw [if_neg h]

theorem get?_foldl_chmod (names : List String) (mode : ℕ) (dir : KeyDir) (other : String) :
    (names.foldl (fun d name => chmod d name mode) dir).get? other =
      if other ∈ names then (dir.get? other).map fun file => { file with mode }
      else dir.get? other := by
  induction names generalizing dir with
  | nil => rw [List.foldl_nil, if_neg List.not_mem_nil]
  | cons name names ih =>
      rw [List.foldl_cons, ih, get?_chmod]
      by_cases hname : other = name
      · subst hname
        rw [if_pos rfl, if_pos List.mem_cons_self, Option.map_map]
        by_cases hmem : other ∈ names
        · rw [if_pos hmem]
          rfl
        · rw [if_neg hmem]
      · rw [if_neg hname]
        by_cases hmem : other ∈ names
        · rw [if_pos hmem, if_pos (List.mem_cons_of_mem name hmem)]
        · rw [if_neg hmem, if_neg fun h => hmem ((List.mem_cons.mp h).resolve_left hname)]

/-- Mending sets the modes of the key files, and of no others. -/
theorem get?_mended (dir : KeyDir) (name : String) :
    (mended dir).get? name = if name ∈ keyFiles then
      (dir.get? name).map fun file => { file with mode := 0o600 } else dir.get? name :=
  get?_foldl_chmod keyFiles 0o600 dir name

theorem get?_mended_eq_none (dir : KeyDir) (name : String) :
    (mended dir).get? name = none ↔ dir.get? name = none := by
  rw [get?_mended]
  by_cases h : name ∈ keyFiles
  · rw [if_pos h, Option.map_eq_none_iff]
  · rw [if_neg h]

/-- Once the modes are mended every key file that is there gives its content. -/
theorem readBytes_mended (dir : KeyDir) {name : String} (h : name ∈ keyFiles) :
    readBytes (mended dir) name = match dir.get? name with
      | none => .error .fileNotFound
      | some file => .ok file.content := by
  rw [readBytes, get?_mended, if_pos h]
  cases dir.get? name with
  | none => rfl
  | some file =>
      rw [Option.map_some]
      dsimp only
      rw [if_pos (KeyFile.readable_private file.content)]

/-- A change of modes is undone by mending them. -/
theorem readBytes_mended_chmod (dir : KeyDir) (changed : String) (mode : ℕ) {name : String}
    (h : name ∈ keyFiles) :
    readBytes (mended (chmod dir changed mode)) name = readBytes (mended dir) name := by
  rw [readBytes_mended _ h, readBytes_mended _ h, get?_chmod]
  by_cases hname : name = changed
  · rw [if_pos hname, hname]
    cases dir.get? changed <;> rfl
  · rw [if_neg hname]

theorem contents_chmod (dir : KeyDir) (name : String) (mode : ℕ) :
    contents fromStr (chmod dir name mode) = contents fromStr dir := by
  have hfile : ∀ file ∈ keyFiles,
      readBytes (mended (chmod dir name mode)) file = readBytes (mended dir) file :=
    fun _ => readBytes_mended_chmod dir name mode
  unfold contents readAll readIdentity atRestKey readSecret
  rw [hfile x25519Key (by simp [keyFiles]), hfile x25519Pub (by simp [keyFiles]),
    hfile ed25519Key (by simp [keyFiles]), hfile ed25519Pub (by simp [keyFiles]),
    hfile ageKey (by simp [keyFiles])]

/-- What the files give is what is in them. -/
theorem contents_of_readAll {dir : KeyDir} {x : ServerIdentity × A}
    (h : readAll fromStr dir = .ok x) : contents fromStr dir = .ok x := by
  have hfile : ∀ file ∈ keyFiles, ∀ content, readBytes dir file = .ok content →
      readBytes (mended dir) file = .ok content := by
    intro file hmem content hread
    rcases (readBytes_eq_ok_iff _ _ _).mp hread with ⟨kept, hkept, -, hcontent⟩
    rw [readBytes_mended _ hmem, hkept, ← hcontent]
  have hsecret : ∀ file ∈ keyFiles, ∀ secret, readSecret dir file = .ok secret →
      readSecret (mended dir) file = .ok secret := by
    intro file hmem secret hread
    rcases (bind_ok_iff _ _ _).mp hread with ⟨content, hcontent, hlength⟩
    exact (bind_ok_iff _ _ _).mpr ⟨content, hfile file hmem content hcontent, hlength⟩
  rcases (readAll_eq_ok_iff _ _).mp h with ⟨hserver, hage⟩
  refine (readAll_eq_ok_iff _ _).mpr ⟨?_, ?_⟩
  · rcases (bind_ok_iff _ _ _).mp hserver with ⟨xsk, hxsk, hserver⟩
    rcases (bind_ok_iff _ _ _).mp hserver with ⟨esk, hesk, hserver⟩
    rcases (bind_ok_iff _ _ _).mp hserver with ⟨xpk, hxpk, hserver⟩
    rcases (bind_ok_iff _ _ _).mp hserver with ⟨epk, hepk, hserver⟩
    unfold readIdentity
    rw [hsecret x25519Key (by simp [keyFiles]) xsk hxsk,
      hsecret ed25519Key (by simp [keyFiles]) esk hesk,
      hfile x25519Pub (by simp [keyFiles]) xpk hxpk, hfile ed25519Pub (by simp [keyFiles]) epk hepk]
    exact hserver
  · rcases (bind_ok_iff _ _ _).mp hage with ⟨content, hcontent, hparse⟩
    exact (bind_ok_iff _ _ _).mpr
      ⟨content, hfile ageKey (by simp [keyFiles]) content hcontent, hparse⟩

/-- The writes of a fresh identity are whole, and its age secret can be used. -/
structure FreshKeys.Whole (fromStr : Bytes → Option A) (fresh : FreshKeys) : Prop where
  x25519 : 32 ≤ fresh.x25519Lands
  ed25519 : 32 ≤ fresh.ed25519Lands
  age : ∃ age, parseAge fromStr fresh.ageText = .ok age

/-- A secret that was written once can be read if it landed whole. -/
theorem readSecret_landed {dir : KeyDir} {name : String} {secret : Bytes} {lands : ℕ}
    (hlength : secret.length = 32) (h : readBytes dir name = .ok (secret.take lands)) :
    readSecret dir name = if 32 ≤ lands then .ok secret else .error .keyLength := by
  unfold readSecret
  rw [h]
  change (if (secret.take lands).length = 32 then Except.ok (secret.take lands) else _) = _
  by_cases hlands : 32 ≤ lands
  · rw [List.take_of_length_le (by omega), if_pos hlength, if_pos hlands]
  · rw [List.length_take, if_neg (by omega), if_neg hlands]

theorem readIdentity_dir (fresh : FreshKeys) :
    readIdentity (mended (fresh.dir crypto)) =
      if 32 ≤ fresh.x25519Lands ∧ 32 ≤ fresh.ed25519Lands then .ok (fresh.identity crypto)
      else .error .keyLength := by
  have hfile : ∀ file ∈ keyFiles, ∀ content mode,
      (fresh.dir crypto).get? file = some ⟨content, mode⟩ →
        readBytes (mended (fresh.dir crypto)) file = .ok content := by
    intro file hmem content mode hget
    rw [readBytes_mended _ hmem, hget]
  have hx := hfile x25519Key (by simp [keyFiles]) (fresh.x25519Sk.take fresh.x25519Lands) 0o600
    (by simp [FreshKeys.dir, x25519Key, x25519Pub, ed25519Key, ed25519Pub, ageKey])
  have he := hfile ed25519Key (by simp [keyFiles]) (fresh.ed25519Sk.take fresh.ed25519Lands) 0o600
    (by simp [FreshKeys.dir, ed25519Key, ed25519Pub, ageKey])
  have hxp := hfile x25519Pub (by simp [keyFiles]) (crypto.publicKey fresh.x25519Sk)
    fresh.publicMode (by simp [FreshKeys.dir, x25519Pub, ed25519Key, ed25519Pub, ageKey])
  have hep := hfile ed25519Pub (by simp [keyFiles]) (crypto.verifyKey fresh.ed25519Sk)
    fresh.publicMode (by simp [FreshKeys.dir, ed25519Pub, ageKey])
  unfold readIdentity
  rw [readSecret_landed fresh.x25519Sk_length hx, readSecret_landed fresh.ed25519Sk_length he,
    hxp, hep]
  by_cases h : 32 ≤ fresh.x25519Lands
  · by_cases h' : 32 ≤ fresh.ed25519Lands
    · rw [if_pos h, if_pos h', if_pos ⟨h, h'⟩]
      rfl
    · rw [if_pos h, if_neg h', if_neg fun hboth => h' hboth.2]
      rfl
  · have hnot : ¬ (32 ≤ fresh.x25519Lands ∧ 32 ≤ fresh.ed25519Lands) := fun hboth => h hboth.1
    rw [if_neg h, if_neg hnot]
    rfl

theorem atRestKey_of_read {dir : KeyDir} {content : Bytes}
    (h : readBytes dir ageKey = .ok content) :
    atRestKey fromStr dir = parseAge fromStr content := by
  rw [atRestKey, h]
  rfl

theorem get?_ageKey_dir (fresh : FreshKeys) :
    (fresh.dir crypto).get? ageKey = some ⟨fresh.ageText, 0o600⟩ := by
  simp [FreshKeys.dir]

theorem atRestKey_dir (fresh : FreshKeys) :
    atRestKey fromStr (fresh.dir crypto) = parseAge fromStr fresh.ageText :=
  atRestKey_of_read ((readBytes_eq_ok_iff _ _ _).mpr
    ⟨_, get?_ageKey_dir crypto fresh, KeyFile.readable_private _, rfl⟩)

theorem atRestKey_mended_dir (fresh : FreshKeys) :
    atRestKey fromStr (mended (fresh.dir crypto)) = parseAge fromStr fresh.ageText := by
  refine atRestKey_of_read ?_
  rw [readBytes_mended _ (by simp [keyFiles]), get?_ageKey_dir]

/-- A complete init leaves files that can be read if and only if it was whole. -/
theorem contents_dir_iff (fresh : FreshKeys) :
    (∃ x, contents fromStr (fresh.dir crypto) = .ok x) ↔ fresh.Whole fromStr := by
  constructor
  · intro h
    rcases h with ⟨x, hx⟩
    rcases (readAll_eq_ok_iff _ _).mp hx with ⟨hserver, hage⟩
    rw [readIdentity_dir] at hserver
    rw [atRestKey_mended_dir] at hage
    by_cases hlands : 32 ≤ fresh.x25519Lands ∧ 32 ≤ fresh.ed25519Lands
    · exact ⟨hlands.1, hlands.2, x.2, hage⟩
    · rw [if_neg hlands] at hserver
      cases hserver
  · intro h
    rcases h.age with ⟨age, hage⟩
    refine ⟨(fresh.identity crypto, age), (readAll_eq_ok_iff _ _).mpr ⟨?_, ?_⟩⟩
    · rw [readIdentity_dir, if_pos ⟨h.x25519, h.ed25519⟩]
    · rw [atRestKey_mended_dir, hage]

theorem server_of_contents_dir (fresh : FreshKeys) (x : ServerIdentity × A)
    (h : contents fromStr (fresh.dir crypto) = .ok x) : x.1 = fresh.identity crypto := by
  have hserver := ((readAll_eq_ok_iff _ _).mp h).1
  rw [readIdentity_dir] at hserver
  by_cases hlands : 32 ≤ fresh.x25519Lands ∧ 32 ≤ fresh.ed25519Lands
  · rw [if_pos hlands] at hserver
    exact (Except.ok.inj hserver).symm
  · rw [if_neg hlands] at hserver
    cases hserver

/-- **What a first start leaves.** However many of the writes were made, what can be
    read after them is the identity that was made, and only if all were made. -/
theorem read_performed (fresh : FreshKeys) (n : ℕ) (x : ServerIdentity × A)
    (h : contents fromStr (performOps ((initWrites crypto fresh .empty).take n) .empty).1 = .ok x) :
    10 ≤ n ∧ x.1 = fresh.identity crypto := by
  by_cases hn : n < 10
  · have hage := ((readAll_eq_ok_iff _ _).mp h).2
    refine absurd hage (atRestKey_empty _ (fun file hfile => ?_) x.2)
    rw [get?_mended, if_pos (by simp [keyFiles]), Option.map_eq_some_iff] at hfile
    rcases hfile with ⟨before, hbefore, rfl⟩
    exact (performed_few crypto fresh n hn).1 before hbefore
  · rw [List.take_of_length_le (by rw [length_initWrites]; omega), performOps_initWrites] at h
    exact ⟨by omega, server_of_contents_dir crypto fresh x h⟩

/-- A start in an empty directory makes the identity, and reads the age secret back. -/
theorem boot_empty (fresh : FreshKeys) :
    boot crypto fromStr fresh .empty =
      (fresh.dir crypto, (parseAge fromStr fresh.ageText).map fun age =>
        (fresh.identity crypto, age)) := by
  have hloaded :
      loadOrInit crypto fresh .empty = (fresh.dir crypto, .ok (fresh.identity crypto)) := by
    rw [loadOrInit, Dict.get?_empty, Option.isNone_none, if_pos rfl, performOps_initWrites]
    rfl
  rw [boot, hloaded]
  dsimp only
  rw [atRestKey_dir]
  cases parseAge fromStr fresh.ageText <;> rfl

end

namespace KeyHost

def start : KeyHost A := ⟨.empty, []⟩

/-- One step. -/
def step (s : KeyHost A) : KeyEvent → Option (KeyHost A)
  | .boot fresh =>
    let booted := SecureLlm.boot crypto fromStr fresh s.dir
    some ⟨booted.1, s.starts ++ [⟨s.dir, booted.2⟩]⟩
  | .stop fresh n =>
    if (s.dir.get? x25519Key).isNone then
      some { s with dir := (performOps ((initWrites crypto fresh s.dir).take n) s.dir).1 }
    else some s
  | .chmod name mode =>
    if (s.dir.get? name).isNone then none
    else some { s with dir := SecureLlm.chmod s.dir name mode }

variable (s : KeyHost A)

/-- The starts that came up are all under one identity, its public keys belong to its
    secrets, and no secret was open to others then. -/
structure OneIdentity : Prop where
  matching : ∀ b ∈ s.starts, ∀ x, b.result = .ok x → x.1.Matches crypto
  one : ∀ b ∈ s.starts, ∀ b' ∈ s.starts, ∀ x x', b.result = .ok x → b'.result = .ok x' → x = x'
  secret : ∀ b ∈ s.starts, ∀ x, b.result = .ok x → ∀ name, name = x25519Key ∨ name = ed25519Key →
    ∀ file, b.before.get? name = some file → file.exposed = false

/-- If the step is the one that makes the identity, it does so to the end. -/
def Whole : KeyEvent → Prop
  | .boot fresh => s.dir.get? x25519Key = none → fresh.Whole fromStr
  | .stop fresh n => s.dir.get? x25519Key = none →
    n = 0 ∨ (initWrites crypto fresh s.dir).length ≤ n ∧ fresh.Whole fromStr
  | .chmod _ _ => True

/-- A start comes up, once the modes are mended. -/
def Serves : Prop :=
  ∀ fresh, s.Whole crypto fromStr (.boot fresh) →
    ∃ x, (boot crypto fromStr fresh (mended s.dir)).2 = .ok x

/-- The starts that came up are under one identity; and once no start comes up from
    mended files, none does in whatever follows. -/
structure Reliable : Prop where
  oneIdentity : s.OneIdentity crypto
  broken : ¬ s.Serves crypto fromStr → ∀ t, Run (step crypto fromStr) anyStep s t →
    ¬ t.Serves crypto fromStr

/-- The invariant: what is in the files is what every start gave. -/
structure Sound : Prop where
  unmade : s.dir.get? x25519Key = none →
    s.dir = .empty ∧ ∀ b ∈ s.starts, ∀ x, b.result ≠ .ok x
  matching : ∀ x, contents fromStr s.dir = .ok x → x.1.Matches crypto
  agrees : ∀ b ∈ s.starts, ∀ x y, b.result = .ok x → contents fromStr s.dir = .ok y → x = y
  one : s.OneIdentity crypto

end KeyHost

section

variable {crypto fromStr}

theorem FreshKeys.matches_identity (fresh : FreshKeys) :
    (fresh.identity crypto).Matches crypto := ⟨rfl, rfl⟩

theorem requireSecretPerms_eq_ok (dir : KeyDir) (name : String) (u : Unit)
    (h : requireSecretPerms dir name = .ok u) (file : KeyFile) (hfile : dir.get? name = some file) :
    file.exposed = false := by
  unfold requireSecretPerms at h
  rw [hfile] at h
  dsimp only at h
  by_cases hopen : file.exposed = true
  · rw [if_pos hopen] at h
    cases h
  · exact Bool.not_eq_true _ ▸ hopen

/-- A start that comes up where the first file is there gives what the files give, and
    found the secrets private. -/
theorem boot_made {fresh : FreshKeys} {dir : KeyDir} {x : ServerIdentity × A}
    (hmade : dir.get? x25519Key ≠ none) (h : (boot crypto fromStr fresh dir).2 = .ok x) :
    readAll fromStr dir = .ok x ∧ ∀ name, name = x25519Key ∨ name = ed25519Key →
      ∀ file, dir.get? name = some file → file.exposed = false := by
  rw [boot_of_isSome crypto fresh dir (Option.isSome_iff_ne_none.mpr hmade)] at h
  rcases (bind_ok_iff _ _ _).mp h with ⟨u, hx, h⟩
  rcases (bind_ok_iff _ _ _).mp h with ⟨v, he, h⟩
  refine ⟨h, ?_⟩
  intro name hname file hfile
  rcases hname with rfl | rfl
  · exact requireSecretPerms_eq_ok dir _ u hx file hfile
  · exact requireSecretPerms_eq_ok dir _ v he file hfile

theorem boot_made_fst (fresh : FreshKeys) {dir : KeyDir} (hmade : dir.get? x25519Key ≠ none) :
    (boot crypto fromStr fresh dir).1 = dir := by
  rw [boot_of_isSome crypto fresh dir (Option.isSome_iff_ne_none.mpr hmade)]

theorem KeyFile.not_exposed (file : KeyFile) :
    ({ file with mode := 0o600 } : KeyFile).exposed = false := by
  have hclosed : (0o600 &&& 0o077 != 0) = false := by decide
  exact hclosed

theorem requireSecretPerms_closed {dir : KeyDir} {name : String} (file : KeyFile)
    (h : dir.get? name = some file) (hclosed : file.exposed = false) :
    requireSecretPerms dir name = .ok () := by
  rw [requireSecretPerms, h]
  dsimp only
  rw [hclosed]
  rfl

/-- Both secrets are there where the files can be read. -/
theorem secret_of_contents {dir : KeyDir} {x : ServerIdentity × A}
    (h : contents fromStr dir = .ok x) {name : String}
    (hname : name = x25519Key ∨ name = ed25519Key) :
    ∃ file, (mended dir).get? name = some file ∧ file.exposed = false := by
  have hserver := ((readAll_eq_ok_iff _ _).mp h).1
  rcases (bind_ok_iff _ _ _).mp hserver with ⟨_, hx, hserver⟩
  rcases (bind_ok_iff _ _ _).mp hserver with ⟨_, he, _⟩
  have hsecret : ∃ secret, readSecret (mended dir) name = .ok secret := by
    rcases hname with rfl | rfl
    · exact ⟨_, hx⟩
    · exact ⟨_, he⟩
  rcases hsecret with ⟨secret, hsecret⟩
  rcases (bind_ok_iff _ _ _).mp hsecret with ⟨content, hcontent, _⟩
  rcases (readBytes_eq_ok_iff _ _ _).mp hcontent with ⟨file, hfile, -, -⟩
  have hkey : name ∈ keyFiles := by
    rcases hname with rfl | rfl <;> simp [keyFiles]
  refine ⟨file, hfile, ?_⟩
  rw [get?_mended, if_pos hkey, Option.map_eq_some_iff] at hfile
  rcases hfile with ⟨before, -, rfl⟩
  exact before.not_exposed

/-- Once the modes are mended, a start comes up under what is in the files. -/
theorem boot_mended (fresh : FreshKeys) {dir : KeyDir} {x : ServerIdentity × A}
    (hmade : dir.get? x25519Key ≠ none) (h : contents fromStr dir = .ok x) :
    (boot crypto fromStr fresh (mended dir)).2 = .ok x := by
  have hmade' : (mended dir).get? x25519Key ≠ none := by
    rw [Ne, get?_mended_eq_none]
    exact hmade
  have hsecrets : ∀ name, name = x25519Key ∨ name = ed25519Key →
      requireSecretPerms (mended dir) name = .ok () := by
    intro name hname
    rcases secret_of_contents h hname with ⟨file, hfile, hclosed⟩
    exact requireSecretPerms_closed file hfile hclosed
  have hread : readAll fromStr (mended dir) = .ok x := h
  rw [boot_of_isSome crypto fresh _ (Option.isSome_iff_ne_none.mpr hmade'),
    hsecrets x25519Key (Or.inl rfl), hsecrets ed25519Key (Or.inr rfl), hread]
  rfl

/-- A first start that comes up is under the identity and the age secret it made. -/
theorem boot_first {fresh : FreshKeys} {x : ServerIdentity × A}
    (h : (boot crypto fromStr fresh .empty).2 = .ok x) :
    x.1 = fresh.identity crypto ∧ parseAge fromStr fresh.ageText = .ok x.2 := by
  rw [boot_empty] at h
  dsimp only at h
  cases hage : parseAge fromStr fresh.ageText with
  | error e =>
      rw [hage] at h
      cases h
  | ok age =>
      rw [hage] at h
      rw [← Except.ok.inj h]
      exact ⟨rfl, rfl⟩

end

namespace KeyHost

section

variable {crypto fromStr} {s u : KeyHost A}

theorem sound_start : (start : KeyHost A).Sound crypto fromStr := by
  refine ⟨fun _ => ⟨rfl, fun b hb => absurd hb List.not_mem_nil⟩, fun x hx => ?_,
    fun b hb => absurd hb List.not_mem_nil, ⟨fun b hb => absurd hb List.not_mem_nil,
      fun b hb => absurd hb List.not_mem_nil, fun b hb => absurd hb List.not_mem_nil⟩⟩
  rcases (readAll_eq_ok_iff _ _).mp hx with ⟨_, hage⟩
  exact absurd hage (atRestKey_empty _
    (fun file hfile => absurd hfile (by simp [start, get?_mended])) _)

/-- What keeps the starts and what is in the files keeps the invariant. -/
theorem Sound.of_same (h : s.Sound crypto fromStr) (hstarts : u.starts = s.starts)
    (hread : contents fromStr u.dir = contents fromStr s.dir)
    (hunmade : u.dir.get? x25519Key = none → u.dir = s.dir) : u.Sound crypto fromStr := by
  refine ⟨fun hnone => ?_, fun x hx => h.matching x (hread ▸ hx), fun b hb x y hx hy => ?_,
    ⟨?_, ?_, ?_⟩⟩
  · have hsame : u.dir = s.dir := hunmade hnone
    rw [hsame, hstarts]
    exact h.unmade (by rw [← hsame]; exact hnone)
  · rw [hstarts] at hb
    exact h.agrees b hb x y hx (hread ▸ hy)
  · rw [hstarts]
    exact h.one.matching
  · rw [hstarts]
    exact h.one.one
  · rw [hstarts]
    exact h.one.secret

/-- A start, the identity it comes up under being that of the files. -/
theorem Sound.concat (h : s.Sound crypto fromStr) {dir : KeyDir} {b : Start A}
    (hmade : dir.get? x25519Key ≠ none)
    (hread : ∀ x, contents fromStr dir = .ok x → x.1.Matches crypto)
    (hold : ∀ b' ∈ s.starts, ∀ x y, b'.result = .ok x → contents fromStr dir = .ok y → x = y)
    (hnew : ∀ x, b.result = .ok x → x.1.Matches crypto ∧
      (∀ y, contents fromStr dir = .ok y → x = y) ∧
      (∀ b' ∈ s.starts, ∀ x', b'.result = .ok x' → x' = x) ∧
      ∀ name, name = x25519Key ∨ name = ed25519Key →
        ∀ file, b.before.get? name = some file → file.exposed = false) :
    (⟨dir, s.starts ++ [b]⟩ : KeyHost A).Sound crypto fromStr := by
  have hmem : ∀ b', b' ∈ s.starts ++ [b] → b' ∈ s.starts ∨ b' = b := by
    intro b' hb'
    rcases List.mem_append.mp hb' with hb' | hb'
    · exact Or.inl hb'
    · exact Or.inr (List.mem_singleton.mp hb')
  refine ⟨fun hnone => absurd hnone hmade, hread, ?_, ⟨?_, ?_, ?_⟩⟩
  · intro b' hb' x y hx hy
    rcases hmem b' hb' with hb' | rfl
    · exact hold b' hb' x y hx hy
    · exact (hnew x hx).2.1 y hy
  · intro b' hb' x hx
    rcases hmem b' hb' with hb' | rfl
    · exact h.one.matching b' hb' x hx
    · exact (hnew x hx).1
  · intro b₁ hb₁ b₂ hb₂ x y hx hy
    rcases hmem b₁ hb₁ with hold₁ | rfl
    · rcases hmem b₂ hb₂ with hold₂ | rfl
      · exact h.one.one b₁ hold₁ b₂ hold₂ x y hx hy
      · exact (hnew y hy).2.2.1 b₁ hold₁ x hx
    · rcases hmem b₂ hb₂ with hold₂ | rfl
      · exact ((hnew x hx).2.2.1 b₂ hold₂ y hy).symm
      · exact Except.ok.inj (hx.symm.trans hy)
  · intro b' hb' x hx
    rcases hmem b' hb' with hb' | rfl
    · exact h.one.secret b' hb' x hx
    · exact (hnew x hx).2.2.2

/-- What a step can be. -/
theorem step_cases {e : KeyEvent} (h : s.step crypto fromStr e = some u) :
    (∃ fresh, e = .boot fresh ∧ u = ⟨(boot crypto fromStr fresh s.dir).1,
      s.starts ++ [⟨s.dir, (boot crypto fromStr fresh s.dir).2⟩]⟩) ∨
    (∃ fresh n, e = .stop fresh n ∧ s.dir.get? x25519Key = none ∧
      u = ⟨(performOps ((initWrites crypto fresh s.dir).take n) s.dir).1, s.starts⟩) ∨
    (∃ fresh n, e = .stop fresh n ∧ s.dir.get? x25519Key ≠ none ∧ u = s) ∨
    ∃ name mode, e = .chmod name mode ∧ s.dir.get? name ≠ none ∧
      u = ⟨chmod s.dir name mode, s.starts⟩ := by
  cases e with
  | boot fresh => exact Or.inl ⟨fresh, rfl, (Option.some.inj h).symm⟩
  | stop fresh n =>
      refine Or.inr ?_
      change (if _ then _ else _) = _ at h
      by_cases hmade : (s.dir.get? x25519Key).isNone = true
      · rw [if_pos hmade] at h
        exact Or.inl ⟨fresh, n, rfl, Option.isNone_iff_eq_none.mp hmade, (Option.some.inj h).symm⟩
      · rw [if_neg hmade] at h
        rw [Option.isNone_iff_eq_none] at hmade
        exact Or.inr (Or.inl ⟨fresh, n, rfl, hmade, (Option.some.inj h).symm⟩)
  | chmod name mode =>
      refine Or.inr (Or.inr (Or.inr ⟨name, mode, rfl, ?_⟩))
      change (if _ then _ else _) = _ at h
      by_cases hnone : (s.dir.get? name).isNone = true
      · rw [if_pos hnone] at h
        cases h
      · rw [if_neg hnone] at h
        rw [Option.isNone_iff_eq_none] at hnone
        exact ⟨hnone, (Option.some.inj h).symm⟩

/-- In an empty directory, a start that stops has made nothing, or the file that later
    ones look for. -/
theorem performed_unmade (fresh : FreshKeys) (n : ℕ)
    (h : (performOps ((initWrites crypto fresh .empty).take n) .empty).1.get? x25519Key = none) :
    n = 0 := by
  by_cases hn : n < 10
  · by_cases hpos : 0 < n
    · have hthere := (performed_few crypto fresh n hn).2 hpos
      rw [h] at hthere
      cases hthere
    · exact Nat.eq_zero_of_not_pos hpos
  · rw [List.take_of_length_le (by rw [length_initWrites]; omega), performOps_initWrites] at h
    exact absurd h (fresh.dir_made crypto)

/-- **The first start.** No other has come up before it, and what it comes up under is
    what is in the files from then on. -/
theorem Sound.boot_first (h : s.Sound crypto fromStr) (fresh : FreshKeys)
    (hunmade : s.dir.get? x25519Key = none) :
    (⟨(boot crypto fromStr fresh s.dir).1,
      s.starts ++ [⟨s.dir, (boot crypto fromStr fresh s.dir).2⟩]⟩ : KeyHost A).Sound crypto
        fromStr := by
  rcases h.unmade hunmade with ⟨hempty, hnone⟩
  have hdir : (boot crypto fromStr fresh .empty).1 = fresh.dir crypto := by rw [boot_empty]
  rw [hempty, hdir]
  refine h.concat (fresh.dir_made crypto) (fun y hy => ?_)
    (fun b' hb' x _ hx => absurd hx (hnone b' hb' x)) fun x hx => ?_
  · rw [server_of_contents_dir crypto fresh y hy]
    exact fresh.matches_identity
  · rcases SecureLlm.boot_first hx with ⟨hx₁, hx₂⟩
    refine ⟨by rw [hx₁]; exact fresh.matches_identity, fun y hy => ?_,
      fun b' hb' x' hx' => absurd hx' (hnone b' hb' x'),
      fun name _ file hfile => absurd hfile (by simp)⟩
    have hage := ((readAll_eq_ok_iff _ _).mp hy).2
    rw [atRestKey_mended_dir] at hage
    exact Prod.ext (hx₁.trans (server_of_contents_dir crypto fresh y hy).symm)
      (Except.ok.inj (hx₂.symm.trans hage))

/-- **Every step keeps the invariant.** -/
theorem Sound.step {e : KeyEvent} (h : s.Sound crypto fromStr)
    (hstep : s.step crypto fromStr e = some u) : u.Sound crypto fromStr := by
  rcases step_cases hstep with ⟨fresh, rfl, rfl⟩ | ⟨fresh, n, rfl, hunmade, rfl⟩ |
    ⟨fresh, n, rfl, _, rfl⟩ | ⟨name, mode, rfl, hthere, rfl⟩
  · by_cases hmade : s.dir.get? x25519Key = none
    · exact h.boot_first fresh hmade
    · rw [boot_made_fst fresh hmade]
      refine h.concat hmade h.matching h.agrees fun x hx => ?_
      rcases boot_made hmade hx with ⟨hgiven, hsecret⟩
      have hread := contents_of_readAll hgiven
      refine ⟨h.matching x hread, fun y hy => Except.ok.inj (hread.symm.trans hy), ?_, hsecret⟩
      exact fun b' hb' x' hx' => h.agrees b' hb' x' x hx' hread
  · rcases h.unmade hunmade with ⟨hempty, hnone⟩
    rw [hempty]
    refine ⟨fun hunmade => ⟨?_, hnone⟩, fun x hx => ?_,
      fun b hb x y hx => absurd hx (hnone b hb x),
      ⟨h.one.matching, h.one.one, h.one.secret⟩⟩
    · rw [performed_unmade fresh n hunmade]
      rfl
    · rw [(read_performed crypto fresh n x hx).2]
      exact fresh.matches_identity
  · exact h
  · refine h.of_same rfl (contents_chmod s.dir name mode) fun hunmade => ?_
    have hunmade : s.dir.get? x25519Key = none := (get?_chmod_eq_none _ _ _ _).mp hunmade
    rw [(h.unmade hunmade).1] at hthere
    exact absurd (Dict.get?_empty name) hthere

/-- **When the next start comes up.** Nothing was made yet, or all that was made can be
    read. -/
theorem serves_iff (h : s.Sound crypto fromStr) :
    s.Serves crypto fromStr ↔
      s.dir.get? x25519Key = none ∨ ∃ x, contents fromStr s.dir = .ok x := by
  constructor
  · intro hserves
    by_cases hmade : s.dir.get? x25519Key = none
    · exact Or.inl hmade
    · rcases hserves FreshKeys.sample fun hnone => absurd hnone hmade with ⟨x, hx⟩
      have hmade' : (mended s.dir).get? x25519Key ≠ none := by
        rw [Ne, get?_mended_eq_none]
        exact hmade
      exact Or.inr ⟨x, (boot_made hmade' hx).1⟩
  · intro hready fresh hwhole
    by_cases hmade : s.dir.get? x25519Key = none
    · rcases (hwhole hmade).age with ⟨age, hage⟩
      have hempty : mended .empty = .empty := rfl
      rw [(h.unmade hmade).1, hempty, boot_empty, hage]
      exact ⟨(fresh.identity crypto, age), rfl⟩
    · rcases hready with hnone | ⟨x, hx⟩
      · exact absurd hnone hmade
      · exact ⟨x, boot_mended fresh hmade hx⟩

/-- **What a step does to the next start.** If one comes up before the step, one does
    after it exactly when the step is whole. -/
theorem whole_iff {e : KeyEvent} (h : s.Sound crypto fromStr) (hserves : s.Serves crypto fromStr)
    (hstep : s.step crypto fromStr e = some u) :
    s.Whole crypto fromStr e ↔ u.Serves crypto fromStr := by
  rw [serves_iff (h.step hstep)]
  have hready := (serves_iff h).mp hserves
  rcases step_cases hstep with ⟨fresh, rfl, rfl⟩ | ⟨fresh, n, rfl, hunmade, rfl⟩ |
    ⟨fresh, n, rfl, hmade, rfl⟩ | ⟨name, mode, rfl, _, rfl⟩
  · by_cases hmade : s.dir.get? x25519Key = none
    · have hdir : (boot crypto fromStr fresh s.dir).1 = fresh.dir crypto := by
        rw [(h.unmade hmade).1, boot_empty]
      rw [hdir, contents_dir_iff]
      constructor
      · exact fun hwhole => Or.inr (hwhole hmade)
      · intro hafter _
        rcases hafter with hnone | hwhole
        · exact absurd hnone (fresh.dir_made crypto)
        · exact hwhole
    · rw [boot_made_fst fresh hmade]
      exact iff_of_true (fun hnone => absurd hnone hmade) hready
  · rw [(h.unmade hunmade).1]
    constructor
    · intro hwhole
      rcases hwhole hunmade with rfl | ⟨hn, hwhole⟩
      · exact Or.inl rfl
      · rw [(h.unmade hunmade).1] at hn
        rw [List.take_of_length_le hn, performOps_initWrites]
        exact Or.inr ((contents_dir_iff crypto fresh).mpr hwhole)
    · intro hafter _
      rcases hafter with hnone | ⟨x, hx⟩
      · exact Or.inl (performed_unmade fresh n hnone)
      · have hn := (read_performed crypto fresh n x hx).1
        have hall : (initWrites crypto fresh .empty).length ≤ n := hn
        rw [List.take_of_length_le hall, performOps_initWrites] at hx
        rw [(h.unmade hunmade).1]
        exact Or.inr ⟨hall, (contents_dir_iff crypto fresh).mp ⟨x, hx⟩⟩
  · exact iff_of_true (fun hnone => absurd hnone hmade) hready
  · rw [get?_chmod_eq_none, contents_chmod]
    exact iff_of_true trivial hready

/-- A directory that no start comes up from stays one. -/
theorem broken_step {e : KeyEvent} (h : s.Sound crypto fromStr)
    (hbroken : ¬ s.Serves crypto fromStr) (hstep : s.step crypto fromStr e = some u) :
    ¬ u.Serves crypto fromStr := by
  rw [serves_iff h, not_or] at hbroken
  rw [serves_iff (h.step hstep), not_or]
  rcases step_cases hstep with ⟨fresh, rfl, rfl⟩ | ⟨fresh, n, rfl, hunmade, rfl⟩ |
    ⟨fresh, n, rfl, hmade, rfl⟩ | ⟨name, mode, rfl, _, rfl⟩
  · rw [boot_made_fst fresh hbroken.1]
    exact hbroken
  · exact absurd hunmade hbroken.1
  · exact hbroken
  · rw [get?_chmod_eq_none, contents_chmod]
    exact hbroken

end

end KeyHost

/-- **One identity for good.** In every run of starts, of starts that stop anywhere, and
    of changes of modes, from an empty directory: all starts that come up are under one
    identity, whose public keys belong to its secrets, and found those private; and a
    directory that no start comes up from, even once its modes are mended, stays one.
    And the runs in which the next start always comes up once they are mended are those
    in which the step that makes the identity, if it makes anything, makes all of it. -/
theorem server_identity_persists (s : KeyHost A) :
    (Run (KeyHost.step crypto fromStr) anyStep .start s → s.Reliable crypto fromStr) ∧
    (Run (KeyHost.step crypto fromStr) (fun t e _ => t.Whole crypto fromStr e) .start s ↔
      Run (KeyHost.step crypto fromStr) (fun _ _ u => u.Serves crypto fromStr) .start s) := by
  constructor
  · intro hrun
    have hsound : s.Sound crypto fromStr :=
      hrun.invariant (fun t => t.Sound crypto fromStr) KeyHost.sound_start
        fun t e u ht _ hstep => ht.step hstep
    refine ⟨hsound.one, fun hbroken t hlater => ?_⟩
    have hkept : t.Sound crypto fromStr ∧ ¬ t.Serves crypto fromStr := by
      refine hlater.invariant (fun t => t.Sound crypto fromStr ∧ ¬ t.Serves crypto fromStr)
        ⟨hsound, hbroken⟩ ?_
      intro t e u ht _ hstep
      exact ⟨ht.1.step hstep, KeyHost.broken_step ht.1 ht.2 hstep⟩
    exact hkept.2
  · have hstart : (KeyHost.start : KeyHost A).Serves crypto fromStr :=
      (KeyHost.serves_iff KeyHost.sound_start).mpr (Or.inl rfl)
    exact run_iff (fun t => t.Sound crypto fromStr) (fun t => t.Serves crypto fromStr) _
      KeyHost.sound_start hstart (fun t e u ht hstep => ht.step hstep)
      fun t e u ht hserves hstep => KeyHost.whole_iff ht hserves hstep

/-- A start, one that finds a secret open to others, one that may not read a public
    key, and one after all is mended. -/
example : (play (KeyHost.step .sample fun text => some text) .start
    [.boot .sample, .chmod x25519Key 0o640, .boot .sample, .chmod x25519Key 0o600,
      .chmod ed25519Pub 0o200, .boot .sample, .chmod ed25519Pub 0o600,
      .boot .sample]).map (fun s => s.starts.map Start.result) =
    some [.ok (FreshKeys.sample.identity .sample, [65]), .error .permission, .error .permission,
      .ok (FreshKeys.sample.identity .sample, [65])] := by
  decide +kernel

end SecureLlm
