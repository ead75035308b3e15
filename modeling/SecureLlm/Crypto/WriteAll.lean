import Mathlib.Algebra.BigOperators.Group.Finset.Basic
import Mathlib.Algebra.Order.BigOperators.Group.Finset
import SecureLlm.Crypto.AtRest
import SecureLlm.Library.While

/-!
# Writing Everything or Failing

`os.write` may take fewer bytes than it is offered, so `_write_all` goes on until
all of them have landed. This is its loop as it stands in the source, for any
results of the writes. `writeAll` of `SecureLlm.Crypto.AtRest`, where a write that
raises is a result too, says the same in one recursion.

The invariant is that what has landed is the data up to the offset, and that no
write has taken nothing. What is left is the variant.

## Main definitions

* `Writes`: The results of the writes.
* `Writes.Stalls`: One of them is nothing before everything has landed.
* `writePass`: A pass of the loop.
* `encryptFile`: Where the blobs come from.

## Theorems

* `Written.next`: A pass keeps the invariant.
* `writePass_returns`: The loop ends, and how.
* `writeAll_listed`: It does what `writeAll` does.
* `writes_all_or_raises`: Everything is written or it fails, and what is encrypted
  comes back.
-/

namespace SecureLlm

open Library While

/-- The results of the writes of so many bytes. A write takes no more than it is
    offered, which is what is left. -/
structure Writes (size : ℕ) where
  count : ℕ → ℕ
  count_le : ∀ k, ∑ i ∈ Finset.range k, count i < size →
    count k ≤ size - ∑ i ∈ Finset.range k, count i

namespace Writes

variable {size : ℕ} (w : Writes size)

/-- What the first writes have taken. -/
def landed (k : ℕ) : ℕ := ∑ i ∈ Finset.range k, w.count i

/-- A write takes nothing before everything has landed. -/
def Stalls : Prop := ∃ k, w.landed k < size ∧ w.count k = 0

/-- The results as a list. There are no more of them that matter than there are bytes. -/
def listed : List WriteResult := (List.range size).map fun k => .wrote (w.count k)

theorem landed_succ (k : ℕ) : w.landed (k + 1) = w.landed k + w.count k :=
  Finset.sum_range_succ _ k

theorem landed_mono {j k : ℕ} (h : j ≤ k) : w.landed j ≤ w.landed k :=
  Finset.sum_le_sum_of_subset (Finset.range_mono h)

end Writes

/-- The state of the loop: the offset, the writes made, and what each of them has
    put into the file. -/
structure Writing where
  n : ℕ := 0
  calls : ℕ := 0
  chunks : List Bytes := []

variable (data : Bytes) (w : Writes data.length)

/-- A pass of `_write_all`. -/
def writePass (s : Writing) : Writing ⊕ (List Bytes × Except LoadError Unit) :=
  if s.n < data.length then
    let offered := data.drop s.n
    let written := w.count s.calls
    let chunks := s.chunks ++ [offered.take written]
    if written = 0 then
      .inr (chunks, .error (.osError "os.write returned 0 — disk full or fd closed"))
    else .inl ⟨s.n + written, s.calls + 1, chunks⟩
  else .inr (s.chunks, .ok ())

/-- What has landed is the data up to the offset. -/
structure Written (s : Writing) : Prop where
  n_eq : s.n = w.landed s.calls
  n_le : s.n ≤ data.length
  flatten_eq : s.chunks.flatten = data.take s.n
  taken : ∀ k < s.calls, w.count k ≠ 0

theorem written_start : Written data w {} where
  n_eq := rfl
  n_le := Nat.zero_le _
  flatten_eq := rfl
  taken := fun k hk => absurd hk (Nat.not_lt_zero k)

variable {data w} {s t : Writing} {r : List Bytes × Except LoadError Unit}

/-- The two ways a pass ends the loop, and the one in which it goes on. -/
theorem writePass_next (h : writePass data w s = .inl t) :
    s.n < data.length ∧ w.count s.calls ≠ 0 ∧
      t = ⟨s.n + w.count s.calls, s.calls + 1,
        s.chunks ++ [(data.drop s.n).take (w.count s.calls)]⟩ := by
  unfold writePass at h
  split at h
  · rename_i hlt
    by_cases hzero : w.count s.calls = 0
    · rw [if_pos hzero] at h
      cases h
    · rw [if_neg hzero] at h
      exact ⟨hlt, hzero, (Sum.inl.inj h).symm⟩
  · cases h

theorem writePass_done (h : writePass data w s = .inr r) :
    (data.length ≤ s.n ∧ r = (s.chunks, .ok ())) ∨
      (s.n < data.length ∧ w.count s.calls = 0 ∧ r = (s.chunks ++ [[]],
        .error (.osError "os.write returned 0 — disk full or fd closed"))) := by
  unfold writePass at h
  split at h
  · rename_i hlt
    by_cases hzero : w.count s.calls = 0
    · rw [if_pos hzero, hzero, List.take_zero] at h
      exact .inr ⟨hlt, hzero, (Sum.inr.inj h).symm⟩
    · rw [if_neg hzero] at h
      cases h
  · rename_i hge
    exact .inl ⟨Nat.le_of_not_lt hge, (Sum.inr.inj h).symm⟩

/-- A pass that goes on writes the next bytes of the data. -/
theorem Written.next (hs : Written data w s) (h : writePass data w s = .inl t) :
    Written data w t := by
  rcases writePass_next h with ⟨hlt, hzero, rfl⟩
  have hle : w.count s.calls ≤ data.length - s.n := by
    rw [hs.n_eq]
    exact w.count_le s.calls (by rw [← Writes.landed, ← hs.n_eq]; exact hlt)
  refine ⟨?_, ?_, ?_, ?_⟩
  · rw [w.landed_succ, ← hs.n_eq]
  · dsimp only
    omega
  · rw [List.flatten_append, hs.flatten_eq, List.flatten_singleton, ← List.take_add]
  · intro k hk
    rcases Nat.lt_succ_iff_lt_or_eq.mp hk with hk | rfl
    · exact hs.taken k hk
    · exact hzero

variable (data w) in
/-- Everything has landed and no write has taken nothing, or one of them has, with
    the data up to there in the file. -/
def WroteOrRaised (r : List Bytes × Except LoadError Unit) : Prop :=
  (r.2 = .ok () ∧ r.1.flatten = data ∧ ¬ w.Stalls) ∨
    ((∃ message, r.2 = .error (.osError message)) ∧ r.1.flatten <+: data ∧ w.Stalls)

theorem Written.done (hs : Written data w s) (h : writePass data w s = .inr r) :
    WroteOrRaised data w r := by
  rcases writePass_done h with ⟨hge, rfl⟩ | ⟨hlt, hzero, rfl⟩
  · have hn : s.n = data.length := Nat.le_antisymm hs.n_le hge
    refine .inl ⟨rfl, by rw [hs.flatten_eq, hn, List.take_length], ?_⟩
    rintro ⟨k, hk, hcount⟩
    -- The loop has got to the end of the data, so this write is one of those it made.
    by_cases hcalls : k < s.calls
    · exact hs.taken k hcalls hcount
    · have hmono := w.landed_mono (Nat.le_of_not_lt hcalls)
      rw [← hs.n_eq] at hmono
      omega
  · refine .inr ⟨⟨_, rfl⟩, ?_, s.calls, by rw [← hs.n_eq]; exact hlt, hzero⟩
    rw [List.flatten_append, hs.flatten_eq]
    simp only [List.flatten_singleton, List.append_nil]
    exact List.take_prefix _ _

variable (data w)

/-- The loop ends: what is left gets less with each pass. -/
theorem writePass_returns : ∃ r, Returns (writePass data w) {} r := by
  refine returns_of_variant (Written data w) (fun s => data.length - s.n) (written_start data w) ?_
  intro s t hs h
  refine ⟨hs.next h, ?_⟩
  rcases writePass_next h with ⟨hlt, hzero, rfl⟩
  dsimp only
  omega

/-- And it has written everything or raised. -/
theorem wroteOrRaised_of_returns (h : Returns (writePass data w) {} r) :
    WroteOrRaised data w r :=
  h.post (Written data w) _ (written_start data w) (fun _ _ hs hpass => hs.next hpass)
    (fun _ _ hs hpass => hs.done hpass)

/-- The results from a write on, as far as they can matter. -/
def Writes.listedFrom {size : ℕ} (w : Writes size) (k : ℕ) : List WriteResult :=
  (List.range' k (size - k)).map fun k => .wrote (w.count k)

theorem Writes.listedFrom_lt {size : ℕ} (w : Writes size) (k : ℕ) (h : k < size) :
    w.listedFrom k = .wrote (w.count k) :: w.listedFrom (k + 1) := by
  rw [listedFrom, show size - k = size - (k + 1) + 1 by omega, List.range'_succ]
  rfl

/-- From each state of the loop on, the recursion comes to the same. -/
structure Ahead (s : Writing) : Prop extends Written data w s where
  calls_le : s.calls ≤ s.n
  writeAll_eq : writeAll (w.listedFrom s.calls) s.chunks.flatten (data.drop s.n)
    = writeAll w.listed [] data

variable {data w}

/-- A write that takes something is a step of the recursion. -/
theorem writeAll_wrote (n : ℕ) (results : List WriteResult) (written rest : Bytes)
    (hn : n ≠ 0) (hrest : rest ≠ []) :
    writeAll (.wrote n :: results) written rest
      = writeAll results (written ++ rest.take n) (rest.drop n) := by
  cases n with
  | zero => exact absurd rfl hn
  | succ n => rw [writeAll]; exact hrest

theorem Ahead.next (hs : Ahead data w s) (h : writePass data w s = .inl t) : Ahead data w t := by
  have hwritten := hs.toWritten.next h
  rcases writePass_next h with ⟨hlt, hzero, rfl⟩
  have hcalls := hs.calls_le
  refine ⟨hwritten, ?_, ?_⟩
  · dsimp only
    omega
  · rw [← hs.writeAll_eq, w.listedFrom_lt s.calls (by omega), writeAll_wrote _ _ _ _ hzero
      (List.ne_nil_of_length_pos (by rw [List.length_drop]; omega))]
    rw [List.flatten_append, List.flatten_singleton, List.drop_drop]

theorem Ahead.done (hs : Ahead data w s) (h : writePass data w s = .inr r) :
    writeAll w.listed [] data = (r.1.flatten, r.2) := by
  rw [← hs.writeAll_eq]
  rcases writePass_done h with ⟨hge, rfl⟩ | ⟨hlt, hzero, rfl⟩
  · rw [List.drop_of_length_le hge]
    unfold writeAll
    rfl
  · have hcalls := hs.calls_le
    rw [w.listedFrom_lt s.calls (by omega), hzero, List.flatten_append]
    simp only [List.flatten_singleton, List.append_nil]
    rw [writeAll]
    exact List.ne_nil_of_length_pos (by rw [List.length_drop]; omega)

variable (data w)

/-- The loop and the recursion write the same and end the same way. -/
theorem writeAll_listed (h : Returns (writePass data w) {} r) :
    writeAll w.listed [] data = (r.1.flatten, r.2) := by
  refine h.post (Ahead data w) (fun r => writeAll w.listed [] data = (r.1.flatten, r.2)) ?_
    (fun _ _ hs hpass => hs.next hpass) (fun _ _ hs hpass => hs.done hpass)
  refine ⟨written_start data w, le_refl _, ?_⟩
  rw [Writes.listedFrom, Writes.listed, List.range_eq_range']
  rfl

variable {data w}

theorem listed_land_iff (h : Returns (writePass data w) {} r) :
    Land w.listed data.length ↔ ¬ w.Stalls := by
  have heq := writeAll_listed data w h
  rcases wroteOrRaised_of_returns data w h with ⟨hok, -, hstall⟩ | ⟨⟨message, he⟩, -, hstall⟩
  · refine iff_of_true ?_ hstall
    by_contra hland
    rcases writeAll_of_not_land w.listed [] data hland with ⟨content, e, hwrite⟩
    rw [heq, Prod.mk.injEq, hok] at hwrite
    cases hwrite.2
  · refine iff_of_false ?_ (not_not_intro hstall)
    intro hland
    rw [writeAll_of_land w.listed [] data hland, Prod.mk.injEq, he] at heq
    cases heq.2

/-- How the operations of `encrypt_file` go: whether the directory can be made, how
    far a write that fails has got, and whether the file can be put in place. -/
structure EncryptIo where
  makes : Bool := true
  cut : Option ℕ := none
  replaces : Bool := true
  deriving DecidableEq, Repr

variable (encrypt : Bytes → Bytes) (decrypt : Bytes → Option Bytes)

/-- `encrypt_file`: read the file, encrypt it, write that beside the destination and
    put it in place. -/
def encryptFile (io : EncryptIo) (src dst : String) (files : Dict String Bytes) :
    Dict String Bytes × Except LoadError Unit :=
  if ¬ io.makes then (files, .error (.osError "mkdir"))
  else
    match files.get? src with
    | none => (files, .error (.osError "No such file or directory"))
    | some plaintext =>
      let tmp := dst ++ ".tmp"
      let encrypted := encrypt plaintext
      match io.cut with
      | some size => (files.set tmp (encrypted.take size), .error (.osError "write"))
      | none =>
        let files := files.set tmp encrypted
        if ¬ io.replaces then (files, .error (.osError "replace"))
        else ((files.erase tmp).set dst encrypted, .ok ())

/-- Where it returns, the blob is in place. -/
theorem encryptFile_ok (io : EncryptIo) (src dst : String) (files files' : Dict String Bytes)
    (plaintext : Bytes) (hsrc : files.get? src = some plaintext)
    (h : encryptFile encrypt io src dst files = (files', .ok ())) :
    files'.get? dst = some (encrypt plaintext) := by
  unfold encryptFile at h
  split at h
  · cases h
  · rw [hsrc] at h
    dsimp only at h
    cases hcut : io.cut with
    | some size =>
        rw [hcut] at h
        cases h
    | none =>
        rw [hcut] at h
        dsimp only at h
        split at h
        · cases h
        · rw [← (Prod.mk.inj h).1, Dict.get?_set, if_pos rfl]

/-- `decrypt_to_tmpfs` yields a file if it can be opened, written and closed, and the
    plaintext is in it then. -/
theorem enterTmpfs_eq_ok_iff (blob plaintext : Bytes) (io : FileIo)
    (tmpfs tmpfs' : Dict String Bytes) (name : String) (hblob : decrypt blob = some plaintext) :
    enterTmpfs decrypt (some blob) io tmpfs = (tmpfs', .ok name) ↔
      (io.opens = true ∧ tmpfs.get? io.name = none ∧ io.Lands plaintext.length) ∧
        name = io.name ∧ tmpfs' = tmpfs.set io.name plaintext := by
  by_cases hopen : io.opens = true ∧ tmpfs.get? io.name = none
  · have hmade : made decrypt (some blob) io tmpfs = some plaintext := by
      rw [made, if_pos ⟨hopen.1, Option.isNone_iff_eq_none.mpr hopen.2⟩, Option.bind_some, hblob]
    rcases enterTmpfs_made decrypt (some blob) io tmpfs plaintext hmade with ⟨-, hlands, hfails⟩
    by_cases h : io.Lands plaintext.length
    · rw [hlands h, Prod.mk.injEq, Except.ok.injEq]
      constructor
      · rintro ⟨rfl, rfl⟩
        exact ⟨⟨hopen.1, hopen.2, h⟩, rfl, rfl⟩
      · rintro ⟨-, rfl, rfl⟩
        exact ⟨rfl, rfl⟩
    · rcases hfails h with ⟨content, e, heq⟩
      refine iff_of_false ?_ (fun hyes => h hyes.1.2.2)
      rw [heq, Prod.mk.injEq]
      intro hyes
      cases hyes.2
  · have hmade : made decrypt (some blob) io tmpfs = none := by
      rw [made, if_neg]
      rw [Option.isNone_iff_eq_none]
      exact hopen
    rcases enterTmpfs_refused decrypt (some blob) io tmpfs hmade with ⟨e, heq⟩
    refine iff_of_false ?_ (fun hyes => hopen ⟨hyes.1.1, hyes.1.2.1⟩)
    rw [heq, Prod.mk.injEq]
    intro hyes
    cases hyes.2

/-- A blob that `encrypt_file` has put in place comes back as the loop lets it. -/
theorem enterTmpfs_encryptFile (hage : ∀ plaintext, decrypt (encrypt plaintext) = some plaintext)
    (eio : EncryptIo) (src dst : String) (files files' : Dict String Bytes) (io : FileIo)
    (tmpfs tmpfs' : Dict String Bytes) (name : String) (hsrc : files.get? src = some data)
    (hfile : encryptFile encrypt eio src dst files = (files', .ok ()))
    (hwrites : io.writes = w.listed) (hreturns : Returns (writePass data w) {} r) :
    enterTmpfs decrypt (files'.get? dst) io tmpfs = (tmpfs', .ok name) ↔
      (io.opens = true ∧ tmpfs.get? io.name = none ∧ r.2 = .ok () ∧ io.closes = true) ∧
        name = io.name ∧ tmpfs' = tmpfs.set io.name data := by
  have hland : Land io.writes data.length ↔ r.2 = .ok () := by
    rw [hwrites, listed_land_iff hreturns]
    rcases wroteOrRaised_of_returns data w hreturns with ⟨hok, -, hstall⟩ | ⟨⟨m, he⟩, -, hstall⟩
    · exact iff_of_true hstall hok
    · refine iff_of_false (not_not_intro hstall) ?_
      rw [he]
      simp only [reduceCtorEq, not_false_eq_true]
  rw [encryptFile_ok encrypt eio src dst files files' data hsrc hfile,
    enterTmpfs_eq_ok_iff decrypt _ data io tmpfs tmpfs' name (hage data), FileIo.Lands, hland]

/-- For all results of the writes the loop ends in one way: it returns or it raises an
    `OSError`. If no write takes nothing before everything has landed, the chunks are
    the data. It raises exactly otherwise, and what is written is a prefix in any case.
    What `encrypt_file` was given is what a file has in it that `decrypt_to_tmpfs`
    yields, and it yields one if the file can be opened and closed and the loop does
    not raise. -/
theorem writes_all_or_raises (hage : ∀ plaintext, decrypt (encrypt plaintext) = some plaintext)
    (data : Bytes) (w : Writes data.length) :
    ∃ chunks out, Returns (writePass data w) {} (chunks, out) ∧
      (∀ r, Returns (writePass data w) {} r → r = (chunks, out)) ∧
      (out = .ok () ∨ ∃ message, out = .error (.osError message)) ∧
      ((∀ k, w.landed k < data.length → w.count k ≠ 0) → chunks.flatten = data) ∧
      ((∃ message, out = .error (.osError message)) ↔
        ∃ k, w.landed k < data.length ∧ w.count k = 0) ∧
      chunks.flatten <+: data ∧ writeAll w.listed [] data = (chunks.flatten, out) ∧
      ∀ (eio : EncryptIo) (src dst : String) (files files' : Dict String Bytes) (io : FileIo)
        (tmpfs : Dict String Bytes), files.get? src = some data →
        encryptFile encrypt eio src dst files = (files', .ok ()) → io.writes = w.listed →
        (∀ tmpfs' name, enterTmpfs decrypt (files'.get? dst) io tmpfs = (tmpfs', .ok name) →
          tmpfs'.get? name = some data) ∧
        ((∃ tmpfs' name, enterTmpfs decrypt (files'.get? dst) io tmpfs = (tmpfs', .ok name)) ↔
          io.opens = true ∧ tmpfs.get? io.name = none ∧ out = .ok () ∧ io.closes = true) := by
  rcases writePass_returns data w with ⟨⟨chunks, out⟩, hreturns⟩
  refine ⟨chunks, out, hreturns, fun r hr => hr.unique hreturns, ?_, ?_, ?_, ?_,
    writeAll_listed data w hreturns, ?_⟩
  · rcases wroteOrRaised_of_returns data w hreturns with ⟨hok, -, -⟩ | ⟨he, -, -⟩
    · exact .inl hok
    · exact .inr he
  · intro hnone
    rcases wroteOrRaised_of_returns data w hreturns with ⟨-, hall, -⟩ | ⟨-, -, k, hk, hcount⟩
    · exact hall
    · exact absurd hcount (hnone k hk)
  · rcases wroteOrRaised_of_returns data w hreturns with ⟨hok, -, hstall⟩ | ⟨he, -, hstall⟩
    · refine iff_of_false ?_ hstall
      rintro ⟨message, he⟩
      cases hok.symm.trans he
    · exact iff_of_true he hstall
  · rcases wroteOrRaised_of_returns data w hreturns with ⟨-, hall, -⟩ | ⟨-, hprefix, -⟩
    · exact hall ▸ List.prefix_rfl
    · exact hprefix
  · intro eio src dst files files' io tmpfs hsrc hfile hwrites
    have hyields := fun tmpfs' name => enterTmpfs_encryptFile encrypt decrypt hage eio src dst
      files files' io tmpfs tmpfs' name hsrc hfile hwrites hreturns
    constructor
    · intro tmpfs' name h
      rcases (hyields tmpfs' name).mp h with ⟨-, rfl, rfl⟩
      rw [Dict.get?_set, if_pos rfl]
    · constructor
      · rintro ⟨tmpfs', name, h⟩
        exact ((hyields tmpfs' name).mp h).1
      · intro h
        exact ⟨_, _, (hyields _ _).mpr ⟨h, rfl, rfl⟩⟩

/-- Three bytes that land in two writes. -/
def twoWrites : Writes 3 where
  count k := if k = 0 then 1 else 2
  count_le k hk := by
    rcases k with _ | _ | k
    · decide
    · decide
    · rw [Finset.sum_range_succ', Finset.sum_range_succ'] at hk
      simp only [if_pos, Nat.succ_ne_zero, if_false] at hk
      omega

theorem writes_all_in_two :
    ∃ chunks, Returns (writePass [7, 8, 9] twoWrites) {} (chunks, .ok ()) ∧
      chunks.flatten = [7, 8, 9] ∧
      ∃ files tmpfs name, encryptFile (List.cons 1) {} "plain" "sealed.age"
          (Dict.empty.set "plain" [7, 8, 9]) = (files, .ok ()) ∧
        enterTmpfs List.tail? (files.get? "sealed.age")
          { uuid := "u", writes := twoWrites.listed } Dict.empty = (tmpfs, .ok name) ∧
        tmpfs.get? name = some [7, 8, 9] := by
  rcases writes_all_or_raises (List.cons 1) List.tail? (fun _ => rfl) [7, 8, 9] twoWrites with
    ⟨chunks, out, hreturns, -, hends, hall, hraises, -, -, hcomposed⟩
  have htakes : ∀ k, twoWrites.count k ≠ 0 := by
    intro k
    change (if k = 0 then 1 else 2) ≠ 0
    split <;> simp
  have hok : out = .ok () := by
    rcases hends with hok | he
    · exact hok
    · rcases hraises.mp he with ⟨k, -, hzero⟩
      exact absurd hzero (htakes k)
  subst hok
  rcases hcomposed {} "plain" "sealed.age" (Dict.empty.set "plain" [7, 8, 9]) _
    { uuid := "u", writes := twoWrites.listed } Dict.empty (by rw [Dict.get?_set, if_pos rfl])
    rfl rfl with ⟨hcontent, hyields⟩
  rcases hyields.mpr ⟨rfl, rfl, rfl, rfl⟩ with ⟨tmpfs, name, hyield⟩
  exact ⟨chunks, hreturns, hall fun k _ => htakes k, _, tmpfs, name, rfl, hyield,
    hcontent tmpfs name hyield⟩

end SecureLlm
