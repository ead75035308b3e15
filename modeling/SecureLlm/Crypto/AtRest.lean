import SecureLlm.Library.Dict
import SecureLlm.Library.Encoding

/-!
# Decryption into tmpfs

A blob is decrypted into a file of a directory in memory, which the caller opens
and which is then unlinked. The file is made before it is written, and what
unlinks it is set up after that: where a write or the close raises, the file
stays with whatever has been written.

How the operations on a file go is an argument. Unlinking a file that is there
does not fail.

## Main definitions

* `WriteResult`: What one `write` gives.
* `writeAll`: Writing until everything has landed.
* `FileIo`: How the operations on one file go.
* `enterTmpfs`, `exitTmpfs`: The two halves of `decrypt_to_tmpfs`.
* `FileIo.Lands`: Nothing fails once the file is made.

## Theorems

* `writeAll_of_land`, `writeAll_of_not_land`: Short writes are gone on with.
* `enterTmpfs_refused`, `enterTmpfs_made`: The two ways it goes.
-/

namespace SecureLlm

open Library

/-- The exceptions on the way of a blob into a loaded model. -/
inductive LoadError where
  | osError (message : String)
  | decryptError
  | assertionError
  | backendError (message : String)
  deriving DecidableEq, Repr

/-- What one `os.write` gives: a count, or an exception. -/
inductive WriteResult where
  | wrote (n : ℕ)
  | raised
  deriving DecidableEq, Repr

/-- `_write_all`: what is in the file when it ends, and whether it raises. After the
    listed results every `write` takes all that is left. -/
def writeAll : List WriteResult → (written rest : Bytes) → Bytes × Except LoadError Unit
  | _, written, [] => (written, .ok ())
  | [], written, rest => (written ++ rest, .ok ())
  | .raised :: _, written, _ => (written, .error (.osError "write"))
  | .wrote 0 :: _, written, _ =>
    (written, .error (.osError "os.write returned 0 — disk full or fd closed"))
  | .wrote (n + 1) :: results, written, rest =>
    writeAll results (written ++ rest.take (n + 1)) (rest.drop (n + 1))

/-- The results get so many bytes written: none of them is nothing or an exception
    before the bytes have landed. -/
def Land : List WriteResult → ℕ → Prop
  | _, 0 => True
  | [], _ => True
  | .raised :: _, _ + 1 => False
  | .wrote 0 :: _, _ + 1 => False
  | .wrote (n + 1) :: results, size + 1 => Land results (size - n)

/-- Where everything lands, everything is in the file. -/
theorem writeAll_of_land (results : List WriteResult) (written rest : Bytes)
    (h : Land results rest.length) : writeAll results written rest = (written ++ rest, .ok ()) := by
  induction results generalizing written rest with
  | nil =>
      cases rest with
      | nil => rw [writeAll, List.append_nil]
      | cons b rest => rfl
  | cons result results ih =>
      cases rest with
      | nil => rw [writeAll, List.append_nil]
      | cons b rest =>
          cases result with
          | raised => exact absurd h id
          | wrote n =>
              cases n with
              | zero => exact absurd h id
              | succ n =>
                  rw [List.length_cons, Land] at h
                  rw [writeAll]
                  · rw [ih, List.append_assoc, List.take_append_drop]
                    rw [List.length_drop, List.length_cons, Nat.add_sub_add_right]
                    exact h
                  · exact List.cons_ne_nil b rest

/-- Otherwise a write raises. -/
theorem writeAll_of_not_land (results : List WriteResult) (written rest : Bytes)
    (h : ¬ Land results rest.length) :
    ∃ content e, writeAll results written rest = (content, .error e) := by
  induction results generalizing written rest with
  | nil =>
      cases rest with
      | nil => exact absurd trivial h
      | cons b rest => exact absurd trivial h
  | cons result results ih =>
      cases rest with
      | nil =>
          rw [List.length_nil, Land] at h
          exact absurd trivial h
      | cons b rest =>
          cases result with
          | raised => exact ⟨_, _, rfl⟩
          | wrote n =>
              cases n with
              | zero => exact ⟨_, _, rfl⟩
              | succ n =>
                  rw [List.length_cons, Land] at h
                  rw [writeAll]
                  · refine ih _ _ ?_
                    rw [List.length_drop, List.length_cons, Nat.add_sub_add_right]
                    exact h
                  · exact List.cons_ne_nil b rest

/-- How the operations on one file go: the name it is given, whether it can be
    opened, its writes and its close. -/
structure FileIo where
  uuid : String
  opens : Bool := true
  writes : List WriteResult := []
  closes : Bool := true
  deriving DecidableEq, Repr

def FileIo.name (io : FileIo) : String := io.uuid ++ ".gguf"

variable (decrypt : Bytes → Option Bytes)

/-- `decrypt_to_tmpfs` up to its `yield`: read the blob, decrypt it, make the file,
    which must not be there, write it and close it. -/
def enterTmpfs (blob : Option Bytes) (io : FileIo) (tmpfs : Dict String Bytes) :
    Dict String Bytes × Except LoadError String :=
  match blob with
  | none => (tmpfs, .error (.osError "No such file or directory"))
  | some ciphertext =>
    match decrypt ciphertext with
    | none => (tmpfs, .error .decryptError)
    | some plaintext =>
      if ¬ io.opens ∨ (tmpfs.get? io.name).isSome then (tmpfs, .error (.osError "open"))
      else
        -- From here on there is a file.
        let (content, written) := writeAll io.writes [] plaintext
        let tmpfs := tmpfs.set io.name content
        if ¬ io.closes then (tmpfs, .error (.osError "close"))
        else
          match written with
          | .error e => (tmpfs, .error e)
          | .ok () => (tmpfs, .ok io.name)

/-- And after it: unlink the file, if it is still there. -/
def exitTmpfs (name : String) (tmpfs : Dict String Bytes) : Dict String Bytes := tmpfs.erase name

/-- The plaintext that a file is made for, if it comes to that. -/
def made (blob : Option Bytes) (io : FileIo) (tmpfs : Dict String Bytes) : Option Bytes :=
  if io.opens ∧ (tmpfs.get? io.name).isNone then blob.bind decrypt else none

theorem made_none (io : FileIo) (tmpfs : Dict String Bytes) :
    made decrypt none io tmpfs = none := by
  rw [made, Option.bind_none, ite_self]

/-- Once it is made, a file of some size is written and closed. -/
def FileIo.Lands (io : FileIo) (size : ℕ) : Prop := Land io.writes size ∧ io.closes = true

/-- Where no file is made, the directory is as it was. -/
theorem enterTmpfs_refused (blob : Option Bytes) (io : FileIo) (tmpfs : Dict String Bytes)
    (h : made decrypt blob io tmpfs = none) :
    ∃ e, enterTmpfs decrypt blob io tmpfs = (tmpfs, .error e) := by
  cases blob with
  | none => exact ⟨_, rfl⟩
  | some ciphertext =>
      rw [enterTmpfs]
      cases hplain : decrypt ciphertext with
      | none => exact ⟨_, rfl⟩
      | some plaintext =>
          have hclosed : ¬ io.opens = true ∨ (tmpfs.get? io.name).isSome = true := by
            by_contra hopen
            rw [not_or, not_not] at hopen
            rw [made, if_pos ⟨hopen.1, by
              rw [← Option.not_isSome]
              exact Bool.eq_false_iff.mpr hopen.2 ▸ rfl⟩, Option.bind_some, hplain] at h
            cases h
          dsimp only
          rw [if_pos hclosed]
          exact ⟨_, rfl⟩

/-- Where one is made, it was not there. If everything lands it is there with the
    whole plaintext, and otherwise it is there and this raises. -/
theorem enterTmpfs_made (blob : Option Bytes) (io : FileIo) (tmpfs : Dict String Bytes)
    (plaintext : Bytes) (h : made decrypt blob io tmpfs = some plaintext) :
    tmpfs.get? io.name = none ∧
      (io.Lands plaintext.length → enterTmpfs decrypt blob io tmpfs
        = (tmpfs.set io.name plaintext, .ok io.name)) ∧
      (¬ io.Lands plaintext.length → ∃ content e, enterTmpfs decrypt blob io tmpfs
        = (tmpfs.set io.name content, .error e)) := by
  rw [made] at h
  split at h
  · rename_i hopen
    rcases Option.bind_eq_some_iff.mp h with ⟨ciphertext, rfl, hplain⟩
    have hfree := Option.isNone_iff_eq_none.mp hopen.2
    have hclosed : ¬ (¬ io.opens = true ∨ (tmpfs.get? io.name).isSome = true) := by
      rw [hfree, hopen.1]
      simp only [not_true_eq_false, Option.isSome_none, Bool.false_eq_true, or_self,
        not_false_eq_true]
    refine ⟨hfree, ?_, ?_⟩
    · rintro ⟨hland, hcloses⟩
      simp only [enterTmpfs, hplain, if_neg hclosed, writeAll_of_land _ _ _ hland, hcloses,
        not_true_eq_false, if_false, List.nil_append]
    · intro hfails
      cases hcloses : io.closes with
      | false =>
          refine ⟨(writeAll io.writes [] plaintext).1, .osError "close", ?_⟩
          simp only [enterTmpfs, hplain, if_neg hclosed, hcloses, Bool.false_eq_true,
            not_false_eq_true, if_true]
      | true =>
          have hnot : ¬ Land io.writes plaintext.length := fun hland => hfails ⟨hland, hcloses⟩
          rcases writeAll_of_not_land io.writes [] plaintext hnot with ⟨content, e, hwrite⟩
          refine ⟨content, e, ?_⟩
          simp only [enterTmpfs, hplain, if_neg hclosed, hwrite, hcloses, not_true_eq_false,
            if_false]
  · cases h

end SecureLlm
