import SecureLlm.Library.Encoding

/-!
# Lines of Plain Text

A text of lines, each of which is ended by a newline. What it takes to get the
lines back is documented of every line reader as long as the lines are plain:
printable ASCII, in which nothing is taken for the end of a line.

## Main definitions

* `IsPlain`: Printable ASCII.
* `textOf`: The text of some lines.
* `SplitsLines`: A reader that gives plain lines back.
* `asciiLines`: One that does.

## Theorems

* `utf8_ascii`: The encoding of ASCII.
* `splitsLines_asciiLines`: The reader gives plain lines back.
-/

namespace Library

/-- Printable ASCII, with blanks. -/
def IsPlain (c : Char) : Prop := 0x20 ≤ c.toNat ∧ c.toNat < 0x7f

instance (c : Char) : Decidable (IsPlain c) := inferInstanceAs (Decidable (_ ∧ _))

/-- Lines, each ended by a newline. -/
def textOf (lines : List String) : Bytes := lines.flatMap fun line => utf8 (line ++ "\n")

/-- A reader gives plain lines back. -/
def SplitsLines (split : Bytes → List String) : Prop :=
  ∀ lines, (∀ line ∈ lines, ∀ c ∈ line.toList, IsPlain c) → split (textOf lines) = lines

/-- The lines of an ASCII text, where the current line, read backwards, has begun so. -/
def asciiLines (current : List Char) : Bytes → List String
  | [] => if current = [] then [] else [String.ofList current.reverse]
  | b :: bs =>
    if b = 10 then String.ofList current.reverse :: asciiLines [] bs
    else asciiLines (Char.ofNat b.toNat :: current) bs

/-- ASCII is encoded by its code points. -/
theorem utf8_ascii (cs : List Char) (h : ∀ c ∈ cs, c.toNat < 128) :
    utf8 (String.ofList cs) = cs.map fun c => UInt8.ofNat c.toNat := by
  induction cs with
  | nil => rfl
  | cons c cs ih =>
      have hsize : c.utf8Size = 1 :=
        Char.utf8Size_eq_one_iff.mpr (Nat.le_of_lt_succ (h c List.mem_cons_self))
      have hsingle : utf8 (String.ofList [c]) = [UInt8.ofNat c.toNat] := by
        rw [utf8, String.toUTF8, String.toByteArray_ofList, List.utf8Encode_singleton,
          String.utf8EncodeChar_eq_singleton hsize]
        rfl
      have hcons : String.ofList (c :: cs) = String.ofList [c] ++ String.ofList cs := by
        rw [← String.ofList_append, List.singleton_append]
      rw [hcons, utf8_append, hsingle, ih fun d hd => h d (List.mem_cons_of_mem c hd)]
      rfl

/-- Plain characters are read into the current line. -/
theorem asciiLines_plain (cs current : List Char) (h : ∀ c ∈ cs, IsPlain c) (rest : Bytes) :
    asciiLines current (cs.map (fun c => UInt8.ofNat c.toNat) ++ rest) =
      asciiLines (cs.reverse ++ current) rest := by
  induction cs generalizing current with
  | nil => rfl
  | cons c cs ih =>
      rcases h c List.mem_cons_self with ⟨hlow, hhigh⟩
      have hbyte : (UInt8.ofNat c.toNat).toNat = c.toNat := by
        rw [UInt8.toNat_ofNat']
        omega
      have hnewline : UInt8.ofNat c.toNat ≠ 10 := by
        intro heq
        rw [heq] at hbyte
        have hten : c.toNat = 10 := hbyte.symm
        omega
      rw [List.map_cons, List.cons_append, asciiLines, if_neg hnewline, hbyte, Char.ofNat_toNat,
        ih _ fun d hd => h d (List.mem_cons_of_mem c hd), List.reverse_cons, List.append_assoc,
        List.singleton_append]

/-- The reader gives plain lines back. -/
theorem splitsLines_asciiLines : SplitsLines (asciiLines []) := by
  intro lines h
  induction lines with
  | nil => rfl
  | cons line lines ih =>
      have hplain := h line List.mem_cons_self
      have hline : utf8 line = line.toList.map fun c => UInt8.ofNat c.toNat := by
        have hall := utf8_ascii line.toList fun c hc => by
          have hhigh := (hplain c hc).2
          omega
        rw [String.ofList_toList] at hall
        exact hall
      rw [textOf, List.flatMap_cons, utf8_append, hline, List.append_assoc,
        asciiLines_plain _ _ hplain, List.append_nil]
      show String.ofList line.toList.reverse.reverse ::
        asciiLines [] (lines.flatMap fun line => utf8 (line ++ "\n")) = _
      rw [List.reverse_reverse, String.ofList_toList]
      exact congrArg _ (ih fun l hl => h l (List.mem_cons_of_mem line hl))

end Library
