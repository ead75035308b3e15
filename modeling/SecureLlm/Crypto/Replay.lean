import Mathlib.Data.Nat.Bitwise
import SecureLlm.Library.AntiReplay
import SecureLlm.Library.Exceptions
import SecureLlm.Protocol.Errors

/-!
# Sliding-Window Replay Protection

The replay window over the AEAD counter: a high watermark and a bitmap of the
1024 counters up to it. Bit `i` set means counter `high - i` was seen.

`Represents` connects a window to the filter it implements. The bitmap answers
for the counters inside the window only; a counter that was shifted out is too
far below the watermark to be let through, so forgetting it is harmless. A
window with an empty bitmap represents a filter that has seen nothing,
whatever its watermark.

## Main definitions

* `ReplayWindow`: The watermark and the bitmap.
* `ReplayWindow.checkAndAdvance`: Checking a counter and recording it.
* `ReplayWindow.admits`: The counters that pass the check.
* `ReplayWindow.acceptAll`: Checking and recording a sequence.
* `ReplayWindow.Represents`: The filter a window stands for.

## Theorems

* `ReplayWindow.checkAndAdvance_natCast_ok_iff`: A check passes exactly for the
  admitted counters.
* `ReplayWindow.Represents.admits_iff`: Window and filter admit the same
  counters.
* `ReplayWindow.Represents.checkAndAdvance`: A passed check is the filter's
  step.
* `ReplayWindow.high_of_checkAndAdvance`: Where the watermark moves to.
* `ReplayWindow.not_admits_of_checkAndAdvance`: No counter passes twice in a
  row.
* `ReplayWindow.admits_of_checkAndAdvance`: A refusal is never taken back.
-/

namespace SecureLlm

open Library

def windowBits : ℕ := 1024

/-- Anti-replay window: the counters up to `windowBits` behind the high
    watermark, as bits. -/
structure ReplayWindow where
  high : ℕ
  bitmap : ℕ
  fits : bitmap < 2 ^ windowBits
  deriving DecidableEq

namespace ReplayWindow

/-- The window of a new session. -/
def fresh : ReplayWindow := ⟨0, 0, Nat.two_pow_pos _⟩

/-- A window that stands at a watermark with no counter recorded. -/
def emptyAt (high : ℕ) : ReplayWindow := ⟨high, 0, Nat.two_pow_pos _⟩

/-- The bitmap after the watermark moves up by `shift`, the new one recorded. -/
def shifted (bitmap shift : ℕ) : ℕ :=
  if windowBits ≤ shift then 1
  else (bitmap <<< shift ||| 1) &&& (2 ^ windowBits - 1)

theorem shifted_lt (bitmap shift : ℕ) : shifted bitmap shift < 2 ^ windowBits := by
  by_cases h : windowBits ≤ shift
  · rw [shifted, if_pos h]
    exact Nat.one_lt_two_pow (by decide)
  · rw [shifted, if_neg h]
    exact Nat.and_lt_two_pow _ (Nat.sub_lt (Nat.two_pow_pos _) Nat.one_pos)

theorem shift_fits (w : ReplayWindow) (shift : ℕ) :
    shifted w.bitmap shift < 2 ^ windowBits := shifted_lt w.bitmap shift

theorem mask_fits (w : ReplayWindow) (offset : ℕ) (h : ¬ windowBits ≤ offset) :
    w.bitmap ||| 1 <<< offset < 2 ^ windowBits := by
  refine Nat.or_lt_two_pow w.fits ?_
  rw [Nat.one_shiftLeft]
  exact Nat.pow_lt_pow_right (by decide) (not_le.mp h)

/-- Check a counter and record it. -/
def checkAndAdvance (w : ReplayWindow) (counter : ℤ) : Except Exc ReplayWindow :=
  if counter < 0 then .error (.replayDetected "negative counter")
  else if w.high < counter.toNat then
    .ok ⟨counter.toNat, shifted w.bitmap (counter.toNat - w.high), shifted_lt _ _⟩
  else
    let offset := w.high - counter.toNat
    if h : windowBits ≤ offset then .error (.replayDetected "counter outside window")
    else
      let mask := 1 <<< offset
      if w.bitmap &&& mask ≠ 0 then .error (.replayDetected "duplicate counter")
      else .ok ⟨w.high, w.bitmap ||| mask, mask_fits w offset h⟩

/-- The counters that pass the check. -/
def admits (w : ReplayWindow) (c : ℕ) : Bool :=
  w.high < c || (w.high < c + windowBits && !w.bitmap.testBit (w.high - c))

theorem and_mask_ne_zero (b i : ℕ) : b &&& 1 <<< i ≠ 0 ↔ b.testBit i = true := by
  rw [Nat.one_shiftLeft, Nat.and_two_pow]
  cases b.testBit i with
  | false => simp only [Bool.toNat_false, Nat.zero_mul, ne_eq, not_true_eq_false,
      Bool.false_eq_true]
  | true =>
      have hpos := Nat.two_pow_pos i
      simp only [Bool.toNat_true, Nat.one_mul, ne_eq, iff_true]
      omega

/-- The three ways a check can pass or fail on a counter that is not
    negative. -/
theorem checkAndAdvance_natCast (w : ReplayWindow) (c : ℕ) :
    (w.high < c ∧ w.checkAndAdvance c
        = .ok ⟨c, shifted w.bitmap (c - w.high), shifted_lt _ _⟩) ∨
    (c ≤ w.high ∧ w.admits c = true ∧ ∃ h, w.checkAndAdvance c
        = .ok ⟨w.high, w.bitmap ||| 1 <<< (w.high - c), h⟩) ∨
    (c ≤ w.high ∧ w.admits c = false ∧ ∃ e, w.checkAndAdvance c = .error e) := by
  have hneg : ¬ (c : ℤ) < 0 := by omega
  by_cases hgt : w.high < c
  · refine Or.inl ⟨hgt, ?_⟩
    simp only [checkAndAdvance, if_neg hneg, Int.toNat_natCast, if_pos hgt]
  · refine Or.inr ?_
    by_cases hout : windowBits ≤ w.high - c
    · have hfar : ¬ w.high < c + windowBits := by omega
      refine Or.inr ⟨by omega, ?_, .replayDetected "counter outside window", ?_⟩
      · simp only [admits, hgt, hfar, decide_false, Bool.false_and, Bool.or_self]
      · simp only [checkAndAdvance, if_neg hneg, Int.toNat_natCast, if_neg hgt, dif_pos hout]
    · have hnear : w.high < c + windowBits := by omega
      by_cases hbit : w.bitmap.testBit (w.high - c) = true
      · refine Or.inr ⟨by omega, ?_, .replayDetected "duplicate counter", ?_⟩
        · simp only [admits, hgt, hnear, hbit, decide_false, decide_true, Bool.not_true,
            Bool.and_false, Bool.or_self]
        · simp only [checkAndAdvance, if_neg hneg, Int.toNat_natCast, if_neg hgt, dif_neg hout,
            if_pos ((and_mask_ne_zero _ _).mpr hbit)]
      · refine Or.inl ⟨by omega, ?_, mask_fits w _ hout, ?_⟩
        · simp only [admits, hnear, Bool.not_eq_true _ ▸ hbit, decide_true, Bool.not_false,
            Bool.and_true, Bool.or_true]
        · simp only [checkAndAdvance, if_neg hneg, Int.toNat_natCast, if_neg hgt, dif_neg hout,
            if_neg (mt (and_mask_ne_zero _ _).mp hbit)]

theorem admits_of_lt (w : ReplayWindow) (c : ℕ) (h : w.high < c) : w.admits c = true := by
  simp only [admits, h, decide_true, Bool.true_or]

theorem checkAndAdvance_natCast_ok_iff (w : ReplayWindow) (c : ℕ) :
    (∃ w', w.checkAndAdvance c = .ok w') ↔ w.admits c = true := by
  rcases checkAndAdvance_natCast w c with ⟨hgt, hok⟩ | ⟨-, hadm, _, hok⟩ | ⟨-, hadm, e, herr⟩
  · exact ⟨fun _ => admits_of_lt w c hgt, fun _ => ⟨_, hok⟩⟩
  · exact ⟨fun _ => hadm, fun _ => ⟨_, hok⟩⟩
  · rw [herr, hadm]
    exact ⟨fun ⟨_, h⟩ => absurd h nofun, fun h => absurd h nofun⟩

theorem checkAndAdvance_neg (w : ReplayWindow) (counter : ℤ) (h : counter < 0) :
    w.checkAndAdvance counter = .error (.replayDetected "negative counter") := by
  rw [checkAndAdvance, if_pos h]

/-- The watermark only rises, to the counter checked if that is higher. -/
theorem high_of_checkAndAdvance (w w' : ReplayWindow) (c : ℕ)
    (h : w.checkAndAdvance c = .ok w') : w'.high = max w.high c := by
  rcases checkAndAdvance_natCast w c with ⟨hgt, hok⟩ | ⟨hle, -, _, hok⟩ | ⟨-, -, e, herr⟩
  · rw [hok, Except.ok.injEq] at h
    rw [← h, max_eq_right hgt.le]
  · rw [hok, Except.ok.injEq] at h
    rw [← h, max_eq_left hle]
  · rw [herr] at h
    exact absurd h nofun

/-- A window that has recorded nothing refuses only what is too far below its
    watermark. -/
theorem admits_emptyAt (high c : ℕ) : (emptyAt high).admits c = true ↔ high < c + windowBits := by
  have hbit : (emptyAt high).bitmap.testBit ((emptyAt high).high - c) = false := Nat.zero_testBit _
  simp only [admits, Bool.or_eq_true, Bool.and_eq_true, decide_eq_true_eq, Bool.not_eq_true', hbit,
    and_true]
  exact ⟨fun h => h.elim (fun h => Nat.lt_add_right _ h) (fun h => h), Or.inr⟩

/-- A sequence of counters that were checked and recorded, one after the other. -/
def acceptAll (w : ReplayWindow) (cs : List ℕ) : Except Exc ReplayWindow :=
  cs.foldlM (fun w (c : ℕ) => w.checkAndAdvance c) w

/-- The watermark is at or above every counter of an accepted sequence. -/
theorem le_high_of_acceptAll (w w' : ReplayWindow) (cs : List ℕ) (h : w.acceptAll cs = .ok w') :
    w.high ≤ w'.high ∧ ∀ c ∈ cs, c ≤ w'.high := by
  induction cs generalizing w with
  | nil =>
      rw [acceptAll, List.foldlM_nil] at h
      rw [← Except.ok.inj h]
      exact ⟨le_refl _, fun c hc => absurd hc List.not_mem_nil⟩
  | cons c cs ih =>
      rw [acceptAll, List.foldlM_cons, bind_ok_iff] at h
      obtain ⟨u, hu, hrest⟩ := h
      obtain ⟨hle, hall⟩ := ih u hrest
      rw [high_of_checkAndAdvance w u c hu] at hle
      refine ⟨(le_max_left _ _).trans hle, fun d hd => ?_⟩
      rcases List.mem_cons.mp hd with rfl | hd
      · exact (le_max_right _ _).trans hle
      · exact hall d hd

/-- A window stands for a filter when the watermarks agree and each bit says
    whether its counter was seen. -/
structure Represents (w : ReplayWindow) (f : AntiReplay) : Prop where
  high : w.high = f.high
  bits : ∀ c ≤ w.high, w.high < c + windowBits →
    (w.bitmap.testBit (w.high - c) = true ↔ c ∈ f.seen)

/-- An empty bitmap has seen nothing, wherever the watermark stands. -/
theorem represents_emptyAt (high : ℕ) : (emptyAt high).Represents (AntiReplay.startAt high) := by
  refine ⟨rfl, fun c _ _ => ?_⟩
  simp only [emptyAt, Nat.zero_testBit, Bool.false_eq_true, AntiReplay.startAt,
    Set.mem_empty_iff_false]

theorem Represents.admits_iff (w : ReplayWindow) (f : AntiReplay) (h : w.Represents f) (c : ℕ) :
    w.admits c = true ↔ f.Admits windowBits c := by
  simp only [admits, AntiReplay.Admits, ← h.high, Bool.or_eq_true, decide_eq_true_eq,
    Bool.and_eq_true, Bool.not_eq_true']
  by_cases hgt : w.high < c
  · simp only [hgt, true_or]
  · simp only [hgt, false_or]
    refine and_congr_right (fun hnear => ?_)
    rw [← h.bits c (by omega) hnear, Bool.not_eq_true]

/-- The bits of a bitmap moved up by a shift inside the window. -/
theorem testBit_shifted (b shift i : ℕ) (hshift : shift < windowBits) (hi : i < windowBits) :
    (shifted b shift).testBit i = true ↔ i = 0 ∨ shift ≤ i ∧ b.testBit (i - shift) = true := by
  rw [shifted, if_neg (not_le.mpr hshift), Nat.testBit_and, Nat.testBit_two_pow_sub_one,
    Nat.testBit_or, Nat.testBit_shiftLeft, decide_eq_true hi, Bool.and_true, Bool.or_eq_true,
    Nat.testBit_one_eq_true_iff_self_eq_zero, Bool.and_eq_true, decide_eq_true_eq]
  tauto

/-- Recording a counter in the window is the filter's step. -/
theorem Represents.checkAndAdvance (w w' : ReplayWindow) (f : AntiReplay) (c : ℕ)
    (h : w.Represents f) (hok : w.checkAndAdvance c = .ok w') : w'.Represents (f.accept c) := by
  refine ⟨by rw [high_of_checkAndAdvance w w' c hok, h.high]; rfl, ?_⟩
  intro d hd hnear
  have hmem : d ∈ (f.accept c).seen ↔ d = c ∨ d ∈ f.seen := Set.mem_insert_iff
  rw [hmem]
  rcases checkAndAdvance_natCast w c with ⟨hgt, heq⟩ | ⟨hle, -, hfits, heq⟩ | ⟨-, -, e, herr⟩
  · rw [heq, Except.ok.injEq] at hok
    subst hok
    simp only at hd hnear ⊢
    by_cases hfar : windowBits ≤ c - w.high
    · -- Everything recorded before is too far below the new watermark.
      have hunseen : d ∉ f.seen ∨ d = c := by
        by_contra hc
        have hle := f.seen_le d (by tauto)
        rw [← h.high] at hle
        omega
      rw [shifted, if_pos hfar, Nat.testBit_one_eq_true_iff_self_eq_zero]
      constructor
      · intro hz
        exact Or.inl (by omega)
      · rintro (rfl | hseen)
        · omega
        · rcases hunseen with hno | rfl
          · exact absurd hseen hno
          · omega
    · rw [testBit_shifted _ _ _ (by omega) (by omega)]
      by_cases hdw : d ≤ w.high
      · rw [← h.bits d hdw (by omega), show c - d - (c - w.high) = w.high - d by omega]
        constructor
        · rintro (hz | ⟨-, hbit⟩)
          · exact Or.inl (by omega)
          · exact Or.inr hbit
        · rintro (rfl | hbit)
          · omega
          · exact Or.inr ⟨by omega, hbit⟩
      · -- Between the watermarks nothing but the counter itself is seen.
        have hno : d ∉ f.seen := fun hc => hdw (h.high ▸ f.seen_le d hc)
        constructor
        · rintro (hz | ⟨hs, -⟩)
          · exact Or.inl (by omega)
          · omega
        · rintro (rfl | hseen)
          · exact Or.inl (by omega)
          · exact absurd hseen hno
  · rw [heq, Except.ok.injEq] at hok
    subst hok
    simp only at hd hnear ⊢
    rw [Nat.testBit_or, Bool.or_eq_true, h.bits d hd hnear, Nat.one_shiftLeft,
      Nat.testBit_two_pow, decide_eq_true_eq]
    constructor
    · rintro (hseen | hbit)
      · exact Or.inr hseen
      · exact Or.inl (by omega)
    · rintro (rfl | hseen)
      · exact Or.inr rfl
      · exact Or.inl hseen
  · rw [herr] at hok
    exact absurd hok nofun

/-- Every window stands for some filter: the one that has seen what its bits
    say. -/
theorem exists_represents (w : ReplayWindow) : ∃ f, w.Represents f :=
  ⟨⟨w.high, {c | c ≤ w.high ∧ w.bitmap.testBit (w.high - c) = true}, fun _ h => h.1⟩, rfl,
    fun _ hc _ => ⟨fun h => ⟨hc, h⟩, fun h => h.2⟩⟩

/-- A counter that has just passed the check does not pass again. -/
theorem not_admits_of_checkAndAdvance (w w' : ReplayWindow) (c : ℕ)
    (h : w.checkAndAdvance c = .ok w') : w'.admits c = false := by
  obtain ⟨f, hf⟩ := exists_represents w
  rw [← Bool.not_eq_true, (hf.checkAndAdvance w w' f c h).admits_iff]
  exact AntiReplay.not_admits_accept windowBits f c

/-- A counter that was refused before a check is refused after it. -/
theorem admits_of_checkAndAdvance (w w' : ReplayWindow) (c d : ℕ)
    (h : w.checkAndAdvance c = .ok w') (hd : w'.admits d = true) : w.admits d = true := by
  obtain ⟨f, hf⟩ := exists_represents w
  rw [(hf.checkAndAdvance w w' f c h).admits_iff] at hd
  rw [hf.admits_iff]
  exact AntiReplay.admits_of_admits_accept windowBits f c d hd

end ReplayWindow

end SecureLlm
