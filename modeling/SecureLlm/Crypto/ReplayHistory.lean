import Mathlib.Algebra.Group.Int.Defs
import Mathlib.Data.List.Induction
import SecureLlm.Crypto.Replay

/-!
# The Replay Window Over Its History

A window is an object that is called again and again, also with counters that it
refuses. What it holds after any number of calls is determined by the set of the
counters it has accepted: the watermark is the largest of them, and a bit says
whether the counter it stands for is one.

`Represents` says this of the bits that stand for counters. A bit that would
stand for a negative one is never set, because no bit is set above the
watermark.

## Main definitions

* `ReplayWindow.call`: The method, on the object.
* `ReplayWindow.History`: A window and what it has accepted.
* `ReplayWindow.History.calls`: After a sequence of calls.
* `ReplayWindow.History.Kept`: What the window knows of its history.

## Theorems

* `ReplayWindow.call_eq`: A call that raises has assigned nothing.
* `ReplayWindow.History.Kept.call`: A call keeps it.
* `replay_window_refines_history`: What a window holds and accepts.
-/

namespace SecureLlm

open Library

namespace ReplayWindow

/-- `check_and_advance` on the object: what it raises or returns, and what it has
    assigned by then. -/
def call (w : ReplayWindow) (counter : ℤ) : Except Exc Unit × ReplayWindow :=
  if counter < 0 then (.error (.replayDetected "negative counter"), w)
  else if w.high < counter.toNat then
    let shift := counter.toNat - w.high
    let w := { w with bitmap := shifted w.bitmap shift, fits := shift_fits w shift }
    let w := { w with high := counter.toNat }
    (.ok (), w)
  else
    let offset := w.high - counter.toNat
    if h : windowBits ≤ offset then (.error (.replayDetected "counter outside window"), w)
    else
      let mask := 1 <<< offset
      if w.bitmap &&& mask ≠ 0 then (.error (.replayDetected "duplicate counter"), w)
      else (.ok (), { w with bitmap := w.bitmap ||| mask, fits := mask_fits w offset h })

/-- A call that raises has assigned nothing. -/
theorem call_eq (w : ReplayWindow) (counter : ℤ) :
    w.call counter = match w.checkAndAdvance counter with
      | .ok w' => (.ok (), w')
      | .error e => (.error e, w) := by
  unfold call checkAndAdvance
  by_cases hneg : counter < 0
  · rw [if_pos hneg, if_pos hneg]
  · rw [if_neg hneg, if_neg hneg]
    by_cases hgt : w.high < counter.toNat
    · rw [if_pos hgt, if_pos hgt]
    · rw [if_neg hgt, if_neg hgt]
      by_cases hout : windowBits ≤ w.high - counter.toNat
      · simp only [dif_pos hout]
      · simp only [dif_neg hout]
        by_cases hdup : w.bitmap &&& 1 <<< (w.high - counter.toNat) ≠ 0
        · rw [if_pos hdup, if_pos hdup]
        · rw [if_neg hdup, if_neg hdup]

/-- No bit is set above the watermark. -/
theorem below_of_checkAndAdvance (w w' : ReplayWindow) (c : ℕ)
    (hbelow : ∀ i, w.bitmap.testBit i = true → i ≤ w.high) (h : w.checkAndAdvance c = .ok w') :
    ∀ i, w'.bitmap.testBit i = true → i ≤ w'.high := by
  intro i hi
  rcases checkAndAdvance_natCast w c with ⟨hgt, heq⟩ | ⟨hle, -, hfits, heq⟩ | ⟨-, -, e, herr⟩
  · rw [heq, Except.ok.injEq] at h
    subst h
    simp only at hi ⊢
    by_cases hfar : windowBits ≤ c - w.high
    · rw [shifted, if_pos hfar, Nat.testBit_one_eq_true_iff_self_eq_zero] at hi
      omega
    · have hin : i < windowBits := by
        by_contra hout
        have hfits := shifted_lt w.bitmap (c - w.high)
        rw [Nat.testBit_lt_two_pow (lt_of_lt_of_le hfits
          (Nat.pow_le_pow_right (by decide) (not_lt.mp hout)))] at hi
        cases hi
      rcases (testBit_shifted _ _ _ (not_le.mp hfar) hin).mp hi with hzero | ⟨hle, hbit⟩
      · omega
      · have := hbelow _ hbit
        omega
  · rw [heq, Except.ok.injEq] at h
    subst h
    simp only at hi ⊢
    rw [Nat.testBit_or, Bool.or_eq_true, Nat.one_shiftLeft, Nat.testBit_two_pow,
      decide_eq_true_eq] at hi
    rcases hi with hold | hnew
    · exact hbelow i hold
    · omega
  · rw [herr] at h
    cases h

/-- A negative counter is refused. -/
theorem checkAndAdvance_of_neg (w : ReplayWindow) {counter : ℤ} (h : counter < 0) :
    w.checkAndAdvance counter = .error (.replayDetected "negative counter") := by
  rw [checkAndAdvance, if_pos h]

/-- A window and the counters it has accepted, newest first. -/
structure History where
  window : ReplayWindow
  accepted : List ℤ

namespace History

/-- A fresh window. -/
def start : History := ⟨fresh, []⟩

/-- One call. -/
def call (h : History) (counter : ℤ) : History :=
  match h.window.call counter with
  | (.ok (), w) => ⟨w, counter :: h.accepted⟩
  | (.error _, w) => { h with window := w }

/-- A sequence of calls. -/
def calls (cs : List ℤ) : History := cs.foldl call start

/-- The largest accepted counter, or zero. -/
def highest (h : History) : ℤ := h.accepted.foldr max 0

/-- What the window knows of its history: it stands for the filter that has let
    through what was accepted, and no bit is set above the watermark. -/
structure Kept (h : History) (f : AntiReplay) : Prop where
  represents : h.window.Represents f
  seen : ∀ c : ℤ, c ∈ h.accepted ↔ ∃ n ∈ f.seen, (n : ℤ) = c
  high : h.highest = f.high
  below : ∀ i, h.window.bitmap.testBit i = true → i ≤ h.window.high

variable {h : History} {f : AntiReplay}

theorem kept_start : start.Kept (AntiReplay.startAt 0) where
  represents := represents_emptyAt 0
  seen c := ⟨nofun, fun ⟨_, hn, _⟩ => hn.elim⟩
  high := rfl
  below i hi := by
    have hzero : (start.window.bitmap).testBit i = false := Nat.zero_testBit i
    rw [hzero] at hi
    exact absurd hi nofun

/-- What a call does: the counter passes the check and is recorded, or nothing
    changes. -/
theorem call_cases (h : History) (c : ℤ) :
    (∃ n : ℕ, c = n ∧ ∃ w, h.window.checkAndAdvance n = .ok w ∧ h.window.call c = (.ok (), w) ∧
      h.call c = ⟨w, c :: h.accepted⟩) ∨
    (∃ e, h.window.checkAndAdvance c = .error e ∧ h.window.call c = (.error e, h.window) ∧
      h.call c = h) := by
  have hcall := h.window.call_eq c
  cases hcheck : h.window.checkAndAdvance c with
  | ok w =>
      rw [hcheck] at hcall
      have hpos : 0 ≤ c := by
        by_contra hneg
        rw [checkAndAdvance_of_neg _ (not_le.mp hneg)] at hcheck
        exact absurd hcheck nofun
      have hcast : c = (c.toNat : ℤ) := (Int.toNat_of_nonneg hpos).symm
      refine Or.inl ⟨c.toNat, hcast, w, hcast ▸ hcheck, hcall, ?_⟩
      rw [call, hcall]
  | error e =>
      rw [hcheck] at hcall
      refine Or.inr ⟨e, rfl, hcall, ?_⟩
      rw [call, hcall]

/-- A call keeps what the window knows. -/
theorem Kept.call (hkept : h.Kept f) (c : ℤ) : ∃ g, (h.call c).Kept g := by
  rcases call_cases h c with ⟨n, hn, w, hcheck, -, hcall⟩ | ⟨e, -, -, hcall⟩
  · refine ⟨f.accept n, ?_⟩
    rw [hcall]
    refine ⟨hkept.represents.checkAndAdvance _ w f n hcheck, fun d => ?_, ?_,
      below_of_checkAndAdvance _ w n hkept.below hcheck⟩
    · rw [List.mem_cons, hkept.seen d, hn]
      constructor
      · rintro (hd | ⟨m, hm, hmd⟩)
        · exact ⟨n, Set.mem_insert _ _, hd.symm⟩
        · exact ⟨m, Set.mem_insert_of_mem _ hm, hmd⟩
      · rintro ⟨m, hm, hmd⟩
        rcases hm with hm | hm
        · exact Or.inl (by rw [← hmd, hm])
        · exact Or.inr ⟨m, hm, hmd⟩
    · have hmax : max c h.highest = ((f.accept n).high : ℤ) := by
        rw [hkept.high, hn]
        have hacc : (f.accept n).high = max f.high n := rfl
        rw [hacc]
        omega
      exact hmax
  · exact ⟨f, by rw [hcall]; exact hkept⟩

/-- So does a sequence of calls. -/
theorem exists_kept (cs : List ℤ) : ∃ g, (calls cs).Kept g := by
  induction cs using List.reverseRecOn with
  | nil => exact ⟨_, kept_start⟩
  | append_singleton cs c ih =>
      rcases ih with ⟨g, hg⟩
      have hlast : calls (cs ++ [c]) = (calls cs).call c := by
        rw [calls, List.foldl_append, List.foldl_cons, List.foldl_nil]
        rfl
      rw [hlast]
      exact hg.call c

/-- Which counter is accepted next. -/
theorem Kept.accepts_iff (hkept : h.Kept f) (c : ℤ) :
    (h.window.call c).1 = .ok () ↔
      0 ≤ c ∧ (h.highest < c ∨ h.highest - c < windowBits ∧ c ∉ h.accepted) := by
  have hadmits : ∀ n : ℕ, f.Admits windowBits n ↔
      h.highest < n ∨ h.highest - n < windowBits ∧ (n : ℤ) ∉ h.accepted := by
    intro n
    have hmem : n ∈ f.seen ↔ (n : ℤ) ∈ h.accepted := by
      rw [hkept.seen]
      constructor
      · intro hn
        exact ⟨n, hn, rfl⟩
      · rintro ⟨m, hm, hmn⟩
        exact Int.ofNat.inj hmn ▸ hm
    rw [AntiReplay.Admits, hmem, hkept.high]
    refine or_congr (by omega) (and_congr_left fun _ => by omega)
  rcases call_cases h c with ⟨n, hn, w, hcheck, hcall, -⟩ | ⟨e, hcheck, hcall, -⟩
  · rw [hcall, hn, ← hadmits, ← hkept.represents.admits_iff, ← checkAndAdvance_natCast_ok_iff]
    exact iff_of_true rfl ⟨Int.natCast_nonneg n, w, hcheck⟩
  · rw [hcall]
    refine iff_of_false (by simp) ?_
    rintro ⟨hpos, hadm⟩
    have hcast : c = (c.toNat : ℤ) := (Int.toNat_of_nonneg hpos).symm
    rw [hcast, ← hadmits, ← hkept.represents.admits_iff, ← checkAndAdvance_natCast_ok_iff,
      ← hcast, hcheck] at hadm
    rcases hadm with ⟨w, hw⟩
    cases hw

/-- Which bits are set. -/
theorem Kept.testBit_iff (hkept : h.Kept f) (i : ℕ) (hi : i < windowBits) :
    h.window.bitmap.testBit i = true ↔ h.highest - i ∈ h.accepted := by
  have hhigh := hkept.represents.high
  rw [hkept.seen, hkept.high]
  by_cases hle : i ≤ h.window.high
  · have hbit := hkept.represents.bits (h.window.high - i) (Nat.sub_le _ _) (by omega)
    rw [Nat.sub_sub_self hle] at hbit
    rw [hbit]
    refine ⟨fun hseen => ⟨_, hseen, by omega⟩, ?_⟩
    rintro ⟨n, hn, heq⟩
    have hsame : h.window.high - i = n := by omega
    rw [hsame]
    exact hn
  · -- There is no counter that the bit could stand for.
    refine iff_of_false (fun hbit => hle (hkept.below i hbit)) ?_
    rintro ⟨n, -, heq⟩
    omega

end History

end ReplayWindow

open ReplayWindow

/-- **The window refines the set of accepted counters.** After any sequence of
    calls, it accepts what is above the largest of them, and below it what is
    close enough and not accepted yet; a call it refuses leaves it as it is; and
    its watermark and its bits are those of the set. -/
theorem replay_window_refines_history (cs : List ℤ) :
    (∀ c, (((History.calls cs).window.call c).1 = .ok () ↔
      0 ≤ c ∧ ((History.calls cs).highest < c ∨
        (History.calls cs).highest - c < windowBits ∧ c ∉ (History.calls cs).accepted)) ∧
      (((History.calls cs).window.call c).1 ≠ .ok () →
        ((History.calls cs).window.call c).2 = (History.calls cs).window)) ∧
    ((History.calls cs).window.high : ℤ) = (History.calls cs).highest ∧
    (History.calls cs).window.bitmap < 2 ^ windowBits ∧
    ∀ i < windowBits, ((History.calls cs).window.bitmap.testBit i = true ↔
      (History.calls cs).highest - i ∈ (History.calls cs).accepted) := by
  rcases History.exists_kept cs with ⟨f, hkept⟩
  refine ⟨fun c => ⟨hkept.accepts_iff c, fun hrefused => ?_⟩, ?_, (History.calls cs).window.fits,
    hkept.testBit_iff⟩
  · rcases History.call_cases (History.calls cs) c with ⟨n, -, w, -, hcall, -⟩ | ⟨e, -, hcall, -⟩
    · rw [hcall] at hrefused
      exact absurd rfl hrefused
    · rw [hcall]
  · rw [hkept.high, hkept.represents.high]

end SecureLlm
