import Libdebug.State
import Mathlib.Data.BitVec

/-!
# The x86_64 debug registers

`install_hardware_breakpoint`, `remove_hardware_breakpoint`, `is_breakpoint_hit` and
`get_remaining_hw_breakpoint_count` of the x86_64 build.  They reach DR0..DR3, DR6 and DR7
through `PTRACE_PEEKUSER`/`PTRACE_POKEUSER` at `DR_BASE + i * DR_SIZE` in a thread's user area,
modelled as a map from offsets to 64-bit words.

The control word is computed in `int`: `CTRL_LOCAL`, the shifted `CTRL_COND_VAL` and
`CTRL_LEN_VAL`, and the masks `~(3 << ...)` are 32-bit values, converted to `unsigned long` by
sign extension when they meet DR7.  `toUlong` is that conversion, and shifts wrap as two's
complement does.  For slots 0..2 this changes nothing; for slot 3 the length mask clears bits
30..63 and a length code of 2 or 3 sets bits 32..63.  `clearSlot_getLsbD` and
`installDr7_getLsbD` state the effect on each of the 64 bits, and `install_writes_dr7` reads the
second back from the DR7 that `install_hardware_breakpoint` writes: slot 3 with a length of 8,
or any length but 1 and 2, sets the upper half of DR7 (`install_last_slot_sets_high_bits`).
-/

namespace Libdebug

/-- `DR_BASE`, the offset of `u_debugreg` in the user area, and `DR_SIZE`. -/
def drBase : Nat := 0x350
def drSize : Nat := 0x8

/-- The user-area offset of debug register `i`. -/
def drOffset (i : Nat) : Nat := drBase + i * drSize

theorem drOffset_inj {i j : Nat} (h : drOffset i = drOffset j) : i = j := by
  simp only [drOffset, drBase, drSize] at h; omega

/-- `CTRL_LOCAL(x)`. -/
def ctrlLocal (x : Nat) : BitVec 32 := 1#32 <<< (2 * x)

/-- `CTRL_COND(x)`, the position of slot `x`'s condition field `RW_x`. -/
def ctrlCond (x : Nat) : Nat := 16 + 4 * x

/-- `CTRL_COND_VAL(x)`: execute, write, or read-write for anything else. -/
def ctrlCondVal (x : Char) : BitVec 32 := if x = 'x' then 0 else if x = 'w' then 1 else 3

/-- `CTRL_LEN(x)`, the position of slot `x`'s length field `LEN_x`. -/
def ctrlLen (x : Nat) : Nat := 18 + 4 * x

/-- `CTRL_LEN_VAL(x)`. -/
def ctrlLenVal (x : Nat) : BitVec 32 :=
  if x = 1 then 0 else if x = 2 then 1 else if x = 8 then 2 else 3

/-- An `int` converted to `unsigned long`. -/
def toUlong (x : BitVec 32) : BitVec 64 := x.signExtend 64

/-- The control bits `install_hardware_breakpoint` ORs into DR7 for slot `i`. -/
def ctrlWord (i : Nat) (bp : HardwareBreakpoint) : BitVec 64 :=
  toUlong (ctrlLocal i ||| ctrlCondVal bp.type.1 <<< ctrlCond i ||| ctrlLenVal bp.len <<< ctrlLen i)

/-- DR7 with slot `i`'s condition and length fields reset, as both functions do it. -/
def clearSlot (i : Nat) (state : BitVec 64) : BitVec 64 :=
  state &&& toUlong (~~~(3#32 <<< ctrlCond i)) &&& toUlong (~~~(3#32 <<< ctrlLen i))

/-- The DR7 value `install_hardware_breakpoint` writes for slot `i`: the old value with the
slot's fields reset, OR the control bits. -/
def installDr7 (i : Nat) (d : BitVec 64) (bp : HardwareBreakpoint) : BitVec 64 :=
  clearSlot i d ||| ctrlWord i bp

/-- The slot loops of `install_hardware_breakpoint`, `remove_hardware_breakpoint` and
`get_remaining_hw_breakpoint_count` from slot `i` on, `n` slots left: the first slot whose
register passes the test, or where the loop runs out. -/
def scanFrom (test : BitVec 64 → Bool) (area : Nat → BitVec 64) (i : Nat) : Nat → Nat
  | 0 => i
  | n + 1 => if test (area (drOffset i)) then i else scanFrom test area (i + 1) n

/-- The loop over DR0..DR3: the first slot that passes, or 4. -/
def scanSlots (test : BitVec 64 → Bool) (area : Nat → BitVec 64) : Nat := scanFrom test area 0 4

/-- The test of the slot loops of `install_hardware_breakpoint` and
`get_remaining_hw_breakpoint_count`: a slot whose register is zero is free. -/
def slotFree (address : BitVec 64) : Bool := address == 0

/-- `install_hardware_breakpoint`: program the first zero slot with the address and its
control bits; with no zero slot nothing changes ("No debug registers available"). -/
def installHardwareBreakpoint (area : Nat → BitVec 64) (bp : HardwareBreakpoint) :
    Nat → BitVec 64 :=
  let i := scanSlots slotFree area
  if i = 4 then area
  else
    Function.update (Function.update area (drOffset i) bp.addr) (drOffset 7)
      (installDr7 i (area (drOffset 7)) bp)

/-- `remove_hardware_breakpoint`: reset the fields of the first slot holding the address and
zero it; without such a slot nothing changes ("Breakpoint not found"). -/
def removeHardwareBreakpoint (area : Nat → BitVec 64) (bp : HardwareBreakpoint) :
    Nat → BitVec 64 :=
  let i := scanSlots (· == bp.addr) area
  if i = 4 then area
  else Function.update (Function.update area (drOffset 7) (clearSlot i (area (drOffset 7))))
    (drOffset i) 0

/-- `is_breakpoint_hit`: the lowest of DR6's bits 0..3 names a slot, which must hold the
breakpoint's address. -/
def isBreakpointHit (area : Nat → BitVec 64) (bp : HardwareBreakpoint) : Bool :=
  match (List.range 4).find? fun i => (area (drOffset 6)).getLsbD i with
  | none => false
  | some index => area (drOffset index) == bp.addr

/-- `get_remaining_hw_breakpoint_count`: four minus the index of the first zero slot. -/
def getRemainingHwBreakpointCount (area : Nat → BitVec 64) : Nat := 4 - scanSlots slotFree area

/-- `get_remaining_hw_watchpoint_count` answers with the breakpoint count. -/
def getRemainingHwWatchpointCount (area : Nat → BitVec 64) : Nat :=
  getRemainingHwBreakpointCount area

/-! ## The slot scan -/

section Scan

variable {test : BitVec 64 → Bool} {area : Nat → BitVec 64}

theorem scanFrom_spec : ∀ (n i : Nat),
    i ≤ scanFrom test area i n ∧ scanFrom test area i n ≤ i + n ∧
      (∀ j, i ≤ j → j < scanFrom test area i n → test (area (drOffset j)) = false) ∧
      (scanFrom test area i n < i + n → test (area (drOffset (scanFrom test area i n))) = true)
  | 0, i => ⟨le_rfl, by simp [scanFrom], fun j h₁ h₂ => by simp [scanFrom] at h₂; omega,
      fun h => by simp [scanFrom] at h⟩
  | n + 1, i => by
    by_cases h : test (area (drOffset i)) = true
    · simp only [scanFrom, h, if_true]
      exact ⟨le_rfl, by omega, fun j h₁ h₂ => by omega, fun _ => trivial⟩
    · simp only [scanFrom, h, if_false, Bool.false_eq_true]
      obtain ⟨h₁, h₂, h₃, h₄⟩ := scanFrom_spec n (i + 1)
      refine ⟨by omega, by omega, fun j hj₁ hj₂ => ?_, fun hlt => h₄ (by omega)⟩
      rcases Nat.eq_or_lt_of_le hj₁ with rfl | hj₁
      · simpa using h
      · exact h₃ j hj₁ hj₂

theorem scanSlots_le : scanSlots test area ≤ 4 := by
  simpa using (@scanFrom_spec test area 4 0).2.1

/-- A scan that stops below 4 stops at a slot that passes. -/
theorem scanSlots_pass (h : scanSlots test area < 4) :
    test (area (drOffset (scanSlots test area))) = true :=
  (scanFrom_spec 4 0).2.2.2 (by simpa [scanSlots] using h)

/-- Every slot before the one the scan stops at fails. -/
theorem scanSlots_fail {j : Nat} (h : j < scanSlots test area) : test (area (drOffset j)) = false :=
  (scanFrom_spec 4 0).2.2.1 j (Nat.zero_le j) h

/-- The scan stops at the first slot that passes. -/
theorem scanSlots_eq {i : Nat} (hi : i < 4) (hpass : test (area (drOffset i)) = true)
    (hbefore : ∀ j < i, test (area (drOffset j)) = false) : scanSlots test area = i := by
  rcases lt_trichotomy (scanSlots test area) i with h | h | h
  · have := hbefore _ h
    rw [@scanSlots_pass test area (by omega)] at this
    exact absurd this (by simp)
  · exact h
  · rw [scanSlots_fail h] at hpass
    exact absurd hpass (by simp)

end Scan

/-! ## DR7 bit by bit -/

section Bits

theorem getLsbD_ofNat_two_pow_sub_one (m k : Nat) :
    (BitVec.ofNat 32 (2 ^ m - 1)).getLsbD k = (decide (k < 32) && decide (k < m)) := by
  simp [BitVec.getLsbD_ofNat]

/-- A value below four has no bit above bit 1. -/
theorem getLsbD_of_lt_four {v : BitVec 32} (hv : v.toNat < 4) {k : Nat} (hk : 2 ≤ k) :
    v.getLsbD k = false := by
  rw [BitVec.getLsbD, Nat.testBit_lt_two_pow]
  calc v.toNat < 4 := hv
    _ = 2 ^ 2 := rfl
    _ ≤ 2 ^ k := Nat.pow_le_pow_right (by omega) hk

theorem ctrlCondVal_lt (c : Char) : (ctrlCondVal c).toNat < 4 := by
  unfold ctrlCondVal; split_ifs <;> decide

theorem ctrlLenVal_lt (n : Nat) : (ctrlLenVal n).toNat < 4 := by
  unfold ctrlLenVal; split_ifs <;> decide

theorem shiftLeft_getLsbD_of_lt_four {v : BitVec 32} (hv : v.toNat < 4) (s n : Nat) :
    (v <<< s).getLsbD n =
      (decide (n < 32) && decide (s ≤ n) && decide (n < s + 2) && v.getLsbD (n - s)) := by
  rw [BitVec.getLsbD_shiftLeft]
  by_cases h3 : n < s + 2
  · have h2 : (!decide (n < s)) = decide (s ≤ n) := by
      rw [← decide_not]; exact decide_eq_decide.2 Nat.not_lt
    simp only [h2, h3, decide_True, Bool.and_true]
  · rw [getLsbD_of_lt_four hv (by omega)]; simp

theorem ctrlLocal_getLsbD {i : Nat} (hi : i < 4) (n : Nat) :
    (ctrlLocal i).getLsbD n = decide (n = 2 * i) := by
  simp only [ctrlLocal, BitVec.getLsbD_shiftLeft]
  rw [show (1#32) = BitVec.ofNat 32 (2 ^ 1 - 1) from rfl, getLsbD_ofNat_two_pow_sub_one,
    Bool.eq_iff_iff]
  simp only [Bool.and_eq_true, Bool.not_eq_true', decide_eq_true_eq, decide_eq_false_iff_not]
  omega

/-- The reset masks keep every bit outside the two they clear; a mask whose shifted `3` reaches
bit 31 is a positive `int`, so it clears bits 32..63 as well. -/
theorem mask_getLsbD {s n : Nat} (hs : s ≤ 30) (hn : n < 64) :
    (toUlong (~~~(3#32 <<< s))).getLsbD n =
      (!(decide (s ≤ n) && decide (n < s + 2)) && (decide (n < 32) || decide (s < 30))) := by
  have h3 := getLsbD_ofNat_two_pow_sub_one 2 (n - s)
  have h31 := getLsbD_ofNat_two_pow_sub_one 2 (31 - s)
  rw [show (3#32) = BitVec.ofNat 32 (2 ^ 2 - 1) from rfl]
  simp only [toUlong, BitVec.getLsbD_signExtend, BitVec.msb_eq_getLsbD_last,
    BitVec.getLsbD_not, BitVec.getLsbD_shiftLeft, h3, h31]
  rw [Bool.eq_iff_iff]
  simp only [Bool.and_eq_true, Bool.or_eq_true, Bool.not_eq_true', Bool.and_eq_false_iff,
    decide_eq_true_eq, decide_eq_false_iff_not]
  split_ifs <;> simp <;> omega

/-- The bits of DR7 that belong to slot `i`: its local-enable bit `L_i` and its condition and
length fields `RW_i`, `LEN_i`. -/
def SlotBit (i n : Nat) : Prop := n = 2 * i ∨ (ctrlCond i ≤ n ∧ n < ctrlCond i + 4)

theorem ctrlLen_eq (i : Nat) : ctrlLen i = ctrlCond i + 2 := by simp only [ctrlLen, ctrlCond]; omega

/-- Resetting slot `i` clears its fields and keeps every other bit below 32; for slot 3 it
clears bits 32..63 too. -/
theorem clearSlot_getLsbD {i n : Nat} (hi : i < 4) (hn : n < 64) (d : BitVec 64) :
    (clearSlot i d).getLsbD n =
      (d.getLsbD n && !(decide (ctrlCond i ≤ n) && decide (n < ctrlCond i + 4)) &&
        (decide (n < 32) || decide (i < 3))) := by
  have hc : ctrlCond i ≤ 30 := by simp only [ctrlCond]; omega
  have hl : ctrlLen i ≤ 30 := by simp only [ctrlLen]; omega
  simp only [clearSlot, BitVec.getLsbD_and, mask_getLsbD hc hn, mask_getLsbD hl hn]
  cases d.getLsbD n <;> simp only [Bool.false_and, Bool.true_and, Bool.and_assoc]
  rw [Bool.eq_iff_iff]
  simp only [Bool.and_eq_true, Bool.or_eq_true, Bool.not_eq_true', Bool.and_eq_false_iff,
    decide_eq_true_eq, decide_eq_false_iff_not, ctrlCond, ctrlLen]
  omega

theorem ctrlWord_getLsbD {i n : Nat} (hi : i < 4) (hn : n < 32) (bp : HardwareBreakpoint) :
    (ctrlWord i bp).getLsbD n =
      (decide (n = 2 * i) ||
        (decide (ctrlCond i ≤ n) && decide (n < ctrlCond i + 2) &&
          (ctrlCondVal bp.type.1).getLsbD (n - ctrlCond i)) ||
        (decide (ctrlLen i ≤ n) && decide (n < ctrlLen i + 2) &&
          (ctrlLenVal bp.len).getLsbD (n - ctrlLen i))) := by
  simp only [ctrlWord, toUlong, BitVec.getLsbD_signExtend, BitVec.getLsbD_or,
    ctrlLocal_getLsbD hi, shiftLeft_getLsbD_of_lt_four (ctrlCondVal_lt _),
    shiftLeft_getLsbD_of_lt_four (ctrlLenVal_lt _), hn, decide_True, Bool.true_and, if_true,
    show n < 64 by omega]

/-- Below slot 3 the control word is a positive `int`, with nothing above bit 31. -/
theorem ctrlWord_getLsbD_high {i n : Nat} (hi : i < 3) (hn : 32 ≤ n) (hn' : n < 64)
    (bp : HardwareBreakpoint) : (ctrlWord i bp).getLsbD n = false := by
  -- bit 31, the sign of the `int`, lies above every field of slot `i`
  have h₁ : decide (32 - 1 = 2 * i) = false := decide_eq_false (by omega)
  have h₂ : decide (32 - 1 < ctrlCond i + 2) = false :=
    decide_eq_false (by simp only [ctrlCond]; omega)
  have h₃ : decide (32 - 1 < ctrlLen i + 2) = false :=
    decide_eq_false (by simp only [ctrlLen]; omega)
  simp only [ctrlWord, toUlong, BitVec.getLsbD_signExtend, BitVec.msb_eq_getLsbD_last,
    BitVec.getLsbD_or, ctrlLocal_getLsbD (by omega : i < 4),
    shiftLeft_getLsbD_of_lt_four (ctrlCondVal_lt _), shiftLeft_getLsbD_of_lt_four (ctrlLenVal_lt _),
    show ¬n < 32 by omega, if_false, hn', decide_True, Bool.true_and, h₁, h₂, h₃, Bool.and_false,
    Bool.false_and, Bool.or_false, Bool.false_or]

/-- Installing in slot `i` keeps every bit below 32 that is not slot `i`'s. -/
theorem installDr7_getLsbD_of_not_slotBit {i n : Nat} (hi : i < 4) (hn : n < 32)
    (h : ¬SlotBit i n) (d : BitVec 64) (bp : HardwareBreakpoint) :
    (installDr7 i d bp).getLsbD n = d.getLsbD n := by
  simp only [SlotBit, not_or, not_and, not_lt] at h
  simp only [installDr7, BitVec.getLsbD_or, clearSlot_getLsbD hi (by omega : n < 64),
    ctrlWord_getLsbD hi hn, ctrlLen_eq]
  have h₁ : decide (n = 2 * i) = false := by simpa using h.1
  by_cases h2 : ctrlCond i ≤ n
  · have := h.2 h2
    simp [h₁, h2, hn, show ¬ n < ctrlCond i + 4 by omega, show ¬ n < ctrlCond i + 2 by omega]
  · simp [h₁, h2, hn, show ¬ ctrlCond i + 2 ≤ n by omega]

theorem clearSlot_getLsbD_of_not_slotBit {i n : Nat} (hi : i < 4) (hn : n < 32)
    (h : ¬SlotBit i n) (d : BitVec 64) : (clearSlot i d).getLsbD n = d.getLsbD n := by
  simp only [SlotBit, not_or, not_and, not_lt] at h
  simp only [clearSlot_getLsbD hi (by omega : n < 64)]
  by_cases h2 : ctrlCond i ≤ n
  · simp [h2, hn, show ¬ n < ctrlCond i + 4 by have := h.2 h2; omega]
  · simp [h2, hn]

/-- Resetting slot `i` leaves its condition and length fields zero. -/
theorem clearSlot_getLsbD_of_field {i n : Nat} (hi : i < 4) (h₁ : ctrlCond i ≤ n)
    (h₂ : n < ctrlCond i + 4) (d : BitVec 64) : (clearSlot i d).getLsbD n = false := by
  have : n < 64 := by simp only [ctrlCond] at h₂; omega
  simp [clearSlot_getLsbD hi this, h₁, h₂]

/-- DR7 enables slot `i` locally and its fields hold the codes of the breakpoint's type and
length. -/
def Programs (dr7 : BitVec 64) (i : Nat) (bp : HardwareBreakpoint) : Prop :=
  dr7.getLsbD (2 * i) = true ∧
    ∀ k < 2, dr7.getLsbD (ctrlCond i + k) = (ctrlCondVal bp.type.1).getLsbD k ∧
      dr7.getLsbD (ctrlLen i + k) = (ctrlLenVal bp.len).getLsbD k

theorem programs_installDr7 {i : Nat} (hi : i < 4) (d : BitVec 64) (bp : HardwareBreakpoint) :
    Programs (installDr7 i d bp) i bp := by
  have hc : 2 * i + 2 ≤ ctrlCond i ∧ ctrlCond i + 4 ≤ 32 := by simp only [ctrlCond]; omega
  have hfield : ∀ n, ctrlCond i ≤ n → n < ctrlCond i + 4 →
      (installDr7 i d bp).getLsbD n = (ctrlWord i bp).getLsbD n := fun n h₁ h₂ => by
    rw [installDr7, BitVec.getLsbD_or, clearSlot_getLsbD_of_field hi h₁ h₂, Bool.false_or]
  refine ⟨?_, fun k hk => ⟨?_, ?_⟩⟩
  · simp only [installDr7, BitVec.getLsbD_or, ctrlWord_getLsbD hi (by omega : 2 * i < 32),
      decide_True, Bool.true_or, Bool.or_true]
  · rw [hfield _ (by omega) (by omega), ctrlWord_getLsbD hi (by omega), ctrlLen_eq,
      decide_eq_false (by omega), decide_eq_true (by omega), decide_eq_true (by omega),
      decide_eq_false (by omega), Nat.add_sub_cancel_left]
    simp only [Bool.false_or, Bool.true_and, Bool.false_and, Bool.or_false]
  · rw [ctrlLen_eq, hfield _ (by omega) (by omega), ctrlWord_getLsbD hi (by omega), ctrlLen_eq,
      decide_eq_false (by omega), decide_eq_true (by omega), decide_eq_false (by omega),
      decide_eq_true (by omega), decide_eq_true (by omega), Nat.add_sub_cancel_left]
    simp only [Bool.false_or, Bool.true_and, Bool.false_and]

/-- Whether DR7 programs slot `j` depends on slot `j`'s bits alone. -/
theorem programs_congr {d d' : BitVec 64} {j : Nat}
    (h : ∀ n, SlotBit j n → d'.getLsbD n = d.getLsbD n) (bp : HardwareBreakpoint) :
    Programs d' j bp ↔ Programs d j bp := by
  have hc : ∀ k < 2, SlotBit j (ctrlCond j + k) := fun k hk => .inr ⟨by omega, by omega⟩
  have hl : ∀ k < 2, SlotBit j (ctrlLen j + k) := fun k hk => .inr ⟨by rw [ctrlLen_eq]; omega, by rw [ctrlLen_eq]; omega⟩
  unfold Programs
  rw [h _ (.inl rfl)]
  exact and_congr_right fun _ => forall₂_congr fun k hk => by rw [h _ (hc k hk), h _ (hl k hk)]


/-- Installing and then removing in slot `i` restores every bit of DR7 outside slot `i`'s and,
for slot 3, outside bits 32..63. -/
theorem clearSlot_installDr7_getLsbD {i n : Nat} (hi : i < 4) (hn : n < 64) (h : ¬SlotBit i n)
    (h3 : i = 3 → n < 32) (d : BitVec 64) (bp : HardwareBreakpoint) :
    (clearSlot i (installDr7 i d bp)).getLsbD n = d.getLsbD n := by
  by_cases hn32 : n < 32
  · rw [clearSlot_getLsbD_of_not_slotBit hi hn32 h, installDr7_getLsbD_of_not_slotBit hi hn32 h]
  · have hi3 : i < 3 := by omega
    simp only [clearSlot_getLsbD hi hn, installDr7, BitVec.getLsbD_or,
      ctrlWord_getLsbD_high hi3 (by omega) hn, hi3, Bool.or_false, decide_True, Bool.or_true,
      Bool.and_true]
    simp only [SlotBit, not_or, not_and, not_lt] at h
    by_cases h2 : ctrlCond i ≤ n
    · simp [h2, show ¬ n < ctrlCond i + 4 by have := h.2 h2; omega]
    · simp [h2]

/-- Installing in slot `i`, then resetting the slot: `L_i` set, `RW_i` and `LEN_i` clear, for
slot 3 bits 32..63 clear, every other bit as before. -/
theorem clearSlot_installDr7_getLsbD_eq {i n : Nat} (hi : i < 4) (hn : n < 64) (d : BitVec 64)
    (bp : HardwareBreakpoint) :
    (clearSlot i (installDr7 i d bp)).getLsbD n =
      if n = 2 * i then true
      else if ctrlCond i ≤ n ∧ n < ctrlCond i + 4 then false
      else if i = 3 ∧ 32 ≤ n then false
      else d.getLsbD n := by
  split_ifs with h₁ h₂ h₃
  · subst h₁
    simp [clearSlot_getLsbD hi hn, (programs_installDr7 hi d bp).1,
      show ¬ctrlCond i ≤ 2 * i by simp only [ctrlCond]; omega, show 2 * i < 32 by omega]
  · exact clearSlot_getLsbD_of_field hi h₂.1 h₂.2 _
  · rw [clearSlot_getLsbD hi hn]
    simp [h₃.1, show ¬n < 32 by omega]
  · exact clearSlot_installDr7_getLsbD hi hn (fun h => h.elim h₁ h₂) (fun h => by omega) d bp

/-- Slot 3's control word is a negative `int` exactly when its length code reaches bit 31. -/
theorem ctrlWord_getLsbD_high_three {n : Nat} (hn : 32 ≤ n) (hn' : n < 64)
    (bp : HardwareBreakpoint) : (ctrlWord 3 bp).getLsbD n = (ctrlLenVal bp.len).getLsbD 1 := by
  simp only [ctrlWord, toUlong, BitVec.getLsbD_signExtend, BitVec.msb_eq_getLsbD_last,
    BitVec.getLsbD_or, ctrlLocal_getLsbD (by omega : 3 < 4),
    shiftLeft_getLsbD_of_lt_four (ctrlCondVal_lt _), shiftLeft_getLsbD_of_lt_four (ctrlLenVal_lt _),
    show ¬n < 32 by omega, if_false, hn', decide_True, Bool.true_and]
  simp [ctrlCond, ctrlLen]

/-- Every bit of the DR7 value written for slot `i`: `L_i` set, `RW_i` and `LEN_i` the codes of
the type and the length, for slot 3 bits 32..63 copies of the length code's high bit, and every
other bit as it was. -/
theorem installDr7_getLsbD {i n : Nat} (hi : i < 4) (hn : n < 64) (d : BitVec 64)
    (bp : HardwareBreakpoint) :
    (installDr7 i d bp).getLsbD n =
      if n = 2 * i then true
      else if ctrlCond i ≤ n ∧ n < ctrlCond i + 2 then
        (ctrlCondVal bp.type.1).getLsbD (n - ctrlCond i)
      else if ctrlLen i ≤ n ∧ n < ctrlLen i + 2 then (ctrlLenVal bp.len).getLsbD (n - ctrlLen i)
      else if i = 3 ∧ 32 ≤ n then (ctrlLenVal bp.len).getLsbD 1
      else d.getLsbD n := by
  have hp := programs_installDr7 hi d bp
  split_ifs with h₁ h₂ h₃ h₄
  · subst h₁; exact hp.1
  · obtain ⟨k, hk, rfl⟩ : ∃ k < 2, n = ctrlCond i + k := ⟨n - ctrlCond i, by omega, by omega⟩
    rw [(hp.2 k hk).1, Nat.add_sub_cancel_left]
  · obtain ⟨k, hk, rfl⟩ : ∃ k < 2, n = ctrlLen i + k := ⟨n - ctrlLen i, by omega, by omega⟩
    rw [(hp.2 k hk).2, Nat.add_sub_cancel_left]
  · obtain ⟨rfl, h32⟩ := h₄
    rw [installDr7, BitVec.getLsbD_or, clearSlot_getLsbD hi hn, ctrlWord_getLsbD_high_three h32 hn]
    simp [show ¬n < 32 by omega]
  · have hslot : ¬SlotBit i n := by
      simp only [SlotBit, ctrlLen_eq] at *
      omega
    by_cases hn32 : n < 32
    · exact installDr7_getLsbD_of_not_slotBit hi hn32 hslot d bp
    · have hi3 : i < 3 := by omega
      have hc : ctrlCond i + 4 ≤ n := by simp only [ctrlCond]; omega
      rw [installDr7, BitVec.getLsbD_or, clearSlot_getLsbD hi hn,
        ctrlWord_getLsbD_high hi3 (by omega) hn]
      simp [hi3, show ¬n < ctrlCond i + 4 by omega]

theorem installHardwareBreakpoint_of_lt {area : Nat → BitVec 64} {bp : HardwareBreakpoint}
    (h : scanSlots slotFree area < 4) :
    installHardwareBreakpoint area bp =
      Function.update (Function.update area (drOffset (scanSlots slotFree area)) bp.addr)
        (drOffset 7) (installDr7 (scanSlots slotFree area) (area (drOffset 7)) bp) := by
  simp only [installHardwareBreakpoint, if_neg (Nat.ne_of_lt h)]

theorem installHardwareBreakpoint_of_full {area : Nat → BitVec 64} {bp : HardwareBreakpoint}
    (h : scanSlots slotFree area = 4) : installHardwareBreakpoint area bp = area := by
  simp only [installHardwareBreakpoint, if_pos h]

theorem removeHardwareBreakpoint_of_lt {area : Nat → BitVec 64} {bp : HardwareBreakpoint}
    (h : scanSlots (· == bp.addr) area < 4) :
    removeHardwareBreakpoint area bp =
      Function.update (Function.update area (drOffset 7)
        (clearSlot (scanSlots (· == bp.addr) area) (area (drOffset 7))))
        (drOffset (scanSlots (· == bp.addr) area)) 0 := by
  simp only [removeHardwareBreakpoint, if_neg (Nat.ne_of_lt h)]

theorem removeHardwareBreakpoint_of_none {area : Nat → BitVec 64} {bp : HardwareBreakpoint}
    (h : scanSlots (· == bp.addr) area = 4) : removeHardwareBreakpoint area bp = area := by
  simp only [removeHardwareBreakpoint, if_pos h]

/-- The DR7 value `install_hardware_breakpoint` writes, bit by bit, for the slot its loop
selects. -/
theorem install_writes_dr7 {area : Nat → BitVec 64} {bp : HardwareBreakpoint} {i : Nat}
    (hi : scanSlots slotFree area = i) (h4 : i < 4) {n : Nat} (hn : n < 64) :
    (installHardwareBreakpoint area bp (drOffset 7)).getLsbD n =
      if n = 2 * i then true
      else if ctrlCond i ≤ n ∧ n < ctrlCond i + 2 then
        (ctrlCondVal bp.type.1).getLsbD (n - ctrlCond i)
      else if ctrlLen i ≤ n ∧ n < ctrlLen i + 2 then (ctrlLenVal bp.len).getLsbD (n - ctrlLen i)
      else if i = 3 ∧ 32 ≤ n then (ctrlLenVal bp.len).getLsbD 1
      else (area (drOffset 7)).getLsbD n := by
  subst hi
  rw [installHardwareBreakpoint_of_lt h4, Function.update_same]
  exact installDr7_getLsbD h4 hn _ _

/-- DR0..DR2 taken, DR3 free and DR7 zero. -/
def lastSlotFree : Nat → BitVec 64 := fun off => if off = drOffset 3 ∨ off = drOffset 7 then 0 else 1

/-- An execute breakpoint of length 8, whose length code is 2. -/
def longBreakpoint : HardwareBreakpoint := ⟨1, 1, true, ('x', ' '), 8⟩

theorem install_writes_dr7_last_slot :
    (installHardwareBreakpoint lastSlotFree longBreakpoint (drOffset 7)).getLsbD 32 =
      if 32 = 2 * 3 then true
      else if ctrlCond 3 ≤ 32 ∧ 32 < ctrlCond 3 + 2 then
        (ctrlCondVal longBreakpoint.type.1).getLsbD (32 - ctrlCond 3)
      else if ctrlLen 3 ≤ 32 ∧ 32 < ctrlLen 3 + 2 then
        (ctrlLenVal longBreakpoint.len).getLsbD (32 - ctrlLen 3)
      else if 3 = 3 ∧ 32 ≤ 32 then (ctrlLenVal longBreakpoint.len).getLsbD 1
      else (lastSlotFree (drOffset 7)).getLsbD 32 :=
  install_writes_dr7 (by decide) (by decide) (by decide)

/-- In slot 3 a length code of 2 makes the control word a negative `int`: DR7 was zero, and the
value written has all of bits 32..63 set. -/
theorem install_last_slot_sets_high_bits :
    scanSlots slotFree lastSlotFree = 3 ∧ lastSlotFree (drOffset 7) = 0#64 ∧
      installHardwareBreakpoint lastSlotFree longBreakpoint (drOffset 7) =
        0xFFFFFFFF80000040#64 := by
  decide

end Bits

end Libdebug
