import Libdebug.DebugRegisterAgreement
import Libdebug.Aarch64Session

/-!
# Free debug-register slots

`get_remaining_hw_breakpoint_count` and `get_remaining_hw_watchpoint_count`, and what
`register_hw_breakpoint` and `enable_hw_breakpoint` do when no slot is free.

On x86_64 the count is four minus the index of the first zero slot among DR0..DR3, while the
number of zero slots is `freeSlots`.  The count is never below it, and the two agree exactly when
no occupied slot follows a free one (`SlotsPacked`).  An install takes the first free slot and
fills at most one, so as many installs as there are free slots each find one.  A removal below an
occupied slot leaves a hole, and then the count is too large: a caller who trusts it runs out of
slots (`count_after_hole`).  On AArch64 both counts are the low byte of `dbg_info`, which no
install or remove writes, so no sequence of the table's operations changes them.

When no slot is free, `install_hardware_breakpoint` changes nothing, but `register_hw_breakpoint`
has already pushed the entry as enabled, and `enable_hw_breakpoint` sets the flag after its call:
the debug registers stay as they were while the table says the breakpoint is on
(`hw_no_slot_paths`).
-/

namespace Libdebug

/-! ## Counting the slots on x86_64 -/

/-- The number of DR0..DR3 that are zero. -/
def freeSlots (area : Nat → BitVec 64) : Nat :=
  (List.range 4).countP fun i => slotFree (area (drOffset i))

/-- No occupied slot among DR0..DR3 follows a free one. -/
def SlotsPacked (area : Nat → BitVec 64) : Prop :=
  ∀ j < 4, ∀ i < j, slotFree (area (drOffset i)) = true → slotFree (area (drOffset j)) = true

section Count

variable {area : Nat → BitVec 64}

/-- The slot loop, unrolled. -/
theorem scanSlots_eq_ite (test : BitVec 64 → Bool) (area : Nat → BitVec 64) :
    scanSlots test area =
      if test (area (drOffset 0)) then 0 else if test (area (drOffset 1)) then 1
      else if test (area (drOffset 2)) then 2 else if test (area (drOffset 3)) then 3 else 4 :=
  rfl

theorem freeSlots_eq (area : Nat → BitVec 64) :
    freeSlots area = (slotFree (area (drOffset 0))).toNat + (slotFree (area (drOffset 1))).toNat +
      (slotFree (area (drOffset 2))).toNat + (slotFree (area (drOffset 3))).toNat := by
  simp only [freeSlots, List.range_succ, List.range_zero, List.nil_append, List.countP_append,
    List.countP_singleton, Bool.toNat, cond_eq_if]

/-- Packing needs checking only between neighbours. -/
theorem slotsPacked_iff :
    SlotsPacked area ↔
      (slotFree (area (drOffset 0)) = true → slotFree (area (drOffset 1)) = true) ∧
      (slotFree (area (drOffset 1)) = true → slotFree (area (drOffset 2)) = true) ∧
      (slotFree (area (drOffset 2)) = true → slotFree (area (drOffset 3)) = true) := by
  constructor
  · intro h
    exact ⟨h 1 (by omega) 0 (by omega), h 2 (by omega) 1 (by omega), h 3 (by omega) 2 (by omega)⟩
  · rintro ⟨h₀₁, h₁₂, h₂₃⟩ j hj i hij hi
    obtain rfl | rfl | rfl | rfl : j = 0 ∨ j = 1 ∨ j = 2 ∨ j = 3 := by omega
    · omega
    · obtain rfl : i = 0 := by omega
      exact h₀₁ hi
    · obtain rfl | rfl : i = 0 ∨ i = 1 := by omega
      exacts [h₁₂ (h₀₁ hi), h₁₂ hi]
    · obtain rfl | rfl | rfl : i = 0 ∨ i = 1 ∨ i = 2 := by omega
      exacts [h₂₃ (h₁₂ (h₀₁ hi)), h₂₃ (h₁₂ hi), h₂₃ hi]

/-- The count never misses a free slot. -/
theorem freeSlots_le_count : freeSlots area ≤ getRemainingHwBreakpointCount area := by
  rw [getRemainingHwBreakpointCount, scanSlots_eq_ite, freeSlots_eq]
  generalize slotFree (area (drOffset 0)) = b₀
  generalize slotFree (area (drOffset 1)) = b₁
  generalize slotFree (area (drOffset 2)) = b₂
  generalize slotFree (area (drOffset 3)) = b₃
  cases b₀ <;> cases b₁ <;> cases b₂ <;> cases b₃ <;> decide

/-- The count is the number of free slots exactly when the free slots are the last ones. -/
theorem count_eq_freeSlots_iff : getRemainingHwBreakpointCount area = freeSlots area ↔ SlotsPacked area := by
  rw [getRemainingHwBreakpointCount, scanSlots_eq_ite, freeSlots_eq, slotsPacked_iff]
  generalize slotFree (area (drOffset 0)) = b₀
  generalize slotFree (area (drOffset 1)) = b₁
  generalize slotFree (area (drOffset 2)) = b₂
  generalize slotFree (area (drOffset 3)) = b₃
  cases b₀ <;> cases b₁ <;> cases b₂ <;> cases b₃ <;> decide

theorem scanSlots_lt_of_freeSlots_pos (h : 0 < freeSlots area) : scanSlots slotFree area < 4 := by
  have := @freeSlots_le_count area
  unfold getRemainingHwBreakpointCount at this
  omega

/-- A store to DR7 leaves the address slots alone. -/
theorem freeSlots_update_seven (x : BitVec 64) :
    freeSlots (Function.update area (drOffset 7) x) = freeSlots area := by
  simp only [freeSlots_eq, Function.update_noteq (drOffset_ne_seven (by omega : (0 : Nat) < 4)),
    Function.update_noteq (drOffset_ne_seven (by omega : 1 < 4)),
    Function.update_noteq (drOffset_ne_seven (by omega : 2 < 4)),
    Function.update_noteq (drOffset_ne_seven (by omega : 3 < 4))]

/-- A store to one address slot frees or fills at most that slot. -/
theorem freeSlots_update_le {i : Nat} (hi : i < 4) (a : BitVec 64) :
    freeSlots area ≤ freeSlots (Function.update area (drOffset i) a) + 1 := by
  have hb : ∀ b : Bool, b.toNat ≤ 1 := fun b => by cases b <;> decide
  have := hb (slotFree (area (drOffset i)))
  rw [freeSlots_eq, freeSlots_eq]
  -- the other three slots sit at other offsets, so the update leaves them alone
  obtain rfl | rfl | rfl | rfl : i = 0 ∨ i = 1 ∨ i = 2 ∨ i = 3 := by omega
  all_goals simp [Function.update_apply, drOffset, drBase, drSize] at this ⊢; omega

/-- An install takes at most one free slot. -/
theorem freeSlots_install (bp : HardwareBreakpoint) :
    freeSlots area ≤ freeSlots (installHardwareBreakpoint area bp) + 1 := by
  rcases Nat.lt_or_ge (scanSlots slotFree area) 4 with h | h
  · rw [installHardwareBreakpoint_of_lt h, freeSlots_update_seven]
    exact freeSlots_update_le h _
  · rw [installHardwareBreakpoint_of_full (le_antisymm scanSlots_le h)]
    omega

/-- As many installs as there are free slots each find one: none of them reaches "No debug
registers available". -/
theorem installs_fit (bps : List HardwareBreakpoint) (h : bps.length ≤ freeSlots area) :
    ∀ j < bps.length, scanSlots slotFree ((bps.take j).foldl installHardwareBreakpoint area) < 4 := by
  induction bps generalizing area with
  | nil => intro j hj; exact absurd hj (Nat.not_lt_zero j)
  | cons b bs ih =>
    rw [List.length_cons] at h
    intro j hj
    cases j with
    | zero => exact @scanSlots_lt_of_freeSlots_pos area (by omega)
    | succ j =>
      have hfit := @ih (installHardwareBreakpoint area b)
        (by have := @freeSlots_install area b; omega)
      simpa only [List.take_succ_cons, List.foldl_cons] using
        hfit j (by rw [List.length_cons] at hj; omega)

end Count

/-! ## Counting on AArch64 -/

/-- The operations of the AArch64 hardware-breakpoint table, with any arguments. -/
inductive ArmHwCall : ArmWorld → ArmWorld → Prop
  | register (w : ArmWorld) (tid : Nat) (address : BitVec 64) (type : Char × Char) (len : Nat) :
      ArmHwCall w (registerHwBreakpointArm w tid address type len)
  | unregister (w : ArmWorld) (tid : Nat) (address : BitVec 64) :
      ArmHwCall w (unregisterHwBreakpointArm w tid address)
  | enable (w : ArmWorld) (tid : Nat) (address : BitVec 64) :
      ArmHwCall w (enableHwBreakpointArm w tid address)
  | disable (w : ArmWorld) (tid : Nat) (address : BitVec 64) :
      ArmHwCall w (disableHwBreakpointArm w tid address)

section Arm

theorem dbgInfoCount_setHwEnabledArm (tid : Nat) (address : BitVec 64) (v : Bool) (t : Nat)
    (b : Bank) (l : List HardwareBreakpoint) (k : Regsets) :
    dbgInfoCount (setHwEnabledArm tid address v l k).2 t b = dbgInfoCount k t b := by
  induction l generalizing k with
  | nil => rfl
  | cons e es ih =>
    have htoggle : dbgInfoCount (toggleArm v k e).1 t b = dbgInfoCount k t b := by
      unfold toggleArm
      split_ifs
      · rfl
      · exact dbgInfoCount_install true true _ _ _
      · dsimp only
        exact dbgInfoCount_remove _ _ _
    by_cases he : e.IsKey tid address = true
    · simp only [setHwEnabledArm, he, if_true]
      exact (ih _).trans htoggle
    · simp only [setHwEnabledArm, he, Bool.false_eq_true, if_false]
      exact ih _

/-- No operation of the table changes `dbg_info`. -/
theorem dbgInfoCount_armHwCall {w w' : ArmWorld} (h : ArmHwCall w w') (t : Nat) (b : Bank) :
    dbgInfoCount w'.regsets t b = dbgInfoCount w.regsets t b := by
  cases h with
  | register tid address type len =>
    unfold registerHwBreakpointArm
    split_ifs
    · rfl
    · dsimp only
      exact dbgInfoCount_install true true _ _ _
  | unregister tid address =>
    unfold unregisterHwBreakpointArm
    split
    · rfl
    · dsimp only
      split_ifs
      exacts [dbgInfoCount_remove _ _ _, rfl]
  | enable tid address => exact dbgInfoCount_setHwEnabledArm _ _ _ _ _ _ _
  | disable tid address => exact dbgInfoCount_setHwEnabledArm _ _ _ _ _ _ _

theorem dbgInfoCount_run {w₀ w : ArmWorld} (hr : Relation.ReflTransGen ArmHwCall w₀ w) (t : Nat)
    (b : Bank) : dbgInfoCount w.regsets t b = dbgInfoCount w₀.regsets t b := by
  induction hr with
  | refl => rfl
  | tail _ h ih => exact (dbgInfoCount_armHwCall h t b).trans ih

end Arm

/-! ## What the counts report -/

/-- On x86_64 the count is never below the number of free slots, equals it exactly when the
slots are packed, and as many installs as there are free slots each find one; the watchpoint
count is the same number.  On AArch64 no sequence of the table's operations changes either
count. -/
theorem remaining_count_spec :
    (∀ area : Nat → BitVec 64,
      freeSlots area ≤ getRemainingHwBreakpointCount area ∧
      getRemainingHwWatchpointCount area = getRemainingHwBreakpointCount area ∧
      (getRemainingHwBreakpointCount area = freeSlots area ↔ SlotsPacked area) ∧
      ∀ bps : List HardwareBreakpoint, bps.length ≤ freeSlots area → ∀ j < bps.length,
        scanSlots slotFree ((bps.take j).foldl installHardwareBreakpoint area) < 4) ∧
    ∀ w w' : ArmWorld, Relation.ReflTransGen ArmHwCall w w' → ∀ tid,
      getRemainingHwBreakpointCountArm w'.regsets tid =
        getRemainingHwBreakpointCountArm w.regsets tid ∧
      getRemainingHwWatchpointCountArm w'.regsets tid =
        getRemainingHwWatchpointCountArm w.regsets tid :=
  ⟨fun _ => ⟨freeSlots_le_count, rfl, count_eq_freeSlots_iff, installs_fit⟩,
    fun _ _ hr tid => ⟨dbgInfoCount_run hr tid .hwBreak, dbgInfoCount_run hr tid .hwWatch⟩⟩

/-- Two registrations on thread 1 and the first one undone: DR0 is free again, DR1 is not. -/
def holeWorld : World :=
  unregisterHwBreakpoint (registerHwBreakpoint (registerHwBreakpoint World.empty 1 1 ('x', ' ') 1)
    1 2 ('x', ' ') 1) 1 1

/-- Three execute breakpoints at addresses 1 to 3. -/
def threeBreakpoints : List HardwareBreakpoint :=
  [⟨1, 1, true, ('x', ' '), 1⟩, ⟨2, 1, true, ('x', ' '), 1⟩, ⟨3, 1, true, ('x', ' '), 1⟩]

theorem remaining_count_spec_after_hole :
    scanSlots slotFree ((threeBreakpoints.take 2).foldl installHardwareBreakpoint (holeWorld.user 1)) < 4 :=
  (remaining_count_spec.1 (holeWorld.user 1)).2.2.2 threeBreakpoints (by decide) 2 (by decide)

/-- After the hole the count says four while three slots are free, and three more registrations
fill every slot: a fourth, which the count allowed, finds none. -/
theorem count_after_hole :
    getRemainingHwBreakpointCount (holeWorld.user 1) = 4 ∧ freeSlots (holeWorld.user 1) = 3 ∧
      scanSlots slotFree ((([3, 4, 5] : List (BitVec 64)).foldl
        (fun w a => registerHwBreakpoint w 1 a ('x', ' ') 1) holeWorld).user 1) = 4 := by
  decide

/-! ## No free slot -/

section Full

variable {tid : Nat} {address : BitVec 64}

theorem installOn_of_full {user : Nat → Nat → BitVec 64} {b : HardwareBreakpoint}
    (h : scanSlots slotFree (user b.tid) = 4) : installOn user b = user := by
  rw [installOn, installHardwareBreakpoint_of_full h, Function.update_eq_self]

/-- With every slot of the thread taken, the enable loop only sets the flags. -/
theorem setHwEnabled_true_of_full {user : Nat → Nat → BitVec 64}
    (h : scanSlots slotFree (user tid) = 4) (l : List HardwareBreakpoint) :
    setHwEnabled tid address true l user =
      (l.map fun b => if b.IsKey tid address then { b with enabled := true } else b, user) := by
  induction l with
  | nil => rfl
  | cons b bs ih =>
    by_cases hb : b.IsKey tid address = true
    · have hbt : b.tid = tid := (Prod.mk.inj (isKey_iff.1 hb)).1
      have hkeep : (if b.enabled = true then user else installOn user b) = user := by
        split_ifs
        exacts [rfl, installOn_of_full (hbt ▸ h)]
      simp only [setHwEnabled, hb, if_true, hkeep, ih, List.map_cons]
    · simp only [Bool.not_eq_true] at hb
      simp only [setHwEnabled, hb, Bool.false_eq_true, if_false, ih, List.map_cons]

end Full

/-- The paths of `register_hw_breakpoint` and `enable_hw_breakpoint` that install nothing.  A key
already present leaves the world as it was.  A new key on a thread with no free slot leaves
every debug register as it was, but the entry is pushed, enabled; and an enable with no free slot
leaves every debug register as it was, but flags the entries with the key enabled. -/
theorem hw_no_slot_paths (w : World) (tid : Nat) (address : BitVec 64) (type : Char × Char)
    (len : Nat) :
    (w.state.hwBHead.any (·.IsKey tid address) = true →
      registerHwBreakpoint w tid address type len = w) ∧
    (w.state.hwBHead.any (·.IsKey tid address) = false → scanSlots slotFree (w.user tid) = 4 →
      registerHwBreakpoint w tid address type len =
        { w with state := { w.state with
          hwBHead := ⟨address, tid, true, type, len⟩ :: w.state.hwBHead } }) ∧
    (scanSlots slotFree (w.user tid) = 4 →
      enableHwBreakpoint w tid address =
        { w with state := { w.state with
          hwBHead := w.state.hwBHead.map fun b =>
            if b.IsKey tid address then { b with enabled := true } else b } }) := by
  refine ⟨fun h => by rw [registerHwBreakpoint, if_pos h], fun h hfull => ?_, fun hfull => ?_⟩
  · rw [registerHwBreakpoint, if_neg (by simp [h])]
    dsimp only
    rw [@installOn_of_full w.user ⟨address, tid, true, type, len⟩ hfull]
  · rw [enableHwBreakpoint, setHwEnabled_true_of_full hfull]

/-- Four registrations on thread 1, at addresses 1 to 4: every slot is taken. -/
def fourHwBreakpoints : World :=
  (List.range 4).foldl (fun w k => registerHwBreakpoint w 1 (BitVec.ofNat 64 (k + 1)) ('x', ' ') 1)
    World.empty

theorem hw_no_slot_paths_on_full :
    registerHwBreakpoint fourHwBreakpoints 1 5 ('x', ' ') 1 =
      { fourHwBreakpoints with state := { fourHwBreakpoints.state with
        hwBHead := ⟨5, 1, true, ('x', ' '), 1⟩ :: fourHwBreakpoints.state.hwBHead } } :=
  (hw_no_slot_paths fourHwBreakpoints 1 5 ('x', ' ') 1).2.1 (by decide) (by decide)

/-- With every slot taken, a fifth registration adds an enabled entry; disabled, and enabled
again, it ends enabled while no slot holds it. -/
theorem no_slot_entry_enabled :
    scanSlots slotFree (fourHwBreakpoints.user 1) = 4 ∧
    (registerHwBreakpoint fourHwBreakpoints 1 5 ('x', ' ') 1).state.hwBHead.length =
      fourHwBreakpoints.state.hwBHead.length + 1 ∧
    (∃ e ∈ (disableHwBreakpoint (registerHwBreakpoint fourHwBreakpoints 1 5 ('x', ' ') 1) 1 5).state.hwBHead,
      e.IsKey 1 5 = true ∧ e.enabled = false) ∧
    ∃ e ∈ (enableHwBreakpoint (disableHwBreakpoint
        (registerHwBreakpoint fourHwBreakpoints 1 5 ('x', ' ') 1) 1 5) 1 5).state.hwBHead,
      e.IsKey 1 5 = true ∧ e.enabled = true ∧ ∀ i < 4,
        (enableHwBreakpoint (disableHwBreakpoint
          (registerHwBreakpoint fourHwBreakpoints 1 5 ('x', ' ') 1) 1 5) 1 5).user 1 (drOffset i) ≠ 5 := by
  decide

end Libdebug
