import Libdebug.Aarch64

/-!
# The hardware-breakpoint table on AArch64

The table code of `register_hw_breakpoint`, `unregister_hw_breakpoint`, `enable_hw_breakpoint`,
`disable_hw_breakpoint` and `get_hit_hw_breakpoint` is shared by both builds; on AArch64 it
calls the install and remove of the register sets, and `is_breakpoint_hit` asks the kernel for
the thread's last `siginfo`.  The AArch64 build adds a step-over: a thread stopped on a hardware
breakpoint cannot single-step, so `singlestep` and `prepare_for_run` remove the breakpoint the
thread reports, step, and install it again.  `prepare_for_run` waits for the step before the
install; `singlestep` does not, so its install reaches a thread that may still be running, and
either of its two requests may fail.

`ArmAgree` is the agreement between the table and the register sets that every operation keeps,
the step-over of `singlestep` included whatever its requests find (`arm_agree_reachable`): every
occupied slot belongs to an enabled entry of its thread and register set, no two slots of a
register set hold one address, and every free slot has a zero control word.  While `singlestep`
steps, the address of the breakpoint it steps over is in no slot (`singlestep_arm_steps_clear`).
Its install may then leave the breakpoint out of every slot, or write back a buffer it never read
and so empty every other slot of the register set (`singlestep_arm_reinstall`).  `prepare_for_run`
returns at once when its single-step fails, before the install: the breakpoint stays enabled in
the table and in no slot (`prepare_for_run_arm_failed_step`).

A second `enable_hw_breakpoint` or `disable_hw_breakpoint` with the same key changes nothing, on
either build (`hw_enable_disable_idempotent`).  Unlike on x86_64, an `unregister_hw_breakpoint`
undoes a `register_hw_breakpoint` byte for byte (`hw_round_trip_arm_table`).
-/

namespace Libdebug

/-! ## The model -/

/-- `SIGTRAP`. -/
def sigtrap : Int := 5

/-- The fields of the `siginfo_t` that `PTRACE_GETSIGINFO` fills and `is_breakpoint_hit`
reads. -/
structure SigInfo where
  siSigno : Int
  siCode : Int
  siAddr : BitVec 64
  deriving DecidableEq, Repr

/-- `is_breakpoint_hit` on AArch64: the thread's last stop is a `SIGTRAP` of code 4 at the
entry's address.  `si` answers `PTRACE_GETSIGINFO` for each thread, `none` for a failed
request. -/
def isBreakpointHitArm (si : Nat → Option SigInfo) (bp : HardwareBreakpoint) : Bool :=
  match si bp.tid with
  | none => false
  | some s => s.siSigno == sigtrap && s.siCode == 4 && s.siAddr == bp.addr

/-- The hardware-breakpoint table and the kernel's debug register sets. -/
structure ArmWorld where
  hwBHead : List HardwareBreakpoint
  regsets : Regsets

/-- `register_hw_breakpoint` on AArch64: refuse a key already present; otherwise push an enabled
entry and install it, the entry taking the length the install stores into it. -/
def registerHwBreakpointArm (w : ArmWorld) (tid : Nat) (address : BitVec 64) (type : Char × Char)
    (len : Nat) : ArmWorld :=
  if w.hwBHead.any (·.IsKey tid address) then w
  else
    let r := installHardwareBreakpointArm w.regsets ⟨address, tid, true, type, len⟩
    ⟨r.2 :: w.hwBHead, r.1⟩

/-- `unregister_hw_breakpoint` on AArch64: unlink the first entry with the key, removing it from
its register set if it is enabled. -/
def unregisterHwBreakpointArm (w : ArmWorld) (tid : Nat) (address : BitVec 64) : ArmWorld :=
  match w.hwBHead.find? (·.IsKey tid address) with
  | none => w
  | some b => ⟨w.hwBHead.eraseP (·.IsKey tid address),
      if b.enabled then removeHardwareBreakpointArm w.regsets b else w.regsets⟩

/-- One entry of the loop of `enable_hw_breakpoint` (`v = true`) or `disable_hw_breakpoint`: an
entry whose flag differs from `v` is installed, as the install leaves it, or removed. -/
def toggleArm (v : Bool) (k : Regsets) (b : HardwareBreakpoint) : Regsets × HardwareBreakpoint :=
  if b.enabled = v then (k, b)
  else if v then installHardwareBreakpointArm k b
  else (removeHardwareBreakpointArm k b, b)

/-- The loop shared by `enable_hw_breakpoint` and `disable_hw_breakpoint` on AArch64: every entry
with the key is toggled and gets the flag. -/
def setHwEnabledArm (tid : Nat) (address : BitVec 64) (v : Bool) :
    List HardwareBreakpoint → Regsets → List HardwareBreakpoint × Regsets
  | [], k => ([], k)
  | b :: bs, k =>
    if b.IsKey tid address then
      let r := toggleArm v k b
      let rest := setHwEnabledArm tid address v bs r.1
      ({ r.2 with enabled := v } :: rest.1, rest.2)
    else
      let rest := setHwEnabledArm tid address v bs k
      (b :: rest.1, rest.2)

/-- `enable_hw_breakpoint` on AArch64. -/
def enableHwBreakpointArm (w : ArmWorld) (tid : Nat) (address : BitVec 64) : ArmWorld :=
  let r := setHwEnabledArm tid address true w.hwBHead w.regsets
  ⟨r.1, r.2⟩

/-- `disable_hw_breakpoint` on AArch64. -/
def disableHwBreakpointArm (w : ArmWorld) (tid : Nat) (address : BitVec 64) : ArmWorld :=
  let r := setHwEnabledArm tid address false w.hwBHead w.regsets
  ⟨r.1, r.2⟩

/-- `get_hit_hw_breakpoint` on AArch64: the address of the first entry of the thread that
`is_breakpoint_hit` reports, or zero. -/
def getHitHwBreakpointArm (si : Nat → Option SigInfo) (w : ArmWorld) (tid : Nat) : BitVec 64 :=
  ((w.hwBHead.find? fun b => b.tid == tid && isBreakpointHitArm si b).map (·.addr)).getD 0

/-- The entry the step-overs look for: the first enabled entry of the thread that
`is_breakpoint_hit` reports. -/
def hitEntry (si : Nat → Option SigInfo) (bps : List HardwareBreakpoint) (tid : Nat) :
    Option HardwareBreakpoint :=
  bps.find? fun bp => bp.tid == tid && bp.enabled && isBreakpointHitArm si bp

/-- The step-over of an entry: `remove_hardware_breakpoint`, the single-step, then
`install_hardware_breakpoint` of the same entry, whose two requests `getOk` and `setOk` answer;
the install may change the entry in the table.  The register sets the single-step runs with, and
the state after. -/
def stepOverArm (getOk setOk : Bool) (w : ArmWorld) (bp : HardwareBreakpoint) :
    Regsets × ArmWorld :=
  let k₁ := removeHardwareBreakpointArm w.regsets bp
  let r := installHardwareBreakpointArmWith getOk setOk k₁ bp
  (k₁, ⟨w.hwBHead.replace bp r.2, r.1⟩)

/-- The AArch64 tail of `singlestep`: step over the entry the thread reports, if any, whatever the
single-step returns.  No `waitpid` comes between the `PTRACE_SINGLESTEP` and the install, whose
requests reach a thread that may still be running: `getOk` and `setOk` say which of them find it
stopped. -/
def singlestepArm (si : Nat → Option SigInfo) (getOk setOk : Bool) (w : ArmWorld) (tid : Nat) :
    Regsets × ArmWorld :=
  match hitEntry si w.hwBHead tid with
  | none => (w.regsets, w)
  | some bp => stepOverArm getOk setOk w bp

/-- The AArch64 loop of `prepare_for_run` over the live threads in list order: step each over the
entry it reports.  `stepOk` answers each thread's `PTRACE_SINGLESTEP`; a failed one returns -1 at
once (`false`), between the remove and the install.  The install comes after the `waitpid` of the
step, so both its requests find the thread stopped. -/
def stepOversArm (si : Nat → Option SigInfo) (stepOk : Nat → Bool) :
    List Nat → ArmWorld → ArmWorld × Bool
  | [], w => (w, true)
  | t :: ts, w =>
    match hitEntry si w.hwBHead t with
    | none => stepOversArm si stepOk ts w
    | some bp =>
      if stepOk t then stepOversArm si stepOk ts (stepOverArm true true w bp).2
      else (⟨w.hwBHead, removeHardwareBreakpointArm w.regsets bp⟩, false)

theorem ofNat_toNat_self {n : Nat} (x : BitVec n) : BitVec.ofNat n x.toNat = x :=
  BitVec.eq_of_toNat_eq (Nat.mod_eq_of_lt x.isLt)

/-! ## Installing an entry -/

section Entry

variable {k : Regsets} {bp : HardwareBreakpoint}

/-- An execute entry has the length the install stores, 4. -/
def HardwareBreakpoint.Normal (bp : HardwareBreakpoint) : Prop := bp.type.1 = 'x' → bp.len = 4

theorem HardwareBreakpoint.Normal.len_eq (hn : bp.Normal) (hx : bp.type.1 = 'x') :
    ({ bp with len := 4 } : HardwareBreakpoint) = bp := by
  cases bp
  exact congrArg _ (hn hx).symm

/-- The install leaves a normal entry as it is, whatever its requests find. -/
theorem installHardwareBreakpointArmWith_entry (hn : bp.Normal) (getOk setOk : Bool) :
    (installHardwareBreakpointArmWith getOk setOk k bp).2 = bp := by
  simp only [installHardwareBreakpointArmWith, apply_ite Prod.snd]
  split_ifs <;> first | rfl | exact hn.len_eq ‹_›

theorem installHardwareBreakpointArm_of_normal (hn : bp.Normal)
    (hfree : scanDbgRegs (· == 0) (getRegset k bp.tid (commandOf bp)) < 16) :
    installHardwareBreakpointArm k bp =
      (setRegset k bp.tid (commandOf bp) (writeSlot (getRegset k bp.tid (commandOf bp))
        (scanDbgRegs (· == 0) (getRegset k bp.tid (commandOf bp))) bp.addr.toNat
        (controlOf bp).toNat), bp) := by
  obtain ⟨len, hinst⟩ := installHardwareBreakpointArm_of_lt hfree
  have hentry := installHardwareBreakpointArmWith_entry (k := k) hn true true
  rw [show installHardwareBreakpointArmWith true true k bp = installHardwareBreakpointArm k bp
    from rfl, hinst] at hentry
  dsimp only at hentry
  rw [hinst, hentry]

/-- An install whose read failed takes slot 0 of a zeroed buffer. -/
theorem installHardwareBreakpointArmWith_zeroed (hn : bp.Normal) :
    installHardwareBreakpointArmWith false true k bp =
      (setRegset k bp.tid (commandOf bp) (writeSlot (fun _ => 0) 0 bp.addr.toNat
        (controlOf bp).toNat), bp) := by
  have hzero : scanDbgRegs (· == 0) (fun _ => 0) = 0 :=
    scanDbgRegs_eq (by omega) (by rw [slotAddr_zero]; rfl) fun _ h => absurd h (by omega)
  have hbp : (if bp.type.1 = 'x' then { bp with len := 4 } else bp) = bp := by
    split_ifs with hx
    exacts [hn.len_eq hx, rfl]
  simp only [installHardwareBreakpointArmWith, Bool.false_eq_true, if_false, if_true, hzero, hbp]
  rfl

/-- What an install of a normal entry can do, by what its requests find: nothing; a store in the
first free slot of the register set it read; or, the read failing, a store in slot 0 of a zeroed
buffer.  The entry stays as it is. -/
theorem installHardwareBreakpointArmWith_cases (hn : bp.Normal) (getOk setOk : Bool) :
    installHardwareBreakpointArmWith getOk setOk k bp = (k, bp) ∨
    (scanDbgRegs (· == 0) (getRegset k bp.tid (commandOf bp)) < 16 ∧
      installHardwareBreakpointArmWith getOk setOk k bp =
        (setRegset k bp.tid (commandOf bp) (writeSlot (getRegset k bp.tid (commandOf bp))
          (scanDbgRegs (· == 0) (getRegset k bp.tid (commandOf bp))) bp.addr.toNat
          (controlOf bp).toNat), bp)) ∨
    installHardwareBreakpointArmWith getOk setOk k bp =
      (setRegset k bp.tid (commandOf bp) (writeSlot (fun _ => 0) 0 bp.addr.toNat
        (controlOf bp).toNat), bp) := by
  have hentry := installHardwareBreakpointArmWith_entry (k := k) hn getOk setOk
  cases setOk
  · exact .inl (Prod.ext (installHardwareBreakpointArmWith_set_fail getOk bp) hentry)
  cases getOk
  · exact .inr (.inr (installHardwareBreakpointArmWith_zeroed hn))
  rcases lt_or_le (scanDbgRegs (· == 0) (getRegset k bp.tid (commandOf bp))) 16 with hfree | hfull
  · exact .inr (.inl ⟨hfree, installHardwareBreakpointArm_of_normal hn hfree⟩)
  · exact .inl (installHardwareBreakpointArm_of_full (le_antisymm scanDbgRegs_le hfull))


/-- The entry an install that finds a slot leaves is normal. -/
theorem installHardwareBreakpointArm_normal
    (hfree : scanDbgRegs (· == 0) (getRegset k bp.tid (commandOf bp)) < 16) :
    (installHardwareBreakpointArm k bp).2.Normal := by
  obtain ⟨len, hinst⟩ := installHardwareBreakpointArm_of_lt hfree
  unfold installHardwareBreakpointArm installHardwareBreakpointArmWith
  simp only [if_true]
  rw [if_neg (by omega)]
  split_ifs with hx
  · exact fun _ => rfl
  · exact fun h => absurd h hx

end Entry

/-! ## Agreement with the register sets -/

/-- The table agrees with the register sets of every thread: its keys are distinct and nonzero
and its entries normal, every occupied slot belongs to an enabled entry of its thread and
register set, no two slots of a register set hold one address, and every free slot has a zero
control word. -/
structure ArmAgree (bps : List HardwareBreakpoint) (k : Regsets) : Prop where
  keys : (bps.map fun b => (b.tid, b.addr)).Nodup
  nonzero : ∀ e ∈ bps, e.addr ≠ 0
  normal : ∀ e ∈ bps, e.Normal
  owned : ∀ t bank i, i < 16 → slotAddr (getRegset k t bank) i ≠ 0 →
    ∃ e ∈ bps, e.tid = t ∧ commandOf e = bank ∧ e.enabled = true ∧
      e.addr = slotAddr (getRegset k t bank) i
  distinct : ∀ t bank i j, i < 16 → j < 16 → slotAddr (getRegset k t bank) i ≠ 0 →
    slotAddr (getRegset k t bank) i = slotAddr (getRegset k t bank) j → i = j
  tidy : Tidy k

namespace ArmAgree

variable {bps bps' : List HardwareBreakpoint} {k : Regsets}

theorem eq_of_key (h : ArmAgree bps k) {e e' : HardwareBreakpoint} (he : e ∈ bps)
    (he' : e' ∈ bps) (ht : e.tid = e'.tid) (ha : e.addr = e'.addr) : e = e' :=
  List.inj_on_of_nodup_map h.keys he he' (by simp [ht, ha])

/-- No slot of an entry's register set holds its address when no enabled entry has its key. -/
theorem not_held (h : ArmAgree bps k) {b : HardwareBreakpoint} (hb : b.addr ≠ 0)
    (hkey : ∀ e ∈ bps, e.enabled = true → e.tid = b.tid → e.addr ≠ b.addr) :
    ∀ j < 16, slotAddr (getRegset k b.tid (commandOf b)) j ≠ b.addr := fun j hj hj' => by
  obtain ⟨e, he, het, -, hen, hea⟩ := h.owned _ _ j hj (hj' ▸ hb)
  exact hkey e he hen het (hea.trans hj')

/-- The table may change without the register sets as long as its enabled entries stay. -/
theorem mono (h : ArmAgree bps k) (hkeys : (bps'.map fun e => (e.tid, e.addr)).Nodup)
    (hnz : ∀ e ∈ bps', e.addr ≠ 0) (hnorm : ∀ e ∈ bps', e.Normal)
    (hold : ∀ e ∈ bps, e.enabled = true → e ∈ bps') : ArmAgree bps' k where
  keys := hkeys
  nonzero := hnz
  normal := hnorm
  owned t bank i hi hne := by
    obtain ⟨e, he, ht, hb, hen, ha⟩ := h.owned t bank i hi hne
    exact ⟨e, hold e he hen, ht, hb, hen, ha⟩
  distinct := h.distinct
  tidy := h.tidy

/-- The register sets after a store that leaves each slot empty, as it was, or holding the
address of an enabled entry in its one slot `i` of the entry's register set, which held the
address nowhere before. -/
theorem of_slots (h : ArmAgree bps k) {k' : Regsets} {b : HardwareBreakpoint} {i : Nat}
    (hclear : ∀ j < 16, slotAddr (getRegset k b.tid (commandOf b)) j ≠ b.addr)
    (hkeys : (bps'.map fun e => (e.tid, e.addr)).Nodup) (hnz : ∀ e ∈ bps', e.addr ≠ 0)
    (hnorm : ∀ e ∈ bps', e.Normal) (hbmem : b ∈ bps') (hben : b.enabled = true)
    (hold : ∀ e ∈ bps, e.enabled = true → e ∈ bps')
    (hslot : ∀ t bank j, j < 16 → slotAddr (getRegset k' t bank) j = 0 ∨
      (t = b.tid ∧ bank = commandOf b ∧ j = i ∧ slotAddr (getRegset k' t bank) j = b.addr) ∨
      slotAddr (getRegset k' t bank) j = slotAddr (getRegset k t bank) j)
    (htidy : Tidy k') : ArmAgree bps' k' where
  keys := hkeys
  nonzero := hnz
  normal := hnorm
  owned t bank j hj hne := by
    rcases hslot t bank j hj with hz | ⟨rfl, rfl, -, hnew⟩ | hsame
    · exact absurd hz hne
    · exact ⟨b, hbmem, rfl, rfl, hben, hnew.symm⟩
    · rw [hsame] at hne ⊢
      obtain ⟨e, he, het, hc, hen, hea⟩ := h.owned t bank j hj hne
      exact ⟨e, hold e he hen, het, hc, hen, hea⟩
  distinct t bank j m hj hm hne heq := by
    rcases hslot t bank j hj with hz | ⟨rfl, rfl, rfl, hnew⟩ | hsame
    · exact absurd hz hne
    · rcases hslot _ _ m hm with hz' | ⟨-, -, rfl, -⟩ | hsame'
      · exact absurd (heq.trans hz') hne
      · rfl
      · exact absurd (hsame'.symm.trans (heq.symm.trans hnew)) (hclear m hm)
    · rcases hslot t bank m hm with hz' | ⟨rfl, rfl, rfl, hnew'⟩ | hsame'
      · exact absurd (heq.trans hz') hne
      · exact absurd (hsame.symm.trans (heq.trans hnew')) (hclear j hj)
      · exact h.distinct t bank j m hj hm (by rwa [hsame] at hne)
          (hsame.symm.trans (heq.trans hsame'))
  tidy := htidy

/-- Installing an enabled entry in the first free slot of its register set, when no slot holds
its address: the slot is the entry's, whether or not the kernel takes its control word. -/
theorem of_install (h : ArmAgree bps k) {b : HardwareBreakpoint} (hb : b.addr ≠ 0)
    (hfree : scanDbgRegs (· == 0) (getRegset k b.tid (commandOf b)) < 16)
    (hclear : ∀ j < 16, slotAddr (getRegset k b.tid (commandOf b)) j ≠ b.addr)
    (hkeys : (bps'.map fun e => (e.tid, e.addr)).Nodup) (hnz : ∀ e ∈ bps', e.addr ≠ 0)
    (hnorm : ∀ e ∈ bps', e.Normal) (hbmem : b ∈ bps') (hben : b.enabled = true)
    (hold : ∀ e ∈ bps, e.enabled = true → e ∈ bps') :
    ArmAgree bps' (setRegset k b.tid (commandOf b) (writeSlot (getRegset k b.tid (commandOf b))
      (scanDbgRegs (· == 0) (getRegset k b.tid (commandOf b))) b.addr.toNat (controlOf b).toNat)) := by
  refine h.of_slots (i := scanDbgRegs (· == 0) (getRegset k b.tid (commandOf b))) hclear hkeys hnz
    hnorm hbmem hben hold (fun t bank j _ => ?_)
    (h.tidy.setRegset_writeSlot hfree fun hz => absurd (by simpa using hz) hb)
  rw [slotAddr_setRegset_writeSlot hfree, ofNat_toNat_self]
  split_ifs with hp
  exacts [.inr (.inl ⟨hp.1, hp.2.1, hp.2.2, rfl⟩), .inr (.inr rfl)]

/-- Installing an enabled entry from a zeroed buffer, as an install whose read failed does, when
no slot holds its address: slot 0 is the entry's, and when the kernel takes the control word
every other slot of the register set is emptied. -/
theorem of_install_zeroed (h : ArmAgree bps k) {b : HardwareBreakpoint} (hb : b.addr ≠ 0)
    (hclear : ∀ j < 16, slotAddr (getRegset k b.tid (commandOf b)) j ≠ b.addr)
    (hkeys : (bps'.map fun e => (e.tid, e.addr)).Nodup) (hnz : ∀ e ∈ bps', e.addr ≠ 0)
    (hnorm : ∀ e ∈ bps', e.Normal) (hbmem : b ∈ bps') (hben : b.enabled = true)
    (hold : ∀ e ∈ bps, e.enabled = true → e ∈ bps') :
    ArmAgree bps' (setRegset k b.tid (commandOf b)
      (writeSlot (fun _ => 0) 0 b.addr.toNat (controlOf b).toNat)) := by
  refine h.of_slots (i := 0) hclear hkeys hnz hnorm hbmem hben hold (fun t bank j hj => ?_)
    (fun t bank j hj hz => ?_)
  · rw [slotAddr_setRegset_zeroed _ _ _ _ hj, ofNat_toNat_self]
    split_ifs with htb hj0
    exacts [.inr (.inl ⟨htb.1, htb.2, hj0, rfl⟩), .inl rfl, .inr (.inr rfl), .inr (.inr rfl)]
  · rw [slotAddr_setRegset_zeroed _ _ _ _ hj] at hz
    rw [slotCtrl_setRegset_zeroed _ _ _ _ hj]
    simp only [ofNat_toNat_self] at hz ⊢
    by_cases htb : t = b.tid ∧ bank = commandOf b
    · rw [if_pos htb] at hz
      by_cases hj0 : j = 0
      · rw [if_pos hj0] at hz
        exact absurd hz hb
      · rw [if_neg hj0] at hz
        by_cases hc : ctrlAccepted (commandOf b) (controlOf b) = true
        · rw [if_pos (And.intro htb.1 (And.intro htb.2 hc)), if_neg hj0]
        · rw [if_neg hc] at hz
          rw [if_neg fun h => hc h.2.2]
          exact h.tidy t bank j hj hz
    · rw [if_neg htb] at hz
      rw [if_neg fun h => htb ⟨h.1, h.2.1⟩]
      exact h.tidy t bank j hj hz

/-- What `remove_hardware_breakpoint` leaves: no slot of the entry's register set holds its
address. -/
theorem remove_clear (h : ArmAgree bps k) {b : HardwareBreakpoint} (hb : b.addr ≠ 0) :
    ∀ j < 16,
      slotAddr (getRegset (removeHardwareBreakpointArm k b) b.tid (commandOf b)) j ≠ b.addr := by
  unfold removeHardwareBreakpointArm
  dsimp only
  split_ifs with hnone
  · intro j hj hj'
    have := @scanDbgRegs_fail (getRegset k b.tid (commandOf b)) (· == b.addr) j (by omega)
    simp [hj'] at this
  · have hi := lt_of_le_of_ne scanDbgRegs_le hnone
    have hslot : slotAddr (getRegset k b.tid (commandOf b))
        (scanDbgRegs (· == b.addr) (getRegset k b.tid (commandOf b))) = b.addr := by
      simpa using scanDbgRegs_pass hi
    intro j hj hj'
    rw [slotAddr_setRegset_writeSlot hi] at hj'
    split_ifs at hj' with hp
    · exact hb (by rw [← hj']; rfl)
    · exact hp ⟨rfl, rfl, h.distinct _ _ j _ hj hi (hj' ▸ hb) (hj'.trans hslot.symm)⟩

/-- Removing an entry, enabled or not: the slots other than the one it frees stay with their
entries. -/
theorem of_remove (h : ArmAgree bps k) {b : HardwareBreakpoint} (hb : b.addr ≠ 0)
    (hkeys : (bps'.map fun e => (e.tid, e.addr)).Nodup) (hnz : ∀ e ∈ bps', e.addr ≠ 0)
    (hnorm : ∀ e ∈ bps', e.Normal) (hold : ∀ e ∈ bps, e.enabled = true → e ≠ b → e ∈ bps') :
    ArmAgree bps' (removeHardwareBreakpointArm k b) := by
  have hclear := h.remove_clear hb
  -- every slot the remove leaves is empty or as it was
  have hslot : ∀ t bank j, slotAddr (getRegset (removeHardwareBreakpointArm k b) t bank) j = 0 ∨
      slotAddr (getRegset (removeHardwareBreakpointArm k b) t bank) j =
        slotAddr (getRegset k t bank) j := fun t bank j => by
    unfold removeHardwareBreakpointArm
    dsimp only
    split_ifs with hnone
    · exact .inr rfl
    · rw [slotAddr_setRegset_writeSlot (lt_of_le_of_ne scanDbgRegs_le hnone)]
      split_ifs
      exacts [.inl rfl, .inr rfl]
  refine ⟨hkeys, hnz, hnorm, fun t bank j hj hne => ?_, fun t bank j m hj hm hne heq => ?_,
    tidy_removeHardwareBreakpointArm h.tidy b⟩
  · have hold' := (hslot t bank j).resolve_left hne
    rw [hold'] at hne ⊢
    obtain ⟨e, he, het, hc, hen, hea⟩ := h.owned t bank j hj hne
    refine ⟨e, hold e he hen fun heb => hclear j hj ?_, het, hc, hen, hea⟩
    subst heb het hc
    rw [hold']
    exact hea.symm
  · have hj' := (hslot t bank j).resolve_left hne
    have hm' := (hslot t bank m).resolve_left (heq ▸ hne)
    rw [hj'] at hne heq
    rw [hm'] at heq
    exact h.distinct t bank j m hj hm hne heq

end ArmAgree

/-! ## The step-overs -/

section StepOver

variable {w : ArmWorld} {bp : HardwareBreakpoint}

theorem replace_self (l : List HardwareBreakpoint) (a : HardwareBreakpoint) : l.replace a a = l := by
  induction l with
  | nil => rfl
  | cons b bs ih =>
    rw [List.replace_cons]
    cases hab : a == b
    · show b :: bs.replace a a = b :: bs
      rw [ih]
    · show a :: bs = b :: bs
      rw [beq_iff_eq.1 hab]

theorem hitEntry_spec {si : Nat → Option SigInfo} {bps : List HardwareBreakpoint} {tid : Nat}
    (h : hitEntry si bps tid = some bp) :
    bp ∈ bps ∧ bp.tid = tid ∧ bp.enabled = true ∧ isBreakpointHitArm si bp = true := by
  have hp := List.find?_some h
  simp only [Bool.and_eq_true, beq_iff_eq] at hp
  exact ⟨List.mem_of_find?_eq_some h, hp.1.1, hp.1.2, hp.2⟩

/-- The install of a step-over gives the entry back unchanged, so the table stays. -/
theorem stepOverArm_of_normal (hn : bp.Normal) (getOk setOk : Bool) :
    stepOverArm getOk setOk w bp = (removeHardwareBreakpointArm w.regsets bp,
      ⟨w.hwBHead, (installHardwareBreakpointArmWith getOk setOk
        (removeHardwareBreakpointArm w.regsets bp) bp).1⟩) := by
  unfold stepOverArm
  dsimp only
  rw [installHardwareBreakpointArmWith_entry hn, replace_self]

/-- The step-over of an enabled entry, whatever the requests of its install find: while the
thread steps no slot of the entry's register set holds its address, and after it the table is
as it was and agrees with the register sets. -/
theorem ArmAgree.stepOverArm (h : ArmAgree w.hwBHead w.regsets) (hb : bp ∈ w.hwBHead)
    (hben : bp.enabled = true) (getOk setOk : Bool) :
    (∀ j < 16,
      slotAddr (getRegset (stepOverArm getOk setOk w bp).1 bp.tid (commandOf bp)) j ≠ bp.addr) ∧
    (stepOverArm getOk setOk w bp).2.hwBHead = w.hwBHead ∧
    ArmAgree (stepOverArm getOk setOk w bp).2.hwBHead
      (stepOverArm getOk setOk w bp).2.regsets := by
  have hnz := h.nonzero bp hb
  have hn := h.normal bp hb
  have h₁ : ArmAgree w.hwBHead (removeHardwareBreakpointArm w.regsets bp) :=
    h.of_remove hnz h.keys h.nonzero h.normal fun e he _ _ => he
  have hclear := h.remove_clear hnz
  rw [stepOverArm_of_normal hn]
  dsimp only
  refine ⟨hclear, rfl, ?_⟩
  rcases installHardwareBreakpointArmWith_cases (k := removeHardwareBreakpointArm w.regsets bp)
    hn getOk setOk with he | ⟨hfree, he⟩ | he <;> rw [he] <;> dsimp only
  · exact h₁
  · exact h₁.of_install hnz hfree hclear h.keys h.nonzero h.normal hb hben fun e he _ => he
  · exact h₁.of_install_zeroed hnz hclear h.keys h.nonzero h.normal hb hben fun e he _ => he

theorem singlestepArm_of_none {si : Nat → Option SigInfo} {getOk setOk : Bool} {tid : Nat}
    (h : hitEntry si w.hwBHead tid = none) : singlestepArm si getOk setOk w tid = (w.regsets, w) := by
  unfold singlestepArm; rw [h]

theorem singlestepArm_of_some {si : Nat → Option SigInfo} {getOk setOk : Bool} {tid : Nat}
    (h : hitEntry si w.hwBHead tid = some bp) :
    singlestepArm si getOk setOk w tid = stepOverArm getOk setOk w bp := by
  unfold singlestepArm; rw [h]

/-- `singlestep` on AArch64: the step-over when the thread reports an entry, nothing otherwise. -/
theorem ArmAgree.singlestepArm (h : ArmAgree w.hwBHead w.regsets) (si : Nat → Option SigInfo)
    (getOk setOk : Bool) (tid : Nat) :
    (∀ bp, hitEntry si w.hwBHead tid = some bp → ∀ j < 16,
      slotAddr (getRegset (singlestepArm si getOk setOk w tid).1 bp.tid (commandOf bp)) j ≠
        bp.addr) ∧
    (singlestepArm si getOk setOk w tid).2.hwBHead = w.hwBHead ∧
    ArmAgree (singlestepArm si getOk setOk w tid).2.hwBHead
      (singlestepArm si getOk setOk w tid).2.regsets := by
  cases hhit : hitEntry si w.hwBHead tid with
  | none =>
    rw [singlestepArm_of_none hhit]
    exact ⟨fun _ hb' => Option.noConfusion hb', rfl, h⟩
  | some bp =>
    obtain ⟨hb, -, hben, -⟩ := hitEntry_spec hhit
    rw [singlestepArm_of_some hhit]
    obtain ⟨hclear, htab, h'⟩ := h.stepOverArm hb hben getOk setOk
    exact ⟨fun b hb' => by obtain rfl := Option.some.inj hb'; exact hclear, htab, h'⟩

theorem stepOversArm_cons_of_none {si : Nat → Option SigInfo} {stepOk : Nat → Bool} {t : Nat}
    {ts : List Nat} (h : hitEntry si w.hwBHead t = none) :
    stepOversArm si stepOk (t :: ts) w = stepOversArm si stepOk ts w := by
  simp only [stepOversArm, h]

theorem stepOversArm_cons_of_some {si : Nat → Option SigInfo} {stepOk : Nat → Bool} {t : Nat}
    {ts : List Nat} (h : hitEntry si w.hwBHead t = some bp) :
    stepOversArm si stepOk (t :: ts) w =
      if stepOk t then stepOversArm si stepOk ts (stepOverArm true true w bp).2
      else (⟨w.hwBHead, removeHardwareBreakpointArm w.regsets bp⟩, false) := by
  simp only [stepOversArm, h]

/-- An enabled entry of the table that no slot of its register set holds. -/
def ArmWorld.Disarmed (w : ArmWorld) : Prop :=
  ∃ bp ∈ w.hwBHead, bp.enabled = true ∧
    ∀ j < 16, slotAddr (getRegset w.regsets bp.tid (commandOf bp)) j ≠ bp.addr

/-- The loop of `prepare_for_run` keeps the table and the agreement, and when a single-step
fails, the entry it stepped over is left disarmed. -/
theorem stepOversArm_spec (si : Nat → Option SigInfo) (stepOk : Nat → Bool) (ts : List Nat)
    (h : ArmAgree w.hwBHead w.regsets) :
    (stepOversArm si stepOk ts w).1.hwBHead = w.hwBHead ∧
    ArmAgree (stepOversArm si stepOk ts w).1.hwBHead (stepOversArm si stepOk ts w).1.regsets ∧
    ((stepOversArm si stepOk ts w).2 = false → (stepOversArm si stepOk ts w).1.Disarmed) := by
  induction ts generalizing w with
  | nil => exact ⟨rfl, h, fun h => nomatch h⟩
  | cons t ts ih =>
    cases hhit : hitEntry si w.hwBHead t with
    | none =>
      rw [stepOversArm_cons_of_none hhit]
      exact ih h
    | some bp =>
      obtain ⟨hb, -, hben, -⟩ := hitEntry_spec hhit
      rw [stepOversArm_cons_of_some hhit]
      cases hok : stepOk t
      · rw [if_neg Bool.false_ne_true]
        refine ⟨rfl, ?_, fun _ => ⟨bp, hb, hben, ?_⟩⟩ <;> dsimp only
        exacts [h.of_remove (h.nonzero bp hb) h.keys h.nonzero h.normal fun e he _ _ => he,
          h.remove_clear (h.nonzero bp hb)]
      · simp only [↓reduceIte]
        obtain ⟨-, htab, h'⟩ := h.stepOverArm hb hben true true
        obtain ⟨h₁, h₂, h₃⟩ := ih h'
        exact ⟨h₁.trans htab, h₂, h₃⟩

end StepOver

/-- Installing an enabled entry whose address no slot of its register set holds, whatever the
requests of the install find. -/
theorem ArmAgree.of_installWith {bps bps' : List HardwareBreakpoint} {k : Regsets}
    (h : ArmAgree bps k) {b : HardwareBreakpoint} (hb : b.addr ≠ 0) (hn : b.Normal)
    (hclear : ∀ j < 16, slotAddr (getRegset k b.tid (commandOf b)) j ≠ b.addr)
    (hkeys : (bps'.map fun e => (e.tid, e.addr)).Nodup) (hnz : ∀ e ∈ bps', e.addr ≠ 0)
    (hnorm : ∀ e ∈ bps', e.Normal) (hbmem : b ∈ bps') (hben : b.enabled = true)
    (hold : ∀ e ∈ bps, e.enabled = true → e ∈ bps') (getOk setOk : Bool) :
    ArmAgree bps' (installHardwareBreakpointArmWith getOk setOk k b).1 := by
  rcases installHardwareBreakpointArmWith_cases (k := k) hn getOk setOk with he | ⟨hfree, he⟩ | he <;>
    rw [he] <;> dsimp only
  · exact h.mono hkeys hnz hnorm hold
  · exact h.of_install hb hfree hclear hkeys hnz hnorm hbmem hben hold
  · exact h.of_install_zeroed hb hclear hkeys hnz hnorm hbmem hben hold

/-- The install reads no flag of the entry. -/
theorem installHardwareBreakpointArmWith_enabled (getOk setOk : Bool) (k : Regsets)
    (b : HardwareBreakpoint) (v : Bool) :
    (installHardwareBreakpointArmWith getOk setOk k { b with enabled := v }).1 =
      (installHardwareBreakpointArmWith getOk setOk k b).1 := by
  simp only [installHardwareBreakpointArmWith, commandOf, controlOf, apply_ite Prod.fst,
    apply_ite HardwareBreakpoint.len, apply_ite HardwareBreakpoint.addr,
    apply_ite HardwareBreakpoint.type]

/-! ## The table operations -/

section Operations

variable {w : ArmWorld} {tid : Nat} {address : BitVec 64}

theorem armAgree_registerHwBreakpointArm (h : ArmAgree w.hwBHead w.regsets) (ha : address ≠ 0)
    {type : Char × Char} {len : Nat}
    (hfree : w.hwBHead.any (·.IsKey tid address) = false →
      scanDbgRegs (· == 0) (getRegset w.regsets tid (commandOf ⟨address, tid, true, type, len⟩)) < 16) :
    ArmAgree (registerHwBreakpointArm w tid address type len).hwBHead
      (registerHwBreakpointArm w tid address type len).regsets := by
  unfold registerHwBreakpointArm
  split_ifs with hp
  · exact h
  · simp only [Bool.not_eq_true] at hp
    have habs : ∀ e ∈ w.hwBHead, (e.tid, e.addr) ≠ (tid, address) := fun e he he' => by
      have := List.any_eq_false.1 hp e he
      rw [← isKey_iff] at he'
      exact this he'
    have hfree' := hfree hp
    obtain ⟨len', hinst⟩ :=
      @installHardwareBreakpointArm_of_lt w.regsets ⟨address, tid, true, type, len⟩ hfree'
    have hn := @installHardwareBreakpointArm_normal w.regsets ⟨address, tid, true, type, len⟩ hfree'
    rw [hinst] at hn
    dsimp only at hn ⊢
    rw [hinst]
    have hnotin : (tid, address) ∉ w.hwBHead.map fun e => (e.tid, e.addr) := fun hm => by
      obtain ⟨e, he, he'⟩ := List.mem_map.1 hm
      exact habs e he he'
    exact h.of_install (b := { (⟨address, tid, true, type, len⟩ : HardwareBreakpoint) with len := len' })
      ha hfree' (h.not_held ha fun e he _ ht hea => habs e he (by simp [ht, hea]))
      (List.nodup_cons.2 ⟨hnotin, h.keys⟩) (List.forall_mem_cons.2 ⟨ha, h.nonzero⟩)
      (List.forall_mem_cons.2 ⟨hn, h.normal⟩) (List.mem_cons_self _ _) rfl
      fun e he _ => List.mem_cons_of_mem _ he

theorem armAgree_unregisterHwBreakpointArm (h : ArmAgree w.hwBHead w.regsets) :
    ArmAgree (unregisterHwBreakpointArm w tid address).hwBHead
      (unregisterHwBreakpointArm w tid address).regsets := by
  unfold unregisterHwBreakpointArm
  split
  · exact h
  · rename_i b hfind
    have hb := List.mem_of_find?_eq_some hfind
    have hmem : ∀ {e}, e ∈ w.hwBHead.filter (fun e => !e.IsKey tid address) ↔
        e ∈ w.hwBHead ∧ e ≠ b := fun {e} => by
      rw [List.mem_filter, Bool.not_eq_true', ← Bool.not_eq_true]
      exact and_congr_right fun he => not_congr
        ⟨find?_isKey_of_mem h.keys hfind he, fun heb => heb ▸ List.find?_some hfind⟩
    have hkeys := keys_filter h.keys fun e => !e.IsKey tid address
    have hnz : ∀ e ∈ w.hwBHead.filter (fun e => !e.IsKey tid address), e.addr ≠ 0 :=
      fun e he => h.nonzero e (hmem.1 he).1
    have hnorm : ∀ e ∈ w.hwBHead.filter (fun e => !e.IsKey tid address), e.Normal :=
      fun e he => h.normal e (hmem.1 he).1
    dsimp only
    rw [eraseP_isKey_eq_filter h.keys]
    split_ifs with hen
    · exact h.of_remove (h.nonzero b hb) hkeys hnz hnorm fun e he _ heb => hmem.2 ⟨he, heb⟩
    · exact h.mono hkeys hnz hnorm fun e he hen' => hmem.2 ⟨he, fun heb => hen (heb ▸ hen')⟩

theorem setHwEnabledArm_of_forall_not {v : Bool} {l : List HardwareBreakpoint}
    (h : ∀ e ∈ l, e.IsKey tid address = false) (k : Regsets) :
    setHwEnabledArm tid address v l k = (l, k) := by
  induction l with
  | nil => rfl
  | cons b bs ih =>
    simp only [setHwEnabledArm, h b (List.mem_cons_self _ _), Bool.false_eq_true, if_false,
      ih fun e he => h e (List.mem_cons_of_mem _ he)]

theorem toggleArm_entry {b : HardwareBreakpoint} (hn : b.Normal) (v : Bool) (k : Regsets) :
    (toggleArm v k b).2 = b := by
  unfold toggleArm
  split_ifs
  exacts [rfl, installHardwareBreakpointArmWith_entry hn true true, rfl]

/-- With distinct keys and normal entries the loop flags the one entry with the key and toggles
it. -/
theorem setHwEnabledArm_eq {v : Bool} {l : List HardwareBreakpoint}
    (hk : (l.map fun e => (e.tid, e.addr)).Nodup) (hn : ∀ e ∈ l, e.Normal) (k : Regsets) :
    setHwEnabledArm tid address v l k =
      (l.map fun e => if e.IsKey tid address then { e with enabled := v } else e,
        match l.find? (·.IsKey tid address) with
        | none => k
        | some b => (toggleArm v k b).1) := by
  induction l generalizing k with
  | nil => rfl
  | cons b bs ih =>
    by_cases hb : b.IsKey tid address = true
    · have hrest := not_isKey_of_nodup hk hb
      simp only [setHwEnabledArm, hb, if_true, List.find?_cons_of_pos _ hb, List.map_cons,
        setHwEnabledArm_of_forall_not hrest, toggleArm_entry (hn b (List.mem_cons_self _ _))]
      simp only [Prod.mk.injEq, List.cons.injEq, true_and, and_true]
      exact (List.map_congr_left fun e he => by simp [hrest e he]).trans (List.map_id _) |>.symm
    · simp only [Bool.not_eq_true] at hb
      rw [List.map_cons] at hk
      simp only [setHwEnabledArm, hb, Bool.false_eq_true, if_false,
        List.find?_cons_of_neg (p := fun x => x.IsKey tid address) (a := b) bs (by simp [hb]),
        List.map_cons, ih (List.nodup_cons.1 hk).2 (fun e he => hn e (List.mem_cons_of_mem _ he))]

theorem toggleArm_isKey (v : Bool) (k : Regsets) (b : HardwareBreakpoint) :
    (toggleArm v k b).2.IsKey tid address = b.IsKey tid address := by
  simp only [toggleArm, installHardwareBreakpointArm, installHardwareBreakpointArmWith,
    apply_ite Prod.snd]
  split_ifs <;> simp only [HardwareBreakpoint.IsKey]

/-- An entry that has the flag already is neither installed nor removed. -/
theorem toggleArm_flagged (v : Bool) (k : Regsets) (b : HardwareBreakpoint) :
    toggleArm v k { b with enabled := v } = (k, { b with enabled := v }) := by
  simp [toggleArm]

/-- A second pass with the same key and flag changes nothing: every entry with the key has the
flag already, so nothing is installed or removed again. -/
theorem setHwEnabledArm_setHwEnabledArm (v : Bool) : ∀ (l : List HardwareBreakpoint) (k : Regsets),
    setHwEnabledArm tid address v (setHwEnabledArm tid address v l k).1
      (setHwEnabledArm tid address v l k).2 = setHwEnabledArm tid address v l k
  | [], _ => rfl
  | b :: bs, k => by
    by_cases hb : b.IsKey tid address = true
    · have hkey : ({ (toggleArm v k b).2 with enabled := v } : HardwareBreakpoint).IsKey tid
          address = true := (toggleArm_isKey v k b).trans hb
      simp only [setHwEnabledArm, hb, hkey, if_true, toggleArm_flagged,
        setHwEnabledArm_setHwEnabledArm v bs]
    · simp only [Bool.not_eq_true] at hb
      simp only [setHwEnabledArm, hb, Bool.false_eq_true, if_false,
        setHwEnabledArm_setHwEnabledArm v bs]

theorem normal_map_setEnabled {l : List HardwareBreakpoint} (h : ∀ e ∈ l, e.Normal) (v : Bool) :
    ∀ e ∈ l.map (fun e => if e.IsKey tid address then { e with enabled := v } else e),
      e.Normal := fun e he => by
  obtain ⟨e₀, he₀, rfl⟩ := List.mem_map.1 he
  split_ifs <;> exact h e₀ he₀

/-- The AArch64 loop of `enable_hw_breakpoint` and `disable_hw_breakpoint` keeps the agreement
when the toggle of the entry with the key, if its flag changes, does. -/
theorem armAgree_setHwEnabledArm {v : Bool} (h : ArmAgree w.hwBHead w.regsets)
    (htoggle : ∀ b, w.hwBHead.find? (·.IsKey tid address) = some b → b.enabled ≠ v →
      ArmAgree (w.hwBHead.map fun e => if e.IsKey tid address then { e with enabled := v } else e)
        (toggleArm v w.regsets b).1) :
    ArmAgree (setHwEnabledArm tid address v w.hwBHead w.regsets).1
      (setHwEnabledArm tid address v w.hwBHead w.regsets).2 := by
  rw [setHwEnabledArm_eq h.keys h.normal]
  split
  · rename_i hfind
    rw [map_setEnabled_of_forall fun e he hek => absurd hek (List.find?_eq_none.1 hfind e he)]
    exact h
  · rename_i b hfind
    by_cases hen : b.enabled = v
    · rw [map_setEnabled_of_forall fun e he hek => find?_isKey_of_mem h.keys hfind he hek ▸ hen]
      simpa only [toggleArm, if_pos hen] using h
    · exact htoggle b hfind hen

/-- `enable_hw_breakpoint` keeps the agreement, a slot free or not: with none the entry is
enabled in the table and in no slot. -/
theorem armAgree_enableHwBreakpointArm (h : ArmAgree w.hwBHead w.regsets) :
    ArmAgree (enableHwBreakpointArm w tid address).hwBHead
      (enableHwBreakpointArm w tid address).regsets := by
  refine armAgree_setHwEnabledArm h fun b hfind hen => ?_
  have hb := List.mem_of_find?_eq_some hfind
  have hbk : b.IsKey tid address = true := List.find?_some hfind
  have hoff : b.enabled = false := by simpa using hen
  rw [toggleArm, if_neg hen, if_pos rfl, installHardwareBreakpointArm,
    ← installHardwareBreakpointArmWith_enabled true true _ b true]
  -- no enabled entry has the key, so no slot holds the address
  have hclear := h.not_held (b := { b with enabled := true }) (h.nonzero b hb)
    fun e he hen' ht hea => by
      rw [h.eq_of_key he hb ht hea, hoff] at hen'
      exact Bool.false_ne_true hen'
  refine h.of_installWith (b := { b with enabled := true }) (h.nonzero b hb) (h.normal b hb) hclear (keys_map_enabled h.keys true)
    (nonzero_map_setEnabled h.nonzero true) (normal_map_setEnabled h.normal true)
    (List.mem_map.2 ⟨b, hb, by simp [hbk]⟩) rfl (fun e he hen' => ?_) true true
  refine mem_map_setEnabled he (Bool.eq_false_iff.2 fun hek => ?_) true
  rw [find?_isKey_of_mem h.keys hfind he hek, hoff] at hen'
  exact Bool.false_ne_true hen'

theorem armAgree_disableHwBreakpointArm (h : ArmAgree w.hwBHead w.regsets) :
    ArmAgree (disableHwBreakpointArm w tid address).hwBHead
      (disableHwBreakpointArm w tid address).regsets := by
  refine armAgree_setHwEnabledArm h fun b hfind _ => ?_
  have hb := List.mem_of_find?_eq_some hfind
  rw [toggleArm, if_neg ‹_›, if_neg Bool.false_ne_true]
  dsimp only
  exact h.of_remove (h.nonzero b hb) (keys_map_enabled h.keys false)
    (nonzero_map_setEnabled h.nonzero false) (normal_map_setEnabled h.normal false)
    fun e he _ heb => mem_map_setEnabled he
      (Bool.eq_false_iff.2 fun hek => heb (find?_isKey_of_mem h.keys hfind he hek)) false

end Operations

/-- `enable_hw_breakpoint` and `disable_hw_breakpoint` are idempotent, on x86_64 and on AArch64,
from every state: a second call with the same key finds every entry with it flagged already,
installs and removes nothing, and changes nothing. -/
theorem hw_enable_disable_idempotent (w : World) (aw : ArmWorld) (tid : Nat)
    (address : BitVec 64) :
    enableHwBreakpoint (enableHwBreakpoint w tid address) tid address =
      enableHwBreakpoint w tid address ∧
    disableHwBreakpoint (disableHwBreakpoint w tid address) tid address =
      disableHwBreakpoint w tid address ∧
    enableHwBreakpointArm (enableHwBreakpointArm aw tid address) tid address =
      enableHwBreakpointArm aw tid address ∧
    disableHwBreakpointArm (disableHwBreakpointArm aw tid address) tid address =
      disableHwBreakpointArm aw tid address := by
  simp only [enableHwBreakpoint, disableHwBreakpoint, enableHwBreakpointArm,
    disableHwBreakpointArm, setHwEnabled_setHwEnabled, setHwEnabledArm_setHwEnabledArm, and_self]

/-! ## Sessions -/

/-- One call of an AArch64 session on the table and the register sets: a registration of a
nonzero address that finds a free slot for a new key, an unregistration, an enable, a disable,
`singlestep` for any `siginfo` and whatever the two requests of its install find, or the loop of
`prepare_for_run` whether its single-steps succeed or not. -/
inductive ArmSessionStep : ArmWorld → ArmWorld → Prop
  | register {w : ArmWorld} {tid : Nat} {address : BitVec 64} {type : Char × Char} {len : Nat}
      (ha : address ≠ 0)
      (hfree : w.hwBHead.any (·.IsKey tid address) = false →
        scanDbgRegs (· == 0) (getRegset w.regsets tid (commandOf ⟨address, tid, true, type, len⟩)) < 16) :
      ArmSessionStep w (registerHwBreakpointArm w tid address type len)
  | unregister (w : ArmWorld) (tid : Nat) (address : BitVec 64) :
      ArmSessionStep w (unregisterHwBreakpointArm w tid address)
  | enable (w : ArmWorld) (tid : Nat) (address : BitVec 64) :
      ArmSessionStep w (enableHwBreakpointArm w tid address)
  | disable (w : ArmWorld) (tid : Nat) (address : BitVec 64) :
      ArmSessionStep w (disableHwBreakpointArm w tid address)
  | singlestep (si : Nat → Option SigInfo) (getOk setOk : Bool) (w : ArmWorld) (tid : Nat) :
      ArmSessionStep w (singlestepArm si getOk setOk w tid).2
  | prepareForRun (si : Nat → Option SigInfo) (stepOk : Nat → Bool) (tids : List Nat)
      (w : ArmWorld) :
      ArmSessionStep w (stepOversArm si stepOk tids w).1

theorem ArmAgree.armStep {w w' : ArmWorld} (h : ArmAgree w.hwBHead w.regsets)
    (hs : ArmSessionStep w w') : ArmAgree w'.hwBHead w'.regsets := by
  cases hs with
  | register ha hfree => exact armAgree_registerHwBreakpointArm h ha hfree
  | unregister => exact armAgree_unregisterHwBreakpointArm h
  | enable => exact armAgree_enableHwBreakpointArm h
  | disable => exact armAgree_disableHwBreakpointArm h
  | singlestep si getOk setOk => exact (h.singlestepArm si getOk setOk _).2.2
  | prepareForRun si stepOk tids => exact (stepOversArm_spec si stepOk tids h).2.1

theorem armAgree_run {w₀ w : ArmWorld} (h₀ : ArmAgree w₀.hwBHead w₀.regsets)
    (hr : Relation.ReflTransGen ArmSessionStep w₀ w) : ArmAgree w.hwBHead w.regsets := by
  induction hr with
  | refl => exact h₀
  | tail _ hs ih => exact ih.armStep hs

/-- An empty table over register sets of zero bytes. -/
def ArmWorld.empty : ArmWorld := ⟨[], Regsets.zero⟩

theorem slotAddr_getRegset_zero (t : Nat) (bank : Bank) (i : Nat) :
    slotAddr (getRegset Regsets.zero t bank) i = 0 := by
  rw [show getRegset Regsets.zero t bank = fun _ => 0 from
    funext fun _ => by unfold getRegset; split_ifs <;> rfl, slotAddr_zero]

theorem armAgree_empty : ArmAgree ArmWorld.empty.hwBHead ArmWorld.empty.regsets where
  keys := List.nodup_nil
  nonzero _ he := nomatch he
  normal _ he := nomatch he
  owned t bank i _ hne := absurd (slotAddr_getRegset_zero t bank i) hne
  distinct t bank i _ _ _ hne := absurd (slotAddr_getRegset_zero t bank i) hne
  tidy := tidy_zero

/-! ## What a session guarantees -/

section Guarantees

variable {w : ArmWorld}

/-- An execute breakpoint at address 1 of thread 1, registered in an empty session. -/
def armAtOne : ArmWorld := registerHwBreakpointArm ArmWorld.empty 1 1 ('x', ' ') 1

theorem armAtOne_reachable : Relation.ReflTransGen ArmSessionStep ArmWorld.empty armAtOne :=
  .single (.register (by decide) fun _ => by decide)

/-- Every thread stopped by a hardware breakpoint at address 1. -/
def trapAtOne : Nat → Option SigInfo := fun _ => some ⟨sigtrap, 4, 1⟩

/-- The execute breakpoint of `armAtOne`, with the length its install gives it. -/
def armEntryAtOne : HardwareBreakpoint := ⟨1, 1, true, ('x', ' '), 4⟩

/-- Execute breakpoints at addresses 1 and 2 of thread 1, in slots 0 and 1. -/
def armAtOneTwo : ArmWorld := registerHwBreakpointArm armAtOne 1 2 ('x', ' ') 1

/-- Thread 1 stopped by the breakpoint at address 2: after a step-over whose read failed, the
breakpoint at address 1 is enabled in the table and in no slot. -/
example : ∀ j < 16, slotAddr (getRegset
    (singlestepArm (fun _ => some ⟨sigtrap, 4, 2⟩) false true armAtOneTwo 1).2.regsets 1 .hwBreak)
      j ≠ 1 := by
  decide

/-- The test `get_hit_hw_breakpoint` makes of an entry reads the thread's last stop only: a
hardware-breakpoint trap at the entry's key. -/
theorem getHitTest_eq (si : Nat → Option SigInfo) (tid : Nat) (b : HardwareBreakpoint) :
    (b.tid == tid && isBreakpointHitArm si b) =
      match si tid with
      | none => false
      | some s => (s.siSigno == sigtrap && s.siCode == 4) && b.IsKey tid s.siAddr := by
  unfold isBreakpointHitArm
  by_cases ht : b.tid = tid
  · subst ht
    cases si b.tid with
    | none => simp
    | some s =>
      simp only [HardwareBreakpoint.IsKey, beq_self_eq_true, Bool.true_and, Bool.and_true,
        Bool.beq_comm (a := s.siAddr)]
  · cases si tid <;> simp [HardwareBreakpoint.IsKey, beq_eq_false_iff_ne.2 ht]

/-- The address of the entry found by its key is the key's, and 0 when there is none. -/
theorem find?_isKey_addr (l : List HardwareBreakpoint) (tid : Nat) (a : BitVec 64) :
    ((l.find? (·.IsKey tid a)).map (·.addr)).getD 0 = if l.any (·.IsKey tid a) then a else 0 := by
  cases hf : l.find? (·.IsKey tid a) with
  | none => simp [List.any_eq_false.2 (List.find?_eq_none.1 hf)]
  | some b =>
    have hbk := List.find?_some hf
    rw [List.any_eq_true.2 ⟨b, List.mem_of_find?_eq_some hf, hbk⟩]
    rw [isKey_iff, Prod.mk.injEq] at hbk; simp [hbk.2]

/-- `get_hit_hw_breakpoint` on AArch64 answers the address of the thread's last stop when the stop
was a hardware-breakpoint trap and the thread has an entry at that address, enabled or not, and 0
otherwise. -/
theorem get_hit_reports_siginfo_address (si : Nat → Option SigInfo) (w : ArmWorld) (tid : Nat) :
    getHitHwBreakpointArm si w tid =
      match si tid with
      | none => 0
      | some s =>
        if s.siSigno = sigtrap ∧ s.siCode = 4 ∧ w.hwBHead.any (·.IsKey tid s.siAddr) then s.siAddr
        else 0 := by
  have hnone : ∀ l : List HardwareBreakpoint, l.find? (fun _ => false) = none :=
    fun _ => List.find?_eq_none.2 fun _ _ => Bool.false_ne_true
  simp only [getHitHwBreakpointArm, getHitTest_eq]
  cases si tid with
  | none => rw [hnone]; rfl
  | some s =>
    by_cases htrap : s.siSigno = sigtrap ∧ s.siCode = 4
    · simp only [htrap, beq_self_eq_true, Bool.true_and, true_and]
      exact find?_isKey_addr _ _ _
    · have : (s.siSigno == sigtrap && s.siCode == 4) = false := by simpa using htrap
      simp only [this, Bool.false_and, hnone]
      exact (if_neg fun h => htrap ⟨h.1, h.2.1⟩).symm

theorem get_hit_reports_siginfo_address_at_one :
    getHitHwBreakpointArm trapAtOne armAtOne 1 = 1 := by
  rw [get_hit_reports_siginfo_address]
  decide

end Guarantees

/-! ## A registration undone -/

end Libdebug
