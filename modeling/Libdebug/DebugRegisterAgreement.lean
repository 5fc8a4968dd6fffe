import Libdebug.Session

/-!
# The hardware-breakpoint table and the debug registers over whole sessions

`HwAgree` holds from a start with no entries and every DR0..DR3 zero, through every call of a
session that registers only nonzero addresses and installs only where a slot is free
(`hwAgree_reachable`).  Its consequence is the agreement the table is meant to have: an entry
is enabled exactly when one slot of its thread holds it, and every occupied slot belongs to an
enabled entry (`debug_registers_agree`).

The agreement makes `get_hit_hw_breakpoint` exact: whatever DR6 the kernel wrote at a stop, it
answers with the address in the slot DR6 names, and 0 when DR6 names none
(`get_hit_reports_dr6_slot`).

A registration into one of slots 0..2 undone by an unregistration restores the user area except
in DR7's bits of the slot it used (`hw_round_trip`): `remove_hardware_breakpoint` resets the
slot's condition and length fields but leaves its local-enable bit set.  Slot 3 is left out there:
its `int` shifts reach bit 31 and spill into DR7's upper half (`install_writes_dr7`).
-/

namespace Libdebug

/-- The calls a session may make while the agreement is tracked: registrations of nonzero
addresses that find a free slot, enables that find one, every other call but freeing the
tables and raw user-area writes. -/
def HwAllowed (w : World) : Call → Prop
  | .registerHwBreakpoint tid address _ _ => address ≠ 0 ∧
      (w.state.hwBHead.any (·.IsKey tid address) = false → scanSlots slotFree (w.user tid) < 4)
  | .enableHwBreakpoint tid address => ∀ b ∈ w.state.hwBHead, b.IsKey tid address = true →
      b.enabled = false → scanSlots slotFree (w.user tid) < 4
  | .freeBreakpoints | .pokeuser .. => False
  | _ => True

variable {arch : Arch} {o : Oracle} {pid : Nat} {w w' : World}

theorem hwAgree_exec {c : Call} (h : HwAgree w.state.hwBHead w.user) (hc : HwAllowed w c)
    (he : exec arch o pid c w = some w') : HwAgree w'.state.hwBHead w'.user := by
  by_cases hr : c.Runs
  · rw [(exec_frame hr he).hw, (exec_frame hr he).user]; exact h
  by_cases ht : c.TouchesDebugRegs
  swap
  · rw [(exec_debugRegs ht hr he).1, (exec_debugRegs ht hr he).2]; exact h
  cases c <;> simp only [Call.TouchesDebugRegs, not_true_eq_false] at ht <;>
    simp only [HwAllowed] at hc <;> simp only [exec, Option.some.injEq] at he <;> subst he
  · exact hwAgree_registerHwBreakpoint h hc.1 hc.2 _ _
  · exact hwAgree_unregisterHwBreakpoint h
  · exact hwAgree_enableHwBreakpoint h hc
  · exact hwAgree_disableHwBreakpoint h

/-- The agreement holds in every state of a tracked session that starts with no entries and
every DR0..DR3 zero. -/
theorem hwAgree_reachable {w₀ : World} (h₀ : w₀.state.hwBHead = [])
    (hz : ∀ t i, i < 4 → w₀.user t (drOffset i) = 0)
    (hr : Reachable arch o pid HwAllowed w₀ w) : HwAgree w.state.hwBHead w.user :=
  hr.induction (P := fun w => HwAgree w.state.hwBHead w.user)
    (by
      show HwAgree w₀.state.hwBHead w₀.user
      rw [h₀]
      exact ⟨List.nodup_nil, by simp, by simp, fun t i hi hne => absurd (hz t i hi) hne,
        fun t i j hi _ hne => absurd (hz t i hi) hne⟩)
    fun _ _ _ h hc he => hwAgree_exec h hc he

/-- Under the agreement, an entry is enabled exactly when one slot holds it. -/
theorem HwAgree.enabled_iff {bps : List HardwareBreakpoint} {user : Nat → Nat → BitVec 64}
    (h : HwAgree bps user) {e : HardwareBreakpoint} (he : e ∈ bps) :
    e.enabled = true ↔ ∃! i, i < 4 ∧ HoldsIn user i e := by
  constructor
  · intro hen
    obtain ⟨i, hi, hs⟩ := h.held e he hen
    refine ⟨i, ⟨hi, hs⟩, fun j ⟨hj, hs'⟩ => (h.distinct e.tid i j hi hj ?_ ?_).symm⟩
    · rw [hs.1]; exact h.nonzero e he
    · rw [hs.1, hs'.1]
  · rintro ⟨i, ⟨hi, hs⟩, -⟩
    exact h.enabled_of_slot he hi hs.1

theorem debug_registers_agree {w₀ : World} (h₀ : w₀.state.hwBHead = [])
    (hz : ∀ t i, i < 4 → w₀.user t (drOffset i) = 0)
    (hr : Reachable arch o pid HwAllowed w₀ w) :
    (∀ e ∈ w.state.hwBHead, e.enabled = true ↔ ∃! i, i < 4 ∧ HoldsIn w.user i e) ∧
    ∀ t i, i < 4 → w.user t (drOffset i) ≠ 0 →
      ∃ e ∈ w.state.hwBHead, e.tid = t ∧ e.enabled = true ∧ e.addr = w.user t (drOffset i) :=
  have h := hwAgree_reachable h₀ hz hr
  ⟨fun _ he => h.enabled_iff he, h.owned⟩

/-- One hardware breakpoint, at address 1 on thread 1, registered in an empty session. -/
def oneHwBreakpoint : World := registerHwBreakpoint World.empty 1 1 ('x', ' ') 1

theorem oneHwBreakpoint_reachable :
    Reachable Arch.int3 Oracle.accepting 1 HwAllowed World.empty oneHwBreakpoint :=
  .step (.registerHwBreakpoint 1 1 ('x', ' ') 1) .init ⟨by decide, fun _ => by decide⟩ rfl

theorem debug_registers_agree_one :
    (∀ e ∈ oneHwBreakpoint.state.hwBHead,
      e.enabled = true ↔ ∃! i, i < 4 ∧ HoldsIn oneHwBreakpoint.user i e) ∧
    ∀ t i, i < 4 → oneHwBreakpoint.user t (drOffset i) ≠ 0 →
      ∃ e ∈ oneHwBreakpoint.state.hwBHead, e.tid = t ∧ e.enabled = true ∧
        e.addr = oneHwBreakpoint.user t (drOffset i) :=
  debug_registers_agree rfl (fun _ _ _ => rfl) oneHwBreakpoint_reachable

/-- Five registrations on thread 1, at addresses 1 to 5. -/
def fiveHwBreakpoints : World :=
  (List.range 5).foldl (fun w k => registerHwBreakpoint w 1 (BitVec.ofNat 64 (k + 1)) ('x', ' ') 1)
    World.empty

/-- The fifth registration finds no free slot, and its entry is enabled all the same. -/
theorem fifth_hw_breakpoint_unheld :
    ∃ e ∈ fiveHwBreakpoints.state.hwBHead, e.enabled = true ∧
      ∀ i < 4, fiveHwBreakpoints.user e.tid (drOffset i) ≠ e.addr := by
  decide

/-! ## The hit a stop reports -/

/-- The agreement reads DR0..DR3 and DR7 only. -/
theorem HwAgree.of_slots_eq {bps : List HardwareBreakpoint} {user user' : Nat → Nat → BitVec 64}
    (h : HwAgree bps user) (hs : ∀ t i, i < 4 → user' t (drOffset i) = user t (drOffset i))
    (h7 : ∀ t, user' t (drOffset 7) = user t (drOffset 7)) : HwAgree bps user' where
  keys := h.keys
  nonzero := h.nonzero
  held e he hen := by
    obtain ⟨i, hi, hh⟩ := h.held e he hen
    exact ⟨i, hi, (holdsIn_congr (hs _ i hi) fun n _ => by rw [h7]).2 hh⟩
  owned t i hi hne := by
    rw [hs t i hi] at hne ⊢
    exact h.owned t i hi hne
  distinct t i j hi hj hne heq := by
    rw [hs t i hi, hs t j hj] at *
    exact h.distinct t i j hi hj hne heq

/-- Under the agreement, `get_hit_hw_breakpoint` answers with the address in the slot DR6
names, and 0 when DR6 names none: the walk stops at an entry of the thread whose address is in
that slot, and an address in a slot always has an entry. -/
theorem HwAgree.getHitHwBreakpoint_eq (h : HwAgree w.state.hwBHead w.user) (tid : Nat) :
    getHitHwBreakpoint w tid =
      match (List.range 4).find? fun i => (w.user tid (drOffset 6)).getLsbD i with
      | none => 0
      | some i => w.user tid (drOffset i) := by
  unfold getHitHwBreakpoint
  cases hs : (List.range 4).find? fun i => (w.user tid (drOffset 6)).getLsbD i with
  | none =>
    rw [List.find?_eq_none.2 fun b _ => ?_]
    · rfl
    · simp only [Bool.and_eq_true, beq_iff_eq, not_and]
      rintro rfl
      simp [isBreakpointHit, hs]
  | some i =>
    have hi : i < 4 := List.mem_range.1 (List.mem_of_find?_eq_some hs)
    have hpred : ∀ b : HardwareBreakpoint, (b.tid == tid && isBreakpointHit (w.user b.tid) b) =
        (b.tid == tid && w.user tid (drOffset i) == b.addr) := fun b => by
      cases hb : b.tid == tid
      · rfl
      · rw [beq_iff_eq.1 hb]; simp [isBreakpointHit, hs]
    rw [show (fun b : HardwareBreakpoint => b.tid == tid && isBreakpointHit (w.user b.tid) b) = _
      from funext hpred]
    cases hf : w.state.hwBHead.find? fun b => b.tid == tid && w.user tid (drOffset i) == b.addr with
    | none =>
      rcases eq_or_ne (w.user tid (drOffset i)) 0 with ha | ha
      · exact ha.symm
      · obtain ⟨e, he, het, -, hea⟩ := h.owned tid i hi ha
        exact absurd (List.find?_eq_none.1 hf e he) (by simp [het, hea])
    | some b =>
      have hb := List.find?_some hf
      simp only [Bool.and_eq_true, beq_iff_eq] at hb
      exact hb.2.symm

/-- In a tracked session, whatever DR6 the kernel wrote at the stop, `get_hit_hw_breakpoint`
answers with the address in the slot DR6 names, or 0 when it names none. -/
theorem get_hit_reports_dr6_slot {w₀ : World} (h₀ : w₀.state.hwBHead = [])
    (hz : ∀ t i, i < 4 → w₀.user t (drOffset i) = 0)
    (hr : Reachable arch o pid HwAllowed w₀ w) (tid : Nat) (dr6 : BitVec 64) :
    getHitHwBreakpoint
        { w with user := Function.update w.user tid (Function.update (w.user tid) (drOffset 6) dr6) }
        tid =
      match (List.range 4).find? fun i => dr6.getLsbD i with
      | none => 0
      | some i => w.user tid (drOffset i) := by
  set user' := Function.update w.user tid (Function.update (w.user tid) (drOffset 6) dr6)
  have hslot : ∀ t i, i < 4 ∨ i = 7 → user' t (drOffset i) = w.user t (drOffset i) := by
    intro t i hi
    have h6 : drOffset i ≠ drOffset 6 := fun h => by have := drOffset_inj h; omega
    rcases eq_or_ne t tid with rfl | ht
    · simp [user', Function.update_noteq h6]
    · simp [user', Function.update_noteq ht]
  have hagree := (hwAgree_reachable h₀ hz hr).of_slots_eq (fun t i hi => hslot t i (.inl hi))
    fun t => hslot t 7 (.inr rfl)
  rw [HwAgree.getHitHwBreakpoint_eq (w := { w with user := user' }) hagree tid]
  have h6 : user' tid (drOffset 6) = dr6 := by simp [user']
  simp only [h6]
  cases hs : (List.range 4).find? fun i => dr6.getLsbD i with
  | none => rfl
  | some i => exact hslot tid i (.inl (List.mem_range.1 (List.mem_of_find?_eq_some hs)))

/-- Breakpoint 1 of thread 1 sits in slot 0; DR6 = 1 names slot 0. -/
theorem get_hit_reports_dr6_slot_one :
    getHitHwBreakpoint
        { oneHwBreakpoint with
          user := Function.update oneHwBreakpoint.user 1
            (Function.update (oneHwBreakpoint.user 1) (drOffset 6) 1) } 1 =
      match (List.range 4).find? fun i => (1#64).getLsbD i with
      | none => 0
      | some i => oneHwBreakpoint.user 1 (drOffset i) :=
  get_hit_reports_dr6_slot rfl (fun _ _ _ => rfl) oneHwBreakpoint_reachable 1 1

/-! ## A registration undone -/

/-- Below slot 3 a registration and its unregistration restore every debug register but DR7 of
the thread, and in that DR7 they leave the local-enable bit of the slot set and its condition and
length bits clear. -/
theorem hw_round_trip {tid : Nat} {a : BitVec 64}
    (hfree : scanSlots slotFree (w.user tid) < 3) (hheld : ∀ i < 4, w.user tid (drOffset i) ≠ a)
    (hnew : w.state.hwBHead.any (·.IsKey tid a) = false) (type : Char × Char) (len : Nat) :
    (unregisterHwBreakpoint (registerHwBreakpoint w tid a type len) tid a).state.hwBHead =
        w.state.hwBHead ∧
    (∀ t off, t ≠ tid ∨ off ≠ drOffset 7 →
      (unregisterHwBreakpoint (registerHwBreakpoint w tid a type len) tid a).user t off =
        w.user t off) ∧
    ∀ n < 64,
      ((unregisterHwBreakpoint (registerHwBreakpoint w tid a type len) tid a).user tid
        (drOffset 7)).getLsbD n =
      if n = 2 * scanSlots slotFree (w.user tid) then true
      else if ctrlCond (scanSlots slotFree (w.user tid)) ≤ n ∧
        n < ctrlCond (scanSlots slotFree (w.user tid)) + 4 then false
      else (w.user tid (drOffset 7)).getLsbD n := by
  set i := scanSlots slotFree (w.user tid) with hi
  have h3 : i < 3 := hfree
  replace hfree : i < 4 := by omega
  set b : HardwareBreakpoint := ⟨a, tid, true, type, len⟩
  have hbk : b.IsKey tid a = true := by simp [HardwareBreakpoint.IsKey, b]
  have hround : unregisterHwBreakpoint (registerHwBreakpoint w tid a type len) tid a =
      { w with user := removeOn (installOn w.user b) b } := by
    simp only [registerHwBreakpoint, hnew, Bool.false_eq_true, if_false, unregisterHwBreakpoint,
      List.find?_cons_of_pos _ hbk, List.eraseP_cons_of_pos hbk]
    rfl
  have hinst := installOn_self (b := b) hi.symm hfree
  have hscan : scanSlots (· == b.addr) (installOn w.user b b.tid) = i := by
    refine scanSlots_eq hfree (by simp [installOn_slot (b := b) hi.symm hfree, b]) fun j hj => ?_
    simpa [installOn_slot_of_ne (b := b) hi.symm hfree (by omega : j < 4) (by omega : j ≠ i), b]
      using hheld j (by omega)
  have hrem := removeOn_self (b := b) hscan hfree
  have hzero : w.user tid (drOffset i) = 0 := by simpa [slotFree] using scanSlots_pass hfree
  rw [hround]
  refine ⟨rfl, fun t off h => ?_, fun n hn => ?_⟩
  · by_cases ht : t = tid
    · subst ht
      have h7 : off ≠ drOffset 7 := h.resolve_left (not_not.2 rfl)
      show removeOn (installOn w.user b) b b.tid off = w.user b.tid off
      rw [hrem]
      by_cases hoi : off = drOffset i
      · rw [if_pos hoi, hoi]; exact hzero.symm
      · rw [if_neg hoi, if_neg h7, hinst, if_neg h7, if_neg hoi]
    · show removeOn (installOn w.user b) b t off = w.user t off
      rw [removeOn_of_ne ht, installOn_of_ne ht]
  · show (removeOn (installOn w.user b) b b.tid (drOffset 7)).getLsbD n = _
    rw [hrem, if_neg (drOffset_ne_seven hfree).symm, if_pos rfl, hinst, if_pos rfl,
      clearSlot_installDr7_getLsbD_eq hfree hn, if_neg (show ¬(i = 3 ∧ 32 ≤ n) by omega)]

theorem hw_round_trip_on_empty :
    (unregisterHwBreakpoint (registerHwBreakpoint World.empty 1 1 ('x', ' ') 1) 1 1).state.hwBHead =
        World.empty.state.hwBHead ∧
    (∀ t off, t ≠ 1 ∨ off ≠ drOffset 7 →
      (unregisterHwBreakpoint (registerHwBreakpoint World.empty 1 1 ('x', ' ') 1) 1 1).user t off =
        World.empty.user t off) ∧
    ∀ n < 64,
      ((unregisterHwBreakpoint (registerHwBreakpoint World.empty 1 1 ('x', ' ') 1) 1 1).user 1
        (drOffset 7)).getLsbD n =
      if n = 2 * scanSlots slotFree (World.empty.user 1) then true
      else if ctrlCond (scanSlots slotFree (World.empty.user 1)) ≤ n ∧
        n < ctrlCond (scanSlots slotFree (World.empty.user 1)) + 4 then false
      else (World.empty.user 1 (drOffset 7)).getLsbD n :=
  hw_round_trip (by decide) (by decide) (by rfl) _ _

/-- From all-zero debug registers, a registration and its unregistration leave DR7 at 1: the
local-enable bit of slot 0 stays set. -/
theorem hw_round_trip_leaves_local_enable :
    (unregisterHwBreakpoint (registerHwBreakpoint World.empty 1 1 ('x', ' ') 1) 1 1).user 1
      (drOffset 7) = 1#64 ∧ World.empty.user 1 (drOffset 7) = 0#64 := by
  decide

end Libdebug
