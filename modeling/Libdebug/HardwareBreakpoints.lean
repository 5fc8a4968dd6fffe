import Libdebug.DebugRegisters

/-!
# The hardware-breakpoint table

`register_hw_breakpoint`, `unregister_hw_breakpoint`, `enable_hw_breakpoint`,
`disable_hw_breakpoint` and `get_hit_hw_breakpoint` over the x86_64 debug registers.  An entry
is keyed by its thread and address; installing and removing act on the user area of the
entry's thread.

`HwAgree` is the agreement between the table and the debug registers: an enabled entry is held
by a slot of its thread that DR7 programs for it, and every occupied slot belongs to an enabled
entry.  Each operation keeps it (`hwAgree_registerHwBreakpoint` and the others) as long as the
address is nonzero, since a zero DRi is how the code marks a free slot, and an install finds a
free slot.
-/

namespace Libdebug

/-- The entry of thread `tid` for `address`, as the loops of the table test it. -/
def HardwareBreakpoint.IsKey (tid : Nat) (address : BitVec 64) (b : HardwareBreakpoint) : Bool :=
  b.addr == address && b.tid == tid

/-- `install_hardware_breakpoint` on the user area of the breakpoint's thread. -/
def installOn (user : Nat → Nat → BitVec 64) (bp : HardwareBreakpoint) : Nat → Nat → BitVec 64 :=
  Function.update user bp.tid (installHardwareBreakpoint (user bp.tid) bp)

/-- `remove_hardware_breakpoint` on the user area of the breakpoint's thread. -/
def removeOn (user : Nat → Nat → BitVec 64) (bp : HardwareBreakpoint) : Nat → Nat → BitVec 64 :=
  Function.update user bp.tid (removeHardwareBreakpoint (user bp.tid) bp)

/-- `register_hw_breakpoint`: refuse a key already present ("Breakpoint already registered");
otherwise push an enabled entry and install it. -/
def registerHwBreakpoint (w : World) (tid : Nat) (address : BitVec 64) (type : Char × Char)
    (len : Nat) : World :=
  if w.state.hwBHead.any (·.IsKey tid address) then w
  else
    let b : HardwareBreakpoint := ⟨address, tid, true, type, len⟩
    { w with state := { w.state with hwBHead := b :: w.state.hwBHead }, user := installOn w.user b }

/-- `unregister_hw_breakpoint`: unlink the first entry with the key, removing it from the debug
registers if it is enabled. -/
def unregisterHwBreakpoint (w : World) (tid : Nat) (address : BitVec 64) : World :=
  match w.state.hwBHead.find? (·.IsKey tid address) with
  | none => w
  | some b =>
    { w with
      state := { w.state with hwBHead := w.state.hwBHead.eraseP (·.IsKey tid address) }
      user := if b.enabled then removeOn w.user b else w.user }

/-- The loop shared by `enable_hw_breakpoint` and `disable_hw_breakpoint`: every entry with the
key whose flag differs from `v` is installed or removed, and gets the flag. -/
def setHwEnabled (tid : Nat) (address : BitVec 64) (v : Bool) :
    List HardwareBreakpoint → (Nat → Nat → BitVec 64) →
      List HardwareBreakpoint × (Nat → Nat → BitVec 64)
  | [], user => ([], user)
  | b :: bs, user =>
    if b.IsKey tid address then
      let r := setHwEnabled tid address v bs
        (if b.enabled = v then user else if v then installOn user b else removeOn user b)
      ({ b with enabled := v } :: r.1, r.2)
    else
      let r := setHwEnabled tid address v bs user
      (b :: r.1, r.2)

/-- `enable_hw_breakpoint`. -/
def enableHwBreakpoint (w : World) (tid : Nat) (address : BitVec 64) : World :=
  let r := setHwEnabled tid address true w.state.hwBHead w.user
  { w with state := { w.state with hwBHead := r.1 }, user := r.2 }

/-- `disable_hw_breakpoint`. -/
def disableHwBreakpoint (w : World) (tid : Nat) (address : BitVec 64) : World :=
  let r := setHwEnabled tid address false w.state.hwBHead w.user
  { w with state := { w.state with hwBHead := r.1 }, user := r.2 }

/-- `get_hit_hw_breakpoint`: the address of the first entry of the thread whose slot DR6
reports, or zero. -/
def getHitHwBreakpoint (w : World) (tid : Nat) : BitVec 64 :=
  ((w.state.hwBHead.find? fun b => b.tid == tid && isBreakpointHit (w.user b.tid) b).map
    (·.addr)).getD 0

/-! ## Agreement with the debug registers -/

/-- Slot `i` of the entry's thread holds the entry: DRi has its address and DR7 programs the
slot for its type and length. -/
def HoldsIn (user : Nat → Nat → BitVec 64) (i : Nat) (e : HardwareBreakpoint) : Prop :=
  user e.tid (drOffset i) = e.addr ∧ Programs (user e.tid (drOffset 7)) i e

/-- The table agrees with the debug registers of every thread. -/
structure HwAgree (bps : List HardwareBreakpoint) (user : Nat → Nat → BitVec 64) : Prop where
  keys : (bps.map fun b => (b.tid, b.addr)).Nodup
  nonzero : ∀ e ∈ bps, e.addr ≠ 0
  held : ∀ e ∈ bps, e.enabled = true → ∃ i < 4, HoldsIn user i e
  owned : ∀ t i, i < 4 → user t (drOffset i) ≠ 0 →
    ∃ e ∈ bps, e.tid = t ∧ e.enabled = true ∧ e.addr = user t (drOffset i)
  distinct : ∀ t i j, i < 4 → j < 4 → user t (drOffset i) ≠ 0 →
    user t (drOffset i) = user t (drOffset j) → i = j

namespace HwAgree

variable {bps : List HardwareBreakpoint} {user : Nat → Nat → BitVec 64}

/-- Two entries of one thread with one address are one entry. -/
theorem eq_of_key (h : HwAgree bps user) {e e' : HardwareBreakpoint} (he : e ∈ bps)
    (he' : e' ∈ bps) (ht : e.tid = e'.tid) (ha : e.addr = e'.addr) : e = e' :=
  List.inj_on_of_nodup_map h.keys he he' (by simp [ht, ha])

/-- A slot holding an entry's address holds it, and the entry is enabled. -/
theorem enabled_of_slot (h : HwAgree bps user) {e : HardwareBreakpoint} (he : e ∈ bps) {i : Nat}
    (hi : i < 4) (hs : user e.tid (drOffset i) = e.addr) : e.enabled = true := by
  obtain ⟨e', he', ht, hen, ha⟩ := h.owned e.tid i hi (hs ▸ h.nonzero e he)
  rw [h.eq_of_key he he' ht.symm (ha.trans hs).symm]
  exact hen

/-- The scan of `remove_hardware_breakpoint` for an enabled entry stops at its slot. -/
theorem scan_eq (h : HwAgree bps user) {e : HardwareBreakpoint} (he : e ∈ bps) {i : Nat}
    (hi : i < 4) (hs : HoldsIn user i e) : scanSlots (· == e.addr) (user e.tid) = i :=
  scanSlots_eq hi (by simp [hs.1]) fun j hj => by
    have : user e.tid (drOffset j) ≠ e.addr := fun e' =>
      absurd (h.distinct e.tid i j hi (by omega) (hs.1 ▸ h.nonzero e he) (hs.1.trans e'.symm))
        (by omega)
    simpa using this

end HwAgree

/-! ## Installing and removing on one thread -/

section Slots

variable {user : Nat → Nat → BitVec 64} {b : HardwareBreakpoint}

theorem drOffset_ne_seven {j : Nat} (hj : j < 4) : drOffset j ≠ drOffset 7 :=
  fun h => by have := drOffset_inj h; omega

/-- The bits of two different slots are apart, and below 32. -/
theorem slotBit_of_ne {i j n : Nat} (hi : i < 4) (hj : j < 4) (hij : i ≠ j) (h : SlotBit j n) :
    ¬SlotBit i n ∧ n < 32 := by
  simp only [SlotBit, ctrlCond] at *
  omega

theorem installOn_of_ne {t : Nat} (ht : t ≠ b.tid) : installOn user b t = user t :=
  Function.update_noteq ht _ _

theorem removeOn_of_ne {t : Nat} (ht : t ≠ b.tid) : removeOn user b t = user t :=
  Function.update_noteq ht _ _

/-- What installing in a free slot `i` does to the thread's registers. -/
theorem installOn_self {i : Nat} (hi : scanSlots slotFree (user b.tid) = i) (h4 : i < 4)
    (off : Nat) : installOn user b b.tid off =
      if off = drOffset 7 then installDr7 i (user b.tid (drOffset 7)) b
      else if off = drOffset i then b.addr else user b.tid off := by
  subst hi
  simp only [installOn, Function.update_same, installHardwareBreakpoint_of_lt h4,
    Function.update_apply]

theorem installOn_slot {i : Nat} (hi : scanSlots slotFree (user b.tid) = i) (h4 : i < 4) :
    installOn user b b.tid (drOffset i) = b.addr := by
  rw [installOn_self hi h4, if_neg (drOffset_ne_seven h4), if_pos rfl]

/-- Installing in slot `i` keeps the register of every other slot. -/
theorem installOn_slot_of_ne {i j : Nat} (hi : scanSlots slotFree (user b.tid) = i) (h4 : i < 4)
    (hj : j < 4) (hji : j ≠ i) : installOn user b b.tid (drOffset j) = user b.tid (drOffset j) := by
  rw [installOn_self hi h4, if_neg (drOffset_ne_seven hj), if_neg fun e => hji (drOffset_inj e)]

/-- What removing from slot `i` does to the thread's registers. -/
theorem removeOn_self {i : Nat} (hi : scanSlots (· == b.addr) (user b.tid) = i) (h4 : i < 4)
    (off : Nat) : removeOn user b b.tid off =
      if off = drOffset i then 0
      else if off = drOffset 7 then clearSlot i (user b.tid (drOffset 7)) else user b.tid off := by
  subst hi
  simp only [removeOn, Function.update_same, removeHardwareBreakpoint_of_lt h4,
    Function.update_apply]

theorem removeOn_slot {i : Nat} (hi : scanSlots (· == b.addr) (user b.tid) = i) (h4 : i < 4) :
    removeOn user b b.tid (drOffset i) = 0 := by
  rw [removeOn_self hi h4, if_pos rfl]

/-- Removing from slot `i` keeps the register of every other slot. -/
theorem removeOn_slot_of_ne {i j : Nat} (hi : scanSlots (· == b.addr) (user b.tid) = i)
    (h4 : i < 4) (hj : j < 4) (hji : j ≠ i) :
    removeOn user b b.tid (drOffset j) = user b.tid (drOffset j) := by
  rw [removeOn_self hi h4, if_neg fun e => hji (drOffset_inj e), if_neg (drOffset_ne_seven hj)]

/-- A slot keeps holding an entry when its register and its DR7 bits are kept. -/
theorem holdsIn_congr {user' : Nat → Nat → BitVec 64} {e : HardwareBreakpoint} {j : Nat}
    (hr : user' e.tid (drOffset j) = user e.tid (drOffset j))
    (h7 : ∀ n, SlotBit j n → (user' e.tid (drOffset 7)).getLsbD n = (user e.tid (drOffset 7)).getLsbD n) :
    HoldsIn user' j e ↔ HoldsIn user j e := by
  unfold HoldsIn
  rw [hr, programs_congr h7]

end Slots

namespace HwAgree

variable {bps bps' : List HardwareBreakpoint} {user : Nat → Nat → BitVec 64}

/-- The table may change without the debug registers as long as the enabled entries stay. -/
theorem of_enabled_eq (h : HwAgree bps user)
    (hkeys : (bps'.map fun e => (e.tid, e.addr)).Nodup) (hnz : ∀ e ∈ bps', e.addr ≠ 0)
    (hold : ∀ e ∈ bps, e.enabled = true → e ∈ bps')
    (hnew : ∀ e ∈ bps', e.enabled = true → e ∈ bps) : HwAgree bps' user where
  keys := hkeys
  nonzero := hnz
  held e he hen := h.held e (hnew e he hen) hen
  owned t i hi hne := by
    obtain ⟨e, he, ht, hen, ha⟩ := h.owned t i hi hne
    exact ⟨e, hold e he hen, ht, hen, ha⟩
  distinct := h.distinct

/-- Installing an entry in a free slot of its thread, when no enabled entry has its key. -/
theorem of_install (h : HwAgree bps user) {b : HardwareBreakpoint} (hb : b.addr ≠ 0)
    (hfree : scanSlots slotFree (user b.tid) < 4)
    (hkey : ∀ e ∈ bps, e.enabled = true → e.tid = b.tid → e.addr ≠ b.addr)
    (hkeys : (bps'.map fun e => (e.tid, e.addr)).Nodup) (hnz : ∀ e ∈ bps', e.addr ≠ 0)
    (hbmem : b ∈ bps') (hben : b.enabled = true)
    (hold : ∀ e ∈ bps, e.enabled = true → e ∈ bps')
    (hnew : ∀ e ∈ bps', e.enabled = true → e = b ∨ e ∈ bps) :
    HwAgree bps' (installOn user b) := by
  set i := scanSlots slotFree (user b.tid) with hi
  have hzero : user b.tid (drOffset i) = 0 := by simpa [slotFree] using scanSlots_pass hfree
  have hself := installOn_self (b := b) hi.symm hfree
  have hslot : installOn user b b.tid (drOffset i) = b.addr := installOn_slot hi.symm hfree
  have hval : ∀ j < 4, j ≠ i → installOn user b b.tid (drOffset j) = user b.tid (drOffset j) :=
    fun j hj hji => installOn_slot_of_ne hi.symm hfree hj hji
  -- an occupied slot of `b`'s thread other than `i` keeps its register and DR7 bits
  have hkeep : ∀ j < 4, j ≠ i → ∀ e : HardwareBreakpoint, e.tid = b.tid →
      (HoldsIn (installOn user b) j e ↔ HoldsIn user j e) := fun j hj hji e ht => by
    refine holdsIn_congr (by rw [ht]; exact hval j hj hji) fun n hn => ?_
    obtain ⟨hn', hn32⟩ := slotBit_of_ne hfree hj (Ne.symm hji) hn
    rw [ht, hself, if_pos rfl, installDr7_getLsbD_of_not_slotBit hfree hn32 hn']
  refine ⟨hkeys, hnz, fun e he hen => ?_, fun t j hj hne => ?_, fun t j k hj hk hne heq => ?_⟩
  · rcases hnew e he hen with rfl | he₀
    · refine ⟨i, hfree, hslot, ?_⟩
      rw [hself, if_pos rfl]; exact programs_installDr7 hfree _ _
    · obtain ⟨j, hj, hh⟩ := h.held e he₀ hen
      by_cases ht : e.tid = b.tid
      · have hji : j ≠ i := fun hji => h.nonzero e he₀ (by rw [← hh.1, ht, hji, hzero])
        exact ⟨j, hj, (hkeep j hj hji e ht).2 hh⟩
      · refine ⟨j, hj, ?_⟩
        unfold HoldsIn; rw [installOn_of_ne ht]; exact hh
  · by_cases ht : t = b.tid
    · subst ht
      by_cases hji : j = i
      · subst hji
        exact ⟨b, hbmem, rfl, hben, hslot.symm⟩
      · rw [hval j hj hji] at hne ⊢
        obtain ⟨e, he, het, hen, hea⟩ := h.owned b.tid j hj hne
        exact ⟨e, hold e he hen, het, hen, hea⟩
    · rw [installOn_of_ne ht] at hne ⊢
      obtain ⟨e, he, het, hen, hea⟩ := h.owned t j hj hne
      exact ⟨e, hold e he hen, het, hen, hea⟩
  · by_cases ht : t = b.tid
    · subst ht
      have hnoslot : ∀ m < 4, user b.tid (drOffset m) ≠ b.addr := fun m hm hm' => by
        obtain ⟨e, he, het, hen, hea⟩ := h.owned b.tid m hm (hm' ▸ hb)
        exact hkey e he hen het (hea.trans hm')
      by_cases hji : j = i <;> by_cases hki : k = i
      · omega
      · subst hji; rw [hslot, hval k hk hki] at heq; exact absurd heq.symm (hnoslot k hk)
      · subst hki; rw [hslot, hval j hj hji] at heq; exact absurd heq (hnoslot j hj)
      · rw [hval j hj hji, hval k hk hki] at heq
        exact h.distinct b.tid j k hj hk (hval j hj hji ▸ hne) heq
    · rw [installOn_of_ne ht] at hne heq
      exact h.distinct t j k hj hk hne heq

/-- Removing an enabled entry from its slot. -/
theorem of_remove (h : HwAgree bps user) {b : HardwareBreakpoint} (hb : b ∈ bps)
    (hben : b.enabled = true)
    (hkeys : (bps'.map fun e => (e.tid, e.addr)).Nodup) (hnz : ∀ e ∈ bps', e.addr ≠ 0)
    (hold : ∀ e ∈ bps, e.enabled = true → e ≠ b → e ∈ bps')
    (hnew : ∀ e ∈ bps', e.enabled = true → e ∈ bps ∧ e ≠ b) :
    HwAgree bps' (removeOn user b) := by
  obtain ⟨i, hi4, hh⟩ := h.held b hb hben
  have hscan := h.scan_eq hb hi4 hh
  have hself := removeOn_self (b := b) hscan hi4
  have hval : ∀ m < 4, m ≠ i → removeOn user b b.tid (drOffset m) = user b.tid (drOffset m) :=
    fun m hm hmi => removeOn_slot_of_ne hscan hi4 hm hmi
  -- an entry of `b`'s thread other than `b` is not in slot `i`
  have hother : ∀ e ∈ bps, e ≠ b → e.tid = b.tid → ∀ j < 4, HoldsIn user j e → j ≠ i :=
    fun e he hne ht j hj hej hji => hne (h.eq_of_key he hb ht (by rw [← hej.1, ← hh.1, ht, hji]))
  refine ⟨hkeys, hnz, fun e he hen => ?_, fun t j hj hne => ?_, fun t j k hj hk hne heq => ?_⟩
  · obtain ⟨he₀, heb⟩ := hnew e he hen
    obtain ⟨j, hj, hej⟩ := h.held e he₀ hen
    by_cases ht : e.tid = b.tid
    · have hji := hother e he₀ heb ht j hj hej
      refine ⟨j, hj, (holdsIn_congr ?_ fun n hn => ?_).2 hej⟩
      · rw [ht]; exact hval j hj hji
      · obtain ⟨hn', hn32⟩ := slotBit_of_ne hi4 hj (Ne.symm hji) hn
        rw [ht, hself, if_neg fun e => by have := drOffset_inj e; omega, if_pos rfl,
          clearSlot_getLsbD_of_not_slotBit hi4 hn32 hn']
    · refine ⟨j, hj, ?_⟩
      unfold HoldsIn; rw [removeOn_of_ne ht]; exact hej
  · by_cases ht : t = b.tid
    · subst ht
      by_cases hji : j = i
      · subst hji; exact absurd (removeOn_slot hscan hi4) hne
      · rw [hval j hj hji] at hne ⊢
        obtain ⟨e, he, het, hen, hea⟩ := h.owned b.tid j hj hne
        have heb : e ≠ b := fun heb => hji (h.distinct b.tid j i hj hi4 hne (by rw [← hea, heb, hh.1]))
        exact ⟨e, hold e he hen heb, het, hen, hea⟩
    · rw [removeOn_of_ne ht] at hne ⊢
      obtain ⟨e, he, het, hen, hea⟩ := h.owned t j hj hne
      have heb : e ≠ b := fun heb => ht (heb ▸ het.symm)
      exact ⟨e, hold e he hen heb, het, hen, hea⟩
  · by_cases ht : t = b.tid
    · subst ht
      by_cases hji : j = i
      · subst hji; exact absurd (removeOn_slot hscan hi4) hne
      · by_cases hki : k = i
        · subst hki; exact absurd (heq.trans (removeOn_slot hscan hi4)) hne
        · rw [hval j hj hji, hval k hk hki] at heq
          exact h.distinct b.tid j k hj hk (hval j hj hji ▸ hne) heq
    · rw [removeOn_of_ne ht] at hne heq
      exact h.distinct t j k hj hk hne heq

end HwAgree

/-! ## The operations keep the agreement -/

section Operations

variable {tid : Nat} {address : BitVec 64}

/-- The key of an entry as a pair. -/
theorem isKey_iff {tid : Nat} {address : BitVec 64} {b : HardwareBreakpoint} :
    b.IsKey tid address = true ↔ (b.tid, b.addr) = (tid, address) := by
  simp [HardwareBreakpoint.IsKey, and_comm]

/-- With distinct keys, no entry after a matching one matches. -/
theorem not_isKey_of_nodup {b : HardwareBreakpoint} {bs : List HardwareBreakpoint}
    (hk : ((b :: bs).map fun e => (e.tid, e.addr)).Nodup) (hb : b.IsKey tid address = true) :
    ∀ e ∈ bs, e.IsKey tid address = false := fun e he => Bool.eq_false_iff.2 fun hek => by
  rw [isKey_iff] at hb hek
  rw [List.map_cons] at hk
  exact (List.nodup_cons.1 hk).1 (List.mem_map.2 ⟨e, he, hek.trans hb.symm⟩)

theorem setHwEnabled_of_forall_not {v : Bool} {l : List HardwareBreakpoint}
    (h : ∀ e ∈ l, e.IsKey tid address = false) (user : Nat → Nat → BitVec 64) :
    setHwEnabled tid address v l user = (l, user) := by
  induction l with
  | nil => rfl
  | cons b bs ih =>
    simp only [setHwEnabled, h b (by simp), Bool.false_eq_true, if_false,
      ih fun e he => h e (by simp [he])]

/-- With distinct keys the loop flags the one entry with the key and installs or removes it. -/
theorem setHwEnabled_eq {v : Bool} {l : List HardwareBreakpoint}
    (hk : (l.map fun e => (e.tid, e.addr)).Nodup) (user : Nat → Nat → BitVec 64) :
    setHwEnabled tid address v l user =
      (l.map fun e => if e.IsKey tid address then { e with enabled := v } else e,
        match l.find? (·.IsKey tid address) with
        | none => user
        | some b => if b.enabled = v then user else if v then installOn user b else removeOn user b) := by
  induction l generalizing user with
  | nil => rfl
  | cons b bs ih =>
    by_cases hb : b.IsKey tid address = true
    · have hrest := not_isKey_of_nodup hk hb
      simp only [setHwEnabled, hb, if_true, List.find?_cons_of_pos _ hb, List.map_cons,
        setHwEnabled_of_forall_not hrest]
      simp only [Prod.mk.injEq, List.cons.injEq, true_and, and_true]
      exact (List.map_congr_left fun e he => by simp [hrest e he]).trans (List.map_id _) |>.symm
    · simp only [Bool.not_eq_true] at hb
      rw [List.map_cons] at hk
      simp only [setHwEnabled, hb, Bool.false_eq_true, if_false,
        List.find?_cons_of_neg (p := fun x => x.IsKey tid address) (a := b) bs (by simp [hb]),
        List.map_cons, ih (List.nodup_cons.1 hk).2]

/-- A second pass with the same key and flag changes nothing: every entry with the key has the
flag already, so nothing is installed or removed again. -/
theorem setHwEnabled_setHwEnabled (v : Bool) : ∀ (l : List HardwareBreakpoint)
    (user : Nat → Nat → BitVec 64),
    setHwEnabled tid address v (setHwEnabled tid address v l user).1
      (setHwEnabled tid address v l user).2 = setHwEnabled tid address v l user
  | [], _ => rfl
  | b :: bs, user => by
    by_cases hb : b.IsKey tid address = true
    · have hkey : ({ b with enabled := v } : HardwareBreakpoint).IsKey tid address = true := hb
      simp only [setHwEnabled, hb, hkey, if_true, setHwEnabled_setHwEnabled v bs]
    · simp only [Bool.not_eq_true] at hb
      simp only [setHwEnabled, hb, Bool.false_eq_true, if_false, setHwEnabled_setHwEnabled v bs]

/-- With distinct keys, unlinking the first entry with a key unlinks every entry with it. -/
theorem eraseP_isKey_eq_filter {l : List HardwareBreakpoint}
    (hk : (l.map fun e => (e.tid, e.addr)).Nodup) :
    l.eraseP (·.IsKey tid address) = l.filter fun e => !e.IsKey tid address := by
  induction l with
  | nil => rfl
  | cons b bs ih =>
    by_cases hb : b.IsKey tid address = true
    · rw [List.eraseP_cons_of_pos hb, List.filter_cons_of_neg (by simp [hb]),
        List.filter_eq_self.2 fun e he => by simp [not_isKey_of_nodup hk hb e he]]
    · rw [List.eraseP_cons_of_neg hb, List.filter_cons_of_pos (by simpa using hb),
        ih (List.nodup_cons.1 hk).2]

theorem keys_filter {l : List HardwareBreakpoint} (hk : (l.map fun e => (e.tid, e.addr)).Nodup)
    (p : HardwareBreakpoint → Bool) : ((l.filter p).map fun e => (e.tid, e.addr)).Nodup :=
  hk.sublist ((List.filter_sublist l).map _)

theorem keys_map_enabled {l : List HardwareBreakpoint} (hk : (l.map fun e => (e.tid, e.addr)).Nodup)
    (v : Bool) : ((l.map fun e => if e.IsKey tid address then { e with enabled := v } else e).map
      fun e => (e.tid, e.addr)).Nodup := by
  rw [List.map_map]
  convert hk using 2
  funext e
  simp only [Function.comp]
  split_ifs <;> rfl

variable {w : World}

theorem hwAgree_registerHwBreakpoint (h : HwAgree w.state.hwBHead w.user) (ha : address ≠ 0)
    (hfree : w.state.hwBHead.any (·.IsKey tid address) = false →
      scanSlots slotFree (w.user tid) < 4) (type : Char × Char) (len : Nat) :
    HwAgree (registerHwBreakpoint w tid address type len).state.hwBHead
      (registerHwBreakpoint w tid address type len).user := by
  unfold registerHwBreakpoint
  split_ifs with hp
  · exact h
  · simp only [Bool.not_eq_true] at hp
    have habs : ∀ e ∈ w.state.hwBHead, (e.tid, e.addr) ≠ (tid, address) := fun e he he' => by
      have := List.any_eq_false.1 hp e he
      rw [← isKey_iff] at he'
      simp [he'] at this
    refine h.of_install ha (hfree hp) (fun e he _ ht hea => habs e he (by simp [ht, hea]))
      ?_ ?_ (List.mem_cons_self _ _) rfl (fun e he _ => List.mem_cons_of_mem _ he)
      (fun e he _ => List.mem_cons.1 he)
    · simp only [List.map_cons, List.nodup_cons, List.mem_map, not_exists, not_and]
      exact ⟨fun e he he' => habs e he he', h.keys⟩
    · simp only [List.mem_cons, forall_eq_or_imp]
      exact ⟨ha, h.nonzero⟩

theorem hwAgree_unregisterHwBreakpoint (h : HwAgree w.state.hwBHead w.user) :
    HwAgree (unregisterHwBreakpoint w tid address).state.hwBHead
      (unregisterHwBreakpoint w tid address).user := by
  unfold unregisterHwBreakpoint
  split
  · exact h
  · rename_i b hfind
    have hb := List.mem_of_find?_eq_some hfind
    have hbk : b.IsKey tid address = true := List.find?_some hfind
    have hmem : ∀ e ∈ w.state.hwBHead, e ≠ b →
        e ∈ w.state.hwBHead.filter fun e => !e.IsKey tid address := fun e he heb => by
      refine List.mem_filter.2 ⟨he, ?_⟩
      by_contra hek
      simp only [Bool.not_eq_true', Bool.not_eq_false] at hek
      rw [isKey_iff] at hek hbk
      exact heb (h.eq_of_key he hb (by simpa using congrArg Prod.fst (hek.trans hbk.symm))
        (by simpa using congrArg Prod.snd (hek.trans hbk.symm)))
    have hsub : ∀ e ∈ w.state.hwBHead.filter (fun e => !e.IsKey tid address),
        e ∈ w.state.hwBHead ∧ e ≠ b := fun e he => by
      obtain ⟨he, hek⟩ := List.mem_filter.1 he
      exact ⟨he, fun heb => by rw [heb, hbk] at hek; simp at hek⟩
    simp only [eraseP_isKey_eq_filter h.keys]
    have hkeys := keys_filter h.keys (fun e => !e.IsKey tid address)
    have hnz : ∀ e ∈ w.state.hwBHead.filter (fun e => !e.IsKey tid address), e.addr ≠ 0 :=
      fun e he => h.nonzero e (hsub e he).1
    split_ifs with hen
    · exact h.of_remove hb hen hkeys hnz (fun e he _ heb => hmem e he heb)
        fun e he _ => hsub e he
    · exact h.of_enabled_eq hkeys hnz
        (fun e he hen' => hmem e he fun heb => by rw [heb] at hen'; exact hen hen')
        fun e he _ => (hsub e he).1

/-- The entry with a key, under distinct keys, is the one `find?` returns. -/
theorem find?_isKey_of_mem {l : List HardwareBreakpoint}
    (hk : (l.map fun e => (e.tid, e.addr)).Nodup) {b : HardwareBreakpoint}
    (hfind : l.find? (·.IsKey tid address) = some b) {e : HardwareBreakpoint} (he : e ∈ l)
    (hek : e.IsKey tid address = true) : e = b := by
  have hb := List.mem_of_find?_eq_some hfind
  have hbk : b.IsKey tid address = true := List.find?_some hfind
  rw [isKey_iff] at hek hbk
  exact List.inj_on_of_nodup_map hk he hb (hek.trans hbk.symm)

/-- Flagging the entries with a key changes nothing when each of them already has the flag. -/
theorem map_setEnabled_of_forall {l : List HardwareBreakpoint} {v : Bool}
    (h : ∀ e ∈ l, e.IsKey tid address = true → e.enabled = v) :
    l.map (fun e => if e.IsKey tid address then { e with enabled := v } else e) = l := by
  conv_rhs => rw [← List.map_id l]
  refine List.map_congr_left fun e he => ?_
  split_ifs with hek
  · rw [← h e he hek]; rfl
  · rfl

/-- Flagging entries keeps every address. -/
theorem nonzero_map_setEnabled {l : List HardwareBreakpoint} (h : ∀ e ∈ l, e.addr ≠ 0) (v : Bool) :
    ∀ e ∈ l.map (fun e => if e.IsKey tid address then { e with enabled := v } else e),
      e.addr ≠ 0 := fun e he => by
  obtain ⟨e₀, he₀, rfl⟩ := List.mem_map.1 he
  split_ifs <;> exact h e₀ he₀

/-- Flagging the entries with a key leaves every entry with another key in the table. -/
theorem mem_map_setEnabled {l : List HardwareBreakpoint} {e : HardwareBreakpoint} (he : e ∈ l)
    (hek : e.IsKey tid address = false) (v : Bool) :
    e ∈ l.map (fun e => if e.IsKey tid address then { e with enabled := v } else e) :=
  List.mem_map.2 ⟨e, he, by simp [hek]⟩

/-- With the flag on, an entry of the flagged table is the entry with the key, flagged, or an
old entry. -/
theorem mem_map_setEnabled_true {l : List HardwareBreakpoint}
    (hk : (l.map fun e => (e.tid, e.addr)).Nodup) {b : HardwareBreakpoint}
    (hfind : l.find? (·.IsKey tid address) = some b) {e : HardwareBreakpoint}
    (he : e ∈ l.map fun e => if e.IsKey tid address then { e with enabled := true } else e) :
    e = { b with enabled := true } ∨ e ∈ l := by
  obtain ⟨e₀, he₀, rfl⟩ := List.mem_map.1 he
  by_cases hek : e₀.IsKey tid address = true
  · exact .inl (by rw [if_pos hek, find?_isKey_of_mem hk hfind he₀ hek])
  · exact .inr (by rwa [if_neg hek])

/-- With the flag off, an enabled entry of the flagged table is an old entry without the key. -/
theorem mem_map_setEnabled_false {l : List HardwareBreakpoint} {e : HardwareBreakpoint}
    (he : e ∈ l.map fun e => if e.IsKey tid address then { e with enabled := false } else e)
    (hen : e.enabled = true) : e ∈ l ∧ e.IsKey tid address = false := by
  obtain ⟨e₀, he₀, rfl⟩ := List.mem_map.1 he
  by_cases hek : e₀.IsKey tid address = true
  · simp [hek] at hen
  · simp only [Bool.not_eq_true] at hek
    simpa [hek] using he₀

/-- The loop of `enable_hw_breakpoint` and `disable_hw_breakpoint` keeps the agreement when the
toggle of the entry with the key, if its flag changes, does. -/
theorem hwAgree_setHwEnabled {v : Bool} (h : HwAgree w.state.hwBHead w.user)
    (htoggle : ∀ b, w.state.hwBHead.find? (·.IsKey tid address) = some b → b.enabled ≠ v →
      HwAgree (w.state.hwBHead.map fun e => if e.IsKey tid address then { e with enabled := v } else e)
        (if v then installOn w.user b else removeOn w.user b)) :
    HwAgree (setHwEnabled tid address v w.state.hwBHead w.user).1
      (setHwEnabled tid address v w.state.hwBHead w.user).2 := by
  rw [setHwEnabled_eq h.keys]
  split
  · rename_i hfind
    rw [map_setEnabled_of_forall fun e he hek => absurd hek (List.find?_eq_none.1 hfind e he)]
    exact h
  · rename_i b hfind
    by_cases hen : b.enabled = v
    · rw [if_pos hen,
        map_setEnabled_of_forall fun e he hek => find?_isKey_of_mem h.keys hfind he hek ▸ hen]
      exact h
    · rw [if_neg hen]; exact htoggle b hfind hen

theorem hwAgree_enableHwBreakpoint (h : HwAgree w.state.hwBHead w.user)
    (hfree : ∀ b ∈ w.state.hwBHead, b.IsKey tid address = true → b.enabled = false →
      scanSlots slotFree (w.user tid) < 4) :
    HwAgree (enableHwBreakpoint w tid address).state.hwBHead
      (enableHwBreakpoint w tid address).user := by
  refine hwAgree_setHwEnabled h fun b hfind hen => ?_
  have hb := List.mem_of_find?_eq_some hfind
  have hbk : b.IsKey tid address = true := List.find?_some hfind
  have hbt : b.tid = tid ∧ b.addr = address := by simpa [isKey_iff] using hbk
  have hoff : b.enabled = false := by simpa using hen
  show HwAgree _ (installOn w.user { b with enabled := true })
  refine h.of_install (hbt.2 ▸ h.nonzero b hb) (hbt.1 ▸ hfree b hb hbk hoff)
    (fun e he hen' ht hea => ?_) (keys_map_enabled h.keys true) (nonzero_map_setEnabled h.nonzero true)
    (List.mem_map.2 ⟨b, hb, by simp [hbk]⟩) rfl (fun e he hen' => ?_)
    fun e he _ => mem_map_setEnabled_true h.keys hfind he
  · rw [h.eq_of_key he hb ht hea, hoff] at hen'; exact Bool.false_ne_true hen'
  · refine mem_map_setEnabled he (Bool.eq_false_iff.2 fun hek => ?_) true
    rw [find?_isKey_of_mem h.keys hfind he hek, hoff] at hen'; exact Bool.false_ne_true hen'

theorem hwAgree_disableHwBreakpoint (h : HwAgree w.state.hwBHead w.user) :
    HwAgree (disableHwBreakpoint w tid address).state.hwBHead
      (disableHwBreakpoint w tid address).user := by
  refine hwAgree_setHwEnabled h fun b hfind hen => ?_
  have hbk : b.IsKey tid address = true := List.find?_some hfind
  rw [if_neg Bool.false_ne_true]
  refine h.of_remove (List.mem_of_find?_eq_some hfind) (by simpa using hen)
    (keys_map_enabled h.keys false) (nonzero_map_setEnabled h.nonzero false)
    (fun e he _ heb => mem_map_setEnabled he
      (Bool.eq_false_iff.2 fun hek => heb (find?_isKey_of_mem h.keys hfind he hek)) false)
    fun e he hen' => ⟨(mem_map_setEnabled_false he hen').1, fun heb => ?_⟩
  have := (mem_map_setEnabled_false he hen').2
  rw [heb, hbk] at this; exact Bool.false_ne_true this.symm

end Operations

end Libdebug
