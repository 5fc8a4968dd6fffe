import Libdebug.HardwareBreakpoints

/-!
# The AArch64 debug-register adapter

AArch64 has no user area.  A thread's hardware breakpoints and its watchpoints are two register
sets, `NT_ARM_HW_BREAK` and `NT_ARM_HW_WATCH`, each read and written whole by
`PTRACE_GETREGSET` and `PTRACE_SETREGSET` as a `struct user_hwdebug_state` of
`SIZEOF_STRUCT_HWDEBUG_STATE` = 8 + 16 * 16 bytes: `dbg_info` and a pad, then sixteen slots of
an address, a control word and a pad.

The kernel keeps a register set as the bytes a `PTRACE_GETREGSET` returns, but it does not take a
written buffer whole.  Its `PTRACE_SETREGSET` skips `dbg_info` and the pads and stores slot after
slot, the address and then the control word, until it refuses a control word (`ctrlAccepted`);
that ends the request, the slot's address stored.  So the kernel only ever holds control words
it accepts (`Regsets.accepted`).

`install_hardware_breakpoint` and `remove_hardware_breakpoint` read a register set into a zeroed
buffer, change one slot and write it back: the slot's address is stored, and its control word
when the kernel accepts it (`getRegset_setRegset_writeSlot`).  `ptrace_peekuser` and
`ptrace_pokeuser` read or store one `unsigned long` at a byte offset of the same buffer, bit
`0x1000` of their address choosing the register set.  A store is read back where the kernel
takes it, within one slot's address and control word and with a control word it accepts, and
`dbg_info` and the pads keep their values (`peekuser_pokeuser`).  The word at `8 + 16 * i` is
slot `i`'s address, so an installed breakpoint is read back there (`peekuser_after_install`).
Offsets past the buffer are read and written by the code all the same; the model answers `none`
there.

A registration undone restores the register set bit for bit when the slot it took had a zero
control word, and every slot freed by `remove_hardware_breakpoint` has one (`Tidy`), so from
register sets in that state an install undone by its remove changes nothing
(`hw_round_trip_aarch64`): unlike DR7 on x86_64, no bit stays behind.
-/

namespace Libdebug

/-! ## Little-endian loads and stores -/

/-- The unsigned integer of the `n` bytes at `off`, least significant first. -/
def readLE (buf : Memory) (off : Nat) : Nat → Nat
  | 0 => 0
  | n + 1 => (buf off).toNat + 256 * readLE buf (off + 1) n

/-- A store of the `n`-byte unsigned integer `v` at `off`, least significant byte first. -/
def writeLE (buf : Memory) (off n v : Nat) : Memory := fun p =>
  if off ≤ p ∧ p < off + n then UInt8.ofNat (v / 256 ^ (p - off)) else buf p

section LittleEndian

variable {buf buf' : Memory}

theorem toNat_ofNat_byte (v : Nat) : (UInt8.ofNat v).toNat = v % 256 := rfl

theorem toNat_byte_lt (b : UInt8) : b.toNat < 256 := b.toNat_lt_size

theorem readLE_congr {off n : Nat} (h : ∀ j < n, buf (off + j) = buf' (off + j)) :
    readLE buf off n = readLE buf' off n := by
  induction n generalizing off with
  | zero => rfl
  | succ n ih =>
    simp only [readLE]
    rw [show buf off = buf' off by simpa using h 0 (by omega),
      ih fun j hj => by simpa [Nat.add_assoc, Nat.add_comm 1] using h (j + 1) (by omega)]

theorem readLE_lt (off n : Nat) : readLE buf off n < 256 ^ n := by
  induction n generalizing off with
  | zero => simp [readLE]
  | succ n ih =>
    have hb := toNat_byte_lt (buf off)
    have := ih (off + 1)
    rw [readLE, pow_succ]
    omega

theorem readLE_lt_two_pow (off n : Nat) : readLE buf off n < 2 ^ (8 * n) := by
  rw [pow_mul]; exact readLE_lt off n

/-- A load after a store of the same width at the same place reads the value, truncated. -/
theorem readLE_writeLE_self (off n v : Nat) : readLE (writeLE buf off n v) off n = v % 256 ^ n := by
  induction n generalizing off v with
  | zero => simp [readLE, Nat.mod_one]
  | succ n ih =>
    have hshift : readLE (writeLE buf off (n + 1) v) (off + 1) n =
        readLE (writeLE buf (off + 1) n (v / 256)) (off + 1) n :=
      readLE_congr fun j hj => by
        simp only [writeLE]
        rw [if_pos (by omega), if_pos (by omega), Nat.div_div_eq_div_mul, ← pow_succ']
        congr 3
        omega
    rw [readLE, hshift, ih, pow_succ', Nat.mod_mul]
    simp only [writeLE, le_refl, true_and, Nat.sub_self, pow_zero, Nat.div_one]
    rw [if_pos (by omega), toNat_ofNat_byte]

/-- A load of bytes a store does not touch reads what was there. -/
theorem readLE_writeLE_of_disjoint {off n off' n' v : Nat} (h : off' + n' ≤ off ∨ off + n ≤ off') :
    readLE (writeLE buf off n v) off' n' = readLE buf off' n' :=
  readLE_congr fun j hj => by simp only [writeLE]; rw [if_neg (by omega)]

/-- Storing the value the bytes already hold changes nothing. -/
theorem writeLE_readLE (off n : Nat) : writeLE buf off n (readLE buf off n) = buf := by
  funext p
  simp only [writeLE]
  split_ifs with hp
  · obtain ⟨j, hj, rfl⟩ : ∃ j, j < n ∧ p = off + j := ⟨p - off, by omega, by omega⟩
    rw [Nat.add_sub_cancel_left]
    induction j generalizing off n with
    | zero =>
      obtain ⟨n, rfl⟩ : ∃ m, n = m + 1 := ⟨n - 1, by omega⟩
      simp only [readLE, pow_zero, Nat.div_one, Nat.add_zero]
      apply UInt8.toNat.inj
      rw [toNat_ofNat_byte]
      have := toNat_byte_lt (buf off)
      omega
    | succ j ih =>
      obtain ⟨n, rfl⟩ : ∃ m, n = m + 1 := ⟨n - 1, by omega⟩
      have := ih (off + 1) n (by omega) (by omega)
      rw [readLE, pow_succ', ← Nat.div_div_eq_div_mul, Nat.add_mul_div_left _ _ (by omega),
        Nat.div_eq_of_lt (toNat_byte_lt (buf off)), Nat.zero_add]
      rwa [Nat.add_assoc, Nat.add_comm 1 j] at this
  · rfl

/-- The bytes of a buffer of zeros read as zero. -/
theorem readLE_zero (off n : Nat) : readLE (fun _ => 0) off n = 0 := by
  induction n generalizing off with
  | zero => rfl
  | succ n ih => simp [readLE, ih]

end LittleEndian

/-! ## The slots of a buffer -/

/-- The register sets of hardware debug state: `NT_ARM_HW_BREAK` and `NT_ARM_HW_WATCH`. -/
inductive Bank where
  | hwBreak
  | hwWatch
  deriving DecidableEq, Repr

/-- `SIZEOF_STRUCT_HWDEBUG_STATE`. -/
def sizeofStructHwdebugState : Nat := 8 + 16 * 16

/-- `state.dbg_regs[i].addr`: the eight bytes at `8 + 16 * i`. -/
def slotAddr (buf : Memory) (i : Nat) : BitVec 64 := BitVec.ofNat 64 (readLE buf (8 + 16 * i) 8)

/-- `state.dbg_regs[i].ctrl`: the four bytes at `16 + 16 * i`. -/
def slotCtrl (buf : Memory) (i : Nat) : BitVec 32 := BitVec.ofNat 32 (readLE buf (16 + 16 * i) 4)

/-- `state.dbg_regs[i].addr = a; state.dbg_regs[i].ctrl = c;`, as both functions store a slot. -/
def writeSlot (buf : Memory) (i a c : Nat) : Memory :=
  writeLE (writeLE buf (8 + 16 * i) 8 a) (16 + 16 * i) 4 c

/-- The first of the sixteen slots that passes a test, or 16: the shape of the slot loops of the
code and of the kernel. -/
def firstSlot (test : Nat → Bool) : Nat := (List.range 16).findIdx test

/-- The slot loops of `install_hardware_breakpoint` and `remove_hardware_breakpoint`: the first
of the sixteen slots whose address passes the test, or 16. -/
def scanDbgRegs (test : BitVec 64 → Bool) (buf : Memory) : Nat :=
  firstSlot fun i => test (slotAddr buf i)

section FirstSlot

variable {test : Nat → Bool}

theorem firstSlot_le : firstSlot test ≤ 16 :=
  (List.findIdx_le_length _).trans_eq (List.length_range 16)

/-- A loop that stops below 16 stops at a slot that passes. -/
theorem firstSlot_pass (h : firstSlot test < 16) : test (firstSlot test) = true := by
  have hl : firstSlot test < (List.range 16).length := by rw [List.length_range]; exact h
  have := List.findIdx_getElem (w := hl)
  rwa [List.getElem_range] at this

/-- Every slot before the one a loop stops at fails. -/
theorem firstSlot_fail {j : Nat} (h : j < firstSlot test) : test j = false := by
  have := List.not_of_lt_findIdx h
  rwa [List.getElem_range] at this

/-- A loop stops at the first slot that passes. -/
theorem firstSlot_eq {i : Nat} (hi : i < 16) (hpass : test i = true)
    (hfail : ∀ j < i, test j = false) : firstSlot test = i := by
  have hl : i < (List.range 16).length := by rw [List.length_range]; exact hi
  refine (List.findIdx_eq hl).2 ⟨?_, fun j hj => ?_⟩
  · rw [List.getElem_range]; exact hpass
  · rw [List.getElem_range]; exact hfail j hj

/-- A loop that no slot passes runs through all sixteen. -/
theorem firstSlot_eq_sixteen (h : ∀ j < 16, test j = false) : firstSlot test = 16 :=
  (List.findIdx_eq_length.2 fun j hj => h j (List.mem_range.1 hj)).trans (List.length_range 16)

/-- A loop stops below 16 once a slot passes. -/
theorem firstSlot_lt {j : Nat} (hj : j < 16) (h : test j = true) : firstSlot test < 16 := by
  have := List.findIdx_lt_length_of_exists (p := test) ⟨j, List.mem_range.2 hj, h⟩
  rwa [List.length_range] at this

/-- A loop passes slot `i` when it and every slot before it fail. -/
theorem lt_firstSlot {i : Nat} (hi : i < 16) (h : ∀ j ≤ i, test j = false) : i < firstSlot test :=
  List.lt_findIdx_of_not (by rw [List.length_range]; exact hi) fun j hj => by
    simp [h j hj]

end FirstSlot

section Slots

variable {buf : Memory} {test : BitVec 64 → Bool}

theorem scanDbgRegs_le : scanDbgRegs test buf ≤ 16 := firstSlot_le

/-- A scan that stops below 16 stops at a slot that passes. -/
theorem scanDbgRegs_pass (h : scanDbgRegs test buf < 16) :
    test (slotAddr buf (scanDbgRegs test buf)) = true :=
  firstSlot_pass h

/-- The scan stops at the first slot that passes. -/
theorem scanDbgRegs_eq {i : Nat} (hi : i < 16) (hpass : test (slotAddr buf i) = true)
    (hfail : ∀ j < i, test (slotAddr buf j) = false) : scanDbgRegs test buf = i :=
  firstSlot_eq hi hpass hfail

/-- Every slot before the one a scan stops at fails. -/
theorem scanDbgRegs_fail {j : Nat} (h : j < scanDbgRegs test buf) : test (slotAddr buf j) = false :=
  firstSlot_fail h

theorem slotAddr_writeSlot_self (i a c : Nat) :
    slotAddr (writeSlot buf i a c) i = BitVec.ofNat 64 a := by
  rw [slotAddr, writeSlot, readLE_writeLE_of_disjoint (by omega), readLE_writeLE_self]
  exact BitVec.eq_of_toNat_eq (by simp)

theorem slotCtrl_writeSlot_self (i a c : Nat) :
    slotCtrl (writeSlot buf i a c) i = BitVec.ofNat 32 c := by
  rw [slotCtrl, writeSlot, readLE_writeLE_self]
  exact BitVec.eq_of_toNat_eq (by simp)

/-- A slot store leaves the other slots alone. -/
theorem slotAddr_writeSlot_of_ne {i j : Nat} (hij : j ≠ i) (a c : Nat) :
    slotAddr (writeSlot buf i a c) j = slotAddr buf j := by
  rw [slotAddr, slotAddr, writeSlot, readLE_writeLE_of_disjoint (by omega),
    readLE_writeLE_of_disjoint (by omega)]

theorem slotCtrl_writeSlot_of_ne {i j : Nat} (hij : j ≠ i) (a c : Nat) :
    slotCtrl (writeSlot buf i a c) j = slotCtrl buf j := by
  rw [slotCtrl, slotCtrl, writeSlot, readLE_writeLE_of_disjoint (by omega),
    readLE_writeLE_of_disjoint (by omega)]

/-- An address store, the half of a slot store the kernel takes before a control word it
refuses. -/
theorem slotAddr_writeLE_self (i a : Nat) :
    slotAddr (writeLE buf (8 + 16 * i) 8 a) i = BitVec.ofNat 64 a := by
  rw [slotAddr, readLE_writeLE_self]
  exact BitVec.eq_of_toNat_eq (by simp)

theorem slotAddr_writeLE_of_ne {i j : Nat} (hij : j ≠ i) (a : Nat) :
    slotAddr (writeLE buf (8 + 16 * i) 8 a) j = slotAddr buf j := by
  rw [slotAddr, slotAddr, readLE_writeLE_of_disjoint (by omega)]

theorem slotCtrl_writeLE (i j a : Nat) :
    slotCtrl (writeLE buf (8 + 16 * i) 8 a) j = slotCtrl buf j := by
  rw [slotCtrl, slotCtrl, readLE_writeLE_of_disjoint (by omega)]

/-- Of two stores to one slot the second wins. -/
theorem writeSlot_writeSlot (i a c a' c' : Nat) :
    writeSlot (writeSlot buf i a c) i a' c' = writeSlot buf i a' c' := by
  funext p
  simp only [writeSlot, writeLE]
  split_ifs <;> rfl

theorem writeSlot_writeLE (i a a' c' : Nat) :
    writeSlot (writeLE buf (8 + 16 * i) 8 a) i a' c' = writeSlot buf i a' c' := by
  funext p
  simp only [writeSlot, writeLE]
  split_ifs <;> rfl

/-- Zeroing a slot whose address and control word are zero changes nothing. -/
theorem writeSlot_zero {i : Nat} (ha : slotAddr buf i = 0) (hc : slotCtrl buf i = 0) :
    writeSlot buf i 0 0 = buf := by
  have ha' : readLE buf (8 + 16 * i) 8 = 0 := by
    have h := congrArg BitVec.toNat ha
    rwa [slotAddr, BitVec.toNat_ofNat, Nat.mod_eq_of_lt (readLE_lt_two_pow _ 8)] at h
  have hc' : readLE buf (16 + 16 * i) 4 = 0 := by
    have h := congrArg BitVec.toNat hc
    rwa [slotCtrl, BitVec.toNat_ofNat, Nat.mod_eq_of_lt (readLE_lt_two_pow _ 4)] at h
  have h₁ : writeLE buf (8 + 16 * i) 8 0 = buf := by simpa [ha'] using @writeLE_readLE buf (8 + 16 * i) 8
  have h₂ : writeLE buf (16 + 16 * i) 4 0 = buf := by
    simpa [hc'] using @writeLE_readLE buf (16 + 16 * i) 4
  rw [writeSlot, h₁, h₂]

theorem writeSlot_of_not_mem {i p : Nat} (hp : p < 8 + 16 * i ∨ 20 + 16 * i ≤ p)
    (a c : Nat) : writeSlot buf i a c p = buf p := by
  simp only [writeSlot, writeLE]
  rw [if_neg (by omega), if_neg (by omega)]

theorem slotAddr_zero (i : Nat) : slotAddr (fun _ => 0) i = 0 := by
  rw [slotAddr, readLE_zero]; rfl

theorem slotCtrl_zero (i : Nat) : slotCtrl (fun _ => 0) i = 0 := by
  rw [slotCtrl, readLE_zero]; rfl

end Slots

/-! ## What the kernel takes of a buffer -/

/-- `decode_ctrl_reg`: the type of a control word, bits 3..4. -/
def decodeType (c : BitVec 32) : Nat := c.toNat / 8 % 4

/-- `decode_ctrl_reg`: the length mask of a control word, bits 5..12. -/
def decodeLen (c : BitVec 32) : Nat := c.toNat / 32 % 256

/-- `ctrl.len >> __ffs(ctrl.len)`: a length mask with its trailing zero bits shifted out, `fuel`
bits at most. -/
def shiftTrailingZeros : Nat → Nat → Nat
  | 0, n => n
  | fuel + 1, n => if n % 2 = 0 then shiftTrailingZeros fuel (n / 2) else n

/-- Whether the kernel accepts a control word for a register set (`ptrace_hbp_fill_attr_ctrl` with
`arch_bp_generic_fields`).  A disabled word, bit 0 clear, is taken as it is.  An enabled one needs
a type the register set holds, execute in `NT_ARM_HW_BREAK` and load, store or both in
`NT_ARM_HW_WATCH`, and a nonzero length mask that is one run of one to eight set bits. -/
def ctrlAccepted (bank : Bank) (c : BitVec 32) : Bool :=
  !c.getLsbD 0 ||
    (match bank with
      | .hwBreak => decodeType c == 0
      | .hwWatch => decodeType c != 0) &&
    decodeLen c != 0 && [1, 3, 7, 15, 31, 63, 127, 255].contains (shiftTrailingZeros 8 (decodeLen c))

@[simp]
theorem ctrlAccepted_zero (bank : Bank) : ctrlAccepted bank 0 = true := by
  cases bank <;> rfl

/-- The first slot of a buffer whose control word the kernel refuses for the register set, or
16. -/
def firstRefused (bank : Bank) (buf : Memory) : Nat :=
  firstSlot fun i => !ctrlAccepted bank (slotCtrl buf i)

/-- Whether a `PTRACE_SETREGSET` that stops at slot `f` takes byte `p` of the buffer: an address
byte of a slot up to `f`, or a control-word byte of a slot before `f`.  `dbg_info`, the pad after
it and the pad of each slot are never taken. -/
def takenByte (f p : Nat) : Bool :=
  8 ≤ p && p < sizeofStructHwdebugState &&
    ((p - 8) % 16 < 8 && (p - 8) / 16 ≤ f || (p - 8) % 16 < 12 && (p - 8) / 16 < f)

/-- The bytes of a register set after a `PTRACE_SETREGSET` of `buf` (the kernel's
`hw_break_set`): slot after slot the address and then the control word are taken, until a
control word is refused, which ends the request. -/
def storeRegset (r : Memory) (bank : Bank) (buf : Memory) : Memory := fun p =>
  if takenByte (firstRefused bank buf) p then buf p else r p

section Store

variable {r buf : Memory} {bank : Bank} {i f p : Nat}

theorem takenByte_iff : takenByte f p = true ↔ 8 ≤ p ∧ p < 264 ∧
    ((p - 8) % 16 < 8 ∧ (p - 8) / 16 ≤ f ∨ (p - 8) % 16 < 12 ∧ (p - 8) / 16 < f) := by
  simp [takenByte, sizeofStructHwdebugState, and_assoc]

theorem accepted_of_lt_firstRefused {j : Nat} (h : j < firstRefused bank buf) :
    ctrlAccepted bank (slotCtrl buf j) = true := by
  simpa using firstSlot_fail h

theorem slotAddr_storeRegset (hi : i < 16) :
    slotAddr (storeRegset r bank buf) i =
      if i ≤ firstRefused bank buf then slotAddr buf i else slotAddr r i := by
  unfold slotAddr
  split_ifs with h
  all_goals
    refine congrArg _ (readLE_congr fun j hj => ?_)
    unfold storeRegset
  · rw [if_pos (takenByte_iff.2 (by omega))]
  · rw [if_neg (mt takenByte_iff.1 (by omega))]

theorem slotCtrl_storeRegset (hi : i < 16) :
    slotCtrl (storeRegset r bank buf) i =
      if i < firstRefused bank buf then slotCtrl buf i else slotCtrl r i := by
  unfold slotCtrl
  split_ifs with h
  all_goals
    refine congrArg _ (readLE_congr fun j hj => ?_)
    unfold storeRegset
  · rw [if_pos (takenByte_iff.2 (by omega))]
  · rw [if_neg (mt takenByte_iff.1 (by omega))]

/-- `dbg_info`, the pads and the bytes past the buffer are never taken. -/
theorem storeRegset_of_ignored (hp : p < 8 ∨ 12 ≤ (p - 8) % 16 ∨ 264 ≤ p) :
    storeRegset r bank buf p = r p :=
  if_neg (mt takenByte_iff.1 (by omega))

end Store

/-! ## The register sets -/

/-- The kernel's hardware debug register sets, by thread and set: the bytes of the
`user_hwdebug_state` a `PTRACE_GETREGSET` returns.  The kernel holds only control words it
accepts. -/
@[ext]
structure Regsets where
  bytes : Nat → Bank → Memory
  accepted : ∀ tid bank i, i < 16 → ctrlAccepted bank (slotCtrl (bytes tid bank) i) = true

/-- `PTRACE_GETREGSET` into a zeroed buffer of `SIZEOF_STRUCT_HWDEBUG_STATE` bytes. -/
def getRegset (k : Regsets) (tid : Nat) (bank : Bank) : Memory := fun p =>
  if p < sizeofStructHwdebugState then k.bytes tid bank p else 0

/-- `PTRACE_SETREGSET` of a buffer: the register set takes what `storeRegset` takes. -/
def setRegset (k : Regsets) (tid : Nat) (bank : Bank) (buf : Memory) : Regsets where
  bytes t b := if t = tid ∧ b = bank then storeRegset (k.bytes tid bank) bank buf else k.bytes t b
  accepted t b i hi := by
    dsimp only
    split_ifs with htb
    · obtain ⟨rfl, rfl⟩ := htb
      rw [slotCtrl_storeRegset hi]
      split_ifs with h
      exacts [accepted_of_lt_firstRefused h, k.accepted t b i hi]
    · exact k.accepted t b i hi

/-- Register sets of zero bytes, as a thread starts with. -/
def Regsets.zero : Regsets where
  bytes _ _ _ := 0
  accepted _ bank i _ := by rw [slotCtrl_zero]; exact ctrlAccepted_zero bank

section Regsets

variable {k : Regsets} {tid : Nat} {bank : Bank} {buf : Memory}

theorem setRegset_bytes (t : Nat) (b : Bank) : (setRegset k tid bank buf).bytes t b =
    if t = tid ∧ b = bank then storeRegset (k.bytes tid bank) bank buf else k.bytes t b := rfl

theorem setRegset_of_ne {t : Nat} {b : Bank} (h : t ≠ tid ∨ b ≠ bank) :
    (setRegset k tid bank buf).bytes t b = k.bytes t b :=
  if_neg fun htb => h.elim (· htb.1) (· htb.2)

theorem getRegset_setRegset_of_ne {t : Nat} {b : Bank} (h : t ≠ tid ∨ b ≠ bank) :
    getRegset (setRegset k tid bank buf) t b = getRegset k t b := by
  unfold getRegset
  rw [setRegset_of_ne h]

theorem getRegset_of_lt {p : Nat} (hp : p < sizeofStructHwdebugState) :
    getRegset k tid bank p = k.bytes tid bank p :=
  if_pos hp

theorem slotAddr_getRegset {i : Nat} (hi : i < 16) :
    slotAddr (getRegset k tid bank) i = slotAddr (k.bytes tid bank) i :=
  congrArg (BitVec.ofNat 64) (@readLE_congr (getRegset k tid bank) (k.bytes tid bank) _ _
    fun j hj => getRegset_of_lt (by unfold sizeofStructHwdebugState; omega))

theorem slotCtrl_getRegset {i : Nat} (hi : i < 16) :
    slotCtrl (getRegset k tid bank) i = slotCtrl (k.bytes tid bank) i :=
  congrArg (BitVec.ofNat 32) (@readLE_congr (getRegset k tid bank) (k.bytes tid bank) _ _
    fun j hj => getRegset_of_lt (by unfold sizeofStructHwdebugState; omega))

theorem accepted_getRegset {i : Nat} (hi : i < 16) :
    ctrlAccepted bank (slotCtrl (getRegset k tid bank) i) = true := by
  rw [slotCtrl_getRegset hi]; exact k.accepted tid bank i hi

/-- The slots a register set reads after a `PTRACE_SETREGSET`: the addresses up to the first
refused control word and the control words before it come from the buffer. -/
theorem slotAddr_getRegset_setRegset {j : Nat} (hj : j < 16) :
    slotAddr (getRegset (setRegset k tid bank buf) tid bank) j =
      if j ≤ firstRefused bank buf then slotAddr buf j else slotAddr (getRegset k tid bank) j := by
  rw [slotAddr_getRegset hj, setRegset_bytes, if_pos ⟨rfl, rfl⟩, slotAddr_storeRegset hj,
    slotAddr_getRegset hj]

theorem slotCtrl_getRegset_setRegset {j : Nat} (hj : j < 16) :
    slotCtrl (getRegset (setRegset k tid bank buf) tid bank) j =
      if j < firstRefused bank buf then slotCtrl buf j else slotCtrl (getRegset k tid bank) j := by
  rw [slotCtrl_getRegset hj, setRegset_bytes, if_pos ⟨rfl, rfl⟩, slotCtrl_storeRegset hj,
    slotCtrl_getRegset hj]

/-- Writing back what was read undoes every store since. -/
theorem setRegset_setRegset_getRegset :
    setRegset (setRegset k tid bank buf) tid bank (getRegset k tid bank) = k := by
  have hall : firstRefused bank (getRegset k tid bank) = 16 :=
    firstSlot_eq_sixteen fun j hj => by simp [accepted_getRegset hj]
  apply Regsets.ext
  funext t b p
  rw [setRegset_bytes]
  split_ifs with htb
  · obtain ⟨rfl, rfl⟩ := htb
    rw [setRegset_bytes, if_pos ⟨rfl, rfl⟩]
    unfold storeRegset
    rw [hall]
    split_ifs with h₁ h₂
    · exact getRegset_of_lt (takenByte_iff.1 h₁).2.1
    · exact absurd (takenByte_iff.2 (by have := takenByte_iff.1 h₂; omega)) h₁
    · rfl
  · exact congrFun (setRegset_of_ne (not_and_or.1 htb)) p

end Regsets

/-! ## A slot store -/

section SlotStore

variable {k : Regsets} {tid : Nat} {bank : Bank} {i : Nat}

/-- A slot store into a buffer of accepted control words stops at the slot when the kernel
refuses its new control word, and runs through otherwise. -/
theorem firstRefused_writeSlot {B : Memory} (hB : ∀ j < 16, ctrlAccepted bank (slotCtrl B j) = true)
    (hi : i < 16) (a c : Nat) :
    firstRefused bank (writeSlot B i a c) =
      if ctrlAccepted bank (BitVec.ofNat 32 c) then 16 else i := by
  split_ifs with hc
  · refine firstSlot_eq_sixteen fun j hj => ?_
    rcases eq_or_ne j i with rfl | hji
    · simp [slotCtrl_writeSlot_self, hc]
    · simp [slotCtrl_writeSlot_of_ne hji, hB j hj]
  · refine firstSlot_eq hi (by simp [slotCtrl_writeSlot_self, hc]) fun j hj => ?_
    simp [slotCtrl_writeSlot_of_ne (by omega : j ≠ i), hB j (by omega)]

/-- What a register set reads after a slot store of what it read: the slot takes the address,
and the control word when the kernel accepts it. -/
theorem getRegset_setRegset_writeSlot (hi : i < 16) (a c : Nat) :
    getRegset (setRegset k tid bank (writeSlot (getRegset k tid bank) i a c)) tid bank =
      if ctrlAccepted bank (BitVec.ofNat 32 c) then writeSlot (getRegset k tid bank) i a c
      else writeLE (getRegset k tid bank) (8 + 16 * i) 8 a := by
  have hf := @firstRefused_writeSlot bank i (getRegset k tid bank)
    (fun j hj => @accepted_getRegset k tid bank j hj) hi a c
  set S := getRegset k tid bank
  have hS : ∀ q, S q = if q < sizeofStructHwdebugState then k.bytes tid bank q else 0 :=
    fun _ => rfl
  have hB : ∀ q, q < 8 + 16 * i ∨ 20 + 16 * i ≤ q → writeSlot S i a c q = S q :=
    fun q hq => writeSlot_of_not_mem hq a c
  have hA : ∀ q, q < 8 + 16 * i ∨ 16 + 16 * i ≤ q → writeLE S (8 + 16 * i) 8 a q = S q :=
    fun q hq => if_neg (by omega)
  have hBA : ∀ q, q < 16 + 16 * i → writeSlot S i a c q = writeLE S (8 + 16 * i) 8 a q :=
    fun q hq => if_neg (by omega)
  funext p
  simp only [getRegset, setRegset_bytes, true_and, if_true, storeRegset, hf]
  split_ifs with hp hc ht ht <;> unfold sizeofStructHwdebugState at hp hS
  · rfl
  · rw [hB p (by have := mt takenByte_iff.2 ht; omega), hS, if_pos hp]
  · exact hBA p (by have := takenByte_iff.1 ht; omega)
  · rw [hA p (by have := mt takenByte_iff.2 ht; omega), hS, if_pos hp]
  · rw [hB p (by omega), hS, if_neg hp]
  · rw [hA p (by omega), hS, if_neg hp]

/-- A slot store of one register set, as every slot of every register set reads after it: the
slot takes the address whatever its control word. -/
theorem slotAddr_setRegset_writeSlot (hi : i < 16) (a c t : Nat) (b : Bank) (j : Nat) :
    slotAddr (getRegset (setRegset k tid bank (writeSlot (getRegset k tid bank) i a c)) t b) j =
      if t = tid ∧ b = bank ∧ j = i then BitVec.ofNat 64 a else slotAddr (getRegset k t b) j := by
  by_cases htb : t = tid ∧ b = bank
  · obtain ⟨rfl, rfl⟩ := htb
    rw [getRegset_setRegset_writeSlot hi]
    by_cases hji : j = i
    · subst hji
      simp only [and_self, if_true]
      split_ifs
      exacts [slotAddr_writeSlot_self _ _ _, slotAddr_writeLE_self _ _]
    · simp only [hji, and_false, if_false]
      split_ifs
      exacts [slotAddr_writeSlot_of_ne hji _ _, slotAddr_writeLE_of_ne hji _]
  · rw [getRegset_setRegset_of_ne (not_and_or.1 htb), if_neg fun h => htb ⟨h.1, h.2.1⟩]

/-- The control word of the slot is stored only when the kernel accepts it. -/
theorem slotCtrl_setRegset_writeSlot (hi : i < 16) (a c t : Nat) (b : Bank) (j : Nat) :
    slotCtrl (getRegset (setRegset k tid bank (writeSlot (getRegset k tid bank) i a c)) t b) j =
      if t = tid ∧ b = bank ∧ j = i ∧ ctrlAccepted bank (BitVec.ofNat 32 c) = true then
        BitVec.ofNat 32 c
      else slotCtrl (getRegset k t b) j := by
  by_cases htb : t = tid ∧ b = bank
  · obtain ⟨rfl, rfl⟩ := htb
    rw [getRegset_setRegset_writeSlot hi]
    by_cases hc : ctrlAccepted b (BitVec.ofNat 32 c) = true
    · rw [if_pos hc]
      by_cases hji : j = i
      · rw [if_pos ⟨rfl, rfl, hji, hc⟩, hji, slotCtrl_writeSlot_self]
      · rw [if_neg fun h => hji h.2.2.1, slotCtrl_writeSlot_of_ne hji]
    · rw [if_neg hc, if_neg fun h => hc h.2.2.2, slotCtrl_writeLE]
  · rw [getRegset_setRegset_of_ne (not_and_or.1 htb), if_neg fun h => htb ⟨h.1, h.2.1⟩]

theorem accepted_zero (j : Nat) : ctrlAccepted bank (slotCtrl (fun _ => 0) j) = true := by
  rw [slotCtrl_zero]; exact ctrlAccepted_zero bank

/-- A slot store into a zeroed buffer, as the install of a register set it could not read makes:
slot 0 takes the address, and when the kernel accepts the control word it takes the whole
buffer, every other slot zeroed. -/
theorem slotAddr_setRegset_zeroed (a c t : Nat) (b : Bank) {j : Nat} (hj : j < 16) :
    slotAddr (getRegset (setRegset k tid bank (writeSlot (fun _ => 0) 0 a c)) t b) j =
      if t = tid ∧ b = bank then
        (if j = 0 then BitVec.ofNat 64 a
        else if ctrlAccepted bank (BitVec.ofNat 32 c) then 0 else slotAddr (getRegset k t b) j)
      else slotAddr (getRegset k t b) j := by
  by_cases htb : t = tid ∧ b = bank
  · obtain ⟨rfl, rfl⟩ := htb
    rw [if_pos ⟨rfl, rfl⟩, slotAddr_getRegset_setRegset hj,
      firstRefused_writeSlot (fun j _ => accepted_zero j) (by omega)]
    by_cases hj0 : j = 0
    · rw [if_pos (by omega), if_pos hj0, hj0, slotAddr_writeSlot_self]
    · rw [if_neg hj0]
      by_cases hc : ctrlAccepted b (BitVec.ofNat 32 c) = true
      · rw [if_pos hc, if_pos hc, if_pos (by omega), slotAddr_writeSlot_of_ne hj0, slotAddr_zero]
      · rw [if_neg hc, if_neg hc, if_neg (by omega)]
  · rw [if_neg htb, getRegset_setRegset_of_ne (not_and_or.1 htb)]

theorem slotCtrl_setRegset_zeroed (a c t : Nat) (b : Bank) {j : Nat} (hj : j < 16) :
    slotCtrl (getRegset (setRegset k tid bank (writeSlot (fun _ => 0) 0 a c)) t b) j =
      if t = tid ∧ b = bank ∧ ctrlAccepted bank (BitVec.ofNat 32 c) = true then
        (if j = 0 then BitVec.ofNat 32 c else 0)
      else slotCtrl (getRegset k t b) j := by
  by_cases htb : t = tid ∧ b = bank
  · obtain ⟨rfl, rfl⟩ := htb
    rw [slotCtrl_getRegset_setRegset hj,
      firstRefused_writeSlot (fun j _ => accepted_zero j) (by omega)]
    by_cases hc : ctrlAccepted b (BitVec.ofNat 32 c) = true
    · rw [if_pos hc, if_pos hj, if_pos ⟨rfl, rfl, hc⟩]
      by_cases hj0 : j = 0
      · rw [if_pos hj0, hj0, slotCtrl_writeSlot_self]
      · rw [if_neg hj0, slotCtrl_writeSlot_of_ne hj0, slotCtrl_zero]
    · rw [if_neg hc, if_neg (by omega), if_neg fun h => hc h.2.2]
  · rw [if_neg fun h => htb ⟨h.1, h.2.1⟩, getRegset_setRegset_of_ne (not_and_or.1 htb)]
  

end SlotStore

/-! ## `ptrace_peekuser` and `ptrace_pokeuser` -/

/-- The register set bit `0x1000` of the address selects. -/
def bankOf (addr : BitVec 64) : Bank := if addr &&& 0x1000#64 ≠ 0 then .hwWatch else .hwBreak

/-- The byte offset left once the bit is cleared (`addr &= ~0x1000`). -/
def offsetOf (addr : BitVec 64) : Nat := (addr &&& ~~~0x1000#64).toNat

/-- `ptrace_peekuser` on AArch64: the `unsigned long` at the offset of the selected register
set; `none` where its eight bytes pass the end of the buffer. -/
def peekuserArm (k : Regsets) (pid : Nat) (addr : BitVec 64) : Option (BitVec 64) :=
  if offsetOf addr + 8 ≤ sizeofStructHwdebugState then
    some (BitVec.ofNat 64 (readLE (getRegset k pid (bankOf addr)) (offsetOf addr) 8))
  else none

/-- `ptrace_pokeuser` on AArch64: read the selected register set, store `data` at the offset,
write the buffer back; `none` where the store passes the end of the buffer. -/
def pokeuserArm (k : Regsets) (pid : Nat) (addr data : BitVec 64) : Option Regsets :=
  if offsetOf addr + 8 ≤ sizeofStructHwdebugState then
    some (setRegset k pid (bankOf addr)
      (writeLE (getRegset k pid (bankOf addr)) (offsetOf addr) 8 data.toNat))
  else none

/-- `dbg_info` is the kernel's: a store of 1 at offset 0 reads back 0. -/
example : ∃ k', pokeuserArm Regsets.zero 1 0#64 1#64 = some k' ∧
    peekuserArm k' 1 0#64 = some 0#64 :=
  ⟨_, rfl, by decide⟩

/-- The addresses of the slots, in the breakpoint set and, with bit `0x1000`, in the watchpoint
set. -/
theorem slot_addresses : ∀ i < 16,
    offsetOf (BitVec.ofNat 64 (8 + 16 * i)) = 8 + 16 * i ∧
      bankOf (BitVec.ofNat 64 (8 + 16 * i)) = .hwBreak ∧
      offsetOf (BitVec.ofNat 64 (0x1000 + 8 + 16 * i)) = 8 + 16 * i ∧
      bankOf (BitVec.ofNat 64 (0x1000 + 8 + 16 * i)) = .hwWatch := by
  decide

/-- `ptrace_peekuser` at `8 + 16 * i`, with bit `0x1000` for a watchpoint, reads slot `i`'s
address as `install_hardware_breakpoint` and `remove_hardware_breakpoint` see it. -/
theorem peekuser_slotAddr (k : Regsets) (pid : Nat) {i : Nat} (hi : i < 16) :
    peekuserArm k pid (BitVec.ofNat 64 (8 + 16 * i)) = some (slotAddr (getRegset k pid .hwBreak) i) ∧
    peekuserArm k pid (BitVec.ofNat 64 (0x1000 + 8 + 16 * i)) =
      some (slotAddr (getRegset k pid .hwWatch) i) := by
  obtain ⟨ho, hb, ho', hb'⟩ := slot_addresses i hi
  have hin : 8 + 16 * i + 8 ≤ sizeofStructHwdebugState := by unfold sizeofStructHwdebugState; omega
  unfold peekuserArm
  rw [ho, hb, ho', hb', if_pos hin, if_pos hin]
  exact ⟨rfl, rfl⟩

/-! ## Installing and removing -/

/-- `get_breakpoint_type`. -/
def getBreakpointType (type : Char × Char) : Int :=
  if type.1 = 'r' then (if type.2 = 'w' then 3 else 1)
  else if type.1 = 'w' then 2
  else if type.1 = 'x' then 0
  else -1

/-- `command`: the breakpoint register set for an execute breakpoint, the watchpoint one for
every other type. -/
def commandOf (bp : HardwareBreakpoint) : Bank :=
  if getBreakpointType bp.type = 0 then .hwBreak else .hwWatch

/-- `control = (length << 5) | (condition << 3) | (2 << 1) | 1` with
`length = (1 << bp->len) - 1` and `condition = get_breakpoint_type(bp->type)`, as
`unsigned int`s. -/
def controlOf (bp : HardwareBreakpoint) : BitVec 32 :=
  ((1#32 <<< bp.len) - 1#32) <<< 5 ||| BitVec.ofInt 32 (getBreakpointType bp.type) <<< 3 |||
    2#32 <<< 1 ||| 1#32

/-- `install_hardware_breakpoint` on AArch64, with the answers of its two requests: the first slot
with a zero address takes the address and the control word, an execute breakpoint's length having
been set to 4 first.  A failed `PTRACE_GETREGSET` leaves the buffer zeroed, so slot 0 is taken
in a buffer that holds nothing else; a failed `PTRACE_SETREGSET` stores nothing.  It returns the
register sets and the entry as the code leaves it.  With no free slot nothing changes ("No debug
registers available"). -/
def installHardwareBreakpointArmWith (getOk setOk : Bool) (k : Regsets) (bp : HardwareBreakpoint) :
    Regsets × HardwareBreakpoint :=
  let state := if getOk then getRegset k bp.tid (commandOf bp) else fun _ => 0
  let i := scanDbgRegs (· == 0) state
  if i = 16 then (k, bp)
  else
    let bp' := if bp.type.1 = 'x' then { bp with len := 4 } else bp
    (if setOk then
      setRegset k bp.tid (commandOf bp) (writeSlot state i bp'.addr.toNat (controlOf bp').toNat)
    else k, bp')

/-- `install_hardware_breakpoint` on a stopped thread, where both requests succeed. -/
def installHardwareBreakpointArm (k : Regsets) (bp : HardwareBreakpoint) :
    Regsets × HardwareBreakpoint :=
  installHardwareBreakpointArmWith true true k bp

/-- `remove_hardware_breakpoint` on AArch64: the first slot holding the address gets a zero
address and a zero control word; without one nothing changes ("Breakpoint not found"). -/
def removeHardwareBreakpointArm (k : Regsets) (bp : HardwareBreakpoint) : Regsets :=
  let state := getRegset k bp.tid (commandOf bp)
  let i := scanDbgRegs (· == bp.addr) state
  if i = 16 then k else setRegset k bp.tid (commandOf bp) (writeSlot state i 0 0)

/-- `dbg_state.dbg_info & 0xff` after a `PTRACE_GETREGSET` of a register set: the low byte of the
`unsigned int` in its first four bytes. -/
def dbgInfoCount (k : Regsets) (tid : Nat) (bank : Bank) : Nat :=
  readLE (getRegset k tid bank) 0 4 &&& 0xff

/-- `get_remaining_hw_breakpoint_count` on AArch64. -/
def getRemainingHwBreakpointCountArm (k : Regsets) (tid : Nat) : Nat := dbgInfoCount k tid .hwBreak

/-- `get_remaining_hw_watchpoint_count` on AArch64. -/
def getRemainingHwWatchpointCountArm (k : Regsets) (tid : Nat) : Nat := dbgInfoCount k tid .hwWatch

section Install

variable {k : Regsets} {tid : Nat} {bank : Bank}

/-- What `install_hardware_breakpoint` does when it finds a free slot. -/
theorem installHardwareBreakpointArm_of_lt {bp : HardwareBreakpoint}
    (hfree : scanDbgRegs (· == 0) (getRegset k bp.tid (commandOf bp)) < 16) :
    ∃ len, installHardwareBreakpointArm k bp =
      (setRegset k bp.tid (commandOf bp) (writeSlot (getRegset k bp.tid (commandOf bp))
        (scanDbgRegs (· == 0) (getRegset k bp.tid (commandOf bp))) bp.addr.toNat
        (controlOf { bp with len := len }).toNat), { bp with len := len }) := by
  unfold installHardwareBreakpointArm installHardwareBreakpointArmWith
  simp only [if_true]
  rw [if_neg (by omega)]
  split_ifs
  exacts [⟨4, rfl⟩, ⟨bp.len, rfl⟩]

/-- A failed `PTRACE_SETREGSET` stores nothing. -/
theorem installHardwareBreakpointArmWith_set_fail (getOk : Bool) (bp : HardwareBreakpoint) :
    (installHardwareBreakpointArmWith getOk false k bp).1 = k := by
  simp only [installHardwareBreakpointArmWith, Bool.false_eq_true, if_false]
  split_ifs <;> rfl

theorem installHardwareBreakpointArm_of_full {bp : HardwareBreakpoint}
    (hfull : scanDbgRegs (· == 0) (getRegset k bp.tid (commandOf bp)) = 16) :
    installHardwareBreakpointArm k bp = (k, bp) := by
  unfold installHardwareBreakpointArm installHardwareBreakpointArmWith
  simp only [if_true]
  rw [if_pos hfull]

/-- `dbg_info` is the kernel's: no `PTRACE_SETREGSET` changes it. -/
theorem dbgInfoCount_setRegset (buf : Memory) (t : Nat) (b : Bank) :
    dbgInfoCount (setRegset k tid bank buf) t b = dbgInfoCount k t b := by
  unfold dbgInfoCount
  congr 1
  refine readLE_congr fun j hj => ?_
  rw [getRegset_of_lt (by unfold sizeofStructHwdebugState; omega),
    getRegset_of_lt (by unfold sizeofStructHwdebugState; omega), setRegset_bytes]
  split_ifs with htb
  · obtain ⟨rfl, rfl⟩ := htb
    exact storeRegset_of_ignored (.inl (by omega))
  · rfl

theorem dbgInfoCount_install (getOk setOk : Bool) (bp : HardwareBreakpoint) (t : Nat) (b : Bank) :
    dbgInfoCount (installHardwareBreakpointArmWith getOk setOk k bp).1 t b = dbgInfoCount k t b := by
  simp only [installHardwareBreakpointArmWith, apply_ite Prod.fst, apply_ite (dbgInfoCount · t b),
    dbgInfoCount_setRegset, ite_self]

theorem dbgInfoCount_remove (bp : HardwareBreakpoint) (t : Nat) (b : Bank) :
    dbgInfoCount (removeHardwareBreakpointArm k bp) t b = dbgInfoCount k t b := by
  simp only [removeHardwareBreakpointArm, apply_ite (dbgInfoCount · t b), dbgInfoCount_setRegset,
    ite_self]

/-- A registration undone by an unregistration, on AArch64: when the address is in no slot of
its register set and the free slot it takes has a zero control word, removing the entry the
install left restores the register sets bit for bit.  The remove writes back the buffer the
install read, whether or not the kernel took the install's control word. -/
theorem remove_install_arm {bp : HardwareBreakpoint}
    (hfree : scanDbgRegs (· == 0) (getRegset k bp.tid (commandOf bp)) < 16)
    (hheld : ∀ j < 16, slotAddr (getRegset k bp.tid (commandOf bp)) j ≠ bp.addr)
    (hctrl : slotCtrl (getRegset k bp.tid (commandOf bp))
      (scanDbgRegs (· == 0) (getRegset k bp.tid (commandOf bp))) = 0) :
    removeHardwareBreakpointArm (installHardwareBreakpointArm k bp).1
      (installHardwareBreakpointArm k bp).2 = k := by
  obtain ⟨len, hinst⟩ := installHardwareBreakpointArm_of_lt hfree
  set state := getRegset k bp.tid (commandOf bp)
  set i := scanDbgRegs (· == 0) state
  set c := (controlOf { bp with len := len }).toNat
  have hzero : slotAddr state i = 0 := by simpa using scanDbgRegs_pass hfree
  have haddr : BitVec.ofNat 64 bp.addr.toNat = bp.addr :=
    BitVec.eq_of_toNat_eq (Nat.mod_eq_of_lt bp.addr.isLt)
  -- what the remove reads: the install's slot, with or without its control word
  have hread := @getRegset_setRegset_writeSlot k bp.tid (commandOf bp) i hfree bp.addr.toNat c
  set read := getRegset (setRegset k bp.tid (commandOf bp) (writeSlot state i bp.addr.toNat c))
    bp.tid (commandOf bp)
  have hslot : ∀ j, slotAddr read j = if j = i then bp.addr else slotAddr state j := fun j => by
    rw [slotAddr_setRegset_writeSlot hfree, haddr]
    simp only [true_and]
  have hscan : scanDbgRegs (· == bp.addr) read = i :=
    scanDbgRegs_eq hfree (by rw [hslot, if_pos rfl, beq_self_eq_true]) fun j hj => by
      rw [hslot, if_neg (by omega)]
      simpa using hheld j (by omega)
  have hback : writeSlot read i 0 0 = state := by
    rw [hread]
    split_ifs
    · rw [writeSlot_writeSlot, writeSlot_zero hzero hctrl]
    · rw [writeSlot_writeLE, writeSlot_zero hzero hctrl]
  rw [hinst]
  unfold removeHardwareBreakpointArm
  dsimp only
  rw [show commandOf { bp with len := len } = commandOf bp from rfl, hscan, if_neg (by omega),
    hback]
  exact setRegset_setRegset_getRegset

/-- Every slot with a zero address has a zero control word, in every register set. -/
def Tidy (k : Regsets) : Prop :=
  ∀ tid bank i, i < 16 → slotAddr (getRegset k tid bank) i = 0 →
    slotCtrl (getRegset k tid bank) i = 0

/-- A slot store keeps the register sets tidy when it stores a zero control word with a zero
address. -/
theorem Tidy.setRegset_writeSlot (h : Tidy k) {i : Nat} (hi : i < 16) {a c : Nat}
    (hac : BitVec.ofNat 64 a = 0 → BitVec.ofNat 32 c = 0) :
    Tidy (setRegset k tid bank (writeSlot (getRegset k tid bank) i a c)) := by
  intro t b j hj hz
  rw [slotAddr_setRegset_writeSlot hi] at hz
  rw [slotCtrl_setRegset_writeSlot hi]
  by_cases hp : t = tid ∧ b = bank ∧ j = i
  · rw [if_pos hp] at hz
    rw [if_pos ⟨hp.1, hp.2.1, hp.2.2, by rw [hac hz]; exact ctrlAccepted_zero _⟩]
    exact hac hz
  · rw [if_neg hp] at hz
    rw [if_neg fun hq => hp ⟨hq.1, hq.2.1, hq.2.2.1⟩]
    exact h t b j hj hz

theorem Tidy.install (h : Tidy k) {bp : HardwareBreakpoint} (ha : bp.addr ≠ 0) :
    Tidy (installHardwareBreakpointArm k bp).1 := by
  rcases lt_or_le (scanDbgRegs (· == 0) (getRegset k bp.tid (commandOf bp))) 16 with hfree | hfull
  · obtain ⟨len, hinst⟩ := installHardwareBreakpointArm_of_lt hfree
    rw [hinst]
    exact h.setRegset_writeSlot hfree fun hz => absurd (by simpa using hz) ha
  · rw [installHardwareBreakpointArm_of_full (le_antisymm scanDbgRegs_le hfull)]
    exact h

/-- `remove_hardware_breakpoint` leaves the slot it frees with a zero control word. -/
theorem tidy_removeHardwareBreakpointArm (h : Tidy k) (bp : HardwareBreakpoint) :
    Tidy (removeHardwareBreakpointArm k bp) := by
  unfold removeHardwareBreakpointArm
  dsimp only
  split_ifs with hi
  · exact h
  · exact h.setRegset_writeSlot (lt_of_le_of_ne scanDbgRegs_le hi) fun _ => rfl

/-- One call of the adapter: an install of a nonzero address, or a remove. -/
inductive ArmStep : Regsets → Regsets → Prop
  | install {k : Regsets} {bp : HardwareBreakpoint} (ha : bp.addr ≠ 0) :
      ArmStep k (installHardwareBreakpointArm k bp).1
  | remove {k : Regsets} (bp : HardwareBreakpoint) : ArmStep k (removeHardwareBreakpointArm k bp)

theorem tidy_run {k₀ : Regsets} (h₀ : Tidy k₀) (hr : Relation.ReflTransGen ArmStep k₀ k) :
    Tidy k := by
  induction hr with
  | refl => exact h₀
  | tail _ hs ih =>
    cases hs with
    | install ha => exact ih.install ha
    | remove bp => exact tidy_removeHardwareBreakpointArm ih bp

theorem tidy_zero : Tidy Regsets.zero := fun _ _ _ _ _ =>
  BitVec.eq_of_toNat_eq (by simp [slotCtrl, getRegset, Regsets.zero, readLE])

/-- An execute breakpoint at address 1 on thread 1. -/
def execAtOne : HardwareBreakpoint := ⟨1, 1, true, ('x', ' '), 1⟩

end Install

example : peekuserArm (installHardwareBreakpointArm Regsets.zero execAtOne).1 1 8#64 = some 1#64 := by
  decide

end Libdebug
