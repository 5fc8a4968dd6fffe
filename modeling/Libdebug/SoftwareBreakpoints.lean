import Libdebug.State

/-!
# The software-breakpoint table

`register_breakpoint`, `unregister_breakpoint`, `enable_breakpoint`, `disable_breakpoint` and
`free_breakpoints`, and the loop that writes one word of every enabled breakpoint back into
memory, which `prepare_for_run`, `wait_all_and_update_regs` and `stepping_finish` each run.

`register_breakpoint` inserts in ascending address order so that, in a loop over the list, a
breakpoint's word is written after the words of every breakpoint below it.  `Sorted` is that
order, strict; it holds of every table the operations build (`sorted_registerBreakpoint` and
the others), and `pokeBreakpoints_of_last` is what it buys: the byte at an address is the one
written by the last breakpoint whose word covers it.
-/

namespace Libdebug

/-- The walk of `register_breakpoint` past the list head: advance while the next address is
below `b`'s, then link `b` in. -/
def insertAfterHead (b : SoftwareBreakpoint) : List SoftwareBreakpoint → List SoftwareBreakpoint
  | [] => [b]
  | c :: cs => if c.addr < b.addr then c :: insertAfterHead b cs else b :: c :: cs

/-- The insertion of `register_breakpoint`: before a head whose address is above `b`'s,
otherwise by the walk. -/
def insertSorted (b : SoftwareBreakpoint) : List SoftwareBreakpoint → List SoftwareBreakpoint
  | [] => [b]
  | c :: cs => if c.addr > b.addr then b :: c :: cs else c :: insertAfterHead b cs

/-- The loop of `register_breakpoint` over an address already present: the first entry with
it is enabled. -/
def enableFirst (address : Nat) : List SoftwareBreakpoint → List SoftwareBreakpoint
  | [] => []
  | b :: bs => if b.addr = address then { b with enabled := true } :: bs
    else b :: enableFirst address bs

/-- The loop shared by `enable_breakpoint` and `disable_breakpoint`: every entry with the
address gets the flag. -/
def setBreakpointEnabled (address : Nat) (v : Bool) (bps : List SoftwareBreakpoint) :
    List SoftwareBreakpoint :=
  bps.map fun b => if b.addr = address then { b with enabled := v } else b

namespace GlobalState

/-- `unregister_breakpoint`: unlink the first entry with the address.  Memory is not touched. -/
def unregisterBreakpoint (s : GlobalState) (address : Nat) : GlobalState :=
  { s with swBHead := s.swBHead.eraseP (·.addr == address) }

/-- `enable_breakpoint`. -/
def enableBreakpoint (s : GlobalState) (address : Nat) : GlobalState :=
  { s with swBHead := setBreakpointEnabled address true s.swBHead }

/-- `disable_breakpoint`. -/
def disableBreakpoint (s : GlobalState) (address : Nat) : GlobalState :=
  { s with swBHead := setBreakpointEnabled address false s.swBHead }

/-- `free_breakpoints`: both breakpoint tables emptied. -/
def freeBreakpoints (s : GlobalState) : GlobalState := { s with swBHead := [], hwBHead := [] }

end GlobalState

variable (arch : Arch)

/-- `register_breakpoint`: read the word at the address, write it back with the trap over its
low bytes, then enable the entry for the address, or insert a new one that saves both
words. -/
def registerBreakpoint (w : World) (_pid address : Nat) : World :=
  let instruction := peekData w.mem address
  let patched := installBreakpoint arch instruction
  { w with
    mem := pokeData w.mem address patched
    state := { w.state with
      swBHead :=
        if w.state.swBHead.any (·.addr == address) then enableFirst address w.state.swBHead
        else insertSorted ⟨address, instruction, patched, true⟩ w.state.swBHead } }

/-- The loops that write a word of every enabled breakpoint, in list order: the re-patch of
`prepare_for_run` writes the patched word, the restores of `wait_all_and_update_regs` and
`stepping_finish` the saved one. -/
def pokeBreakpoints (word : SoftwareBreakpoint → Word) :
    List SoftwareBreakpoint → Memory → Memory
  | [], mem => mem
  | b :: bs, mem => pokeBreakpoints word bs (if b.enabled then pokeData mem b.addr (word b) else mem)

/-! ## The order of the table -/

/-- Addresses strictly ascending. -/
def Sorted (bps : List SoftwareBreakpoint) : Prop := bps.Pairwise (·.addr < ·.addr)

theorem mem_insertAfterHead {b x : SoftwareBreakpoint} {l : List SoftwareBreakpoint} :
    x ∈ insertAfterHead b l ↔ x = b ∨ x ∈ l := by
  induction l with
  | nil => simp [insertAfterHead]
  | cons c cs ih => unfold insertAfterHead; split_ifs <;> simp [ih, or_left_comm]

theorem mem_insertSorted {b x : SoftwareBreakpoint} {l : List SoftwareBreakpoint} :
    x ∈ insertSorted b l ↔ x = b ∨ x ∈ l := by
  cases l with
  | nil => simp [insertSorted]
  | cons c cs => simp only [insertSorted]; split_ifs <;> simp [mem_insertAfterHead, or_left_comm]

theorem sorted_insertAfterHead {b : SoftwareBreakpoint} {l : List SoftwareBreakpoint}
    (hl : Sorted l) (hb : ∀ c ∈ l, c.addr ≠ b.addr) : Sorted (insertAfterHead b l) := by
  induction l with
  | nil => simp [insertAfterHead, Sorted]
  | cons c cs ih =>
    simp only [Sorted, List.pairwise_cons] at hl
    unfold insertAfterHead
    split_ifs with h
    · refine List.pairwise_cons.2 ⟨fun x hx => ?_, ih hl.2 fun d hd => hb d (by simp [hd])⟩
      rcases mem_insertAfterHead.1 hx with rfl | hx
      · exact h
      · exact hl.1 x hx
    · have hcb : b.addr < c.addr := by have := hb c (by simp); omega
      refine List.pairwise_cons.2 ⟨fun x hx => ?_, List.pairwise_cons.2 hl⟩
      rcases List.mem_cons.1 hx with rfl | hx
      · exact hcb
      · exact hcb.trans (hl.1 x hx)

theorem sorted_insertSorted {b : SoftwareBreakpoint} {l : List SoftwareBreakpoint}
    (hl : Sorted l) (hb : ∀ c ∈ l, c.addr ≠ b.addr) : Sorted (insertSorted b l) := by
  cases l with
  | nil => simp [insertSorted, Sorted]
  | cons c cs =>
    simp only [Sorted, List.pairwise_cons] at hl
    simp only [insertSorted]
    split_ifs with h
    · refine List.pairwise_cons.2 ⟨fun x hx => ?_, List.pairwise_cons.2 hl⟩
      rcases List.mem_cons.1 hx with rfl | hx
      · exact h
      · exact h.trans (hl.1 x hx)
    · have hcb : c.addr < b.addr := by have := hb c (by simp); omega
      refine List.pairwise_cons.2 ⟨fun x hx => ?_,
        sorted_insertAfterHead hl.2 fun d hd => hb d (by simp [hd])⟩
      rcases mem_insertAfterHead.1 hx with rfl | hx
      · exact hcb
      · exact hl.1 x hx

/-- Under strict order the first entry with an address is the only one. -/
theorem enableFirst_eq_setBreakpointEnabled {l : List SoftwareBreakpoint} (hl : Sorted l)
    (address : Nat) : enableFirst address l = setBreakpointEnabled address true l := by
  induction l with
  | nil => rfl
  | cons c cs ih =>
    simp only [Sorted, List.pairwise_cons] at hl
    by_cases h : c.addr = address
    · have : ∀ d ∈ cs, ¬d.addr = address := fun d hd e => by have := hl.1 d hd; omega
      simp [enableFirst, setBreakpointEnabled, h, List.map_congr_left (l := cs)
        (f := fun b => if b.addr = address then { b with enabled := true } else b) (g := id)
        fun d hd => by simp [this d hd]]
    · simp [enableFirst, setBreakpointEnabled, h, ih hl.2]

theorem sorted_setBreakpointEnabled {l : List SoftwareBreakpoint} (hl : Sorted l)
    (address : Nat) (v : Bool) : Sorted (setBreakpointEnabled address v l) := by
  refine List.pairwise_map.2 (hl.imp fun {a b} h => ?_)
  split_ifs <;> exact h

theorem sorted_eraseP {l : List SoftwareBreakpoint} (hl : Sorted l) (p : SoftwareBreakpoint → Bool) :
    Sorted (l.eraseP p) := hl.sublist (List.eraseP_sublist l)

theorem sorted_registerBreakpoint {w : World} (hl : Sorted w.state.swBHead) (pid address : Nat) :
    Sorted (registerBreakpoint arch w pid address).state.swBHead := by
  by_cases hp : w.state.swBHead.any (·.addr == address)
  · simp only [registerBreakpoint, hp, if_true, enableFirst_eq_setBreakpointEnabled hl]
    exact sorted_setBreakpointEnabled hl address true
  · simp only [registerBreakpoint, hp, Bool.false_eq_true, if_false]
    exact sorted_insertSorted hl fun c hc hca => hp (List.any_eq_true.2 ⟨c, hc, by simp [hca]⟩)

/-- Removing the inserted entry gives the table back when no other entry matches. -/
theorem eraseP_insertAfterHead {b : SoftwareBreakpoint} {p : SoftwareBreakpoint → Bool}
    (hb : p b = true) : ∀ {l : List SoftwareBreakpoint}, (∀ c ∈ l, p c = false) →
      (insertAfterHead b l).eraseP p = l
  | [], _ => by simp [insertAfterHead, hb]
  | c :: cs, h => by
    unfold insertAfterHead
    split_ifs
    · rw [List.eraseP_cons_of_neg (by simp [h c (List.mem_cons_self _ _)]),
        eraseP_insertAfterHead hb fun d hd => h d (List.mem_cons_of_mem _ hd)]
    · rw [List.eraseP_cons_of_pos hb]

theorem eraseP_insertSorted {b : SoftwareBreakpoint} {p : SoftwareBreakpoint → Bool}
    (hb : p b = true) {l : List SoftwareBreakpoint} (h : ∀ c ∈ l, p c = false) :
    (insertSorted b l).eraseP p = l := by
  cases l with
  | nil => simp [insertSorted, hb]
  | cons c cs =>
    simp only [insertSorted]
    split_ifs
    · rw [List.eraseP_cons_of_pos hb]
    · rw [List.eraseP_cons_of_neg (by simp [h c (List.mem_cons_self _ _)]),
        eraseP_insertAfterHead hb fun d hd => h d (List.mem_cons_of_mem _ hd)]

/-! ## The write-back loop -/

variable {word : SoftwareBreakpoint → Word}

/-- The loop's word at `p` comes from a breakpoint whose word covers `p`. -/
def WritesAt (p : Nat) (b : SoftwareBreakpoint) : Prop :=
  b.enabled = true ∧ b.addr ≤ p ∧ p < b.addr + 8

theorem pokeBreakpoints_append (l₁ l₂ : List SoftwareBreakpoint) (mem : Memory) :
    pokeBreakpoints word (l₁ ++ l₂) mem = pokeBreakpoints word l₂ (pokeBreakpoints word l₁ mem) := by
  induction l₁ generalizing mem with
  | nil => rfl
  | cons b bs ih => exact ih _

/-- A byte no enabled breakpoint's word covers keeps its value. -/
theorem pokeBreakpoints_of_forall_not {l : List SoftwareBreakpoint} {p : Nat}
    (h : ∀ b ∈ l, ¬WritesAt p b) (mem : Memory) : pokeBreakpoints word l mem p = mem p := by
  induction l generalizing mem with
  | nil => rfl
  | cons b bs ih =>
    rw [pokeBreakpoints, ih (fun c hc => h c (by simp [hc]))]
    have hb := h b (by simp)
    split_ifs with he
    · exact pokeData_of_not_mem _ (by simp only [WritesAt, he, true_and] at hb; omega)
    · rfl

/-- The byte at `p` is the last word covering it: that of `b`, when no enabled breakpoint
after `b` covers `p`. -/
theorem pokeBreakpoints_of_last {l₁ l₂ : List SoftwareBreakpoint} {b : SoftwareBreakpoint}
    {p : Nat} (hb : WritesAt p b) (h : ∀ c ∈ l₂, ¬WritesAt p c) (mem : Memory) :
    pokeBreakpoints word (l₁ ++ b :: l₂) mem p = word b ⟨p - b.addr, by unfold WritesAt at hb; omega⟩ := by
  rw [pokeBreakpoints_append, pokeBreakpoints, pokeBreakpoints_of_forall_not h, if_pos hb.1]
  exact pokeData_of_mem _ hb.2.1 hb.2.2

/-- A property of single bytes that the memory has everywhere and every written word has at
the bytes it covers holds everywhere after the loop. -/
theorem pokeBreakpoints_forall {l : List SoftwareBreakpoint} {P : Nat → UInt8 → Prop}
    {mem : Memory} (hmem : ∀ p, P p (mem p))
    (hw : ∀ b ∈ l, b.enabled = true → ∀ j : Fin 8, P (b.addr + j) (word b j)) (p : Nat) :
    P p (pokeBreakpoints word l mem p) := by
  induction l generalizing mem with
  | nil => exact hmem p
  | cons b bs ih =>
    refine ih (fun q => ?_) (fun c hc => hw c (by simp [hc]))
    split_ifs with he
    · rcases pokeData_cases mem b.addr (word b) q with h | ⟨j, rfl, h⟩
      · rw [h]; exact hmem q
      · rw [h]; exact hw b (by simp) he j
    · exact hmem q

end Libdebug
