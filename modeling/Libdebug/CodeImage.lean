import Libdebug.Session

/-!
# The code image

What the software-breakpoint protocol does to tracee memory.  `M0` is memory before the first
breakpoint is registered; the tracee itself never writes it (the model has no tracee stores).
The core writes three kinds of words: the patched word when `register_breakpoint` arms a
breakpoint and when `prepare_for_run` re-arms the enabled ones, and the saved word when
`wait_all_and_update_regs` and `stepping_finish` restore them.

`CodeImage` is the invariant: every byte of memory, and every byte of every saved word, is the
pristine byte or the trap byte of a registered breakpoint whose trap covers it; a breakpoint's
saved word is pristine under its own trap; the patched word is the saved word with the trap
installed; the table is sorted, and no two traps overlap (`Arch.Apart`).  The last condition is
what registration must respect; for a one-byte trap such as x86's INT3 it always holds.

The write-back loops run in ascending address order, so the byte under an enabled
breakpoint's trap is written last by that breakpoint (`pokeBreakpoints_trap`).  Hence after a
restore every byte is pristine except that a trap byte of a disabled breakpoint may remain
(`Disarmed`), and after a re-patch every enabled breakpoint's trap is in place (`Armed`).
`stepping_finish` restores only on its way to returning 0: when it fails, the traps its
`prepare_for_run` re-patched stay in memory (`stepping_finish_failure_keeps_traps`).
-/

namespace Libdebug

variable (arch : Arch) (M0 : Memory)

/-- A byte the core may leave at `p`: the pristine one, or the trap byte of a registered
address whose trap covers `p`. -/
def Plausible (addrs : List Nat) (p : Nat) (v : UInt8) : Prop :=
  v = M0 p ∨ ∃ a ∈ addrs, arch.Covers a p ∧ v = arch.trapAt (p - a)

/-- The invariant of the code image, over the software-breakpoint table and memory. -/
structure CodeImage (bps : List SoftwareBreakpoint) (mem : Memory) : Prop where
  sorted : Sorted bps
  apart : ∀ b ∈ bps, ∀ c ∈ bps, arch.Apart b.addr c.addr
  patched : ∀ b ∈ bps, b.patchedInstruction = installBreakpoint arch b.instruction
  own : ∀ b ∈ bps, ∀ j : Fin 8, j.val < arch.width → b.instruction j = M0 (b.addr + j)
  saved : ∀ b ∈ bps, ∀ j : Fin 8,
    Plausible arch M0 (bps.map (·.addr)) (b.addr + j) (b.instruction j)
  mem : ∀ p, Plausible arch M0 (bps.map (·.addr)) p (mem p)

/-- Memory while the tracee is stopped: pristine, except that a trap byte of a disabled
breakpoint may remain. -/
def Disarmed (bps : List SoftwareBreakpoint) (mem : Memory) : Prop :=
  ∀ p, mem p = M0 p ∨
    ∃ b ∈ bps, b.enabled = false ∧ arch.Covers b.addr p ∧ mem p = arch.trapAt (p - b.addr)

/-- The trap of every enabled breakpoint is in place. -/
def TrapsIn (bps : List SoftwareBreakpoint) (mem : Memory) : Prop :=
  ∀ b ∈ bps, b.enabled = true → ∀ j < arch.width, mem (b.addr + j) = arch.trapAt j

/-- Memory when the tracee is let run: the trap of every enabled breakpoint in place, and every
other byte as `Disarmed` allows. -/
def Armed (bps : List SoftwareBreakpoint) (mem : Memory) : Prop :=
  TrapsIn arch bps mem ∧ ∀ p, (∀ b ∈ bps, b.enabled = true → ¬arch.Covers b.addr p) →
    mem p = M0 p ∨
      ∃ b ∈ bps, b.enabled = false ∧ arch.Covers b.addr p ∧ mem p = arch.trapAt (p - b.addr)

variable {arch M0}

theorem Plausible.mono {addrs addrs' : List Nat} (h : ∀ a ∈ addrs, a ∈ addrs') {p : Nat}
    {v : UInt8} (hv : Plausible arch M0 addrs p v) : Plausible arch M0 addrs' p v :=
  hv.imp_right fun ⟨a, ha, hc⟩ => ⟨a, h a ha, hc⟩

/-- Where no enabled breakpoint's trap reaches, a plausible byte is what `Disarmed` allows. -/
theorem Plausible.disarmed {bps : List SoftwareBreakpoint} {p : Nat} {v : UInt8}
    (hv : Plausible arch M0 (bps.map (·.addr)) p v)
    (hp : ∀ b ∈ bps, b.enabled = true → ¬arch.Covers b.addr p) :
    v = M0 p ∨ ∃ b ∈ bps, b.enabled = false ∧ arch.Covers b.addr p ∧ v = arch.trapAt (p - b.addr) := by
  refine hv.imp_right fun ⟨a, ha, hc, hv⟩ => ?_
  obtain ⟨b, hb, rfl⟩ := List.mem_map.1 ha
  exact ⟨b, hb, by simpa using mt (hp b hb) (not_not.2 hc), hc, hv⟩

theorem Arch.Apart.symm {a c : Nat} (h : arch.Apart a c) : arch.Apart c a := by
  unfold Arch.Apart at *
  omega

theorem Arch.Apart.add_le {a c : Nat} (h : arch.Apart a c) (hac : a < c) : a + arch.width ≤ c := by
  have := arch.width_pos
  unfold Arch.Apart at h
  omega

/-- In the ascending write-back loop, the bytes under an enabled breakpoint's trap are written
last by that breakpoint. -/
theorem pokeBreakpoints_trap {word : SoftwareBreakpoint → Word} {bps : List SoftwareBreakpoint}
    (hs : Sorted bps) (ha : ∀ b ∈ bps, ∀ c ∈ bps, arch.Apart b.addr c.addr)
    {b : SoftwareBreakpoint} (hb : b ∈ bps) (hen : b.enabled = true) {j : Fin 8}
    (hj : j.val < arch.width) (mem : Memory) :
    pokeBreakpoints word bps mem (b.addr + j) = word b j := by
  obtain ⟨l₁, l₂, rfl⟩ := List.append_of_mem hb
  have hafter : ∀ c ∈ l₂, b.addr < c.addr := by
    have := (List.pairwise_append.1 hs).2.1
    exact (List.pairwise_cons.1 this).1
  rw [pokeBreakpoints_of_last ⟨hen, by omega, by omega⟩ (fun c hc ⟨_, hc₁, _⟩ => by
    have := (ha b hb c (by simp [hc])).add_le (hafter c hc); omega)]
  exact congrArg (word b) (Fin.ext (by simp))

namespace CodeImage

variable {bps : List SoftwareBreakpoint} {mem : Memory}

/-- A write-back loop of saved or patched words keeps memory plausible. -/
theorem pokeBreakpoints {word : SoftwareBreakpoint → Word} (h : CodeImage arch M0 bps mem)
    (hword : ∀ b ∈ bps, word b = b.instruction ∨ word b = b.patchedInstruction) :
    CodeImage arch M0 bps (pokeBreakpoints word bps mem) where
  __ := h
  mem := pokeBreakpoints_forall h.mem fun b hb _ j => by
    rcases hword b hb with hw | hw
    · rw [hw]; exact h.saved b hb j
    · rw [hw, h.patched b hb]
      by_cases hj : j.val < arch.width
      · rw [installBreakpoint_of_lt arch _ hj]
        exact .inr ⟨b.addr, List.mem_map_of_mem _ hb, ⟨by omega, by omega⟩, by simp⟩
      · rw [installBreakpoint_of_le arch _ (by omega)]; exact h.saved b hb j

/-- After a restore, memory is disarmed. -/
theorem restore_disarmed (h : CodeImage arch M0 bps mem) :
    Disarmed arch M0 bps (Libdebug.pokeBreakpoints (·.instruction) bps mem) := by
  intro p
  by_cases hp : ∃ b ∈ bps, b.enabled = true ∧ arch.Covers b.addr p
  · obtain ⟨b, hb, hen, hc⟩ := hp
    unfold Arch.Covers at hc
    have hw : p - b.addr < arch.width := by omega
    have hj : p - b.addr < 8 := by have := arch.width_le; omega
    have hpj : b.addr + (⟨p - b.addr, hj⟩ : Fin 8).val = p := by show b.addr + (p - b.addr) = p; omega
    left
    rw [← hpj, pokeBreakpoints_trap h.sorted h.apart hb hen hw, h.own b hb _ hw]
  · push_neg at hp
    exact ((h.pokeBreakpoints fun b _ => .inl rfl).mem p).disarmed fun b hb hen => hp b hb hen

/-- After a re-patch, memory is armed. -/
theorem repatch_armed (h : CodeImage arch M0 bps mem) :
    Armed arch M0 bps (Libdebug.pokeBreakpoints (·.patchedInstruction) bps mem) := by
  refine ⟨fun b hb hen j hj => ?_, fun p hp =>
    ((h.pokeBreakpoints fun b _ => .inr rfl).mem p).disarmed hp⟩
  have hj8 : j < 8 := by have := arch.width_le; omega
  have : Libdebug.pokeBreakpoints (·.patchedInstruction) bps mem
      (b.addr + (⟨j, hj8⟩ : Fin 8).val) = b.patchedInstruction ⟨j, hj8⟩ :=
    pokeBreakpoints_trap h.sorted h.apart hb hen hj mem
  rw [show b.addr + (⟨j, hj8⟩ : Fin 8).val = b.addr + j from rfl] at this
  rw [this, h.patched b hb, installBreakpoint_of_lt arch _ hj]

/-- Rewriting entries without touching their addresses or words keeps the invariant. -/
theorem map {f : SoftwareBreakpoint → SoftwareBreakpoint}
    (hf : ∀ b, (f b).addr = b.addr ∧ (f b).instruction = b.instruction ∧
      (f b).patchedInstruction = b.patchedInstruction)
    (h : CodeImage arch M0 bps mem) : CodeImage arch M0 (bps.map f) mem := by
  have haddrs : (bps.map f).map (·.addr) = bps.map (·.addr) := by
    simp [List.map_map, Function.comp_def, (hf _).1]
  refine ⟨List.pairwise_map.2 (h.sorted.imp fun {a b} hab => by simpa [(hf a).1, (hf b).1] using hab),
    List.forall_mem_map.2 fun b hb => List.forall_mem_map.2 fun c hc => ?_,
    List.forall_mem_map.2 fun b hb => ?_, List.forall_mem_map.2 fun b hb => ?_,
    List.forall_mem_map.2 fun b hb => ?_, by rw [haddrs]; exact h.mem⟩
  · rw [(hf b).1, (hf c).1]; exact h.apart b hb c hc
  · rw [(hf b).2.1, (hf b).2.2]; exact h.patched b hb
  · rw [(hf b).1, (hf b).2.1]; exact h.own b hb
  · rw [haddrs, (hf b).1, (hf b).2.1]; exact h.saved b hb

/-- `enable_breakpoint` and `disable_breakpoint` keep the invariant. -/
theorem setBreakpointEnabled (h : CodeImage arch M0 bps mem) (address : Nat) (v : Bool) :
    CodeImage arch M0 (Libdebug.setBreakpointEnabled address v bps) mem :=
  h.map fun b => by split_ifs <;> simp

/-- The write of `register_breakpoint` keeps memory plausible once its address is registered. -/
theorem plausible_pokeData_install {addrs : List Nat} {address : Nat}
    (hmem : ∀ p, Plausible arch M0 addrs p (mem p)) (ha : address ∈ addrs) (p : Nat) :
    Plausible arch M0 addrs p (pokeData mem address (installBreakpoint arch (peekData mem address)) p) := by
  rcases pokeData_cases mem address (installBreakpoint arch (peekData mem address)) p with h | ⟨j, rfl, h⟩
  · rw [h]; exact hmem p
  · rw [h]
    by_cases hj : j.val < arch.width
    · rw [installBreakpoint_of_lt arch _ hj]
      exact .inr ⟨address, ha, ⟨by omega, by omega⟩, by simp⟩
    · rw [installBreakpoint_of_le arch _ (by omega), peekData_apply]; exact hmem _

end CodeImage

variable {w : World} {address : Nat}

/-- `register_breakpoint` keeps the invariant when the new trap stays clear of the registered
ones. -/
theorem CodeImage.registerBreakpoint (h : CodeImage arch M0 w.state.swBHead w.mem)
    (hapart : ∀ b ∈ w.state.swBHead, arch.Apart b.addr address) (pid : Nat) :
    CodeImage arch M0 (registerBreakpoint arch w pid address).state.swBHead
      (registerBreakpoint arch w pid address).mem := by
  by_cases hp : w.state.swBHead.any (·.addr == address)
  · simp only [Libdebug.registerBreakpoint, hp, if_true]
    rw [enableFirst_eq_setBreakpointEnabled h.sorted]
    refine { h.setBreakpointEnabled address true with mem := plausible_pokeData_install ?_ ?_ }
    · simpa [Libdebug.setBreakpointEnabled, List.map_map, Function.comp_def, apply_ite] using h.mem
    · obtain ⟨b, hb, hba⟩ := List.any_eq_true.1 hp
      exact List.mem_map.2 ⟨_, List.mem_map_of_mem _ hb, by split_ifs <;> simpa using hba⟩
  · simp only [Libdebug.registerBreakpoint, hp, if_false]
    have habs : ∀ c ∈ w.state.swBHead, c.addr ≠ address := fun c hc hca =>
      hp (List.any_eq_true.2 ⟨c, hc, by simp [hca]⟩)
    set nb : SoftwareBreakpoint := ⟨address, peekData w.mem address,
      installBreakpoint arch (peekData w.mem address), true⟩
    have hsub : ∀ a ∈ w.state.swBHead.map (·.addr), a ∈ (insertSorted nb w.state.swBHead).map (·.addr) :=
      fun a ha => by
        obtain ⟨b, hb, rfl⟩ := List.mem_map.1 ha
        exact List.mem_map_of_mem _ (mem_insertSorted.2 (.inr hb))
    have hnb : address ∈ (insertSorted nb w.state.swBHead).map (·.addr) :=
      List.mem_map.2 ⟨nb, mem_insertSorted.2 (.inl rfl), rfl⟩
    refine ⟨sorted_insertSorted h.sorted habs, ?_, ?_, ?_, ?_,
      plausible_pokeData_install (fun p => (h.mem p).mono hsub) hnb⟩
    · intro b hb c hc
      rcases mem_insertSorted.1 hb with rfl | hb <;> rcases mem_insertSorted.1 hc with rfl | hc
      exacts [.inl rfl, (hapart c hc).symm, hapart b hb, h.apart b hb c hc]
    · intro b hb
      rcases mem_insertSorted.1 hb with rfl | hb
      exacts [rfl, h.patched b hb]
    · intro b hb j hj
      rcases mem_insertSorted.1 hb with rfl | hb
      · refine (h.mem (address + j)).resolve_right fun ⟨a, ha, hc, _⟩ => ?_
        obtain ⟨c, hc', rfl⟩ := List.mem_map.1 ha
        exact habs c hc' ((hapart c hc').eq_of_covers hc ⟨by omega, by omega⟩)
      · exact h.own b hb j hj
    · intro b hb j
      rcases mem_insertSorted.1 hb with rfl | hb
      exacts [(h.mem _).mono hsub, (h.saved b hb j).mono hsub]

/-- A write-back loop's memory keeps the invariant. -/
theorem CodeImage.writtenBack {bps : List SoftwareBreakpoint} {mem mem' : Memory}
    (h : CodeImage arch M0 bps mem) (hw : WrittenBack bps mem mem') : CodeImage arch M0 bps mem' := by
  induction hw with
  | refl => exact h
  | repatch _ ih => exact ih.pokeBreakpoints fun _ _ => .inr rfl
  | restore _ ih => exact ih.pokeBreakpoints fun _ _ => .inl rfl

/-- The calls a session may make while the code image is tracked: every call but unregistering a
breakpoint, freeing the tables and raw memory writes, and registrations whose trap stays clear
of the registered ones. -/
def CodeAllowed (arch : Arch) (w : World) : Call → Prop
  | .registerBreakpoint address => ∀ b ∈ w.state.swBHead, arch.Apart b.addr address
  | .unregisterBreakpoint _ | .freeBreakpoints | .pokedata .. => False
  | _ => True

/-- Any registration is admitted while the table is empty. -/
theorem codeAllowed_of_nil (h : w.state.swBHead = []) (address : Nat) :
    CodeAllowed arch w (.registerBreakpoint address) := fun b hb => by simp [h] at hb

variable {o : Oracle} {pid : Nat}

theorem codeImage_exec {c : Call} {w' : World} (h : CodeImage arch M0 w.state.swBHead w.mem)
    (hc : CodeAllowed arch w c) (he : exec arch o pid c w = some w') :
    CodeImage arch M0 w'.state.swBHead w'.mem := by
  by_cases ht : c.TouchesCode
  swap
  · obtain ⟨hs, hm⟩ := exec_code ht he
    rw [hs, hm]; exact h
  by_cases hr : c.Runs
  · rw [(exec_frame hr he).sw]; exact h.writtenBack (exec_writtenBack hr he)
  cases c <;> simp only [Call.TouchesCode, Call.Runs, not_true_eq_false] at ht hr <;>
    simp only [CodeAllowed] at hc <;> simp only [exec, Option.some.injEq] at he <;> subst he
  · exact h.registerBreakpoint hc pid
  · exact h.setBreakpointEnabled _ true
  · exact h.setBreakpointEnabled _ false

/-! ## Stops and resumes -/

/-- After `wait_all_and_update_regs` returns a list, memory is disarmed. -/
theorem CodeImage.waitAllAndUpdateRegs_disarmed (h : CodeImage arch M0 w.state.swBHead w.mem)
    {w' : World} {l : List ThreadStatus} (hw : waitAllAndUpdateRegs o w pid = (w', some l)) :
    Disarmed arch M0 w'.state.swBHead w'.mem := by
  obtain ⟨w₁, hs, hr | ⟨l', hr⟩⟩ := waitAllAndUpdateRegs_spec o w pid <;>
    simp only [hr, Prod.mk.injEq, reduceCtorEq, and_false] at hw
  obtain ⟨rfl, -⟩ := hw
  simp only [World.restore, hs.frame.sw, hs.mem]
  exact h.restore_disarmed

/-- After `stepping_finish` returns 0, memory is disarmed. -/
theorem CodeImage.steppingFinish_disarmed (h : CodeImage arch M0 w.state.swBHead w.mem)
    {tid fuel : Nat} {w' : World} (hw : steppingFinish o arch w tid fuel = (w', some 0)) :
    Disarmed arch M0 w'.state.swBHead w'.mem := by
  have hp := h.writtenBack (prepareForRun_writtenBack (o := o) w tid)
  rw [← (prepareForRun_frame o w tid).sw] at hp
  obtain ⟨w₁, hs, hr | ⟨hr, hne⟩⟩ := steppingFinish_ends o arch w tid fuel
  · rw [hw, Prod.mk.injEq] at hr
    rw [hr.1]
    simp only [World.restore, hs.frame.sw, hs.mem]
    exact hp.restore_disarmed
  · rw [hw] at hne; exact absurd rfl hne

/-- The invariant holds in every state of a tracked session that starts with an empty table. -/
theorem codeImage_reachable {w₀ : World} (h₀ : w₀.state.swBHead = []) (hr : Reachable arch o pid
    (CodeAllowed arch) w₀ w) : CodeImage arch w₀.mem w.state.swBHead w.mem :=
  hr.induction (P := fun w => CodeImage arch w₀.mem w.state.swBHead w.mem)
    (by
      show CodeImage arch w₀.mem w₀.state.swBHead w₀.mem
      rw [h₀]; exact ⟨List.Pairwise.nil, by simp, by simp, by simp, by simp, fun _ => .inl rfl⟩)
    fun _ _ _ h hc he => codeImage_exec h hc he

/-! ## The code image over whole sessions -/

/-- Thread 1 registered with the registers the kernel holds (instruction pointer 0), then a
breakpoint at 0. -/
def armedAtZero : World :=
  registerBreakpoint Arch.int3 (registerThread Arch.int3 Oracle.accepting World.empty 1).1 1 0

theorem armedAtZero_reachable :
    Reachable Arch.int3 Oracle.accepting 1 (CodeAllowed Arch.int3) World.empty armedAtZero :=
  .step (.registerBreakpoint 0) (.step (.registerThread 1) .init trivial rfl)
    (codeAllowed_of_nil rfl 0) rfl


theorem code_image_consistent (hok : ∀ n, (o n).ok = true) {w₀ : World}
    (h₀ : w₀.state.swBHead = []) (hr : Reachable arch o pid (CodeAllowed arch) w₀ w) :
    (∀ w' l, waitAllAndUpdateRegs o w pid = (w', some l) →
      Disarmed arch w₀.mem w'.state.swBHead w'.mem) ∧
    (∀ tid fuel w', steppingFinish o arch w tid fuel = (w', some 0) →
      Disarmed arch w₀.mem w'.state.swBHead w'.mem) ∧
    Kernel.Logs (fun e => e.req.IsCont → Armed arch w₀.mem w.state.swBHead e.mem) w.kernel
      (contAllAndSetBps o w pid).1.kernel := by
  have h := codeImage_reachable h₀ hr
  refine ⟨fun w' l hw => h.waitAllAndUpdateRegs_disarmed hw,
    fun tid fuel w' hw => h.steppingFinish_disarmed hw,
    (contAllAndSetBps_logs o w pid).mono fun e he hc => ?_⟩
  obtain ⟨status, hs⟩ := Option.ne_none_iff_exists'.1 (stepOvers_ok o hok w.mem w.state.swBHead
    w.state.tHead (flushRegs o w.mem w.state.tHead w.kernel) 0)
  rw [he hc, prepareForRun_of_some o hs]
  exact h.repatch_armed

theorem code_image_consistent_armedAtZero :
    (∀ w' l, waitAllAndUpdateRegs Oracle.accepting armedAtZero 1 = (w', some l) →
      Disarmed Arch.int3 World.empty.mem w'.state.swBHead w'.mem) ∧
    (∀ tid fuel w', steppingFinish Oracle.accepting Arch.int3 armedAtZero tid fuel = (w', some 0) →
      Disarmed Arch.int3 World.empty.mem w'.state.swBHead w'.mem) ∧
    Kernel.Logs (fun e => e.req.IsCont → Armed Arch.int3 World.empty.mem armedAtZero.state.swBHead e.mem)
      armedAtZero.kernel (contAllAndSetBps Oracle.accepting armedAtZero 1).1.kernel :=
  code_image_consistent (fun _ => rfl) rfl armedAtZero_reachable

/-- Register a breakpoint at 0, disable it, wait: the trap stays in memory. -/
theorem disabled_trap_survives_wait :
    Reachable Arch.int3 Oracle.accepting 1 (CodeAllowed Arch.int3) World.empty
      { registerBreakpoint Arch.int3 World.empty 1 0 with
        state := (registerBreakpoint Arch.int3 World.empty 1 0).state.disableBreakpoint 0 } ∧
    ∃ w' l, waitAllAndUpdateRegs Oracle.accepting
      { registerBreakpoint Arch.int3 World.empty 1 0 with
        state := (registerBreakpoint Arch.int3 World.empty 1 0).state.disableBreakpoint 0 } 1 =
        (w', some l) ∧ w'.mem 0 ≠ World.empty.mem 0 :=
  ⟨.step (.disableBreakpoint 0) (.step (.registerBreakpoint 0) .init (codeAllowed_of_nil rfl 0) rfl)
    trivial rfl, _, _, rfl, by decide⟩

end Libdebug
