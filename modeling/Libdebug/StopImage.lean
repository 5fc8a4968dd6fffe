import Libdebug.CodeImage

/-!
# Memory while the tracee is stopped

What single steps and detaches see.  A stop (`wait_all_and_update_regs` returning a list, or
`stepping_finish` returning 0) restores the saved words, and from then until a call writes
memory again every enabled breakpoint's trap bytes hold its saved word, which is pristine there
(`disarms_trap`).  So a single step issued in that stretch by `prepare_for_run`'s step-over, by
`singlestep` or by `step_until` executes the original instruction (`step_sees_original`), and a
detach leaves the process without the core's traps, save those of breakpoints that were
disabled at the stop (`detach_leaves_pristine`).
-/

namespace Libdebug

variable (arch : Arch) (o : Oracle) (pid : Nat)

/-- The calls that write no memory. -/
def Call.KeepsMemory : Call → Prop
  | .registerBreakpoint _ | .pokedata .. | .contAllAndSetBps | .waitAllAndUpdateRegs
  | .steppingFinish .. => False
  | _ => True

/-- `w₁` is the state right after a stop reached from `w`: `wait_all_and_update_regs` returned a
list, or `stepping_finish` returned 0. -/
def Disarms (w w₁ : World) : Prop :=
  (∃ l, waitAllAndUpdateRegs o w pid = (w₁, some l)) ∨
    ∃ tid fuel, steppingFinish o arch w tid fuel = (w₁, some 0)

/-- A request that sees `b`'s saved word under `b`'s trap. -/
def Event.KeepsOriginal (b : SoftwareBreakpoint) (e : Event) : Prop :=
  ∀ j : Fin 8, j.val < arch.width → e.mem (b.addr + j) = b.instruction j

variable {arch o pid} {M0 : Memory}

theorem exec_mem_of_keepsMemory {c : Call} (hc : c.KeepsMemory) {w w' : World}
    (h : exec arch o pid c w = some w') : w'.mem = w.mem := by
  by_cases ht : c.TouchesCode
  · cases c <;> simp only [Call.KeepsMemory, Call.TouchesCode, Call.Runs] at hc ht
    all_goals first
      | (simp only [exec, Option.some.injEq] at h; subst h; rfl)
      | skip
    · rw [exec_stepUntil h, (stepUntil_stays o w _ _ _ _).mem]
  · exact (exec_code ht h).2

theorem Reachable.mem_of_keepsMemory {w₁ w₂ : World}
    (h : Reachable arch o pid (fun _ c => c.KeepsMemory) w₁ w₂) : w₂.mem = w₁.mem :=
  h.induction (P := fun w => w.mem = w₁.mem) rfl fun _ _ _ hw hc he =>
    (exec_mem_of_keepsMemory hc he).trans hw

/-- After a stop, the trap bytes of every enabled breakpoint hold its saved word. -/
theorem disarms_trap {w w₁ : World} (h : CodeImage arch M0 w.state.swBHead w.mem)
    (hd : Disarms arch o pid w w₁) : w₁.state.swBHead = w.state.swBHead ∧
      ∀ b ∈ w₁.state.swBHead, b.enabled = true → ∀ j : Fin 8, j.val < arch.width →
        w₁.mem (b.addr + j) = b.instruction j := by
  have key : ∀ w₂ : World, CodeImage arch M0 w₂.state.swBHead w₂.mem →
      w₂.state.swBHead = w.state.swBHead → w₁ = w₂.restore →
      w₁.state.swBHead = w.state.swBHead ∧ ∀ b ∈ w₁.state.swBHead, b.enabled = true →
        ∀ j : Fin 8, j.val < arch.width → w₁.mem (b.addr + j) = b.instruction j := by
    rintro w₂ h₂ hsw rfl
    exact ⟨hsw, fun b hb hen j hj => pokeBreakpoints_trap h₂.sorted h₂.apart hb hen hj _⟩
  rcases hd with ⟨l, hw⟩ | ⟨tid, fuel, hw⟩
  · obtain ⟨w₂, hs, hr | ⟨l', hr⟩⟩ := waitAllAndUpdateRegs_spec o w pid <;>
      simp only [hr, Prod.mk.injEq, reduceCtorEq, and_false] at hw
    refine key w₂ ?_ hs.frame.sw hw.1.symm
    rw [hs.frame.sw, hs.mem]; exact h
  · have hp := h.writtenBack (prepareForRun_writtenBack (o := o) w tid)
    rw [← (prepareForRun_frame o w tid).sw] at hp
    obtain ⟨w₂, hs, hr | ⟨hr, hne⟩⟩ := steppingFinish_ends o arch w tid fuel
    · rw [hw, Prod.mk.injEq] at hr
      refine key w₂ ?_ (hs.frame.sw.trans (prepareForRun_frame o w tid).sw) hr.1
      rw [hs.frame.sw, hs.mem]; exact hp
    · rw [hw] at hne; exact absurd rfl hne

/-- The step-overs, single steps and stepping loops issued after a stop, with only calls that
write no memory in between, see the saved word under the trap of every breakpoint that was
enabled at the stop. -/
theorem step_sees_original {w₀ w w₁ w₂ : World} (h₀ : w₀.state.swBHead = [])
    (hr : Reachable arch o pid (CodeAllowed arch) w₀ w) (hd : Disarms arch o pid w w₁)
    (hq : Reachable arch o pid (fun _ c => c.KeepsMemory) w₁ w₂) :
    ∀ b ∈ w₁.state.swBHead, b.enabled = true →
      Kernel.Logs (Event.KeepsOriginal arch b) w₂.kernel (prepareForRun o w₂ pid).1.kernel ∧
      (∀ tid, Kernel.Logs (Event.KeepsOriginal arch b) w₂.kernel (singlestep o w₂ tid).1.kernel) ∧
      ∀ tid addr maxSteps fuel, Kernel.Logs (Event.KeepsOriginal arch b) w₂.kernel
        (stepUntil o w₂ tid addr maxSteps fuel).1.kernel := by
  intro b hb hen
  have hkeep : ∀ e : Event, Event.Quiet w₂.mem e → Event.KeepsOriginal arch b e :=
    fun e he j hj => by
      rw [he.1, hq.mem_of_keepsMemory]
      exact (disarms_trap (codeImage_reachable h₀ hr) hd).2 b hb hen j hj
  exact ⟨(prepareForRun_stays o w₂ pid).logs.mono hkeep,
    fun tid => (singlestep_stays o w₂ tid).logs.mono hkeep,
    fun tid addr maxSteps fuel => (stepUntil_stays o w₂ tid addr maxSteps fuel).logs.mono hkeep⟩

/-- After the wait, the breakpoint at 0 is enabled, and the step-overs, single steps and stepping
loops see its saved word. -/
theorem step_sees_original_after_wait :
    ∃ b ∈ (waitAllAndUpdateRegs Oracle.accepting armedAtZero 1).1.state.swBHead, b.enabled = true ∧
      Kernel.Logs (Event.KeepsOriginal Arch.int3 b)
        (waitAllAndUpdateRegs Oracle.accepting armedAtZero 1).1.kernel
        (prepareForRun Oracle.accepting (waitAllAndUpdateRegs Oracle.accepting armedAtZero 1).1 1).1.kernel ∧
      (∀ tid, Kernel.Logs (Event.KeepsOriginal Arch.int3 b)
        (waitAllAndUpdateRegs Oracle.accepting armedAtZero 1).1.kernel
        (singlestep Oracle.accepting (waitAllAndUpdateRegs Oracle.accepting armedAtZero 1).1 tid).1.kernel) ∧
      ∀ tid addr maxSteps fuel, Kernel.Logs (Event.KeepsOriginal Arch.int3 b)
        (waitAllAndUpdateRegs Oracle.accepting armedAtZero 1).1.kernel
        (stepUntil Oracle.accepting (waitAllAndUpdateRegs Oracle.accepting armedAtZero 1).1
          tid addr maxSteps fuel).1.kernel :=
  ⟨_, List.mem_cons_self _ _, rfl, step_sees_original rfl armedAtZero_reachable (.inl ⟨_, rfl⟩)
    .init _ (List.mem_cons_self _ _) rfl⟩

/-- A breakpoint registered at a stopped thread's instruction pointer, then a single step: the
step is issued with the trap in memory. -/
theorem step_on_fresh_trap :
    Reachable Arch.int3 Oracle.accepting 1 (CodeAllowed Arch.int3) World.empty
      (registerBreakpoint Arch.int3 (waitAllAndUpdateRegs Oracle.accepting
        (registerThread Arch.int3 Oracle.accepting World.empty 1).1 1).1 1 0) ∧
    ∃ e ∈ (singlestep Oracle.accepting (registerBreakpoint Arch.int3 (waitAllAndUpdateRegs
        Oracle.accepting (registerThread Arch.int3 Oracle.accepting World.empty 1).1 1).1 1 0)
          1).1.kernel.log,
      e.req = .singlestep 1 0 ∧ ∃ b ∈ (registerBreakpoint Arch.int3 (waitAllAndUpdateRegs
        Oracle.accepting (registerThread Arch.int3 Oracle.accepting World.empty 1).1 1).1
          1 0).state.swBHead, e.ip = b.addr ∧ e.mem b.addr ≠ b.instruction 0 :=
  ⟨.step (.registerBreakpoint 0) (.step .waitAllAndUpdateRegs (.step (.registerThread 1) .init
    trivial rfl) trivial rfl) (codeAllowed_of_nil rfl 0) rfl, by decide⟩

/-- A kernel that accepts every request, stops every resumed thread at address 5, and whose
waits report thread 1. -/
def Oracle.stopsAtFive : Oracle := fun _ => ⟨true, ⟨5, 0⟩, 1, 0, []⟩

/-- Thread 1 stopped at 0 after a wait, with enabled breakpoints at 0 and 5. -/
def stoppedBeforeTwoTraps : World :=
  (waitAllAndUpdateRegs Oracle.stopsAtFive (registerBreakpoint Arch.int3 (registerBreakpoint
    Arch.int3 (registerThread Arch.int3 Oracle.stopsAtFive World.empty 1).1 1 0) 1 5) 1).1

/-- `stepping_finish` right after a stop: the step-over of `prepare_for_run` takes thread 1 from
0 to 5 and re-patches the trap at 5, and the loop's first single step, issued before any check
for a breakpoint, goes out at 5 with the trap in memory. -/
theorem stepping_finish_steps_onto_trap :
    Reachable Arch.int3 Oracle.stopsAtFive 1 (CodeAllowed Arch.int3) World.empty
      stoppedBeforeTwoTraps ∧
    ∃ e ∈ (steppingFinish Oracle.stopsAtFive Arch.int3 stoppedBeforeTwoTraps 1 1).1.kernel.log,
      e.req = .singlestep 1 0 ∧ ∃ b ∈ stoppedBeforeTwoTraps.state.swBHead, b.enabled = true ∧
        e.ip = b.addr ∧ e.mem b.addr ≠ b.instruction 0 :=
  ⟨.step .waitAllAndUpdateRegs (.step (.registerBreakpoint 5) (.step (.registerBreakpoint 0)
    (.step (.registerThread 1) .init trivial rfl) (codeAllowed_of_nil rfl 0) rfl)
    (fun b hb => .inr (.inl (by rw [show b.addr = 0 by revert b; decide]; decide))) rfl)
    trivial rfl, by decide⟩

/-- A detach after a stop, with only calls that write no memory in between, writes no memory
and leaves it pristine except for trap bytes of breakpoints that were disabled at the stop. -/
theorem detach_leaves_pristine {w₀ w w₁ w₂ : World} (h₀ : w₀.state.swBHead = [])
    (hr : Reachable arch o pid (CodeAllowed arch) w₀ w) (hd : Disarms arch o pid w w₁)
    (hq : Reachable arch o pid (fun _ c => c.KeepsMemory) w₁ w₂) :
    (detachForMigration o w₂ pid).mem = w₂.mem ∧ (detachAndCont o w₂ pid).mem = w₂.mem ∧
      Disarmed arch w₀.mem w₁.state.swBHead w₂.mem := by
  refine ⟨rfl, rfl, ?_⟩
  have h := codeImage_reachable h₀ hr
  rw [hq.mem_of_keepsMemory]
  rcases hd with ⟨l, hw⟩ | ⟨tid, fuel, hw⟩
  exacts [h.waitAllAndUpdateRegs_disarmed hw, h.steppingFinish_disarmed hw]

theorem detach_leaves_pristine_after_wait :
    (detachForMigration Oracle.accepting (waitAllAndUpdateRegs Oracle.accepting armedAtZero 1).1 1).mem =
      (waitAllAndUpdateRegs Oracle.accepting armedAtZero 1).1.mem ∧
    (detachAndCont Oracle.accepting (waitAllAndUpdateRegs Oracle.accepting armedAtZero 1).1 1).mem =
      (waitAllAndUpdateRegs Oracle.accepting armedAtZero 1).1.mem ∧
    Disarmed Arch.int3 World.empty.mem (waitAllAndUpdateRegs Oracle.accepting armedAtZero 1).1.state.swBHead
      (waitAllAndUpdateRegs Oracle.accepting armedAtZero 1).1.mem :=
  detach_leaves_pristine rfl armedAtZero_reachable (.inl ⟨_, rfl⟩) .init

/-- Register a breakpoint, then detach: the process is left with the trap. -/
theorem detach_leaves_trap :
    Reachable Arch.int3 Oracle.accepting 1 (CodeAllowed Arch.int3) World.empty
      (registerBreakpoint Arch.int3 World.empty 1 0) ∧
    (detachForMigration Oracle.accepting (registerBreakpoint Arch.int3 World.empty 1 0) 1).mem 0 ≠
      World.empty.mem 0 ∧
    (detachAndCont Oracle.accepting (registerBreakpoint Arch.int3 World.empty 1 0) 1).mem 0 ≠
      World.empty.mem 0 :=
  ⟨.step (.registerBreakpoint 0) .init (codeAllowed_of_nil rfl 0) rfl, by decide, by decide⟩

end Libdebug
