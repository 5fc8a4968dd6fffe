import Libdebug.HardwareBreakpoints
import Libdebug.Detach

/-!
# A debugging session

The exported functions of the core, the writes the caller makes through the pointers they hand
out, and the two raw `ptrace` wrappers that change state, as one step function over `World`.
A session is any sequence of calls: `Reachable allowed w₀ w` says that `w` comes from `w₀` by
calls that `allowed` admits in the state they are made in, each of which returned.  Each result
about whole sessions picks its `allowed`.

The frame lemmas (`exec_frame`, `exec_code`, `exec_debugRegs`) say once what each call leaves
alone; the invariants of the later modules are derived from them.
-/

namespace Libdebug

/-- `ptrace_pokedata`: one word of tracee memory. -/
def ptracePokedata (w : World) (addr : Nat) (data : Word) : World :=
  { w with mem := pokeData w.mem addr data }

/-- `ptrace_pokeuser` on x86_64: one word of a thread's user area. -/
def ptracePokeuser (w : World) (tid addr : Nat) (data : BitVec 64) : World :=
  { w with user := Function.update w.user tid (Function.update (w.user tid) addr data) }

/-- The calls a session is made of. -/
inductive Call where
  | registerThread (tid : Nat)
  | unregisterThread (tid : Nat)
  | freeThreadList
  /-- A write of the caller through the pointer `register_thread` returned. -/
  | setRegs (tid : Nat) (regs : Regs)
  /-- A write of the caller to a live thread's `signal_to_forward`. -/
  | setSignalToForward (tid sig : Nat)
  /-- A write of the caller to `handle_syscall_enabled`. -/
  | setHandleSyscall (v : Bool)
  | registerBreakpoint (address : Nat)
  | unregisterBreakpoint (address : Nat)
  | enableBreakpoint (address : Nat)
  | disableBreakpoint (address : Nat)
  | freeBreakpoints
  | registerHwBreakpoint (tid : Nat) (address : BitVec 64) (type : Char × Char) (len : Nat)
  | unregisterHwBreakpoint (tid : Nat) (address : BitVec 64)
  | enableHwBreakpoint (tid : Nat) (address : BitVec 64)
  | disableHwBreakpoint (tid : Nat) (address : BitVec 64)
  | pokedata (addr : Nat) (data : Word)
  | pokeuser (tid addr : Nat) (data : BitVec 64)
  | contAllAndSetBps
  | waitAllAndUpdateRegs
  | singlestep (tid : Nat)
  | stepUntil (tid addr : Nat) (maxSteps : Int) (fuel : Nat)
  | steppingFinish (tid fuel : Nat)
  | detachForKill
  | detachForMigration
  | reattachFromGdb
  | detachAndCont

/-- The entry points that run, stop, step, detach or reattach the tracee. -/
def Call.Runs : Call → Prop
  | contAllAndSetBps | waitAllAndUpdateRegs | singlestep _ | stepUntil .. | steppingFinish ..
  | detachForKill | detachForMigration | reattachFromGdb | detachAndCont => True
  | _ => False

/-- The calls that may write tracee memory or the software-breakpoint table. -/
def Call.TouchesCode : Call → Prop
  | registerBreakpoint _ | unregisterBreakpoint _ | enableBreakpoint _ | disableBreakpoint _
  | freeBreakpoints | pokedata .. => True
  | c => c.Runs

/-- The calls that may write a user area or the hardware-breakpoint table. -/
def Call.TouchesDebugRegs : Call → Prop
  | registerHwBreakpoint .. | unregisterHwBreakpoint .. | enableHwBreakpoint ..
  | disableHwBreakpoint .. | freeBreakpoints | pokeuser .. => True
  | _ => False

variable (arch : Arch) (o : Oracle) (pid : Nat)

/-- One call.  A stepping loop that runs out of fuel has not returned, so there is no next
state. -/
def exec : Call → World → Option World
  | .registerThread tid, w => some (registerThread arch o w tid).1
  | .unregisterThread tid, w => some { w with state := w.state.unregisterThread tid }
  | .freeThreadList, w => some { w with state := w.state.freeThreadList }
  | .setRegs tid regs, w => some { w with state := w.state.modifyThread tid ({ · with regs }) }
  | .setSignalToForward tid sig, w =>
    some { w with state := w.state.modifyThread tid ({ · with signalToForward := sig }) }
  | .setHandleSyscall v, w => some { w with state := { w.state with handleSyscallEnabled := v } }
  | .registerBreakpoint address, w => some (registerBreakpoint arch w pid address)
  | .unregisterBreakpoint address, w =>
    some { w with state := w.state.unregisterBreakpoint address }
  | .enableBreakpoint address, w => some { w with state := w.state.enableBreakpoint address }
  | .disableBreakpoint address, w => some { w with state := w.state.disableBreakpoint address }
  | .freeBreakpoints, w => some { w with state := w.state.freeBreakpoints }
  | .registerHwBreakpoint tid address type len, w =>
    some (registerHwBreakpoint w tid address type len)
  | .unregisterHwBreakpoint tid address, w => some (unregisterHwBreakpoint w tid address)
  | .enableHwBreakpoint tid address, w => some (enableHwBreakpoint w tid address)
  | .disableHwBreakpoint tid address, w => some (disableHwBreakpoint w tid address)
  | .pokedata addr data, w => some (ptracePokedata w addr data)
  | .pokeuser tid addr data, w => some (ptracePokeuser w tid addr data)
  | .contAllAndSetBps, w => some (contAllAndSetBps o w pid).1
  | .waitAllAndUpdateRegs, w => some (waitAllAndUpdateRegs o w pid).1
  | .singlestep tid, w => some (singlestep o w tid).1
  | .stepUntil tid addr maxSteps fuel, w =>
    (stepUntil o w tid addr maxSteps fuel).2.map fun _ => (stepUntil o w tid addr maxSteps fuel).1
  | .steppingFinish tid fuel, w =>
    (steppingFinish o arch w tid fuel).2.map fun _ => (steppingFinish o arch w tid fuel).1
  | .detachForKill, w => some (detachForKill o w pid)
  | .detachForMigration, w => some (detachForMigration o w pid)
  | .reattachFromGdb, w => some (reattachFromGdb o w pid)
  | .detachAndCont, w => some (detachAndCont o w pid)

/-- The states a session reaches from `w₀` by calls that `allowed` admits. -/
inductive Reachable (allowed : World → Call → Prop) (w₀ : World) : World → Prop
  | init : Reachable allowed w₀ w₀
  | step {w w' : World} (c : Call) : Reachable allowed w₀ w → allowed w c →
      exec arch o pid c w = some w' → Reachable allowed w₀ w'

variable {arch o pid}

/-- An invariant that every admitted call keeps holds in every reachable state. -/
theorem Reachable.induction {allowed : World → Call → Prop} {w₀ w : World} {P : World → Prop}
    (h : Reachable arch o pid allowed w₀ w) (h₀ : P w₀)
    (hstep : ∀ w w' c, P w → allowed w c → exec arch o pid c w = some w' → P w') : P w := by
  induction h with
  | init => exact h₀
  | step c _ hc he ih => exact hstep _ _ c ih hc he

theorem Reachable.mono {allowed allowed' : World → Call → Prop} {w₀ w : World}
    (h : Reachable arch o pid allowed w₀ w) (hsub : ∀ w c, allowed w c → allowed' w c) :
    Reachable arch o pid allowed' w₀ w := by
  induction h with
  | init => exact .init
  | step c _ hc he ih => exact .step c ih (hsub _ _ hc) he

/-- A session before anything happened: no threads, no breakpoints, zero memory and user
areas. -/
def World.empty : World := ⟨⟨[], [], [], [], false⟩, fun _ => 0, fun _ _ => 0, ⟨fun _ => default, 0, []⟩⟩

/-- A kernel that accepts every request, and whose waits report thread 1 stopped with status 0
and nothing else ready. -/
def Oracle.accepting : Oracle := fun _ => ⟨true, default, 1, 0, []⟩

/-- A kernel that refuses every request; its waits still report thread 1. -/
def Oracle.rejecting : Oracle := fun _ => ⟨false, default, 1, 0, []⟩

/-! ## What each call can change -/

section Shapes

variable (arch o)

theorem registerThread_shape (w : World) (tid : Nat) :
    ∃ ts k, (registerThread arch o w tid).1 =
      { w with state := { w.state with tHead := ts }, kernel := k } := by
  unfold registerThread
  split
  exacts [⟨_, _, rfl⟩, ⟨_, _, rfl⟩]

theorem GlobalState.unregisterThread_shape (s : GlobalState) (tid : Nat) :
    ∃ ts dead, s.unregisterThread tid = { s with tHead := ts, deadTHead := dead } := by
  unfold GlobalState.unregisterThread
  split
  exacts [⟨_, _, rfl⟩, ⟨_, _, rfl⟩]

theorem registerHwBreakpoint_shape (w : World) (tid : Nat) (address : BitVec 64)
    (type : Char × Char) (len : Nat) :
    ∃ bps user, registerHwBreakpoint w tid address type len =
      { w with state := { w.state with hwBHead := bps }, user := user } := by
  unfold registerHwBreakpoint
  split_ifs
  exacts [⟨_, _, rfl⟩, ⟨_, _, rfl⟩]

theorem unregisterHwBreakpoint_shape (w : World) (tid : Nat) (address : BitVec 64) :
    ∃ bps user, unregisterHwBreakpoint w tid address =
      { w with state := { w.state with hwBHead := bps }, user := user } := by
  unfold unregisterHwBreakpoint
  split
  exacts [⟨_, _, rfl⟩, ⟨_, _, rfl⟩]

end Shapes

/-! ## What the entry points leave alone -/

/-- The stepping calls that return come from a world in the frame of the one they start in. -/
theorem exec_stepUntil {w w' : World} {tid addr : Nat} {maxSteps : Int} {fuel : Nat}
    (h : exec arch o pid (.stepUntil tid addr maxSteps fuel) w = some w') :
    w' = (stepUntil o w tid addr maxSteps fuel).1 := by
  simp only [exec, Option.map_eq_some'] at h
  obtain ⟨_, _, rfl⟩ := h
  rfl

theorem exec_steppingFinish {w w' : World} {tid fuel : Nat}
    (h : exec arch o pid (.steppingFinish tid fuel) w = some w') :
    ∃ r, steppingFinish o arch w tid fuel = (w', some r) := by
  simp only [exec, Option.map_eq_some'] at h
  obtain ⟨r, hr, rfl⟩ := h
  exact ⟨r, by rw [← hr]⟩

theorem steppingFinish_frame (w : World) (tid fuel : Nat) :
    w.Frame (steppingFinish o arch w tid fuel).1 := by
  obtain ⟨w₁, hs, hr | ⟨hr, -⟩⟩ := steppingFinish_ends o arch w tid fuel
  · rw [hr]; exact ((prepareForRun_frame o w tid).trans hs.frame).restore
  · rw [hr]; exact (prepareForRun_frame o w tid).trans hs.frame

/-- The entry points change no table, no user area and no live id. -/
theorem exec_frame {c : Call} (hc : c.Runs) {w w' : World} (h : exec arch o pid c w = some w') :
    w.Frame w' := by
  cases c <;> simp only [Call.Runs] at hc
  all_goals first
    | (simp only [exec, Option.some.injEq] at h; subst h)
    | skip
  · exact contAllAndSetBps_frame o w pid
  · obtain ⟨w₁, hs, hr | ⟨l, hr⟩⟩ := waitAllAndUpdateRegs_spec o w pid <;> rw [hr]
    exacts [hs.frame, hs.frame.restore]
  · exact (singlestep_stays o w _).frame
  · rw [exec_stepUntil h]; exact (stepUntil_stays o w _ _ _ _).frame
  · rename_i tid fuel
    obtain ⟨r, hr⟩ := exec_steppingFinish h
    have : w.Frame (steppingFinish o arch w tid fuel).1 := steppingFinish_frame w tid fuel
    rwa [hr] at this
  · exact detachForKill_frame o w pid
  · exact detachForMigration_frame o w pid
  · exact reattachFromGdb_frame o w pid
  · exact detachAndCont_frame o w pid

/-- Memory the write-back loops over `bps` can make of `mem`: restores and re-patches, any
number of them. -/
inductive WrittenBack (bps : List SoftwareBreakpoint) (mem : Memory) : Memory → Prop
  | refl : WrittenBack bps mem mem
  | repatch {m : Memory} : WrittenBack bps mem m →
      WrittenBack bps mem (pokeBreakpoints (·.patchedInstruction) bps m)
  | restore {m : Memory} : WrittenBack bps mem m →
      WrittenBack bps mem (pokeBreakpoints (·.instruction) bps m)

theorem prepareForRun_writtenBack (w : World) (pid : Nat) :
    WrittenBack w.state.swBHead w.mem (prepareForRun o w pid).1.mem := by
  rcases prepareForRun_mem o w pid with h | h <;> rw [h]
  exacts [.refl, .repatch .refl]

theorem steppingFinish_writtenBack (w : World) (tid fuel : Nat) :
    WrittenBack w.state.swBHead w.mem (steppingFinish o arch w tid fuel).1.mem := by
  have hp := prepareForRun_writtenBack (o := o) w tid
  have hsw := (prepareForRun_frame o w tid).sw
  obtain ⟨w₁, hs, hr | ⟨hr, -⟩⟩ := steppingFinish_ends o arch w tid fuel
  · rw [hr, World.restore, hs.frame.sw, hs.mem, hsw]
    exact hp.restore
  · rw [hr, hs.mem]; exact hp

/-- The entry points write memory only by their write-back loops. -/
theorem exec_writtenBack {c : Call} (hc : c.Runs) {w w' : World}
    (h : exec arch o pid c w = some w') : WrittenBack w.state.swBHead w.mem w'.mem := by
  cases c <;> simp only [Call.Runs] at hc
  all_goals first
    | (simp only [exec, Option.some.injEq] at h; subst h)
    | skip
  · exact prepareForRun_writtenBack w pid
  · obtain ⟨w₁, hs, hr | ⟨l, hr⟩⟩ := waitAllAndUpdateRegs_spec o w pid <;> rw [hr, ← hs.mem]
    exacts [.refl, by rw [World.restore, hs.frame.sw]; exact .restore .refl]
  · exact .refl
  · rw [exec_stepUntil h, (stepUntil_stays o w _ _ _ _).mem]; exact .refl
  · rename_i tid fuel
    obtain ⟨r, hr⟩ := exec_steppingFinish h
    have : WrittenBack w.state.swBHead w.mem (steppingFinish o arch w tid fuel).1.mem :=
      steppingFinish_writtenBack w tid fuel
    rwa [hr] at this
  all_goals exact .refl

/-- A call that touches neither memory nor the software-breakpoint table leaves both alone. -/
theorem exec_code {c : Call} (hc : ¬c.TouchesCode) {w w' : World}
    (h : exec arch o pid c w = some w') : w'.state.swBHead = w.state.swBHead ∧ w'.mem = w.mem := by
  cases c <;> simp only [Call.TouchesCode, Call.Runs, not_true_eq_false] at hc <;>
    simp only [exec, Option.some.injEq] at h <;> subst h
  case registerThread tid =>
    obtain ⟨ts, k, h⟩ := registerThread_shape arch o w tid
    rw [h]; exact ⟨rfl, rfl⟩
  case unregisterThread tid =>
    obtain ⟨ts, dead, h⟩ := w.state.unregisterThread_shape tid
    rw [h]; exact ⟨rfl, rfl⟩
  case registerHwBreakpoint tid address type len =>
    obtain ⟨bps, user, h⟩ := registerHwBreakpoint_shape w tid address type len
    rw [h]; exact ⟨rfl, rfl⟩
  case unregisterHwBreakpoint tid address =>
    obtain ⟨bps, user, h⟩ := unregisterHwBreakpoint_shape w tid address
    rw [h]; exact ⟨rfl, rfl⟩
  all_goals exact ⟨rfl, rfl⟩

/-- A call that touches neither a user area nor the hardware-breakpoint table, and is not an
entry point, leaves both alone. -/
theorem exec_debugRegs {c : Call} (hc : ¬c.TouchesDebugRegs) (hr : ¬c.Runs) {w w' : World}
    (h : exec arch o pid c w = some w') :
    w'.state.hwBHead = w.state.hwBHead ∧ w'.user = w.user := by
  cases c <;> simp only [Call.TouchesDebugRegs, Call.Runs, not_true_eq_false] at hc hr <;>
    simp only [exec, Option.some.injEq] at h <;> subst h
  case registerThread tid =>
    obtain ⟨ts, k, h⟩ := registerThread_shape arch o w tid
    rw [h]; exact ⟨rfl, rfl⟩
  case unregisterThread tid =>
    obtain ⟨ts, dead, h⟩ := w.state.unregisterThread_shape tid
    rw [h]; exact ⟨rfl, rfl⟩
  all_goals exact ⟨rfl, rfl⟩

end Libdebug
