import Libdebug.Threads
import Libdebug.SoftwareBreakpoints

/-!
# Running, stopping and stepping the tracee

`prepare_for_run`, `cont_all_and_set_bps`, `wait_all_and_update_regs`, `singlestep`,
`step_until` and `stepping_finish` for x86_64.

The loops over the live threads are `List.foldl` when they only talk to the kernel and
`walkThreads` when they also write the entries.  The pointer `step_until` and
`stepping_finish` keep to their thread is its position in the live list.  Their stepping loops
may run forever (`max_steps == -1`, an instruction pointer that stops moving, a call depth that
never drops), so they take fuel; when it runs out the world reached so far is returned with no
result, and what is proved of the requests they issue covers runs that never return.

The tracee's own stores are not modelled: memory changes only by the core's `PTRACE_POKEDATA`
writes, which act on `World.mem` directly.
-/

namespace Libdebug

variable (o : Oracle)

/-- A loop over the live threads, in list order, that threads a state through and may rewrite
each entry. -/
def walkThreads {σ : Type} (f : σ → Thread → σ × Thread) : σ → List Thread → σ × List Thread
  | s, [] => (s, [])
  | s, t :: ts =>
    let r := f s t
    let rs := walkThreads f r.1 ts
    (rs.1, r.2 :: rs.2)

/-- The cached registers of the entry at position `i` of the live list. -/
def cachedRegs (w : World) (i : Nat) : Regs := ((w.state.tHead[i]?).map (·.regs)).getD default

namespace GlobalState

/-- A successful `getregs` into the cache of the entry at position `i`; a failed one writes
nothing. -/
def refreshAt (s : GlobalState) (i : Nat) : Option Regs → GlobalState
  | some regs => { s with tHead := s.tHead.modify (fun t => { t with regs }) i }
  | none => s

end GlobalState

namespace World

/-- The re-patch loop of `prepare_for_run`. -/
def repatch (w : World) : World :=
  { w with mem := pokeBreakpoints (·.patchedInstruction) w.state.swBHead w.mem }

/-- The restore loop of `wait_all_and_update_regs` and of `stepping_finish`'s cleanup. -/
def restore (w : World) : World :=
  { w with mem := pokeBreakpoints (·.instruction) w.state.swBHead w.mem }

end World

/-- The register flush that opens `prepare_for_run`, `singlestep` and `step_until`: every live
thread's cache is written to the kernel.  Failures are reported and skipped. -/
def flushRegs (mem : Memory) (ts : List Thread) (k : Kernel) : Kernel :=
  ts.foldl (fun k t => (k.setregs o mem t.tid t.regs).1) k

/-! ## `singlestep` -/

/-- What `singlestep`'s flush loop does to an entry besides flushing it: the signal to forward
of an entry with the thread's id is taken, the last such entry winning, and cleared. -/
def takeSignal (tid : Nat) (sig : Nat) (t : Thread) : Nat × Thread :=
  if t.tid = tid then (t.signalToForward, { t with signalToForward := 0 }) else (sig, t)

/-- `singlestep`: flush, then one `PTRACE_SINGLESTEP` delivering the thread's signal. -/
def singlestep (w : World) (tid : Nat) : World × Int :=
  let k := flushRegs o w.mem w.state.tHead w.kernel
  let r := walkThreads (takeSignal tid) 0 w.state.tHead
  let s := k.resume o w.mem (.singlestep tid r.1)
  ({ w with state := { w.state with tHead := r.2 }, kernel := s.1 }, if s.2 then 0 else -1)

/-! ## The stepping loops -/

/-- The body shared by the loops of `step_until` and `stepping_finish`: one single step of
`tid`, a wait, and a `getregs` into the entry at position `i`.  `false` is a failed step, after
which the loops return -1. -/
def stepAndRefresh (tid i : Nat) (w : World) : World × Bool :=
  let s := w.kernel.resume o w.mem (.singlestep tid 0)
  if s.2 then
    let g := (s.1.waitpid o).1.getregs o w.mem tid
    ({ w with state := w.state.refreshAt i g.2, kernel := g.1 }, true)
  else ({ w with kernel := s.1 }, false)

/-- The loop of `step_until`: step until the instruction pointer is `addr`, counting the steps
that moved it, while `max_steps == -1 || count < max_steps`. -/
def stepUntilLoop (tid i addr : Nat) (maxSteps : Int) : Nat → Int → World → World × Option Int
  | 0, _, w => (w, none)
  | fuel + 1, count, w =>
    if maxSteps = -1 ∨ count < maxSteps then
      let s := stepAndRefresh o tid i w
      if s.2 then
        if (cachedRegs s.1 i).ip = addr then (s.1, some 0)
        else if (cachedRegs s.1 i).ip = (cachedRegs w i).ip then
          stepUntilLoop tid i addr maxSteps fuel count s.1
        else stepUntilLoop tid i addr maxSteps fuel (count + 1) s.1
      else (s.1, some (-1))
    else (w, some 0)

/-- The position `step_until`'s flush loop leaves its pointer at: the last entry with the id. -/
def findLastIdx (tid : Nat) : List Thread → Option Nat
  | [] => none
  | t :: ts =>
    match findLastIdx tid ts with
    | some i => some (i + 1)
    | none => if t.tid = tid then some 0 else none

/-- `step_until`. -/
def stepUntil (w : World) (tid addr : Nat) (maxSteps : Int) (fuel : Nat) : World × Option Int :=
  let w₁ := { w with kernel := flushRegs o w.mem w.state.tHead w.kernel }
  match findLastIdx tid w.state.tHead with
  | none => (w₁, some (-1))
  | some i => stepUntilLoop o tid i addr maxSteps fuel 0 w₁

/-! ## `prepare_for_run` and `cont_all_and_set_bps` -/

/-- The step-over loop of `prepare_for_run`: a thread whose cached instruction pointer is the
address of a software breakpoint, enabled or not, is stepped once, and once more when the wait
reports a stop by SIGSTOP (status 4991).  The result is the last wait status, or `none` for the
`return -1` of a failed first step. -/
def stepOvers (mem : Memory) (bps : List SoftwareBreakpoint) :
    List Thread → Kernel → Int → Kernel × Option Int
  | [], k, status => (k, some status)
  | t :: ts, k, status =>
    if bps.any (·.addr == t.regs.ip) then
      let s := k.resume o mem (.singlestep t.tid 0)
      if s.2 then
        let r := s.1.waitpid o
        if r.2.status = 4991 then
          let r' := ((r.1.resume o mem (.singlestep t.tid 0)).1).waitpid o
          stepOvers mem bps ts r'.1 r'.2.status
        else stepOvers mem bps ts r.1 r.2.status
      else (s.1, none)
    else stepOvers mem bps ts k status

/-- The requests `prepare_for_run` issues: the flush, then the step-over loop. -/
def flushAndStepOver (w : World) : Kernel × Option Int :=
  stepOvers o w.mem w.state.swBHead w.state.tHead (flushRegs o w.mem w.state.tHead w.kernel) 0

/-- `prepare_for_run`: flush, step every thread off the breakpoint it sits on, then write the
patched word of every enabled breakpoint; a failed step returns -1 before the writes. -/
def prepareForRun (w : World) (_pid : Nat) : World × Int :=
  match (flushAndStepOver o w).2 with
  | none => ({ w with kernel := (flushAndStepOver o w).1 }, -1)
  | some status => (World.repatch { w with kernel := (flushAndStepOver o w).1 }, status)

/-- The request `cont_all_and_set_bps` resumes a thread with. -/
def contRequest (handleSyscall : Bool) (t : Thread) : Request :=
  if handleSyscall then .syscall t.tid t.signalToForward else .cont t.tid t.signalToForward

/-- The thread a `PTRACE_CONT` or `PTRACE_SYSCALL` is for. -/
def Request.continued? : Request → Option Nat
  | .cont tid _ | .syscall tid _ => some tid
  | _ => none

/-- The continue loop of `cont_all_and_set_bps`; failures are reported and skipped. -/
def contAll (mem : Memory) (handleSyscall : Bool) (ts : List Thread) (k : Kernel) : Kernel :=
  ts.foldl (fun k t => (k.resume o mem (contRequest handleSyscall t)).1) k

/-- `cont_all_and_set_bps`: `prepare_for_run`, whatever it returns, then every live thread is
continued with its signal, which is then cleared. -/
def contAllAndSetBps (w : World) (pid : Nat) : World × Int :=
  let r := prepareForRun o w pid
  ({ r.1 with
      state := { r.1.state with tHead := r.1.state.tHead.map ({ · with signalToForward := 0 }) }
      kernel := contAll o r.1.mem r.1.state.handleSyscallEnabled r.1.state.tHead r.1.kernel },
    r.2)

/-! ## `wait_all_and_update_regs` -/

/-- One turn of the stop loop of `wait_all_and_update_regs`.  A thread other than the one the
first wait reported is stopped already if its registers can be read (and the cache takes
them); otherwise it gets SIGSTOP and is waited for, and the status is pushed on the list. -/
def stopThread (mem : Memory) (first : Int) (s : Kernel × List ThreadStatus) (t : Thread) :
    (Kernel × List ThreadStatus) × Thread :=
  if (t.tid : Int) ≠ first then
    let g := s.1.getregs o mem t.tid
    match g.2 with
    | some regs => ((g.1, s.2), { t with regs })
    | none =>
      let r := (g.1.issue o mem (.tgkill t.tid sigstop)).1.waitpid o
      ((r.1, ⟨r.2.tid, r.2.status⟩ :: s.2), t)
  else (s, t)

/-- One turn of the loop that updates the registers of every live thread. -/
def refreshRegs (mem : Memory) (k : Kernel) (t : Thread) : Kernel × Thread :=
  let g := k.getregs o mem t.tid
  (g.1, { t with regs := g.2.getD t.regs })

/-- What `wait_all_and_update_regs` does after a first wait that reported `first`: the stop
loop, the non-blocking waits (the statuses of one answer's `ready` list, pushed in order) and
the register update.  It returns the world before the restore, and the status list. -/
def stopAndUpdate (w : World) (first : Reply) : World × List ThreadStatus :=
  let s₁ := walkThreads (stopThread o w.mem first.tid) (w.kernel, [⟨first.tid, first.status⟩])
    w.state.tHead
  let r₂ := s₁.1.1.waitpid o
  let s₃ := walkThreads (refreshRegs o w.mem) r₂.1 s₁.2
  ({ w with state := { w.state with tHead := s₃.2 }, kernel := s₃.1 },
    r₂.2.ready.foldl (fun h p => ⟨p.1, p.2⟩ :: h) s₁.1.2)

/-- `wait_all_and_update_regs`: the first wait, then the rest and the restore.  `none` is the
`NULL` of a failed first wait. -/
def waitAllAndUpdateRegs (w : World) (_pid : Nat) : World × Option (List ThreadStatus) :=
  let r₀ := w.kernel.waitpid o
  if r₀.2.tid = -1 then ({ w with kernel := r₀.1 }, none)
  else
    let r := stopAndUpdate o { w with kernel := r₀.1 } r₀.2
    (r.1.restore, some r.2)

/-! ## `stepping_finish` -/

variable (arch : Arch)

/-- The last step of `stepping_finish`, out of the return instruction, and the cleanup. -/
def finishLastStep (tid i : Nat) (w : World) : World × Option Int :=
  let s := stepAndRefresh o tid i w
  if s.2 then (s.1.restore, some 0) else (s.1, some (-1))

/-- `nested_call_counter` after a step: one up at a call, one down at a return. -/
def nextDepth (window : Word) (depth : Int) : Int :=
  if arch.isCallInstruction window then depth + 1
  else if arch.isRetInstruction (window 0) then depth - 1 else depth

/-- The loop of `stepping_finish`.  `depth` is `nested_call_counter`; a stop where the
instruction pointer did not move or the next byte is a trap ends it early through the
cleanup. -/
def finishLoop (tid i : Nat) : Nat → Int → World → World × Option Int
  | 0, _, w => (w, none)
  | fuel + 1, depth, w =>
    let s := stepAndRefresh o tid i w
    if s.2 then
      let currentIp := (cachedRegs s.1 i).ip
      let window := peekData s.1.mem currentIp
      if currentIp = (cachedRegs w i).ip ∨ arch.isSwBreakpoint (window 0) then
        (s.1.restore, some 0)
      else if 0 < nextDepth arch window depth then finishLoop tid i fuel (nextDepth arch window depth) s.1
      else finishLastStep o tid i s.1
    else (s.1, some (-1))

/-- `stepping_finish`: `prepare_for_run` (its result is overwritten), then the loop on the first
entry with the id. -/
def steppingFinish (w : World) (tid fuel : Nat) : World × Option Int :=
  let w₁ := (prepareForRun o w tid).1
  match w₁.state.tHead.findIdx? (·.tid == tid) with
  | none => (w₁, some (-1))
  | some i => finishLoop o arch tid i fuel 1 w₁

/-! ## What the entry points change -/

section Loops

variable {σ : Type} {f : σ → Thread → σ × Thread}

/-- A walk keeps what each of its rewrites keeps. -/
theorem walkThreads_map {β : Type} {g : Thread → β} (hf : ∀ s t, g (f s t).2 = g t) (s : σ)
    (ts : List Thread) : (walkThreads f s ts).2.map g = ts.map g := by
  induction ts generalizing s with
  | nil => rfl
  | cons t ts ih => simp only [walkThreads, List.map_cons, hf, ih]

theorem walkThreads_tids (hf : ∀ s t, (f s t).2.tid = t.tid) (s : σ) (ts : List Thread) :
    (walkThreads f s ts).2.map (·.tid) = ts.map (·.tid) :=
  walkThreads_map hf s ts

theorem walkThreads_inv {P : σ → Prop} (hf : ∀ s t, P s → P (f s t).1) {s : σ} (hs : P s)
    (ts : List Thread) : P (walkThreads f s ts).1 := by
  induction ts generalizing s with
  | nil => exact hs
  | cons t ts ih => exact ih (hf s t hs)

theorem foldl_inv {g : σ → Thread → σ} {P : σ → Prop} (hg : ∀ s t, P s → P (g s t)) {s : σ}
    (hs : P s) (ts : List Thread) : P (ts.foldl g s) := by
  induction ts generalizing s with
  | nil => exact hs
  | cons t ts ih => exact ih (hg s t hs)

end Loops

/-- A request that lets no thread run freely, issued with memory `mem`. -/
def Event.Quiet (mem : Memory) (e : Event) : Prop := e.mem = mem ∧ ¬e.req.IsCont

/-- A request that delivers no signal and lets no thread run freely: the single steps of the
stepping code carry no signal, and it issues no `PTRACE_CONT` or `PTRACE_SYSCALL`. -/
def Request.Plain : Request → Prop
  | .singlestep _ sig => sig = 0
  | .cont .. | .syscall .. => False
  | _ => True

/-- A plain request issued with memory `mem`. -/
def Event.Plain (mem : Memory) (e : Event) : Prop := e.mem = mem ∧ e.req.Plain

theorem Request.Plain.not_isCont {r : Request} (h : r.Plain) : ¬r.IsCont := by
  cases r <;> first | exact id | exact fun _ => h

theorem Event.Plain.quiet {mem : Memory} {e : Event} (h : e.Plain mem) : e.Quiet mem :=
  ⟨h.1, h.2.not_isCont⟩

namespace World

/-- `w'` differs from `w` at most in memory, the kernel, and the caches and signals of the live
entries: the tables, the user areas, the dead list and the live ids are as they were. -/
structure Frame (w w' : World) : Prop where
  tids : w'.state.tHead.map (·.tid) = w.state.tHead.map (·.tid)
  dead : w'.state.deadTHead = w.state.deadTHead
  sw : w'.state.swBHead = w.state.swBHead
  hw : w'.state.hwBHead = w.state.hwBHead
  syscall : w'.state.handleSyscallEnabled = w.state.handleSyscallEnabled
  user : w'.user = w.user

theorem Frame.refl (w : World) : Frame w w := ⟨rfl, rfl, rfl, rfl, rfl, rfl⟩

theorem Frame.trans {w₁ w₂ w₃ : World} (h₁ : Frame w₁ w₂) (h₂ : Frame w₂ w₃) : Frame w₁ w₃ :=
  ⟨h₂.tids.trans h₁.tids, h₂.dead.trans h₁.dead, h₂.sw.trans h₁.sw, h₂.hw.trans h₁.hw,
    h₂.syscall.trans h₁.syscall, h₂.user.trans h₁.user⟩

theorem Frame.of_tHead {w : World} {ts : List Thread}
    (h : ts.map (·.tid) = w.state.tHead.map (·.tid)) (k : Kernel) (mem : Memory) :
    Frame w { w with state := { w.state with tHead := ts }, kernel := k, mem := mem } :=
  ⟨h, rfl, rfl, rfl, rfl, rfl⟩

theorem Frame.of_kernel (w : World) (k : Kernel) : Frame w { w with kernel := k } :=
  ⟨rfl, rfl, rfl, rfl, rfl, rfl⟩

theorem Frame.restore {w w' : World} (h : Frame w w') : Frame w w'.restore :=
  ⟨h.tids, h.dead, h.sw, h.hw, h.syscall, h.user⟩

theorem Frame.repatch {w w' : World} (h : Frame w w') : Frame w w'.repatch :=
  ⟨h.tids, h.dead, h.sw, h.hw, h.syscall, h.user⟩

/-- `w'` comes from `w` by requests that let no thread run freely and by no write to memory. -/
structure Stays (w w' : World) : Prop where
  frame : Frame w w'
  mem : w'.mem = w.mem
  logs : Kernel.Logs (Event.Quiet w.mem) w.kernel w'.kernel

theorem Stays.refl (w : World) : Stays w w := ⟨.refl w, rfl, .refl _ _⟩

theorem Stays.trans {w₁ w₂ w₃ : World} (h₁ : Stays w₁ w₂) (h₂ : Stays w₂ w₃) : Stays w₁ w₃ :=
  ⟨h₁.frame.trans h₂.frame, h₂.mem.trans h₁.mem, h₁.logs.trans (h₁.mem ▸ h₂.logs)⟩

/-- `w'` comes from `w` by plain requests and by no write to memory, and every live thread
keeps its signal to forward: what the stepping loops, the step-overs and the stop loop do. -/
structure Still (w w' : World) : Prop where
  frame : Frame w w'
  mem : w'.mem = w.mem
  plain : Kernel.Logs (Event.Plain w.mem) w.kernel w'.kernel
  signals : w'.state.tHead.map (·.signalToForward) = w.state.tHead.map (·.signalToForward)

theorem Still.stays {w w' : World} (h : Still w w') : Stays w w' :=
  ⟨h.frame, h.mem, h.plain.mono fun _ => Event.Plain.quiet⟩

theorem Still.refl (w : World) : Still w w := ⟨.refl w, rfl, .refl _ _, rfl⟩

theorem Still.trans {w₁ w₂ w₃ : World} (h₁ : Still w₁ w₂) (h₂ : Still w₂ w₃) : Still w₁ w₃ :=
  ⟨h₁.frame.trans h₂.frame, h₂.mem.trans h₁.mem, h₁.plain.trans (h₁.mem ▸ h₂.plain),
    h₂.signals.trans h₁.signals⟩

theorem Still.of_kernel {w : World} {k : Kernel} (h : Kernel.Logs (Event.Plain w.mem) w.kernel k) :
    Still w { w with kernel := k } :=
  ⟨.of_kernel _ _, rfl, h, rfl⟩

end World

variable {w : World}

theorem flushRegs_plain (mem : Memory) (ts : List Thread) (k : Kernel) :
    Kernel.Logs (Event.Plain mem) k (flushRegs o mem ts k) :=
  foldl_inv (fun _ _ h => h.trans (Kernel.setregs_logs o fun _ _ => ⟨rfl, trivial⟩)) (.refl _ _) ts

theorem flushRegs_logs (mem : Memory) (ts : List Thread) (k : Kernel) :
    Kernel.Logs (Event.Quiet mem) k (flushRegs o mem ts k) :=
  (flushRegs_plain o mem ts k).mono fun _ => Event.Plain.quiet

theorem singlestep_stays (w : World) (tid : Nat) : w.Stays (singlestep o w tid).1 where
  frame := .of_tHead (walkThreads_tids (fun _ t => by unfold takeSignal; split_ifs <;> rfl) _ _)
    _ _
  mem := rfl
  logs := (flushRegs_logs o _ _ _).trans (Kernel.resume_logs o fun _ _ => ⟨rfl, id⟩)

theorem refreshAt_frame (w : World) (i : Nat) (g : Option Regs) (k : Kernel) :
    w.Frame { w with state := w.state.refreshAt i g, kernel := k } := by
  rcases g with _ | r
  · exact .of_kernel w k
  · exact ⟨tids_modify (f := fun t => { t with regs := r }) (fun _ => rfl) _ _,
      rfl, rfl, rfl, rfl, rfl⟩

theorem refreshAt_signals (s : GlobalState) (i : Nat) (g : Option Regs) :
    (s.refreshAt i g).tHead.map (·.signalToForward) = s.tHead.map (·.signalToForward) := by
  rcases g with _ | r
  · rfl
  · exact map_modify_of (g := (·.signalToForward)) (f := fun t => { t with regs := r })
      (fun _ => rfl) _ _

theorem stepAndRefresh_still (tid i : Nat) (w : World) : w.Still (stepAndRefresh o tid i w).1 := by
  dsimp only [stepAndRefresh]
  split
  · exact ⟨refreshAt_frame _ _ _ _, rfl, (Kernel.resume_logs o fun _ _ => ⟨rfl, rfl⟩).trans
      (Kernel.waitpid_logs o |>.trans (Kernel.getregs_logs o fun _ _ => ⟨rfl, trivial⟩)),
      refreshAt_signals _ _ _⟩
  · exact .of_kernel (Kernel.resume_logs o fun _ _ => ⟨rfl, rfl⟩)

theorem stepUntilLoop_still (tid i addr : Nat) (maxSteps : Int) (fuel : Nat) (count : Int)
    (w : World) : w.Still (stepUntilLoop o tid i addr maxSteps fuel count w).1 := by
  induction fuel generalizing count w with
  | zero => exact .refl w
  | succ fuel ih =>
    have hs := stepAndRefresh_still o tid i w
    dsimp only [stepUntilLoop]
    split_ifs
    exacts [hs, hs.trans (ih _ _), hs.trans (ih _ _), hs, .refl w]

theorem stepUntilLoop_stays (tid i addr : Nat) (maxSteps : Int) (fuel : Nat) (count : Int)
    (w : World) : w.Stays (stepUntilLoop o tid i addr maxSteps fuel count w).1 :=
  (stepUntilLoop_still o tid i addr maxSteps fuel count w).stays

theorem stepUntil_still (w : World) (tid addr : Nat) (maxSteps : Int) (fuel : Nat) :
    w.Still (stepUntil o w tid addr maxSteps fuel).1 := by
  have h₁ : w.Still { w with kernel := flushRegs o w.mem w.state.tHead w.kernel } :=
    .of_kernel (flushRegs_plain o _ _ _)
  unfold stepUntil
  split
  exacts [h₁, h₁.trans (stepUntilLoop_still o _ _ _ _ _ _ _)]

theorem stepUntil_stays (w : World) (tid addr : Nat) (maxSteps : Int) (fuel : Nat) :
    w.Stays (stepUntil o w tid addr maxSteps fuel).1 :=
  (stepUntil_still o w tid addr maxSteps fuel).stays

theorem stepOvers_plain (mem : Memory) (bps : List SoftwareBreakpoint) (ts : List Thread)
    (k : Kernel) (status : Int) :
    Kernel.Logs (Event.Plain mem) k (stepOvers o mem bps ts k status).1 := by
  have step : ∀ {k : Kernel} (tid : Nat),
      Kernel.Logs (Event.Plain mem) k (k.resume o mem (.singlestep tid 0)).1 :=
    fun _ => Kernel.resume_logs o fun _ _ => ⟨rfl, rfl⟩
  induction ts generalizing k status with
  | nil => exact .refl _ _
  | cons t ts ih =>
    dsimp only [stepOvers]
    split_ifs
    · exact (step _).trans (Kernel.waitpid_logs o |>.trans (step _) |>.trans
        (Kernel.waitpid_logs o) |>.trans (ih _ _))
    · exact (step _).trans (Kernel.waitpid_logs o |>.trans (ih _ _))
    · exact step _
    · exact ih _ _

theorem stepOvers_logs (mem : Memory) (bps : List SoftwareBreakpoint) (ts : List Thread)
    (k : Kernel) (status : Int) :
    Kernel.Logs (Event.Quiet mem) k (stepOvers o mem bps ts k status).1 :=
  (stepOvers_plain o mem bps ts k status).mono fun _ => Event.Plain.quiet

/-- Everything `prepare_for_run` does before its re-patch. -/
theorem flushAndStepOver_still (w : World) :
    w.Still { w with kernel := (flushAndStepOver o w).1 } :=
  .of_kernel ((flushRegs_plain o _ _ _).trans (stepOvers_plain o _ _ _ _ _))

theorem prepareForRun_of_none (h : (flushAndStepOver o w).2 = none) (pid : Nat) :
    prepareForRun o w pid = ({ w with kernel := (flushAndStepOver o w).1 }, -1) := by
  simp only [prepareForRun, h]

theorem prepareForRun_of_some {status : Int} (h : (flushAndStepOver o w).2 = some status)
    (pid : Nat) :
    prepareForRun o w pid = (World.repatch { w with kernel := (flushAndStepOver o w).1 }, status) := by
  simp only [prepareForRun, h]

/-- `prepare_for_run` issues plain requests, keeps every signal, and writes memory at most by
its re-patch. -/
theorem prepareForRun_still (w : World) (pid : Nat) :
    w.Still { (prepareForRun o w pid).1 with mem := w.mem } := by
  cases h : (flushAndStepOver o w).2 with
  | none => rw [prepareForRun_of_none o h]; exact flushAndStepOver_still o w
  | some status => rw [prepareForRun_of_some o h]; exact flushAndStepOver_still o w

/-- `prepare_for_run` issues quiet requests and writes memory at most by its re-patch. -/
theorem prepareForRun_stays (w : World) (pid : Nat) :
    w.Stays { (prepareForRun o w pid).1 with mem := w.mem } :=
  (prepareForRun_still o w pid).stays

theorem prepareForRun_state (w : World) (pid : Nat) : (prepareForRun o w pid).1.state = w.state := by
  cases h : (flushAndStepOver o w).2 with
  | none => rw [prepareForRun_of_none o h]
  | some status => rw [prepareForRun_of_some o h]; rfl

theorem prepareForRun_frame (w : World) (pid : Nat) : w.Frame (prepareForRun o w pid).1 :=
  let h := (prepareForRun_stays o w pid).frame
  ⟨h.tids, h.dead, h.sw, h.hw, h.syscall, h.user⟩

theorem prepareForRun_mem (w : World) (pid : Nat) :
    (prepareForRun o w pid).1.mem = w.mem ∨
      (prepareForRun o w pid).1.mem = pokeBreakpoints (·.patchedInstruction) w.state.swBHead w.mem := by
  cases h : (flushAndStepOver o w).2 with
  | none => rw [prepareForRun_of_none o h]; exact .inl rfl
  | some status => rw [prepareForRun_of_some o h]; exact .inr rfl

/-- The continue loop issues one request per live thread, in list order, all with the same
memory. -/
theorem contAll_log (mem : Memory) (hs : Bool) (ts : List Thread) (k : Kernel) :
    ∃ new, (contAll o mem hs ts k).log = new ++ k.log ∧
      new.map (·.req) = (ts.map (contRequest hs)).reverse ∧ ∀ e ∈ new, e.mem = mem := by
  induction ts generalizing k with
  | nil => exact ⟨[], rfl, rfl, by simp⟩
  | cons t ts ih =>
    obtain ⟨new, hlog, hreq, hmem⟩ := ih (k.resume o mem (contRequest hs t)).1
    obtain ⟨e, he⟩ : ∃ e : Event, (k.resume o mem (contRequest hs t)).1.log = e :: k.log ∧
        e.req = contRequest hs t ∧ e.mem = mem := by
      unfold Kernel.resume; split_ifs <;> exact ⟨_, rfl, rfl, rfl⟩
    refine ⟨new ++ [e], by simp [contAll, List.foldl_cons] at hlog ⊢; simp [hlog, he.1], ?_, ?_⟩
    · simp [hreq, he.2.1]
    · intro x hx
      rcases List.mem_append.1 hx with hx | hx
      · exact hmem x hx
      · rw [List.mem_singleton.1 hx]; exact he.2.2

/-- Every request `cont_all_and_set_bps` issues to continue a thread sees the memory
`prepare_for_run` left. -/
theorem contAllAndSetBps_logs (w : World) (pid : Nat) :
    Kernel.Logs (fun e => e.req.IsCont → e.mem = (prepareForRun o w pid).1.mem) w.kernel
      (contAllAndSetBps o w pid).1.kernel := by
  have hp := (prepareForRun_stays o w pid).logs
  obtain ⟨new, hlog, -, hmem⟩ := contAll_log o (prepareForRun o w pid).1.mem
    (prepareForRun o w pid).1.state.handleSyscallEnabled (prepareForRun o w pid).1.state.tHead
    (prepareForRun o w pid).1.kernel
  exact (hp.mono fun e he hc => absurd hc he.2).trans ⟨new, hlog, fun e he _ => hmem e he⟩

/-- `cont_all_and_set_bps` continues every live thread, in list order, after `prepare_for_run`,
whatever that returned. -/
theorem contAllAndSetBps_issues (w : World) (pid : Nat) :
    Kernel.Issues Request.continued? (prepareForRun o w pid).1.kernel
      (contAllAndSetBps o w pid).1.kernel (w.state.tHead.map (·.tid)) := by
  obtain ⟨new, hlog, hreq, -⟩ := contAll_log o (prepareForRun o w pid).1.mem
    (prepareForRun o w pid).1.state.handleSyscallEnabled (prepareForRun o w pid).1.state.tHead
    (prepareForRun o w pid).1.kernel
  refine ⟨new, hlog, ?_⟩
  have hcont : Request.continued? ∘ contRequest (prepareForRun o w pid).1.state.handleSyscallEnabled =
      some ∘ (·.tid) := by
    funext t
    simp only [Function.comp, contRequest]
    split_ifs <;> rfl
  rw [show (fun e : Event => e.req.continued?) = Request.continued? ∘ (·.req) from rfl,
    ← List.filterMap_map, List.map_reverse, hreq, List.reverse_reverse, List.filterMap_map, hcont,
    List.filterMap_eq_map, prepareForRun_state]

/-- When every request succeeds, no step of the step-over fails. -/
theorem stepOvers_ok (hok : ∀ n, (o n).ok = true) (mem : Memory) (bps : List SoftwareBreakpoint)
    (ts : List Thread) (k : Kernel) (status : Int) : (stepOvers o mem bps ts k status).2 ≠ none := by
  induction ts generalizing k status with
  | nil => simp [stepOvers]
  | cons t ts ih =>
    have : (k.resume o mem (.singlestep t.tid 0)).2 = true := by
      unfold Kernel.resume; split_ifs <;> exact hok _
    dsimp only [stepOvers]
    split_ifs <;> simp_all

theorem contAllAndSetBps_frame (w : World) (pid : Nat) : w.Frame (contAllAndSetBps o w pid).1 :=
  (prepareForRun_frame o w pid).trans ⟨by simp [contAllAndSetBps], rfl, rfl, rfl, rfl, rfl⟩

/-! ## `wait_all_and_update_regs` and `stepping_finish` -/

/-- The stop loop rewrites at most an entry's cache. -/
theorem stopThread_snd (mem : Memory) (first : Int) (s : Kernel × List ThreadStatus)
    (t : Thread) : ∃ regs, (stopThread o mem first s t).2 = { t with regs } := by
  dsimp only [stopThread]
  split_ifs
  · split
    · exact ⟨_, rfl⟩
    · exact ⟨t.regs, rfl⟩
  · exact ⟨t.regs, rfl⟩

theorem stopThread_tid (mem : Memory) (first : Int) (s : Kernel × List ThreadStatus)
    (t : Thread) : (stopThread o mem first s t).2.tid = t.tid := by
  obtain ⟨_, h⟩ := stopThread_snd o mem first s t; rw [h]

theorem stopThread_signal (mem : Memory) (first : Int) (s : Kernel × List ThreadStatus)
    (t : Thread) : (stopThread o mem first s t).2.signalToForward = t.signalToForward := by
  obtain ⟨_, h⟩ := stopThread_snd o mem first s t; rw [h]

theorem stopThread_plain (mem : Memory) (first : Int) (s : Kernel × List ThreadStatus)
    (t : Thread) : Kernel.Logs (Event.Plain mem) s.1 (stopThread o mem first s t).1.1 := by
  have hg : Kernel.Logs (Event.Plain mem) s.1 (s.1.getregs o mem t.tid).1 :=
    Kernel.getregs_logs o fun _ _ => ⟨rfl, trivial⟩
  dsimp only [stopThread]
  split_ifs
  · split
    · exact hg
    · exact hg.trans ((Kernel.issue_logs o fun _ _ => ⟨rfl, trivial⟩).trans (Kernel.waitpid_logs o))
  · exact .refl _ _

theorem refreshRegs_plain (mem : Memory) (k : Kernel) (t : Thread) :
    Kernel.Logs (Event.Plain mem) k (refreshRegs o mem k t).1 :=
  Kernel.getregs_logs o fun _ _ => ⟨rfl, trivial⟩

theorem stopAndUpdate_still (w : World) (first : Reply) : w.Still (stopAndUpdate o w first).1 := by
  refine ⟨.of_tHead ?_ _ _, rfl, ?_, ?_⟩
  · rw [walkThreads_tids (fun _ _ => rfl), walkThreads_tids (stopThread_tid o _ _)]
  · refine walkThreads_inv (P := fun k => Kernel.Logs _ w.kernel k)
      (fun k t hk => hk.trans (refreshRegs_plain o _ _ _)) ?_ _
    exact walkThreads_inv (P := fun s : Kernel × List ThreadStatus => Kernel.Logs _ w.kernel s.1)
      (fun s t hs => hs.trans (stopThread_plain o _ _ _ _)) (.refl _ _) _
      |>.trans (Kernel.waitpid_logs o)
  · dsimp only [stopAndUpdate]
    rw [walkThreads_map (fun _ _ => rfl), walkThreads_map (stopThread_signal o _ _)]

/-- `wait_all_and_update_regs` issues plain requests and keeps every signal, then restores
memory exactly when it returns a list. -/
theorem waitAllAndUpdateRegs_still (w : World) (pid : Nat) :
    ∃ w₁, w.Still w₁ ∧ (waitAllAndUpdateRegs o w pid = (w₁, none) ∨
      ∃ l, waitAllAndUpdateRegs o w pid = (w₁.restore, some l)) := by
  have h₀ : w.Still { w with kernel := (w.kernel.waitpid o).1 } := .of_kernel (Kernel.waitpid_logs o)
  by_cases h : (w.kernel.waitpid o).2.tid = -1
  · exact ⟨_, h₀, .inl (by simp only [waitAllAndUpdateRegs, h, if_true])⟩
  · exact ⟨_, h₀.trans (stopAndUpdate_still o _ (w.kernel.waitpid o).2),
      .inr (by simp only [waitAllAndUpdateRegs, h, if_false]; exact ⟨_, rfl⟩)⟩

/-- `wait_all_and_update_regs` issues quiet requests, then restores memory exactly when it
returns a list. -/
theorem waitAllAndUpdateRegs_spec (w : World) (pid : Nat) :
    ∃ w₁, w.Stays w₁ ∧ (waitAllAndUpdateRegs o w pid = (w₁, none) ∨
      ∃ l, waitAllAndUpdateRegs o w pid = (w₁.restore, some l)) :=
  let ⟨w₁, h, hr⟩ := waitAllAndUpdateRegs_still o w pid
  ⟨w₁, h.stays, hr⟩

/-- How a stepping loop ends: quiet requests, then either the cleanup and 0, or no cleanup and
another result (-1, or none when the fuel ran out). -/
def EndsStepping (w : World) (r : World × Option Int) : Prop :=
  ∃ w₁, w.Stays w₁ ∧ (r = (w₁.restore, some 0) ∨ (r.1 = w₁ ∧ r.2 ≠ some 0))

/-- How a stepping loop ends, as `EndsStepping` says, with plain requests and every signal
kept. -/
def EndsStill (w : World) (r : World × Option Int) : Prop :=
  ∃ w₁, w.Still w₁ ∧ (r = (w₁.restore, some 0) ∨ (r.1 = w₁ ∧ r.2 ≠ some 0))

theorem EndsStill.ends {w : World} {r : World × Option Int} (h : EndsStill w r) :
    EndsStepping w r :=
  let ⟨w₁, hs, hr⟩ := h
  ⟨w₁, hs.stays, hr⟩

theorem EndsStill.of_still {w w' : World} {r : World × Option Int} (h : w.Still w')
    (h' : EndsStill w' r) : EndsStill w r :=
  let ⟨w₁, hs, hr⟩ := h'
  ⟨w₁, h.trans hs, hr⟩

theorem finishLastStep_endsStill (tid i : Nat) (w : World) :
    EndsStill w (finishLastStep o tid i w) := by
  have hs := stepAndRefresh_still o tid i w
  dsimp only [finishLastStep]
  split_ifs
  · exact ⟨_, hs, .inl rfl⟩
  · exact ⟨_, hs, .inr ⟨rfl, by simp⟩⟩

theorem finishLoop_endsStill (arch : Arch) (tid i fuel : Nat) (depth : Int) (w : World) :
    EndsStill w (finishLoop o arch tid i fuel depth w) := by
  induction fuel generalizing depth w with
  | zero => exact ⟨w, .refl w, .inr ⟨rfl, by simp [finishLoop]⟩⟩
  | succ fuel ih =>
    have hs := stepAndRefresh_still o tid i w
    dsimp only [finishLoop]
    split_ifs
    · exact ⟨_, hs, .inl rfl⟩
    · exact (ih _ _).of_still hs
    · exact (finishLastStep_endsStill o _ _ _).of_still hs
    · exact ⟨_, hs, .inr ⟨rfl, by simp⟩⟩

/-- `stepping_finish`: `prepare_for_run`, then a stepping loop. -/
theorem steppingFinish_endsStill (arch : Arch) (w : World) (tid fuel : Nat) :
    EndsStill (prepareForRun o w tid).1 (steppingFinish o arch w tid fuel) := by
  dsimp only [steppingFinish]
  split
  · exact ⟨_, .refl _, .inr ⟨rfl, by simp⟩⟩
  · exact finishLoop_endsStill o arch _ _ _ _ _

theorem steppingFinish_ends (arch : Arch) (w : World) (tid fuel : Nat) :
    EndsStepping (prepareForRun o w tid).1 (steppingFinish o arch w tid fuel) :=
  (steppingFinish_endsStill o arch w tid fuel).ends

/-- Every request of `stepping_finish` after its `prepare_for_run` sees the memory that left. -/
theorem steppingFinish_logs (arch : Arch) (w : World) (tid fuel : Nat) :
    Kernel.Logs (Event.Quiet (prepareForRun o w tid).1.mem) (prepareForRun o w tid).1.kernel
      (steppingFinish o arch w tid fuel).1.kernel := by
  obtain ⟨w₁, hs, hr | ⟨hr, -⟩⟩ := steppingFinish_ends o arch w tid fuel <;> rw [hr]
  exacts [hs.logs, hs.logs]

end Libdebug
