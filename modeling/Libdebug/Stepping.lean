import Libdebug.RegisterCache

/-!
# The stepping loops against the pointers a thread reports

`step_until` and `stepping_finish` single-step one thread and read its registers back after
each step.  When every request succeeds, what they do depends only on the instruction pointers
the thread reports, `ptrStream`: the cached one before the first step, then the one after each
step.  `stepsUntil` and `finishSteps` are the two loops over such a stream, with the kernel
taken out, and `stepUntilLoop_follows` and `finishLoop_follows` show that the code runs as
they say: the same verdict, one `PTRACE_SINGLESTEP` per step they count, and the cache at the
pointer they reach.

`step_until` counts only the steps that move the pointer.  A thread that moves at each of its
first `max_steps` steps makes it return after at most `max_steps` steps; one that stays put
away from the target keeps it stepping forever, whatever `max_steps` is
(`step_until_counts_moving_steps`).

`stepping_finish` classifies the instruction at the new pointer after each step, so the first
instruction, the one the thread stands on when it is called, is executed without being
counted.  It stops after the return that leaves the frame counted from the second instruction
on (`stepping_finish_exits_frame`): a thread standing on a return leaves two frames
(`finish_from_ret`).  Its pointers are those `step_until` would see when no thread stands on a
breakpoint (`finishStream_of_no_hit`); otherwise `prepare_for_run` has stepped the thread once
more, behind a cache it does not refresh.
-/

namespace Libdebug

/-- The thread a `PTRACE_SINGLESTEP` is for. -/
def Request.stepped? : Request → Option Nat
  | .singlestep tid _ => some tid
  | _ => none

variable (o : Oracle)

/-- The instruction pointers of a stepped thread when every request succeeds: `p` before the
first step, and after step `j + 1` the one the answer to its `PTRACE_SINGLESTEP` holds.  The
turns of the stepping loops take three answers each (the step, the wait and the `getregs`),
from answer `c` on. -/
def ptrStream (c p : Nat) : Nat → Nat
  | 0 => p
  | j + 1 => (o (c + 3 * j)).regs.ip

@[simp] theorem ptrStream_zero (c p : Nat) : ptrStream o c p 0 = p := rfl

@[simp] theorem ptrStream_one (c p : Nat) : ptrStream o c p 1 = (o c).regs.ip := rfl

/-- One turn later the stream is the old one, less its first pointer. -/
theorem ptrStream_shift (c p : Nat) :
    ptrStream o (c + 3) (o c).regs.ip = fun j => ptrStream o c p (j + 1) := by
  funext j
  cases j with
  | zero => rfl
  | succ j => simp only [ptrStream, Nat.mul_succ, Nat.add_assoc, Nat.add_comm 3]

/-! ## The loops over a pointer stream -/

/-- The loop of `step_until` over the pointers `ptr` a thread reports, `ptr 0` before the turn
and `ptr 1` after its step: the number of single steps it makes before it returns, if it returns
within `fuel` turns.  A step that leaves the pointer in place is not counted. -/
def stepsUntil (addr : Nat) (maxSteps : Int) : Nat → (Nat → Nat) → Int → Option Nat
  | 0, _, _ => none
  | fuel + 1, ptr, count =>
    if maxSteps = -1 ∨ count < maxSteps then
      if ptr 1 = addr then some 1
      else if ptr 1 = ptr 0 then
        (stepsUntil addr maxSteps fuel (fun j => ptr (j + 1)) count).map (· + 1)
      else (stepsUntil addr maxSteps fuel (fun j => ptr (j + 1)) (count + 1)).map (· + 1)
    else some 0

/-- The loop of `stepping_finish` over the pointers `ptr` a thread reports, with the nested-call
counter `depth`: the number of single steps it makes before it returns, the last step out of
the return included, if it returns within `fuel` turns.  Each turn classifies the instruction
at the pointer its step reached, in the memory `mem` of the run. -/
def finishSteps (arch : Arch) (mem : Memory) : Nat → (Nat → Nat) → Int → Option Nat
  | 0, _, _ => none
  | fuel + 1, ptr, depth =>
    if ptr 1 = ptr 0 ∨ arch.isSwBreakpoint (peekData mem (ptr 1) 0) then some 1
    else if 0 < nextDepth arch (peekData mem (ptr 1)) depth then
      (finishSteps arch mem fuel (fun j => ptr (j + 1))
        (nextDepth arch (peekData mem (ptr 1)) depth)).map (· + 1)
    else some 2

/-! ## What the loops over a stream do -/

section Until

variable (addr : Nat)

/-- A thread that moves at each of its first `M - c` steps makes the loop return, after at most
that many steps, once it has the fuel for them. -/
theorem stepsUntil_of_moving {M : Nat} : ∀ (fuel : Nat) (ptr : Nat → Nat) (c : Nat), c ≤ M →
    (∀ l < M - c, ptr (l + 1) ≠ ptr l) → M - c < fuel →
    ∃ n ≤ M - c, stepsUntil addr M fuel ptr c = some n
  | 0, _, _, _, _, hf => absurd hf (Nat.not_lt_zero _)
  | fuel + 1, ptr, c, hc, hmove, hf => by
    simp only [stepsUntil]
    by_cases hlt : c < M
    · have hallow : (M : Int) = -1 ∨ (c : Int) < M := .inr (by exact_mod_cast hlt)
      rw [if_pos hallow]
      by_cases haddr : ptr 1 = addr
      · exact ⟨1, by omega, by rw [if_pos haddr]⟩
      · have hmove' : ∀ l < M - (c + 1), ptr (l + 1 + 1) ≠ ptr (l + 1) :=
          fun l hl => hmove (l + 1) (by omega)
        obtain ⟨n, hn, hrest⟩ := stepsUntil_of_moving fuel (fun j => ptr (j + 1)) (c + 1)
          (by omega) hmove' (by omega)
        refine ⟨n + 1, by omega, ?_⟩
        rw [if_neg haddr, if_neg (hmove 0 (by omega)), show (c : Int) + 1 = ((c + 1 : Nat) : Int) by
          push_cast; rfl, hrest]
        rfl
    · have hnot : ¬((M : Int) = -1 ∨ (c : Int) < M) := by omega
      exact ⟨0, Nat.zero_le _, by rw [if_neg hnot]⟩

/-- A thread that stays put away from the target keeps the loop stepping for as long as it has
fuel. -/
theorem stepsUntil_of_stuck {maxSteps count : Int} (hc : maxSteps = -1 ∨ count < maxSteps) :
    ∀ (fuel : Nat) (ptr : Nat → Nat), (∀ l, ptr l = ptr 0) → ptr 0 ≠ addr →
      stepsUntil addr maxSteps fuel ptr count = none
  | 0, _, _, _ => rfl
  | fuel + 1, ptr, hstay, haddr => by
    have hrest := stepsUntil_of_stuck hc fuel (fun j => ptr (j + 1))
      (fun l => (hstay (l + 1)).trans (hstay 1).symm) fun h => haddr ((hstay 1).symm.trans h)
    simp only [stepsUntil, if_pos hc, if_neg (show ptr 1 ≠ addr by rw [hstay 1]; exact haddr),
      if_pos (hstay 1), hrest, Option.map_none']

end Until

/-! ## The code follows the loops -/

/-- What a stepping loop from `w` returned, `r`, as the loop over `ptr` with answer `res`
says: the same verdict (0, or none when the fuel runs out), as many single steps of `tid` as
it counts (all its fuel when it runs out), and the cache of entry `i` at the pointer reached. -/
def Follows (tid i : Nat) (w : World) (ptr : Nat → Nat) (fuel : Nat) (res : Option Nat)
    (r : World × Option Int) : Prop :=
  r.2 = res.map (fun _ => 0) ∧
    Kernel.Issues Request.stepped? w.kernel r.1.kernel (List.replicate (res.getD fuel) tid) ∧
    (cachedRegs r.1 i).ip = ptr (res.getD fuel)

section Follows

variable {tid i : Nat} {w w' : World} {ptr : Nat → Nat}

theorem Follows.zero (hp : (cachedRegs w i).ip = ptr 0) : Follows tid i w ptr 0 none (w, none) :=
  ⟨rfl, ⟨[], rfl, rfl⟩, hp⟩

/-- A loop that returns before its step. -/
theorem Follows.stop (hp : (cachedRegs w i).ip = ptr 0) (fuel : Nat) :
    Follows tid i w ptr fuel (some 0) (w, some 0) :=
  ⟨rfl, ⟨[], rfl, rfl⟩, hp⟩

/-- A loop that returns after `n` single steps, which reached `ptr n`. -/
theorem Follows.steps {n fuel : Nat} {r : World}
    (hs : Kernel.Issues Request.stepped? w.kernel r.kernel (List.replicate n tid))
    (hc : (cachedRegs r i).ip = ptr n) : Follows tid i w ptr fuel (some n) (r, some 0) :=
  ⟨rfl, hs, hc⟩

/-- A turn that steps once and goes on with the rest of the stream. -/
theorem Follows.cons {fuel : Nat} {res : Option Nat} {r : World × Option Int}
    (hs : Kernel.Issues Request.stepped? w.kernel w'.kernel [tid])
    (h : Follows tid i w' (fun j => ptr (j + 1)) fuel res r) :
    Follows tid i w ptr (fuel + 1) (res.map (· + 1)) r := by
  obtain ⟨h₁, h₂, h₃⟩ := h
  have hn : (res.map (· + 1)).getD (fuel + 1) = res.getD fuel + 1 := by cases res <;> rfl
  refine ⟨by rw [h₁]; cases res <;> rfl, ?_, by rw [hn]; exact h₃⟩
  rw [hn, List.replicate_succ]
  exact hs.trans h₂

@[simp] theorem cachedRegs_restore (w : World) (i : Nat) : cachedRegs w.restore i = cachedRegs w i :=
  rfl

end Follows

/-! ## One turn when every request succeeds -/

section Ok

variable {o} (hok : ∀ n, (o n).ok = true)
include hok

/-- A step and a refresh that succeed: one `PTRACE_SINGLESTEP`, and the stream of pointers from
the world reached is the old one less its first pointer, so that the cache of entry `i` is at
the second. -/
theorem stepAndRefresh_of_ok (tid : Nat) {i : Nat} {w : World} (hi : i < w.state.tHead.length) :
    (stepAndRefresh o tid i w).2 = true ∧
    (stepAndRefresh o tid i w).1.state.tHead.length = w.state.tHead.length ∧
    (stepAndRefresh o tid i w).1.mem = w.mem ∧
    Kernel.Issues Request.stepped? w.kernel (stepAndRefresh o tid i w).1.kernel [tid] ∧
    ptrStream o (stepAndRefresh o tid i w).1.kernel.clock
        (cachedRegs (stepAndRefresh o tid i w).1 i).ip =
      fun j => ptrStream o w.kernel.clock (cachedRegs w i).ip (j + 1) := by
  have hs : w.kernel.resume o w.mem (.singlestep tid 0) =
      ({ (w.kernel.issue o w.mem (.singlestep tid 0)).1 with
        regs := Function.update w.kernel.regs tid (o w.kernel.clock).regs }, true) := by
    simp only [Kernel.resume, hok, if_true]; rfl
  have hiss : Kernel.Issues Request.stepped? w.kernel
      (w.kernel.resume o w.mem (.singlestep tid 0)).1 [tid] :=
    Kernel.resume_issues o (.singlestep tid 0)
  rw [hs] at hiss
  have hg := @Kernel.getregs_issues o w.mem (Kernel.waitpid o
    { (w.kernel.issue o w.mem (.singlestep tid 0)).1 with
      regs := Function.update w.kernel.regs tid (o w.kernel.clock).regs }).1 Request.stepped? tid
  have hclock : (stepAndRefresh o tid i w).1.kernel.clock = w.kernel.clock + 3 := by
    simp only [stepAndRefresh, hs, if_true]; rfl
  have hcache : cachedRegs (stepAndRefresh o tid i w).1 i = (o w.kernel.clock).regs := by
    simp [stepAndRefresh, hs, Kernel.getregs, Kernel.waitpid, hok, GlobalState.refreshAt,
      cachedRegs, List.getElem?_modify, hi]
  refine ⟨?_, ?_, ?_, ?_, by rw [hclock, hcache]; exact ptrStream_shift o _ _⟩ <;>
    simp only [stepAndRefresh, hs, if_true]
  · simp [Kernel.getregs, Kernel.waitpid, hok, GlobalState.refreshAt]
  · simpa using hiss.trans ((Kernel.waitpid_issues o).trans hg)

/-- `step_until`'s loop runs as `stepsUntil` over the pointers the thread reports. -/
theorem stepUntilLoop_follows (tid addr : Nat) (maxSteps : Int) {i : Nat} (fuel : Nat) :
    ∀ (count : Int) (w : World), i < w.state.tHead.length →
      Follows tid i w (ptrStream o w.kernel.clock (cachedRegs w i).ip) fuel
        (stepsUntil addr maxSteps fuel (ptrStream o w.kernel.clock (cachedRegs w i).ip) count)
        (stepUntilLoop o tid i addr maxSteps fuel count w) := by
  induction fuel with
  | zero => intro count w _; exact Follows.zero rfl
  | succ fuel ih =>
    intro count w hi
    obtain ⟨h₂, hlen, -, hiss, hshift⟩ := stepAndRefresh_of_ok hok tid hi
    have hnext := fun count => hshift ▸ ih count _ (hlen ▸ hi)
    have hp₁ : (cachedRegs (stepAndRefresh o tid i w).1 i).ip =
        ptrStream o w.kernel.clock (cachedRegs w i).ip 1 := congrFun hshift 0
    simp only [stepUntilLoop, stepsUntil, h₂, if_true, hp₁, ptrStream_zero]
    split_ifs
    · exact Follows.steps hiss hp₁
    · exact Follows.cons hiss (hnext count)
    · exact Follows.cons hiss (hnext (count + 1))
    · exact Follows.stop rfl _

variable (arch : Arch)

/-- The last step of `stepping_finish`, out of the return, makes two steps of the turn. -/
theorem finishLastStep_follows (tid : Nat) {i : Nat} {w : World} (hi : i < w.state.tHead.length)
    (fuel : Nat) :
    Follows tid i w (ptrStream o w.kernel.clock (cachedRegs w i).ip) (fuel + 1) (some 2)
      (finishLastStep o tid i (stepAndRefresh o tid i w).1) := by
  obtain ⟨-, hlen, -, hiss, hshift⟩ := stepAndRefresh_of_ok hok tid hi
  obtain ⟨h₂', -, -, hiss', hshift'⟩ :=
    stepAndRefresh_of_ok hok tid (w := (stepAndRefresh o tid i w).1) (hlen ▸ hi)
  simp only [finishLastStep, h₂', if_true]
  exact Follows.steps (by simpa using hiss.trans hiss') ((congrFun hshift' 0).trans (congrFun hshift 1))

/-- `stepping_finish`'s loop runs as `finishSteps` over the pointers the thread reports, in the
memory it starts with. -/
theorem finishLoop_follows (tid : Nat) {i : Nat} (fuel : Nat) :
    ∀ (depth : Int) (w : World), i < w.state.tHead.length →
      Follows tid i w (ptrStream o w.kernel.clock (cachedRegs w i).ip) fuel
        (finishSteps arch w.mem fuel (ptrStream o w.kernel.clock (cachedRegs w i).ip) depth)
        (finishLoop o arch tid i fuel depth w) := by
  induction fuel with
  | zero => intro depth w _; exact Follows.zero rfl
  | succ fuel ih =>
    intro depth w hi
    obtain ⟨h₂, hlen, hmem, hiss, hshift⟩ := stepAndRefresh_of_ok hok tid hi
    have hp₁ : (cachedRegs (stepAndRefresh o tid i w).1 i).ip =
        ptrStream o w.kernel.clock (cachedRegs w i).ip 1 := congrFun hshift 0
    simp only [finishLoop, finishSteps, h₂, if_true, hp₁, hmem, ptrStream_zero]
    split_ifs
    · exact Follows.steps hiss hp₁
    · have hnext := ih (nextDepth arch (peekData w.mem
        (ptrStream o w.kernel.clock (cachedRegs w i).ip 1)) depth) _ (hlen ▸ hi)
      rw [hshift, hmem] at hnext
      exact Follows.cons hiss hnext
    · exact finishLastStep_follows hok tid hi fuel

end Ok

/-! ## `step_until` -/

section StepUntil

theorem Kernel.setregs_clock (mem : Memory) (k : Kernel) (tid : Nat) (regs : Regs) :
    (k.setregs o mem tid regs).1.clock = k.clock + 1 := by
  unfold Kernel.setregs; split_ifs <;> rfl

/-- The flush takes one answer per live thread. -/
theorem flushRegs_clock (mem : Memory) (ts : List Thread) (k : Kernel) :
    (flushRegs o mem ts k).clock = k.clock + ts.length := by
  induction ts generalizing k with
  | nil => rfl
  | cons t ts ih =>
    show (flushRegs o mem ts (k.setregs o mem t.tid t.regs).1).clock = _
    rw [ih, Kernel.setregs_clock, List.length_cons]; omega

/-- The flush steps no thread. -/
theorem flushRegs_steps (mem : Memory) (ts : List Thread) (k : Kernel) :
    Kernel.Issues Request.stepped? k (flushRegs o mem ts k) [] := by
  induction ts generalizing k with
  | nil => exact ⟨[], rfl, rfl⟩
  | cons t ts ih => exact (Kernel.setregs_issues o t.tid t.regs).trans (ih _)

theorem findLastIdx_lt {tid : Nat} : ∀ {ts : List Thread} {i : Nat},
    findLastIdx tid ts = some i → i < ts.length
  | t :: ts, i, h => by
    unfold findLastIdx at h
    split at h
    · next j hj => cases h; exact Nat.succ_lt_succ (findLastIdx_lt hj)
    · split_ifs at h; cases h; exact Nat.succ_pos _

variable {w : World} {tid i : Nat}

theorem stepUntil_of_idx (hi : findLastIdx tid w.state.tHead = some i) (addr : Nat)
    (maxSteps : Int) (fuel : Nat) :
    stepUntil o w tid addr maxSteps fuel = stepUntilLoop o tid i addr maxSteps fuel 0
      { w with kernel := flushRegs o w.mem w.state.tHead w.kernel } := by
  simp only [stepUntil, hi]

/-- The pointers `step_until` from `w` sees on the entry at position `i`: its cached pointer,
then those the steps report once the flush has taken its answers. -/
def untilStream (w : World) (i : Nat) : Nat → Nat :=
  ptrStream o (w.kernel.clock + w.state.tHead.length) (cachedRegs w i).ip

/-- `step_until` runs as `stepsUntil` over the pointers the thread reports, from a count of 0. -/
theorem stepUntil_follows (hok : ∀ n, (o n).ok = true) (hi : findLastIdx tid w.state.tHead = some i)
    (addr : Nat) (maxSteps : Int) (fuel : Nat) :
    Follows tid i w (untilStream o w i) fuel (stepsUntil addr maxSteps fuel (untilStream o w i) 0)
      (stepUntil o w tid addr maxSteps fuel) := by
  have h := stepUntilLoop_follows hok tid addr maxSteps fuel 0
    { w with kernel := flushRegs o w.mem w.state.tHead w.kernel } (findLastIdx_lt hi)
  dsimp only at h
  rw [flushRegs_clock] at h
  rw [stepUntil_of_idx o hi]
  obtain ⟨h₁, h₂, h₃⟩ := h
  exact ⟨h₁, (flushRegs_steps o _ _ _).trans h₂, h₃⟩

/-- `step_until` counts only the steps that move the pointer.  When each of the thread's first
`M` steps moves it, the call returns 0 after at most `M` single steps, given the fuel for
them; when the thread stays put away from the target, the call steps it for as long as it
runs and never returns, whatever `max_steps` other than 0 is. -/
theorem step_until_counts_moving_steps (hok : ∀ n, (o n).ok = true) {addr : Nat}
    (hi : findLastIdx tid w.state.tHead = some i) :
    (∀ M fuel : Nat, (∀ l < M, untilStream o w i (l + 1) ≠ untilStream o w i l) → M < fuel →
      ∃ n ≤ M, (stepUntil o w tid addr M fuel).2 = some 0 ∧
        Kernel.Issues Request.stepped? w.kernel (stepUntil o w tid addr M fuel).1.kernel
          (List.replicate n tid)) ∧
    (∀ maxSteps : Int, (maxSteps = -1 ∨ 0 < maxSteps) →
      (∀ l, untilStream o w i l = untilStream o w i 0) → untilStream o w i 0 ≠ addr → ∀ fuel,
        (stepUntil o w tid addr maxSteps fuel).2 = none ∧
        Kernel.Issues Request.stepped? w.kernel (stepUntil o w tid addr maxSteps fuel).1.kernel
          (List.replicate fuel tid)) := by
  refine ⟨fun M fuel hmove hf => ?_, fun maxSteps hc hstay haddr fuel => ?_⟩
  · obtain ⟨n, hn, hsome⟩ := stepsUntil_of_moving addr fuel (untilStream o w i) 0 (Nat.zero_le M)
      (by simpa using hmove) (by simpa using hf)
    obtain ⟨h₁, h₂, -⟩ := stepUntil_follows o hok hi addr M fuel
    rw [Nat.cast_zero] at hsome
    rw [hsome] at h₁ h₂
    exact ⟨n, by simpa using hn, h₁, h₂⟩
  · obtain ⟨h₁, h₂, -⟩ := stepUntil_follows o hok hi addr maxSteps fuel
    rw [stepsUntil_of_stuck addr hc fuel _ hstay haddr] at h₁ h₂
    exact ⟨h₁, h₂⟩

/-- Thread 1 alone, stopped at address 0. -/
def oneThreadAtZero : World :=
  { World.empty with state := { World.empty.state with tHead := [⟨1, ⟨0, 0⟩, ⟨0, 0⟩, 0⟩] } }

/-- Thread 1 at address 0: moved to 5 by its first step it reaches target 7 within one counted
step; left at 0 by every step, with target 5 and `max_steps` 1, it is stepped forever. -/
theorem step_until_counts_moving_steps_at_zero :
    (∃ n ≤ 1, (stepUntil Oracle.stopsAtFive oneThreadAtZero 1 7 (1 : Nat) 2).2 = some 0 ∧
      Kernel.Issues Request.stepped? oneThreadAtZero.kernel
        (stepUntil Oracle.stopsAtFive oneThreadAtZero 1 7 (1 : Nat) 2).1.kernel
        (List.replicate n 1)) ∧
    ∀ fuel, (stepUntil Oracle.accepting oneThreadAtZero 1 5 1 fuel).2 = none ∧
      Kernel.Issues Request.stepped? oneThreadAtZero.kernel
        (stepUntil Oracle.accepting oneThreadAtZero 1 5 1 fuel).1.kernel (List.replicate fuel 1) :=
  ⟨(step_until_counts_moving_steps Oracle.stopsAtFive (fun _ => rfl)
      (show findLastIdx 1 oneThreadAtZero.state.tHead = some 0 from rfl)).1 1 2 (by decide) (by decide),
    (step_until_counts_moving_steps Oracle.accepting (fun _ => rfl)
      (show findLastIdx 1 oneThreadAtZero.state.tHead = some 0 from rfl)).2 1 (.inr (by decide))
      (fun l => by cases l <;> rfl) (by decide)⟩

/-- A thread that stays at address 0 whatever it is stepped: with `max_steps` 1 and target 5,
`step_until` steps it once per turn for as long as it runs, and never returns. -/
theorem step_until_stuck_forever :
    (∀ n, (Oracle.accepting n).regs.ip = (cachedRegs oneThreadAtZero 0).ip) ∧
    ∀ fuel, (stepUntil Oracle.accepting oneThreadAtZero 1 5 1 fuel).2 = none ∧
      Kernel.Issues Request.stepped? oneThreadAtZero.kernel
        (stepUntil Oracle.accepting oneThreadAtZero 1 5 1 fuel).1.kernel (List.replicate fuel 1) := by
  refine ⟨fun _ => rfl, fun fuel => ?_⟩
  obtain ⟨h₁, h₂, -⟩ :=
    stepUntil_follows Oracle.accepting (fun _ => rfl)
      (show findLastIdx 1 oneThreadAtZero.state.tHead = some 0 from rfl) 5 1 fuel
  rw [stepsUntil_of_stuck 5 (.inr (by decide)) fuel _ (fun l => by cases l <;> rfl) (by decide)] at h₁ h₂
  exact ⟨h₁, h₂⟩

end StepUntil

/-! ## `stepping_finish` -/

section Finish

variable (arch : Arch) (mem : Memory)

/-- The counter after an instruction is the counter before it plus what the instruction adds:
one at a call, minus one at a return. -/
theorem nextDepth_eq_add (window : Word) (depth : Int) :
    nextDepth arch window depth = depth + nextDepth arch window 0 := by
  unfold nextDepth; split_ifs <;> omega

theorem nextDepth_zero_bounds (window : Word) :
    -1 ≤ nextDepth arch window 0 ∧ nextDepth arch window 0 ≤ 1 := by
  unfold nextDepth; split_ifs <;> omega

/-- `#ret - #call` over the instructions at `ptr 1, ..., ptr k` in `mem`, an instruction that
is both a call and a return counting as a call. -/
def netReturns (ptr : Nat → Nat) : Nat → Int
  | 0 => 0
  | k + 1 =>
    netReturns ptr k +
      if arch.isCallInstruction (peekData mem (ptr (k + 1))) then -1
      else if arch.isRetInstruction (peekData mem (ptr (k + 1)) 0) then 1 else 0

/-- Each instruction moves the count against the counter of `stepping_finish`. -/
theorem netReturns_succ (ptr : Nat → Nat) (k : Nat) :
    netReturns arch mem ptr (k + 1) =
      netReturns arch mem ptr k - nextDepth arch (peekData mem (ptr (k + 1))) 0 := by
  simp only [netReturns, nextDepth]
  split_ifs <;> omega

theorem netReturns_one (ptr : Nat → Nat) :
    netReturns arch mem ptr 1 = -nextDepth arch (peekData mem (ptr 1)) 0 := by
  rw [netReturns_succ]; exact Int.zero_sub _

theorem netReturns_shift (ptr : Nat → Nat) (k : Nat) :
    netReturns arch mem ptr (k + 1) =
      netReturns arch mem ptr 1 + netReturns arch mem (fun j => ptr (j + 1)) k := by
  induction k with
  | zero => exact (Int.add_zero _).symm
  | succ k ih =>
    rw [netReturns_succ, ih, netReturns_succ _ _ (fun j => ptr (j + 1)) k, Int.add_sub_assoc]

/-- The count moves by at most one per instruction, so before it first reaches 1 it is below
1. -/
theorem netReturns_lt_one (ptr : Nat → Nat) {k : Nat} (h : ∀ j < k, netReturns arch mem ptr j ≠ 1) :
    ∀ j < k, netReturns arch mem ptr j < 1
  | 0, _ => Int.one_pos
  | j + 1, hj => by
    have hprev := netReturns_lt_one ptr h j (by omega)
    have hb := nextDepth_zero_bounds arch (peekData mem (ptr (j + 1)))
    have hne := h (j + 1) hj
    rw [netReturns_succ] at hne ⊢
    omega

/-- A turn that moves to a pointer with no trap under it. -/
theorem finishSteps_succ {fuel : Nat} {ptr : Nat → Nat} {depth : Int} (hmove : ptr 1 ≠ ptr 0)
    (htrap : arch.isSwBreakpoint (peekData mem (ptr 1) 0) = false) :
    finishSteps arch mem (fuel + 1) ptr depth =
      if 0 < nextDepth arch (peekData mem (ptr 1)) depth then
        (finishSteps arch mem fuel (fun j => ptr (j + 1))
          (nextDepth arch (peekData mem (ptr 1)) depth)).map (· + 1)
      else some 2 := by
  rw [finishSteps, if_neg (not_or.2 ⟨hmove, by rw [htrap]; decide⟩)]

/-- From a counter at `depth`, a run that moves at each of its first `k + 1` steps, meets no
trap, and first brings the counter to 0 at the instruction `ptr (k + 1)` ends after `k + 2`
single steps: the last one out of that instruction. -/
theorem finishSteps_exit : ∀ (k fuel : Nat) (ptr : Nat → Nat) (depth : Int), k ≤ fuel →
    (∀ l ≤ k, ptr (l + 1) ≠ ptr l) →
    (∀ l ≤ k, arch.isSwBreakpoint (peekData mem (ptr (l + 1)) 0) = false) →
    (∀ j, 1 ≤ j → j ≤ k → 0 < depth - netReturns arch mem ptr j) →
    depth - netReturns arch mem ptr (k + 1) ≤ 0 →
    finishSteps arch mem (fuel + 1) ptr depth = some (k + 2)
  | 0, _, ptr, depth, _, hmove, htrap, _, hexit => by
    have hexit' : depth - netReturns arch mem ptr 1 ≤ 0 := hexit
    rw [netReturns_one] at hexit'
    have hstop : ¬0 < nextDepth arch (peekData mem (ptr 1)) depth := by
      rw [nextDepth_eq_add]; omega
    rw [finishSteps_succ arch mem (hmove 0 le_rfl) (htrap 0 le_rfl)]
    exact if_neg hstop
  | k + 1, fuel, ptr, depth, hfuel, hmove, htrap, hstay, hexit => by
    obtain ⟨f, rfl⟩ : ∃ f, fuel = f + 1 := ⟨fuel - 1, by omega⟩
    have hnd : nextDepth arch (peekData mem (ptr 1)) depth = depth - netReturns arch mem ptr 1 := by
      rw [nextDepth_eq_add, netReturns_one]; omega
    have hshift : ∀ j, depth - netReturns arch mem ptr (j + 1) =
        nextDepth arch (peekData mem (ptr 1)) depth - netReturns arch mem (fun j => ptr (j + 1)) j := by
      intro j; rw [hnd, netReturns_shift]; omega
    have hrest := finishSteps_exit k f (fun j => ptr (j + 1)) _ (by omega)
      (fun l _ => hmove (l + 1) (by omega)) (fun l _ => htrap (l + 1) (by omega))
      (fun j _ _ => hshift j ▸ hstay (j + 1) (by omega) (by omega)) (hshift (k + 1) ▸ hexit)
    have hgo : 0 < nextDepth arch (peekData mem (ptr 1)) depth := hnd ▸ hstay 1 le_rfl (by omega)
    rw [finishSteps_succ arch mem (hmove 0 (by omega)) (htrap 0 (by omega)), if_pos hgo, hrest]
    rfl

variable {o arch}

theorem steppingFinish_of_idx {w : World} {tid i : Nat}
    (hi : w.state.tHead.findIdx? (·.tid == tid) = some i) (fuel : Nat) :
    steppingFinish o arch w tid fuel = finishLoop o arch tid i fuel 1 (prepareForRun o w tid).1 := by
  simp only [steppingFinish, prepareForRun_state, hi]

variable (o)

/-- The pointers `stepping_finish` from `w` sees on the entry at position `i`: its cached
pointer, then those the steps report once `prepare_for_run` has taken its answers. -/
def finishStream (w : World) (tid i : Nat) : Nat → Nat :=
  ptrStream o (prepareForRun o w tid).1.kernel.clock (cachedRegs w i).ip

variable {o} (arch)

/-- `stepping_finish` runs as `finishSteps` over the pointers the thread reports, from a counter
of 1, in the memory `prepare_for_run` leaves. -/
theorem steppingFinish_follows (hok : ∀ n, (o n).ok = true) {w : World} {tid i : Nat}
    (hi : w.state.tHead.findIdx? (·.tid == tid) = some i) (fuel : Nat) :
    Follows tid i (prepareForRun o w tid).1 (finishStream o w tid i) fuel
      (finishSteps arch (prepareForRun o w tid).1.mem fuel (finishStream o w tid i) 1)
      (steppingFinish o arch w tid fuel) := by
  have hlen : i < (prepareForRun o w tid).1.state.tHead.length := by
    rw [prepareForRun_state]; exact (List.findIdx?_eq_some_iff_getElem.1 hi).1
  have hc : cachedRegs (prepareForRun o w tid).1 i = cachedRegs w i := by
    simp only [cachedRegs, prepareForRun_state]
  have h := finishLoop_follows hok arch tid fuel 1 _ hlen
  rw [hc] at h
  rw [steppingFinish_of_idx hi]
  exact h

variable (o)

/-- With no live thread on a breakpoint, the step-over loop issues nothing. -/
theorem stepOvers_of_no_hit (mem : Memory) (bps : List SoftwareBreakpoint) :
    ∀ (ts : List Thread) (k : Kernel) (status : Int),
      (∀ t ∈ ts, bps.any (·.addr == t.regs.ip) = false) →
        stepOvers o mem bps ts k status = (k, some status)
  | [], _, _, _ => rfl
  | t :: ts, k, status, h => by
    rw [stepOvers, if_neg (by rw [h t (List.mem_cons_self _ _)]; decide)]
    exact stepOvers_of_no_hit mem bps ts k status fun t' ht' => h t' (List.mem_cons_of_mem _ ht')

/-- With no live thread on a breakpoint, `prepare_for_run` only flushes, and `stepping_finish`
sees the pointers `step_until` would: the thread's own, from the instruction it stands on. -/
theorem finishStream_of_no_hit {w : World}
    (h : ∀ t ∈ w.state.tHead, w.state.swBHead.any (·.addr == t.regs.ip) = false) (tid i : Nat) :
    finishStream o w tid i = untilStream o w i := by
  have hs : flushAndStepOver o w = (flushRegs o w.mem w.state.tHead w.kernel, some 0) :=
    stepOvers_of_no_hit o _ _ _ _ _ h
  rw [finishStream, untilStream, prepareForRun_of_some o (by rw [hs]) tid]
  show ptrStream o (flushAndStepOver o w).1.clock _ = _
  rw [hs, flushRegs_clock]

variable {o}

/-- `stepping_finish` leaves the frame counted from the second instruction on.  Let `ptr` be
the pointers the thread reports, and `k ≥ 1` the first index at which the returns among the
instructions at `ptr 1, ..., ptr k` outnumber the calls by one.  If every step up to there
moves the pointer and meets no trap, the call returns 0 after `k + 1` single steps, the last
one out of the return at `ptr k`, with the cache at `ptr (k + 1)`.  The instruction at `ptr 0`,
where the thread stood, is executed without being classified. -/
theorem stepping_finish_exits_frame (hok : ∀ n, (o n).ok = true) {w : World} {tid i k fuel : Nat}
    (hi : w.state.tHead.findIdx? (·.tid == tid) = some i) (hk : 1 ≤ k) (hfuel : k ≤ fuel)
    (hmove : ∀ l < k, finishStream o w tid i (l + 1) ≠ finishStream o w tid i l)
    (htrap : ∀ l < k, arch.isSwBreakpoint
      (peekData (prepareForRun o w tid).1.mem (finishStream o w tid i (l + 1)) 0) = false)
    (hleast : ∀ j < k, netReturns arch (prepareForRun o w tid).1.mem (finishStream o w tid i) j ≠ 1)
    (hexit : netReturns arch (prepareForRun o w tid).1.mem (finishStream o w tid i) k = 1) :
    (steppingFinish o arch w tid fuel).2 = some 0 ∧
    Kernel.Issues Request.stepped? (prepareForRun o w tid).1.kernel
      (steppingFinish o arch w tid fuel).1.kernel (List.replicate (k + 1) tid) ∧
    (cachedRegs (steppingFinish o arch w tid fuel).1 i).ip = finishStream o w tid i (k + 1) := by
  obtain ⟨k, rfl⟩ : ∃ k', k = k' + 1 := ⟨k - 1, by omega⟩
  obtain ⟨f, rfl⟩ : ∃ f, fuel = f + 1 := ⟨fuel - 1, by omega⟩
  have hstay : ∀ j, 1 ≤ j → j ≤ k →
      0 < 1 - netReturns arch (prepareForRun o w tid).1.mem (finishStream o w tid i) j :=
    fun j _ hj => Int.sub_pos.2 (netReturns_lt_one arch _ _ hleast j (by omega))
  have hsteps := finishSteps_exit arch _ k f _ 1 (by omega) (fun l _ => hmove l (by omega))
    (fun l _ => htrap l (by omega)) hstay (by rw [hexit]; decide)
  obtain ⟨h₁, h₂, h₃⟩ := steppingFinish_follows arch hok hi (f + 1)
  rw [hsteps] at h₁ h₂ h₃
  exact ⟨h₁, h₂, h₃⟩

/-- Thread 1 alone at address 0, among no-ops, with a return at 10. -/
def retAtTen : World := { oneThreadAtZero with mem := fun a => if a = 10 then 0xC3 else 0x90 }

/-- A kernel whose first step answers take a thread to 10, and the later ones to 20. -/
def Oracle.tenThenTwenty : Oracle := fun n => ⟨true, ⟨if n < 4 then 10 else 20, 0⟩, 1, 0, []⟩

theorem stepping_finish_exits_frame_on_nop :
    (steppingFinish Oracle.tenThenTwenty Arch.int3 retAtTen 1 1).2 = some 0 ∧
    Kernel.Issues Request.stepped? (prepareForRun Oracle.tenThenTwenty retAtTen 1).1.kernel
      (steppingFinish Oracle.tenThenTwenty Arch.int3 retAtTen 1 1).1.kernel (List.replicate 2 1) ∧
    (cachedRegs (steppingFinish Oracle.tenThenTwenty Arch.int3 retAtTen 1 1).1 0).ip =
      finishStream Oracle.tenThenTwenty retAtTen 1 0 2 :=
  stepping_finish_exits_frame Arch.int3 (fun _ => rfl)
    (show retAtTen.state.tHead.findIdx? (·.tid == 1) = some 0 from rfl) le_rfl le_rfl
    (by decide) (by decide) (by decide) (by decide)

/-- Thread 1 alone at address 0, on a return, among no-ops with another return at 11. -/
def retAtZero : World :=
  { oneThreadAtZero with mem := fun a => if a = 0 ∨ a = 11 then 0xC3 else 0x90 }

/-- A kernel whose step answers take a thread to 10, then 11, then 20. -/
def Oracle.tenElevenTwenty : Oracle :=
  fun n => ⟨true, ⟨if n < 4 then 10 else if n < 7 then 11 else 20, 0⟩, 1, 0, []⟩

/-- A thread standing on a return: the return takes it to 10, out of its frame, but
`stepping_finish` goes on to the return at 11 and stops at 20, after three single steps. -/
theorem finish_from_ret :
    Arch.int3.isRetInstruction (retAtZero.mem 0) = true ∧
    finishStream Oracle.tenElevenTwenty retAtZero 1 0 1 = 10 ∧
    (steppingFinish Oracle.tenElevenTwenty Arch.int3 retAtZero 1 5).2 = some 0 ∧
    (cachedRegs (steppingFinish Oracle.tenElevenTwenty Arch.int3 retAtZero 1 5).1 0).ip = 20 ∧
    ((steppingFinish Oracle.tenElevenTwenty Arch.int3 retAtZero 1 5).1.kernel.log.filterMap
      (·.req.stepped?)).length = 3 := by
  decide

end Finish

end Libdebug
