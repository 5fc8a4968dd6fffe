import Libdebug.Stepping

/-!
# What the run and stop entry points ask of the kernel

The requests `prepare_for_run`, `cont_all_and_set_bps` and `wait_all_and_update_regs` issue,
and the status list the last one returns, over every run and whatever the kernel answers.

`prepare_for_run` single-steps exactly the live threads whose cached instruction pointer is a
software breakpoint's address, in list order, once or twice each (the code steps again when the
wait after the first step reports a SIGSTOP); a failed step ends the loop, and then
`prepare_for_run` returns -1
(`prepare_for_run_steps_threads_on_breakpoints`).  `cont_all_and_set_bps` lets every live
thread run exactly once, in list order, by `PTRACE_SYSCALL` when syscall handling is on and
`PTRACE_CONT` otherwise, with the thread's signal, whatever `prepare_for_run` returned
(`cont_all_resumes_each_thread_once`).  `wait_all_and_update_regs` sends SIGSTOP only to live
threads other than the one its first wait reported, in list order and at most once per entry,
each after a `getregs` that failed; the list it returns holds the statuses of its non-blocking
waits, from the answer that follows the stop loop's, then the statuses of the waits after the
SIGSTOPs, then the first status, last.  When the first wait fails it returns `NULL` before its
restore loop, so the breakpoints stay in memory (`wait_all_stops_other_threads_once`).
-/

namespace Libdebug

/-- The thread a SIGSTOP sent by `tgkill` is for. -/
def Request.stopped? : Request → Option Nat
  | .tgkill tid sig => if sig = sigstop then some tid else none
  | _ => none

/-- The live threads `prepare_for_run` steps over a breakpoint: those whose cached instruction
pointer is the address of a software breakpoint, enabled or not. -/
def onBreakpoint (bps : List SoftwareBreakpoint) (ts : List Thread) : List Thread :=
  ts.filter fun t => bps.any (·.addr == t.regs.ip)

/-- The single steps of a loop that stepped the `i`-th thread of `targets` `ns[i]` times. -/
def stepList (targets : List Thread) (ns : List Nat) : List Nat :=
  (targets.zip ns).flatMap fun p => List.replicate p.2 p.1.tid

theorem stepList_cons (t : Thread) (targets : List Thread) (n : Nat) (ns : List Nat) :
    stepList (t :: targets) (n :: ns) = List.replicate n t.tid ++ stepList targets ns := by
  simp [stepList]

/-- Between `k` and `k'`, the requests `p` picks out were, oldest first, `l`. -/
def Kernel.Sends (p : Request → Bool) (k k' : Kernel) (l : List Request) : Prop :=
  ∃ new, k'.log = new ++ k.log ∧ (new.reverse.map (·.req)).filter p = l

namespace Kernel.Sends

variable {p : Request → Bool} {k₁ k₂ k₃ : Kernel}

theorem trans {l₁ l₂ : List Request} (h₁ : Sends p k₁ k₂ l₁) (h₂ : Sends p k₂ k₃ l₂) :
    Sends p k₁ k₃ (l₁ ++ l₂) := by
  obtain ⟨n₁, e₁, f₁⟩ := h₁
  obtain ⟨n₂, e₂, f₂⟩ := h₂
  exact ⟨n₂ ++ n₁, by rw [e₂, e₁, List.append_assoc],
    by rw [List.reverse_append, List.map_append, List.filter_append, f₁, f₂]⟩

theorem of_log_eq (h : k₂.log = k₁.log) : Sends p k₁ k₂ [] := ⟨[], h, rfl⟩

/-- One logged request. -/
theorem of_log_cons {e : Event} (h : k₂.log = e :: k₁.log) : Sends p k₁ k₂ ([e.req].filter p) :=
  ⟨[e], h, rfl⟩

end Kernel.Sends

section KernelSends

variable (o : Oracle) {p : Request → Bool} (mem : Memory) (k : Kernel)

theorem Kernel.issue_sends (req : Request) : Kernel.Sends p k (k.issue o mem req).1 ([req].filter p) :=
  .of_log_cons rfl

theorem Kernel.getregs_sends (tid : Nat) :
    Kernel.Sends p k (k.getregs o mem tid).1 ([.getregs tid].filter p) := .of_log_cons rfl

theorem Kernel.setregs_sends (tid : Nat) (regs : Regs) :
    Kernel.Sends p k (k.setregs o mem tid regs).1 ([.setregs tid].filter p) :=
  .of_log_cons (Kernel.setregs_log o)

theorem Kernel.waitpid_sends : Kernel.Sends p k (k.waitpid o).1 [] := .of_log_eq rfl

end KernelSends

variable (o : Oracle)

/-! ## `prepare_for_run` -/

section StepOvers

variable (mem : Memory) (bps : List SoftwareBreakpoint)

theorem resume_stepped (k : Kernel) (tid : Nat) :
    Kernel.Issues Request.stepped? k (k.resume o mem (.singlestep tid 0)).1 [tid] :=
  Kernel.resume_issues o _

/-- The step-over loop steps the threads on a breakpoint, in list order, once or twice each; a
failed step ends it, and it reports the failure. -/
theorem stepOvers_stepped : ∀ (ts : List Thread) (k : Kernel) (status : Int), ∃ ns : List Nat,
    ns.length ≤ (onBreakpoint bps ts).length ∧ (∀ n ∈ ns, n = 1 ∨ n = 2) ∧
    Kernel.Issues Request.stepped? k (stepOvers o mem bps ts k status).1
      (stepList (onBreakpoint bps ts) ns) ∧
    ((stepOvers o mem bps ts k status).2 ≠ none → ns.length = (onBreakpoint bps ts).length)
  | [], _, _ => ⟨[], le_rfl, by simp, ⟨[], rfl, rfl⟩, fun _ => rfl⟩
  | t :: ts, k, status => by
    by_cases hb : bps.any (·.addr == t.regs.ip) = true
    · have hon : onBreakpoint bps (t :: ts) = t :: onBreakpoint bps ts :=
        List.filter_cons_of_pos hb
      have hstep := resume_stepped o mem k t.tid
      simp only [stepOvers, hb, if_true, hon]
      split_ifs with hs h4991
      · -- a SIGSTOP after the first step: a second step
        obtain ⟨ns, hlen, hn, hiss, hall⟩ := stepOvers_stepped ts _ _
        refine ⟨2 :: ns, by simpa using hlen, by simpa using hn, ?_, fun h => by simpa using hall h⟩
        simpa [stepList_cons] using hstep.trans ((Kernel.waitpid_issues o).trans
          ((resume_stepped o mem _ t.tid).trans ((Kernel.waitpid_issues o).trans hiss)))
      · obtain ⟨ns, hlen, hn, hiss, hall⟩ := stepOvers_stepped ts _ _
        refine ⟨1 :: ns, by simpa using hlen, by simpa using hn, ?_, fun h => by simpa using hall h⟩
        simpa [stepList_cons] using hstep.trans ((Kernel.waitpid_issues o).trans hiss)
      · -- the failed step, and the return
        exact ⟨[1], by simp, by simp, by simpa [stepList_cons, stepList] using hstep,
          fun h => absurd rfl h⟩
    · have hon : onBreakpoint bps (t :: ts) = onBreakpoint bps ts :=
        List.filter_cons_of_neg (by simpa using hb)
      simp only [stepOvers, hb, Bool.false_eq_true, if_false, hon]
      exact stepOvers_stepped ts k status

end StepOvers

/-- `prepare_for_run` single-steps exactly the live threads whose cached instruction pointer is
a software breakpoint's address, in list order, once or twice each (the code steps again when the
wait after the first step reports a SIGSTOP).  A failed step ends the loop early, and then the
call returns -1; otherwise every such thread has been stepped. -/
theorem prepare_for_run_steps_threads_on_breakpoints (w : World) (pid : Nat) :
    ∃ ns : List Nat, ns.length ≤ (onBreakpoint w.state.swBHead w.state.tHead).length ∧
      (∀ n ∈ ns, n = 1 ∨ n = 2) ∧
      Kernel.Issues Request.stepped? w.kernel (prepareForRun o w pid).1.kernel
        (stepList (onBreakpoint w.state.swBHead w.state.tHead) ns) ∧
      ((prepareForRun o w pid).2 ≠ -1 →
        ns.length = (onBreakpoint w.state.swBHead w.state.tHead).length) := by
  obtain ⟨ns, hlen, hn, hiss, hall⟩ := stepOvers_stepped o w.mem w.state.swBHead w.state.tHead
    (flushRegs o w.mem w.state.tHead w.kernel) 0
  refine ⟨ns, hlen, hn, ?_, fun hr => hall fun h => hr ?_⟩
  · rw [prepareForRun_kernel]
    exact (flushRegs_steps o _ _ _).trans hiss
  · rw [prepareForRun_of_none o h]

/-! ## `cont_all_and_set_bps` -/

theorem contRequest_isCont (hs : Bool) (t : Thread) : (contRequest hs t).IsCont := by
  unfold contRequest; split_ifs <;> trivial

/-- `cont_all_and_set_bps` lets every live thread run exactly once, in list order: the
`PTRACE_CONT` and `PTRACE_SYSCALL` requests of the whole call, oldest first, are one per live
thread, of the kind `handle_syscall_enabled` selects and with the thread's signal, whatever
`prepare_for_run` returned. -/
theorem cont_all_resumes_each_thread_once (w : World) (pid : Nat) :
    Kernel.Sends (fun r => decide r.IsCont) w.kernel (contAllAndSetBps o w pid).1.kernel
      (w.state.tHead.map (contRequest w.state.handleSyscallEnabled)) := by
  obtain ⟨new₁, hlog₁, hquiet⟩ := (prepareForRun_stays o w pid).logs
  obtain ⟨new₂, hlog₂, hreq, -⟩ := contAll_log o (prepareForRun o w pid).1.mem
    (prepareForRun o w pid).1.state.handleSyscallEnabled (prepareForRun o w pid).1.state.tHead
    (prepareForRun o w pid).1.kernel
  have hlog₁' : (prepareForRun o w pid).1.kernel.log = new₁ ++ w.kernel.log := hlog₁
  refine ⟨new₂ ++ new₁, hlog₂.trans (by rw [hlog₁', List.append_assoc]), ?_⟩
  -- `prepare_for_run` lets no thread run
  have h₁ : (new₁.reverse.map (·.req)).filter (fun r => decide r.IsCont) = [] :=
    List.filter_eq_nil_iff.2 fun r hr => by
      obtain ⟨e, he, rfl⟩ := List.mem_map.1 hr
      simpa using (hquiet e (List.mem_reverse.1 he)).2
  rw [List.reverse_append, List.map_append, List.filter_append, h₁, List.nil_append,
    List.map_reverse, hreq, List.reverse_reverse, prepareForRun_state,
    List.filter_eq_self.2 fun r hr => ?_]
  obtain ⟨t, -, rfl⟩ := List.mem_map.1 hr
  exact decide_eq_true (contRequest_isCont _ t)

/-! ## `wait_all_and_update_regs` -/

section Wait

variable (mem : Memory) (first : Int)

/-- The stop loop sends SIGSTOP to live threads other than `first`, in list order, at most once
per entry.  Each SIGSTOP follows a `getregs` that failed, at answer `n - 2`, and its wait takes
answer `n`, whose status the loop pushes; every other entry takes one answer, its `getregs`. -/
theorem stopLoop_spec : ∀ (ts : List Thread) (k : Kernel) (st : List ThreadStatus),
    ∃ (s ns : List Nat), Kernel.Issues Request.stopped? k (walkThreads (stopThread o mem first) (k, st) ts).1.1 s ∧
      s.Sublist ((ts.map (·.tid)).filter fun u => (u : Int) ≠ first) ∧
      ns.length = s.length ∧ ns.Pairwise (· < ·) ∧
      (∀ n ∈ ns, k.clock + 2 ≤ n ∧ (o (n - 2)).ok = false) ∧
      (walkThreads (stopThread o mem first) (k, st) ts).1.2 =
        (ns.map fun n => (⟨(o n).tid, (o n).status⟩ : ThreadStatus)).reverse ++ st ∧
      (walkThreads (stopThread o mem first) (k, st) ts).1.1.clock =
        k.clock + ((ts.map (·.tid)).filter fun u : Nat => (u : Int) ≠ first).length + 2 * s.length
  | [], _, _ => ⟨[], [], ⟨[], rfl, rfl⟩, List.nil_sublist _, rfl, List.Pairwise.nil,
      fun _ h => absurd h (List.not_mem_nil _), rfl, rfl⟩
  | t :: ts, k, st => by
    have hg : Kernel.Issues Request.stopped? k (k.getregs o mem t.tid).1 [] :=
      Kernel.getregs_issues o t.tid
    simp only [walkThreads, List.map_cons]
    by_cases ht : (t.tid : Int) = first
    · have hstay : stopThread o mem first (k, st) t = ((k, st), t) := by simp [stopThread, ht]
      rw [hstay, List.filter_cons_of_neg (by simpa using ht)]
      exact stopLoop_spec ts k st
    · rw [List.filter_cons_of_pos (by simpa using ht), List.length_cons]
      cases hr : (k.getregs o mem t.tid).2 with
      | some regs =>
        -- stopped already: no SIGSTOP, one answer
        have hstop : (stopThread o mem first (k, st) t).1 = ((k.getregs o mem t.tid).1, st) := by
          simp [stopThread, ht, hr]
        obtain ⟨s, ns, hiss, hsub, hlen, hsort, hns, hst, hclock⟩ :=
          stopLoop_spec ts (k.getregs o mem t.tid).1 st
        have hk : (k.getregs o mem t.tid).1.clock = k.clock + 1 := rfl
        rw [hstop]
        exact ⟨s, ns, by simpa using hg.trans hiss, hsub.cons _, hlen, hsort,
          fun n hn => ⟨by have := (hns n hn).1; omega, (hns n hn).2⟩, hst, by omega⟩
      | none =>
        -- SIGSTOP and a wait, three answers, the wait's status pushed
        set r := ((k.getregs o mem t.tid).1.issue o mem (.tgkill t.tid sigstop)).1.waitpid o
        have hstop : (stopThread o mem first (k, st) t).1 = (r.1, ⟨r.2.tid, r.2.status⟩ :: st) := by
          simp [stopThread, ht, hr, r]
        have hfail : (o k.clock).ok = false := by
          simpa [Kernel.getregs] using hr
        obtain ⟨s, ns, hiss, hsub, hlen, hsort, hns, hst, hclock⟩ :=
          stopLoop_spec ts r.1 (⟨r.2.tid, r.2.status⟩ :: st)
        have hr₁ : r.1.clock = k.clock + 3 := rfl
        have hr₂ : r.2 = o (k.clock + 2) := rfl
        rw [hstop]
        have hkill : Kernel.Issues Request.stopped? k r.1 [t.tid] := by
          simpa [Request.stopped?] using hg.trans ((Kernel.issue_issues o
            (Request.tgkill t.tid sigstop)).trans (Kernel.waitpid_issues o))
        refine ⟨t.tid :: s, (k.clock + 2) :: ns, by simpa using hkill.trans hiss, hsub.cons₂ _,
          by simp [hlen], List.pairwise_cons.2 ⟨fun n hn => by have := (hns n hn).1; omega, hsort⟩,
          fun n hn => ?_, by rw [hst]; simp [hr₂], by simp only [List.length_cons]; omega⟩
        rcases List.mem_cons.1 hn with rfl | hn
        · exact ⟨le_rfl, hfail⟩
        · exact ⟨by have := (hns n hn).1; omega, (hns n hn).2⟩

/-- The loop that refreshes the caches sends no SIGSTOP. -/
theorem refreshLoop_stops (ts : List Thread) (k : Kernel) :
    Kernel.Issues Request.stopped? k (walkThreads (refreshRegs o mem) k ts).1 [] :=
  walkThreads_inv (P := fun k' => Kernel.Issues Request.stopped? k k' [])
    (fun _ t h => by simpa using h.trans (Kernel.getregs_issues o t.tid)) ⟨[], rfl, rfl⟩ ts

end Wait

/-- Pushing a list's entries one by one onto a stack puts them on it in reverse order. -/
theorem foldl_push {α β : Type} (f : α → β) (l : List α) (acc : List β) :
    l.foldl (fun h p => f p :: h) acc = (l.map f).reverse ++ acc := by
  induction l generalizing acc with
  | nil => rfl
  | cons p l ih => simp [ih]

/-- `wait_all_and_update_regs`.  When the first wait fails it returns `NULL` having changed
nothing but the kernel's count of answers: the restore loop does not run, so every breakpoint
the tracee ran with stays in memory.  Otherwise it sends SIGSTOP only to live threads other
than the one the first wait reported, in list order and at most once per entry, each after a
`getregs` that failed.  The list it returns is the statuses of the non-blocking waits, newest
first, from the answer that follows the first wait, one `getregs` per other live entry and a
SIGSTOP and a wait per SIGSTOP; then the statuses of the waits after the SIGSTOPs, newest first;
then the first status. -/
theorem wait_all_stops_other_threads_once (w : World) (pid : Nat) :
    ((waitAllAndUpdateRegs o w pid).2 = none →
      (waitAllAndUpdateRegs o w pid).1 = { w with kernel := (w.kernel.waitpid o).1 }) ∧
    ∀ l, (waitAllAndUpdateRegs o w pid).2 = some l →
      ∃ (s ns : List Nat), Kernel.Issues Request.stopped? w.kernel (waitAllAndUpdateRegs o w pid).1.kernel s ∧
        s.Sublist ((w.state.tHead.map (·.tid)).filter fun u => (u : Int) ≠ (o w.kernel.clock).tid) ∧
        ns.length = s.length ∧ ns.Pairwise (· < ·) ∧
        (∀ n ∈ ns, w.kernel.clock + 3 ≤ n ∧ (o (n - 2)).ok = false) ∧
        l = ((o (w.kernel.clock + 1 + ((w.state.tHead.map (·.tid)).filter
              fun u : Nat => (u : Int) ≠ (o w.kernel.clock).tid).length + 2 * s.length)).ready.map
              fun p => (⟨p.1, p.2⟩ : ThreadStatus)).reverse ++
          (ns.map fun n => (⟨(o n).tid, (o n).status⟩ : ThreadStatus)).reverse ++
          [⟨(o w.kernel.clock).tid, (o w.kernel.clock).status⟩] := by
  by_cases h₀ : (w.kernel.waitpid o).2.tid = -1
  · have hfail : waitAllAndUpdateRegs o w pid = ({ w with kernel := (w.kernel.waitpid o).1 }, none) := by
      simp only [waitAllAndUpdateRegs, h₀, if_true]
    rw [hfail]
    exact ⟨fun _ => rfl, fun _ => nofun⟩
  · simp only [waitAllAndUpdateRegs, h₀, if_false]
    refine ⟨nofun, fun l hl => ?_⟩
    set s₁ := walkThreads (stopThread o w.mem (o w.kernel.clock).tid)
      ((w.kernel.waitpid o).1, [⟨(o w.kernel.clock).tid, (o w.kernel.clock).status⟩]) w.state.tHead
    obtain ⟨s, ns, hiss, hsub, hlen, hsort, hns, hst, hclock⟩ := stopLoop_spec o w.mem
      (o w.kernel.clock).tid w.state.tHead (w.kernel.waitpid o).1
      [⟨(o w.kernel.clock).tid, (o w.kernel.clock).status⟩]
    refine ⟨s, ns, ?_, hsub, hlen, hsort, hns, ?_⟩
    · simpa using ((Kernel.waitpid_issues o).trans hiss).trans
        ((Kernel.waitpid_issues o).trans (refreshLoop_stops o w.mem s₁.2 _))
    · simp only [Option.some.injEq] at hl
      rw [← hl]
      show (s₁.1.1.waitpid o).2.ready.foldl _ s₁.1.2 = _
      rw [foldl_push, hst, List.append_assoc]
      -- the non-blocking waits take the answer after the stop loop's
      show (List.map _ (o s₁.1.1.clock).ready).reverse ++ _ = _
      rw [hclock]
      rfl

/-! ## The detach loops -/

/-- `PTRACE_DETACH`, or a SIGKILL sent by `tgkill`. -/
def Request.detachOrKill : Request → Bool
  | .detach _ => true
  | .tgkill _ sig => sig == sigkill
  | _ => false

/-- `PTRACE_DETACH`, or a SIGSTOP sent by `tgkill`. -/
def Request.detachOrStop : Request → Bool
  | .detach _ => true
  | .tgkill _ sig => sig == sigstop
  | _ => false

/-- The SIGSTOPs and detaches `ptrace_detach_for_migration` sends threads `ts`: the `i`-th
gets `ns[i]` SIGSTOPs before the one that comes right before its detach. -/
def stopThenDetach (ts : List Thread) (ns : List Nat) : List Request :=
  (ts.zip ns).flatMap fun p =>
    List.replicate p.2 (.tgkill p.1.tid sigstop) ++ [.tgkill p.1.tid sigstop, .detach p.1.tid]

section Detach

variable (mem : Memory)

theorem detachForKillOne_sends (k : Kernel) (t : Thread) :
    Kernel.Sends Request.detachOrKill k (detachForKillOne o mem k t).1
      [.detach t.tid, .tgkill t.tid sigkill] := by
  have hg := Kernel.getregs_sends o (p := Request.detachOrKill) mem k t.tid
  have hk : ∀ k₁ : Kernel, Kernel.Sends Request.detachOrKill k₁
      (((k₁.issue o mem (.detach t.tid)).1.issue o mem (.tgkill t.tid sigkill)).1)
      [.detach t.tid, .tgkill t.tid sigkill] := fun k₁ => by
    simpa [Request.detachOrKill] using
      (Kernel.issue_sends o mem k₁ _).trans (Kernel.issue_sends o mem _ (.tgkill t.tid sigkill))
  dsimp only [detachForKillOne]
  split
  · simpa [Request.detachOrKill] using hg.trans (hk _)
  · -- the thread was running: SIGSTOP and a wait first
    have hs : ∀ k₁ : Kernel, Kernel.Sends Request.detachOrKill k₁
        ((k₁.issue o mem (.tgkill t.tid sigstop)).1.waitpid o).1 [] := fun k₁ => by
      simpa [Request.detachOrKill, sigstop, sigkill] using
        (Kernel.issue_sends o mem k₁ (.tgkill t.tid sigstop)).trans (Kernel.waitpid_sends o _)
    simpa [Request.detachOrKill] using hg.trans ((hs _).trans (hk _))

theorem detachForMigrationOne_sends (k : Kernel) (t : Thread) : ∃ n ≤ 1,
    Kernel.Sends Request.detachOrStop k (detachForMigrationOne o mem k t)
      (List.replicate n (.tgkill t.tid sigstop) ++ [.tgkill t.tid sigstop, .detach t.tid]) := by
  have hset : ∀ k₁ : Kernel, Kernel.Sends Request.detachOrStop k₁
      (k₁.setregs o mem t.tid t.regs).1 [] := fun k₁ => by
    simpa [Request.detachOrStop] using Kernel.setregs_sends o mem k₁ t.tid t.regs
  have hk : ∀ k₁ : Kernel, Kernel.Sends Request.detachOrStop k₁
      (((k₁.issue o mem (.tgkill t.tid sigstop)).1.issue o mem (.detach t.tid)).1)
      [.tgkill t.tid sigstop, .detach t.tid] := fun k₁ => by
    simpa [Request.detachOrStop] using
      (Kernel.issue_sends o mem k₁ _).trans (Kernel.issue_sends o mem _ (.detach t.tid))
  dsimp only [detachForMigrationOne]
  split_ifs
  · exact ⟨0, Nat.zero_le _, by simpa using (hset k).trans (hk _)⟩
  · -- the flush failed: SIGSTOP, a wait and the flush again first
    have hs : ∀ k₁ : Kernel, Kernel.Sends Request.detachOrStop k₁
        ((k₁.issue o mem (.tgkill t.tid sigstop)).1.waitpid o).1 [.tgkill t.tid sigstop] :=
      fun k₁ => by
        simpa [Request.detachOrStop] using
          (Kernel.issue_sends o mem k₁ (.tgkill t.tid sigstop)).trans (Kernel.waitpid_sends o _)
    exact ⟨1, le_rfl, by simpa using (hset k).trans ((hs _).trans ((hset _).trans (hk _)))⟩

end Detach

/-- `ptrace_detach_for_kill` detaches every live thread and then kills it, in list order: among
its `PTRACE_DETACH` requests and SIGKILLs, oldest first, each live thread has its detach
followed by its SIGKILL, and nothing else.  It lets no thread run, writes no memory and leaves
the tables alone. -/
theorem detach_for_kill_detaches_then_kills (w : World) (pid : Nat) :
    Kernel.Sends Request.detachOrKill w.kernel (detachForKill o w pid).kernel
      (w.state.tHead.flatMap fun t => [.detach t.tid, .tgkill t.tid sigkill]) ∧
    w.Still (detachForKill o w pid) := by
  refine ⟨?_, detachForKill_still o w pid⟩
  have hloop : ∀ (ts : List Thread) (k : Kernel), Kernel.Sends Request.detachOrKill k
      (walkThreads (detachForKillOne o w.mem) k ts).1
      (ts.flatMap fun t => [.detach t.tid, .tgkill t.tid sigkill]) := by
    intro ts
    induction ts with
    | nil => exact fun _ => .of_log_eq rfl
    | cons t ts ih =>
      intro k
      simpa [walkThreads] using (detachForKillOne_sends o w.mem k t).trans (ih _)
  simpa using (hloop w.state.tHead w.kernel).trans (Kernel.waitpid_sends o _)

/-- `ptrace_detach_for_migration`, and `ptrace_detach_and_cont` which calls it, leave every
live thread stopped for the debugger that takes over: among their SIGSTOPs and `PTRACE_DETACH`
requests, oldest first, each live thread in list order gets a SIGSTOP right before its detach,
after one more SIGSTOP when writing its registers back failed.  `ptrace_reattach_from_gdb`
attaches every live thread once, in list order.  None of them lets a thread run, writes memory
or touches the tables. -/
theorem detach_for_migration_stops_each_thread (w : World) (pid : Nat) :
    (∃ ns : List Nat, ns.length = w.state.tHead.length ∧ (∀ n ∈ ns, n ≤ 1) ∧
      Kernel.Sends Request.detachOrStop w.kernel (detachForMigration o w pid).kernel
        (stopThenDetach w.state.tHead ns) ∧
      Kernel.Sends Request.detachOrStop w.kernel (detachAndCont o w pid).kernel
        (stopThenDetach w.state.tHead ns)) ∧
    Kernel.Issues Request.attached? w.kernel (reattachFromGdb o w pid).kernel
      (w.state.tHead.map (·.tid)) ∧
    w.Still (detachForMigration o w pid) ∧ w.Still (detachAndCont o w pid) ∧
    w.Still (reattachFromGdb o w pid) := by
  refine ⟨?_, reattachFromGdb_issues o w pid, detachForMigration_still o w pid,
    detachAndCont_still o w pid, reattachFromGdb_still o w pid⟩
  have hloop : ∀ (ts : List Thread) (k : Kernel), ∃ ns : List Nat, ns.length = ts.length ∧
      (∀ n ∈ ns, n ≤ 1) ∧ Kernel.Sends Request.detachOrStop k
        (ts.foldl (detachForMigrationOne o w.mem) k) (stopThenDetach ts ns) := by
    intro ts
    induction ts with
    | nil => exact fun _ => ⟨[], rfl, by simp, .of_log_eq rfl⟩
    | cons t ts ih =>
      intro k
      obtain ⟨n, hn, h₁⟩ := detachForMigrationOne_sends o w.mem k t
      obtain ⟨ns, hlen, hns, h₂⟩ := ih (detachForMigrationOne o w.mem k t)
      exact ⟨n :: ns, by simp [hlen], by simpa [hn] using hns,
        by simpa [stopThenDetach] using h₁.trans h₂⟩
  obtain ⟨ns, hlen, hns, h⟩ := hloop w.state.tHead w.kernel
  refine ⟨ns, hlen, hns, h, ?_⟩
  simpa [Request.detachOrStop] using h.trans (Kernel.issue_sends o _ _ (.kill pid sigcont))

end Libdebug
