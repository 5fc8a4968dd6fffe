import Libdebug.StopImage

/-!
# The register caches

Each live thread's `regs` is a cache of the registers the kernel holds for it.
`wait_all_and_update_regs` refreshes every cache (`waitAllAndUpdateRegs_refreshes`), and every
entry point that resumes a thread first writes the caches back: its first requests are one
`setregs` per live thread, in list order, and every resume comes after them
(`flush_before_resume`).

`stepping_finish` does not keep the caches coherent: its `prepare_for_run` single-steps every
thread that sits on a breakpoint, while only the target's cache is refreshed afterwards.  A
sibling thread's cache then still holds the breakpoint address the kernel has moved past, and
the next flush moves the thread back to it (`stepping_finish_leaves_stale_cache`).
-/

namespace Libdebug

variable (o : Oracle)

/-- `getregs` leaves the kernel's registers alone. -/
@[simp] theorem Kernel.getregs_regs (mem : Memory) (k : Kernel) (tid : Nat) :
    (k.getregs o mem tid).1.regs = k.regs := rfl

/-- The update loop of `wait_all_and_update_regs`: when every request succeeds, each cache ends
up with the registers the kernel holds, and the kernel's registers are not touched. -/
theorem refreshRegs_walk (hok : ∀ n, (o n).ok = true) (mem : Memory) (ts : List Thread)
    (k : Kernel) : (walkThreads (refreshRegs o mem) k ts).1.regs = k.regs ∧
      ∀ t ∈ (walkThreads (refreshRegs o mem) k ts).2, t.regs = k.regs t.tid := by
  induction ts generalizing k with
  | nil => simp [walkThreads]
  | cons t ts ih =>
    obtain ⟨hk, hts⟩ := ih (k.getregs o mem t.tid).1
    simp only [Kernel.getregs_regs] at hk hts
    refine ⟨hk, fun u hu => ?_⟩
    simp only [walkThreads, List.mem_cons] at hu
    rcases hu with rfl | hu
    · simp [refreshRegs, Kernel.getregs, hok]
    · exact hts u hu

/-- After `wait_all_and_update_regs` returns a list, when every request succeeded, every live
thread's cache holds the registers the kernel holds for it. -/
theorem waitAllAndUpdateRegs_refreshes (hok : ∀ n, (o n).ok = true) {w w' : World} {pid : Nat}
    {l : List ThreadStatus} (h : waitAllAndUpdateRegs o w pid = (w', some l)) :
    ∀ t ∈ w'.state.tHead, t.regs = w'.kernel.regs t.tid := by
  by_cases hf : (w.kernel.waitpid o).2.tid = -1
  · simp [waitAllAndUpdateRegs, hf] at h
  · simp only [waitAllAndUpdateRegs, hf, if_false, Prod.mk.injEq] at h
    obtain ⟨rfl, -⟩ := h
    simp only [World.restore, stopAndUpdate]
    intro t ht
    rw [(refreshRegs_walk o hok _ _ _).1]
    exact (refreshRegs_walk o hok _ _ _).2 t ht

/-! ## Flush before resume -/

/-- `k₁` is `k` after a flush of `ts`: the requests in between are, oldest first, one `setregs`
per entry in list order, and each that succeeded left the entry's cache in the kernel. -/
def Flushed (ts : List Thread) (k k₁ : Kernel) : Prop :=
  ∃ new, k₁.log = new ++ k.log ∧ new.reverse.map (·.req) = ts.map (fun t => .setregs t.tid) ∧
    ∀ t ∈ ts, ∃ e ∈ new, e.req = .setregs t.tid ∧ (e.ok = true → k₁.regs t.tid = t.regs)

section Flush

variable {mem : Memory} {k : Kernel} {tid : Nat} {regs : Regs}

@[simp] theorem Kernel.setregs_log :
    (k.setregs o mem tid regs).1.log = ⟨.setregs tid, (o k.clock).ok, (k.regs tid).ip, mem⟩ :: k.log := by
  unfold Kernel.setregs; split_ifs <;> rfl

theorem Kernel.setregs_regs :
    (k.setregs o mem tid regs).1.regs =
      if (o k.clock).ok then Function.update k.regs tid regs else k.regs := by
  unfold Kernel.setregs; split_ifs <;> rfl

/-- A flush leaves the kernel's registers of every other thread alone. -/
theorem flushRegs_regs_of_not_mem {ts : List Thread} {u : Nat} (hu : u ∉ ts.map (·.tid)) :
    (flushRegs o mem ts k).regs u = k.regs u := by
  induction ts generalizing k with
  | nil => rfl
  | cons t ts ih =>
    simp only [List.map_cons, List.mem_cons, not_or] at hu
    show (flushRegs o mem ts (k.setregs o mem t.tid t.regs).1).regs u = _
    rw [ih hu.2, Kernel.setregs_regs]
    split_ifs
    · exact Function.update_noteq hu.1 _ _
    · rfl

theorem flushRegs_flushed {ts : List Thread} (hnd : (ts.map (·.tid)).Nodup) (k : Kernel) :
    Flushed ts k (flushRegs o mem ts k) := by
  induction ts generalizing k with
  | nil => exact ⟨[], rfl, rfl, by simp⟩
  | cons t ts ih =>
    simp only [List.map_cons, List.nodup_cons] at hnd
    obtain ⟨new, hlog, hreq, hall⟩ := ih hnd.2 (k.setregs o mem t.tid t.regs).1
    have hflush : flushRegs o mem (t :: ts) k = flushRegs o mem ts (k.setregs o mem t.tid t.regs).1 :=
      rfl
    refine ⟨new ++ [⟨.setregs t.tid, (o k.clock).ok, (k.regs t.tid).ip, mem⟩], ?_, ?_, ?_⟩
    · rw [hflush, hlog, Kernel.setregs_log, List.append_assoc, List.singleton_append]
    · simp [hreq]
    · intro u hu
      rcases List.mem_cons.1 hu with rfl | hu
      · refine ⟨_, List.mem_append_right _ (List.mem_singleton_self _), rfl, fun hok => ?_⟩
        rw [hflush, flushRegs_regs_of_not_mem o hnd.1, Kernel.setregs_regs, if_pos hok,
          Function.update_same]
      · obtain ⟨e, he, hreq, hok⟩ := hall u hu
        exact ⟨e, List.mem_append_left _ he, hreq, fun h => by rw [hflush]; exact hok h⟩

end Flush

theorem prepareForRun_kernel (w : World) (pid : Nat) :
    (prepareForRun o w pid).1.kernel = (flushAndStepOver o w).1 := by
  cases h : (flushAndStepOver o w).2 with
  | none => rw [prepareForRun_of_none o h]
  | some status => rw [prepareForRun_of_some o h]; rfl

/-- Every request `prepare_for_run` makes after its flush comes after it in the log. -/
theorem prepareForRun_after_flush (w : World) (pid : Nat) :
    Kernel.Logs (fun _ => True) (flushRegs o w.mem w.state.tHead w.kernel)
      (prepareForRun o w pid).1.kernel := by
  rw [prepareForRun_kernel]
  exact (stepOvers_logs o _ _ _ _ _).mono fun _ _ => trivial

variable {arch : Arch} {o}

/-- Every entry point that resumes a thread begins with the same flush: its first requests are
one `setregs` per live thread, in list order, each that succeeded leaving the thread's cache in
the kernel, and every other request it makes, each resume included, comes after them.  For the
stepping loops this holds for every fuel, whether or not the loop returned. -/
theorem flush_before_resume {w : World} (hs : w.state.LiveNodup) (pid tid addr : Nat)
    (maxSteps : Int) (fuel : Nat) :
    ∃ k₁, Flushed w.state.tHead w.kernel k₁ ∧
      Kernel.Logs (fun _ => True) k₁ (contAllAndSetBps o w pid).1.kernel ∧
      Kernel.Logs (fun _ => True) k₁ (singlestep o w tid).1.kernel ∧
      Kernel.Logs (fun _ => True) k₁ (stepUntil o w tid addr maxSteps fuel).1.kernel ∧
      Kernel.Logs (fun _ => True) k₁ (steppingFinish o arch w tid fuel).1.kernel := by
  refine ⟨_, @flushRegs_flushed o w.mem _ hs w.kernel, ?_, Kernel.resume_logs o fun _ _ => trivial,
    ?_, (prepareForRun_after_flush o w tid).trans
      ((steppingFinish_logs o arch w tid fuel).mono fun _ _ => trivial)⟩
  · obtain ⟨new, hlog, -⟩ := contAll_log o (prepareForRun o w pid).1.mem
      (prepareForRun o w pid).1.state.handleSyscallEnabled (prepareForRun o w pid).1.state.tHead
      (prepareForRun o w pid).1.kernel
    exact (prepareForRun_after_flush o w pid).trans ⟨new, hlog, fun _ _ => trivial⟩
  · unfold stepUntil
    split
    · exact .refl _ _
    · exact (stepUntilLoop_stays o _ _ _ _ _ _ _).logs.mono fun _ _ => trivial

/-- Threads 1 and 2, both stopped at address 0, where a breakpoint is registered; thread 1 is
at the head of the list. -/
def twoThreadsOnBreakpoint : World :=
  (waitAllAndUpdateRegs Oracle.stopsAtFive (registerBreakpoint Arch.int3
    (registerThread Arch.int3 Oracle.stopsAtFive
      (registerThread Arch.int3 Oracle.stopsAtFive World.empty 2).1 1).1 1 0) 1).1

/-- `stepping_finish` on thread 1 returns 0 with thread 2's cache at the breakpoint address,
while the kernel has it at 5; the flush of the next `singlestep` puts it back at 0. -/
theorem stepping_finish_leaves_stale_cache :
    (steppingFinish Oracle.stopsAtFive Arch.int3 twoThreadsOnBreakpoint 1 2).2 = some 0 ∧
    ((steppingFinish Oracle.stopsAtFive Arch.int3 twoThreadsOnBreakpoint 1 2).1.state.tHead.map
      fun t => (t.tid, t.regs.ip)) = [(1, 5), (2, 0)] ∧
    (steppingFinish Oracle.stopsAtFive Arch.int3 twoThreadsOnBreakpoint 1 2).1.kernel.regs 2 =
      ⟨5, 0⟩ ∧
    (singlestep Oracle.stopsAtFive
      (steppingFinish Oracle.stopsAtFive Arch.int3 twoThreadsOnBreakpoint 1 2).1 1).1.kernel.regs 2 =
      ⟨0, 0⟩ := by
  decide

theorem flush_before_resume_two_threads :
    twoThreadsOnBreakpoint.state.LiveNodup ∧
    ∃ k₁, Flushed twoThreadsOnBreakpoint.state.tHead twoThreadsOnBreakpoint.kernel k₁ ∧
      Kernel.Logs (fun _ => True) k₁
        (contAllAndSetBps Oracle.stopsAtFive twoThreadsOnBreakpoint 1).1.kernel ∧
      Kernel.Logs (fun _ => True) k₁ (singlestep Oracle.stopsAtFive twoThreadsOnBreakpoint 1).1.kernel ∧
      Kernel.Logs (fun _ => True) k₁
        (stepUntil Oracle.stopsAtFive twoThreadsOnBreakpoint 1 5 (-1) 3).1.kernel ∧
      Kernel.Logs (fun _ => True) k₁
        (steppingFinish Oracle.stopsAtFive Arch.int3 twoThreadsOnBreakpoint 1 3).1.kernel :=
  have hs : twoThreadsOnBreakpoint.state.LiveNodup := by unfold GlobalState.LiveNodup; decide
  ⟨hs, @flush_before_resume Oracle.stopsAtFive Arch.int3 _ hs 1 1 5 (-1) 3⟩

end Libdebug
