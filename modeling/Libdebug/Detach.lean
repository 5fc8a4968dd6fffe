import Libdebug.Coordinator

/-!
# Detaching and reattaching

`ptrace_detach_for_kill`, `ptrace_detach_for_migration`, `ptrace_reattach_from_gdb` and
`ptrace_detach_and_cont`.  Each walks the live list from its head ("the main thread must be
detached last"), so the order in which threads are detached or attached is the order of the
list (`detachForKill_issues` and the others).  None of them writes tracee memory.
-/

namespace Libdebug

/-- The thread a `PTRACE_DETACH` is for. -/
def Request.detached? : Request → Option Nat
  | .detach tid => some tid
  | _ => none

/-- The thread a `PTRACE_ATTACH` is for. -/
def Request.attached? : Request → Option Nat
  | .attach tid => some tid
  | _ => none

variable (o : Oracle)

/-- One turn of `ptrace_detach_for_kill`: read the registers (into the cache), and if that fails
stop the thread and wait for it; then detach and kill it. -/
def detachForKillOne (mem : Memory) (k : Kernel) (t : Thread) : Kernel × Thread :=
  let g := k.getregs o mem t.tid
  let k₁ := match g.2 with
    | some _ => g.1
    | none => ((g.1.issue o mem (.tgkill t.tid sigstop)).1.waitpid o).1
  let k₂ := (k₁.issue o mem (.detach t.tid)).1
  ((k₂.issue o mem (.tgkill t.tid sigkill)).1, { t with regs := g.2.getD t.regs })

/-- `ptrace_detach_for_kill`: the loop, then a wait for the process. -/
def detachForKill (w : World) (_pid : Nat) : World :=
  let r := walkThreads (detachForKillOne o w.mem) w.kernel w.state.tHead
  { w with state := { w.state with tHead := r.2 }, kernel := (r.1.waitpid o).1 }

/-- One turn of `ptrace_detach_for_migration`: flush the cache, stopping the thread first if the
flush fails; then SIGSTOP so that it stays put, and detach. -/
def detachForMigrationOne (mem : Memory) (k : Kernel) (t : Thread) : Kernel :=
  let s := k.setregs o mem t.tid t.regs
  let k₁ := if s.2 then s.1
    else ((((s.1.issue o mem (.tgkill t.tid sigstop)).1.waitpid o).1).setregs o mem t.tid t.regs).1
  let k₂ := (k₁.issue o mem (.tgkill t.tid sigstop)).1
  (k₂.issue o mem (.detach t.tid)).1

/-- `ptrace_detach_for_migration`. -/
def detachForMigration (w : World) (_pid : Nat) : World :=
  { w with kernel := w.state.tHead.foldl (detachForMigrationOne o w.mem) w.kernel }

/-- One turn of `ptrace_reattach_from_gdb`: attach, then read the registers into the cache. -/
def reattachFromGdbOne (mem : Memory) (k : Kernel) (t : Thread) : Kernel × Thread :=
  let g := (k.issue o mem (.attach t.tid)).1.getregs o mem t.tid
  (g.1, { t with regs := g.2.getD t.regs })

/-- `ptrace_reattach_from_gdb`. -/
def reattachFromGdb (w : World) (_pid : Nat) : World :=
  let r := walkThreads (reattachFromGdbOne o w.mem) w.kernel w.state.tHead
  { w with state := { w.state with tHead := r.2 }, kernel := r.1 }

/-- `ptrace_detach_and_cont`: detach for migration, then SIGCONT to the process. -/
def detachAndCont (w : World) (pid : Nat) : World :=
  let w₁ := detachForMigration o w pid
  { w₁ with kernel := (w₁.kernel.issue o w₁.mem (.kill pid sigcont)).1 }

/-! ## The order of the loops -/

section Order

variable {sel : Request → Option Nat}

/-- A loop whose turn for `t` picks out exactly one request, about `t`, picks them out in list
order. -/
theorem foldl_issues {step : Kernel → Thread → Kernel}
    (h : ∀ k t, Kernel.Issues sel k (step k t) [t.tid]) (ts : List Thread) (k : Kernel) :
    Kernel.Issues sel k (ts.foldl step k) (ts.map (·.tid)) := by
  induction ts generalizing k with
  | nil => exact ⟨[], rfl, rfl⟩
  | cons t ts ih => simpa using (h k t).trans (ih (step k t))

theorem walkThreads_issues {step : Kernel → Thread → Kernel × Thread}
    (h : ∀ k t, Kernel.Issues sel k (step k t).1 [t.tid]) (ts : List Thread) (k : Kernel) :
    Kernel.Issues sel k (walkThreads step k ts).1 (ts.map (·.tid)) := by
  induction ts generalizing k with
  | nil => exact ⟨[], rfl, rfl⟩
  | cons t ts ih => simpa [walkThreads] using (h k t).trans (ih (step k t).1)

end Order

variable {w : World}

theorem detachForKillOne_issues (mem : Memory) (k : Kernel) (t : Thread) :
    Kernel.Issues Request.detached? k (detachForKillOne o mem k t).1 [t.tid] := by
  have hg : Kernel.Issues Request.detached? k (k.getregs o mem t.tid).1
      (Request.detached? (.getregs t.tid)).toList := Kernel.getregs_issues o t.tid
  have hk : ∀ k₁ : Kernel, Kernel.Issues Request.detached? k₁
      ((((k₁.issue o mem (.detach t.tid)).1).issue o mem (.tgkill t.tid sigkill)).1) [t.tid] :=
    fun _ => (Kernel.issue_issues o _).trans (Kernel.issue_issues o _)
  dsimp only [detachForKillOne]
  split
  · simpa using hg.trans (hk _)
  · simpa using hg.trans ((Kernel.issue_issues o _).trans (Kernel.waitpid_issues o)) |>.trans (hk _)

theorem detachForKill_issues (w : World) (pid : Nat) :
    Kernel.Issues Request.detached? w.kernel (detachForKill o w pid).kernel
      (w.state.tHead.map (·.tid)) := by
  simpa using (walkThreads_issues (detachForKillOne_issues o w.mem) _ _).trans
    (Kernel.waitpid_issues o)

theorem detachForMigrationOne_issues (mem : Memory) (k : Kernel) (t : Thread) :
    Kernel.Issues Request.detached? k (detachForMigrationOne o mem k t) [t.tid] := by
  have hs : Kernel.Issues Request.detached? k (k.setregs o mem t.tid t.regs).1
      (Request.detached? (.setregs t.tid)).toList := Kernel.setregs_issues o t.tid t.regs
  have hk : ∀ k₁ : Kernel, Kernel.Issues Request.detached? k₁
      ((((k₁.issue o mem (.tgkill t.tid sigstop)).1).issue o mem (.detach t.tid)).1) [t.tid] :=
    fun _ => by simpa using (Kernel.issue_issues o _).trans (Kernel.issue_issues o _)
  dsimp only [detachForMigrationOne]
  split_ifs
  · simpa using hs.trans (hk _)
  · simpa using hs.trans ((Kernel.issue_issues o _).trans (Kernel.waitpid_issues o)
      |>.trans (Kernel.setregs_issues o _ _)) |>.trans (hk _)

theorem detachForMigration_issues (w : World) (pid : Nat) :
    Kernel.Issues Request.detached? w.kernel (detachForMigration o w pid).kernel
      (w.state.tHead.map (·.tid)) :=
  foldl_issues (detachForMigrationOne_issues o w.mem) _ _

theorem reattachFromGdb_issues (w : World) (pid : Nat) :
    Kernel.Issues Request.attached? w.kernel (reattachFromGdb o w pid).kernel
      (w.state.tHead.map (·.tid)) :=
  walkThreads_issues (fun k t => (by
    have ha : Kernel.Issues Request.attached? k (k.issue o w.mem (.attach t.tid)).1
        (Request.attached? (.attach t.tid)).toList := Kernel.issue_issues o _
    simpa [Request.attached?] using ha.trans (Kernel.getregs_issues o t.tid) :
      Kernel.Issues Request.attached? k (reattachFromGdbOne o w.mem k t).1 [t.tid])) _ _

/-! ## What they leave alone -/

theorem detachForKill_frame (w : World) (pid : Nat) : w.Frame (detachForKill o w pid) :=
  .of_tHead (walkThreads_tids (fun _ _ => rfl) _ _) _ _

theorem detachForMigration_frame (w : World) (pid : Nat) :
    w.Frame (detachForMigration o w pid) := .of_kernel _ _

theorem detachAndCont_frame (w : World) (pid : Nat) : w.Frame (detachAndCont o w pid) :=
  .of_kernel _ _

theorem reattachFromGdb_frame (w : World) (pid : Nat) : w.Frame (reattachFromGdb o w pid) :=
  .of_tHead (walkThreads_tids (fun _ _ => rfl) _ _) _ _

/-! ## What they send

None of them resumes a thread with a signal, and none touches a signal to forward. -/

section Plain

variable {mem : Memory}

theorem issue_plain {req : Request} (h : req.Plain) (k : Kernel) :
    Kernel.Logs (Event.Plain mem) k (k.issue o mem req).1 :=
  Kernel.issue_logs o fun _ _ => ⟨rfl, h⟩

theorem detachForKillOne_plain (k : Kernel) (t : Thread) :
    Kernel.Logs (Event.Plain mem) k (detachForKillOne o mem k t).1 := by
  have hg : Kernel.Logs (Event.Plain mem) k (k.getregs o mem t.tid).1 :=
    Kernel.getregs_logs o fun _ _ => ⟨rfl, trivial⟩
  have hk : ∀ k' : Kernel, Kernel.Logs (Event.Plain mem) k'
      (((k'.issue o mem (.detach t.tid)).1.issue o mem (.tgkill t.tid sigkill)).1) :=
    fun _ => (issue_plain o (by trivial) _).trans (issue_plain o (by trivial) _)
  dsimp only [detachForKillOne]
  split
  · exact hg.trans (hk _)
  · exact hg.trans ((issue_plain o (by trivial) _).trans (Kernel.waitpid_logs o) |>.trans (hk _))

theorem detachForMigrationOne_plain (k : Kernel) (t : Thread) :
    Kernel.Logs (Event.Plain mem) k (detachForMigrationOne o mem k t) := by
  have hs : ∀ k' : Kernel, Kernel.Logs (Event.Plain mem) k' (k'.setregs o mem t.tid t.regs).1 :=
    fun _ => Kernel.setregs_logs o fun _ _ => ⟨rfl, trivial⟩
  have hk : ∀ k' : Kernel, Kernel.Logs (Event.Plain mem) k'
      (((k'.issue o mem (.tgkill t.tid sigstop)).1.issue o mem (.detach t.tid)).1) :=
    fun _ => (issue_plain o (by trivial) _).trans (issue_plain o (by trivial) _)
  dsimp only [detachForMigrationOne]
  split_ifs
  · exact (hs k).trans (hk _)
  · exact (hs k).trans ((issue_plain o (by trivial) _).trans (Kernel.waitpid_logs o) |>.trans (hs _)
      |>.trans (hk _))

theorem reattachFromGdbOne_plain (k : Kernel) (t : Thread) :
    Kernel.Logs (Event.Plain mem) k (reattachFromGdbOne o mem k t).1 :=
  (issue_plain o (by trivial) _).trans (Kernel.getregs_logs o fun _ _ => ⟨rfl, trivial⟩)

end Plain

theorem detachForKill_still (w : World) (pid : Nat) : w.Still (detachForKill o w pid) :=
  ⟨detachForKill_frame o w pid, rfl,
    (walkThreads_inv (P := fun k => Kernel.Logs (Event.Plain w.mem) w.kernel k)
      (fun _ _ hk => hk.trans (detachForKillOne_plain o _ _)) (.refl _ _) _).trans
      (Kernel.waitpid_logs o),
    walkThreads_map (fun _ _ => rfl) _ _⟩

theorem detachForMigration_still (w : World) (pid : Nat) :
    w.Still (detachForMigration o w pid) :=
  .of_kernel (foldl_inv (fun _ _ h => h.trans (detachForMigrationOne_plain o _ _)) (.refl _ _) _)

theorem reattachFromGdb_still (w : World) (pid : Nat) : w.Still (reattachFromGdb o w pid) :=
  ⟨reattachFromGdb_frame o w pid, rfl,
    walkThreads_inv (P := fun k => Kernel.Logs (Event.Plain w.mem) w.kernel k)
      (fun _ _ hk => hk.trans (reattachFromGdbOne_plain o _ _)) (.refl _ _) _,
    walkThreads_map (fun _ _ => rfl) _ _⟩

theorem detachAndCont_still (w : World) (pid : Nat) : w.Still (detachAndCont o w pid) :=
  (detachForMigration_still o w pid).trans (.of_kernel (issue_plain o (by trivial) _))

end Libdebug
