import Libdebug.StopTheWorld
import Libdebug.Protocol

/-!
# The interleaving model of `wait_all_and_update_regs` against the code model

`StopStep` takes `wait_all_and_update_regs` request by request, with the tracee threads moving
in between; `waitAllAndUpdateRegs` is the same code over an oracle of kernel answers.  Every run
of the first that returns is a run of the second for some oracle: the same SIGSTOPs, oldest
first, and the same status list, each wait event written as whatever status the caller picks
for it (`stop_run_refines_waitAll`).  So what holds of `waitAllAndUpdateRegs` for every oracle
holds of every interleaving.

On the interleaving side, `Shaped` is what every configuration of a run satisfies.  The call
visits the live list in order.  The waits after its SIGSTOPs are, newest first, `loopEvents` of
the visited prefix, where `ev t` is what the wait after thread `t`'s SIGSTOP reported.  Its status
list is the drain's events, then those waits, then the first wait's event.  On the code side, the
stop loop runs over the answers `stopAnswers` lists: one `getregs` answer per thread other than
the first wait's, and two more per SIGSTOP.
-/

namespace Libdebug

/-! ## The waits after the SIGSTOPs -/

section Events

variable (head : Nat) (ev : Nat → Option WaitEvent)

/-- The waits after the SIGSTOPs of a stop loop over `ts`, newest first: `ev t` is what the wait
after thread `t`'s SIGSTOP reported, `none` for a thread whose `getregs` succeeded, and the
thread the first wait reported is skipped. -/
def loopEvents : List Nat → List (Nat × WaitEvent)
  | [] => []
  | t :: ts => loopEvents ts ++ if t = head then [] else (ev t).toList.map (t, ·)

/-- A visit adds the thread's wait in front. -/
theorem loopEvents_append_single (pre : List Nat) (t : Nat) :
    loopEvents head ev (pre ++ [t]) =
      (if t = head then [] else (ev t).toList.map (t, ·)) ++ loopEvents head ev pre := by
  induction pre with
  | nil => simp [loopEvents]
  | cons p pre ih => simp [loopEvents, ih]

variable {head ev}

/-- Only the record of the threads visited counts. -/
theorem loopEvents_congr {ev' : Nat → Option WaitEvent} {pre : List Nat}
    (h : ∀ t ∈ pre, ev t = ev' t) : loopEvents head ev pre = loopEvents head ev' pre := by
  induction pre with
  | nil => rfl
  | cons p pre ih =>
    simp only [loopEvents, h p (List.mem_cons_self _ _),
      ih fun t ht => h t (List.mem_cons_of_mem _ ht)]

/-- Recording a thread not yet visited leaves the waits of the prefix. -/
theorem loopEvents_update {pre : List Nat} {t : Nat} (ht : t ∉ pre) (x : Option WaitEvent) :
    loopEvents head (Function.update ev t x) pre = loopEvents head ev pre :=
  loopEvents_congr fun u hu => Function.update_noteq (fun (h : u = t) => ht (h ▸ hu)) _ _

end Events

/-! ## Every configuration of a run -/

/-- What every configuration of a call over the live ids `tids` looks like.  Before the first
wait nothing is recorded.  After it the call has visited a prefix of `tids`, the waits after its
SIGSTOPs are `loopEvents` of that prefix, and the status list is the drain's events (none before
the drain), those waits, then the first wait's event.  A thread between its failed `getregs` and
its wait is not the one the first wait reported. -/
structure Shaped (tids : List Nat) (c : StopConfig) : Prop where
  start : ∀ ts, c.pc = .firstWait ts → ts = tids ∧ c.statuses = [] ∧ c.consumed = []
  shape : (∀ ts, c.pc ≠ .firstWait ts) → ∃ pre ev e₀ drained, tids = pre ++ c.pc.toVisit ∧
    c.consumed = loopEvents c.head ev pre ∧ c.statuses = drained ++ c.consumed ++ [(c.head, e₀)] ∧
    (drained = [] ∨ c.pc = .draining ∨ c.pc = .done)
  pending : ∀ t ts, c.pc = .killing t ts ∨ c.pc = .waiting t ts → t ≠ c.head

namespace Shaped

variable {tids : List Nat} {c : StopConfig}

/-- A step of the call that keeps the threads to visit and the records: the failed `getregs`,
the `tgkill`, the end of the loop and the end of the drain. -/
theorem of_pc (h : Shaped tids c) (hw : ∀ ts, c.pc ≠ .firstWait ts) {pc : StopPc}
    (hv : pc.toVisit = c.pc.toVisit) (hw' : ∀ ts, pc ≠ .firstWait ts)
    (hdr : c.pc = .draining ∨ c.pc = .done → pc = .draining ∨ pc = .done)
    (hp : ∀ t ts, pc = .killing t ts ∨ pc = .waiting t ts → t ≠ c.head) (procs : Nat → Tracee) :
    Shaped tids { c with pc := pc, procs := procs } where
  start ts hpc := absurd hpc (hw' ts)
  shape _ := by
    obtain ⟨pre, ev, e₀, drained, htids, hcons, hstat, hd⟩ := h.shape hw
    exact ⟨pre, ev, e₀, drained, by rw [hv]; exact htids, hcons, hstat, hd.imp_right hdr⟩
  pending := hp

/-- A visit of `t`, the next thread of the loop: the skip of the first wait's thread, a
successful `getregs`, or the wait after a SIGSTOP, which records what it reported. -/
theorem visit (hn : tids.Nodup) (h : Shaped tids c) {t : Nat} {ts : List Nat}
    (hv : c.pc.toVisit = t :: ts) (hw : ∀ ts, c.pc ≠ .firstWait ts)
    (hdr : c.pc ≠ .draining ∧ c.pc ≠ .done) (x : Option WaitEvent)
    (new : List (Nat × WaitEvent)) (hnew : new = if t = c.head then [] else x.toList.map (t, ·))
    (procs : Nat → Tracee) :
    Shaped tids ⟨.loop ts, procs, c.head, new ++ c.statuses, new ++ c.consumed⟩ where
  start ts hpc := nomatch hpc
  shape _ := by
    obtain ⟨pre, ev, e₀, drained, htids, hcons, hstat, hd⟩ := h.shape hw
    obtain rfl : drained = [] := hd.resolve_right fun h' => h'.elim hdr.1 hdr.2
    rw [hv] at htids
    have ht : t ∉ pre := fun ht => (List.nodup_append.1 (htids ▸ hn)).2.2 ht
      (List.mem_cons_self _ _)
    refine ⟨pre ++ [t], Function.update ev t x, e₀, [], by simp [htids, StopPc.toVisit], ?_, ?_,
      .inl rfl⟩
    · rw [loopEvents_append_single, Function.update_same, loopEvents_update ht, ← hcons, hnew]
    · simp [hstat]
  pending _ _ hpc := by rcases hpc with hpc | hpc <;> exact nomatch hpc

/-- A wait of the drain puts its event in front of the status list. -/
theorem drain (h : Shaped tids c) (hpc : c.pc = .draining) (p : Nat × WaitEvent)
    (procs : Nat → Tracee) : Shaped tids { c with procs := procs, statuses := p :: c.statuses } where
  start ts hpc' := absurd (hpc.symm.trans hpc') (by simp)
  shape _ := by
    obtain ⟨pre, ev, e₀, drained, htids, hcons, hstat, -⟩ := h.shape (by simp [hpc])
    exact ⟨pre, ev, e₀, p :: drained, htids, hcons, by rw [hstat]; rfl, .inr (.inl hpc)⟩
  pending t ts hpc' := by rw [hpc] at hpc'; rcases hpc' with hpc' | hpc' <;> exact nomatch hpc'

end Shaped

theorem shaped_start (procs : Nat → Tracee) (tids : List Nat) :
    Shaped tids (StopConfig.start procs tids) where
  start ts hpc := ⟨(StopPc.firstWait.inj hpc).symm, rfl, rfl⟩
  shape hw := absurd rfl (hw tids)
  pending _ _ hpc := by rcases hpc with hpc | hpc <;> exact nomatch hpc

/-- Every step of the process or of the call keeps the shape, over distinct live ids. -/
theorem shaped_step {tids : List Nat} (hn : tids.Nodup) {c c' : StopConfig} (h : Shaped tids c)
    (hs : StopStep c c') : Shaped tids c' := by
  cases hs with
  | move => exact ⟨h.start, h.shape, h.pending⟩
  | firstWait hpc he =>
    rename_i e
    obtain ⟨rfl, hst, hcons⟩ := h.start _ hpc
    refine ⟨fun _ h' => (nomatch h'), fun _ => ⟨[], fun _ => none, e, [], rfl, hcons, ?_, .inl rfl⟩,
      fun _ _ h' => by rcases h' with h' | h' <;> exact nomatch h'⟩
    simp [hcons]
  | skipFirst hpc =>
    exact h.visit hn (by rw [hpc]; rfl) (by simp [hpc]) (by simp [hpc]) none [] (by simp) c.procs
  | readable hpc ht =>
    exact h.visit hn (by rw [hpc]; rfl) (by simp [hpc]) (by simp [hpc]) none [] (by simp) c.procs
  | unreadable hpc ht =>
    exact h.of_pc (by simp [hpc]) (by rw [hpc]; rfl) (by simp) (by simp [hpc])
      (fun t' ts' h' => by
        rcases h' with h' | h'
        · obtain ⟨rfl, rfl⟩ := StopPc.killing.inj h'; exact ht
        · exact nomatch h') c.procs
  | tgkill hpc =>
    exact h.of_pc (by simp [hpc]) (by rw [hpc]; rfl) (by simp) (by simp [hpc])
      (fun t' ts' h' => by
        rcases h' with h' | h'
        · exact nomatch h'
        · obtain ⟨rfl, rfl⟩ := StopPc.waiting.inj h'; exact h.pending _ _ (.inl hpc)) _
  | waitpid hpc he =>
    rename_i t _ e
    exact h.visit hn (by rw [hpc]; rfl) (by simp [hpc]) (by simp [hpc]) (some e) [(t, e)]
      (by simp [h.pending _ _ (.inr hpc)]) _
  | loopDone hpc =>
    exact h.of_pc (by simp [hpc]) (by rw [hpc]; rfl) (by simp) (fun _ => .inl rfl)
      (fun _ _ h' => by rcases h' with h' | h' <;> exact nomatch h') c.procs
  | drain hpc he => exact h.drain hpc _ _
  | drained hpc =>
    exact h.of_pc (by simp [hpc]) (by rw [hpc]; rfl) (by simp) (fun _ => .inr rfl)
      (fun _ _ h' => by rcases h' with h' | h' <;> exact nomatch h') c.procs

theorem shaped_run {tids : List Nat} (hn : tids.Nodup) {c₀ c : StopConfig}
    (h₀ : Shaped tids c₀) (hr : StopRun c₀ c) : Shaped tids c := by
  induction hr with
  | refl => exact h₀
  | tail _ hs ih => exact shaped_step hn ih hs

/-- When the call returns, it has visited every live id. -/
theorem Shaped.done {tids : List Nat} {c : StopConfig} (h : Shaped tids c) (hd : c.pc = .done) :
    ∃ ev e₀ drained, c.consumed = loopEvents c.head ev tids ∧
      c.statuses = drained ++ c.consumed ++ [(c.head, e₀)] := by
  obtain ⟨pre, ev, e₀, drained, htids, hcons, hstat, -⟩ := h.shape (by simp [hd])
  rw [hd, StopPc.toVisit, List.append_nil] at htids
  exact ⟨ev, e₀, drained, htids ▸ hcons, hstat⟩

/-! ## The code's answers -/

/-- Answers listed from clock `c` on. -/
def Answers (o : Oracle) (c : Nat) (l : List Reply) : Prop :=
  ∀ j (r : Reply), l[j]? = some r → o (c + j) = r

/-- Past a segment of the answers, the rest are listed from its end. -/
theorem Answers.drop {o : Oracle} {c : Nat} {seg rest : List Reply}
    (h : Answers o c (seg ++ rest)) : Answers o (c + seg.length) rest := fun j r hj => by
  rw [Nat.add_assoc]
  exact h _ r (by rw [List.getElem?_append_right (by omega), Nat.add_sub_cancel_left]; exact hj)

/-- The answer at position `j` of the list. -/
theorem Answers.get {o : Oracle} {c : Nat} {l : List Reply} (h : Answers o c l) {j : Nat}
    (hj : j < l.length) : o (c + j) = l[j] :=
  h j _ (List.getElem?_eq_getElem hj)

/-- A prefix of the answers is listed from the same clock. -/
theorem Answers.left {o : Oracle} {c : Nat} {l₁ l₂ : List Reply} (h : Answers o c (l₁ ++ l₂)) :
    Answers o c l₁ := fun j r hj =>
  h j r (by rw [List.getElem?_append_left (List.getElem?_eq_some_iff.1 hj).1]; exact hj)

section Answers

variable (head : Nat) (ev : Nat → Option WaitEvent) (enc : WaitEvent → Int)

/-- The answers under which the stop loop over `ts` meets each thread as `ev` says: none for the
thread the first wait reported, a `getregs` that succeeds for a thread with no wait, and for a
thread with event `e` a `getregs` that fails, the `tgkill`, and the wait reporting `e`. -/
def stopAnswers : List Nat → List Reply
  | [] => []
  | t :: ts =>
    (if t = head then []
      else match ev t with
        | none => [⟨true, default, 0, 0, []⟩]
        | some e => [⟨false, default, 0, 0, []⟩, ⟨true, default, 0, 0, []⟩,
            ⟨true, default, t, enc e, []⟩]) ++ stopAnswers ts

/-- A wait event as the status word `enc` gives it. -/
def toStatus (p : Nat × WaitEvent) : ThreadStatus := ⟨p.1, enc p.2⟩

variable (o : Oracle) (mem : Memory)

/-- Under those answers the stop loop pushes the waits `loopEvents` lists, takes one answer per
entry of `stopAnswers`, and sends the SIGSTOPs of those waits, oldest first. -/
theorem stopLoop_answers : ∀ (ts : List Thread) (k : Kernel) (st : List ThreadStatus),
    Answers o k.clock (stopAnswers head ev enc (ts.map (·.tid))) →
    (walkThreads (stopThread o mem head) (k, st) ts).1.2 =
        (loopEvents head ev (ts.map (·.tid))).map (toStatus enc) ++ st ∧
      (walkThreads (stopThread o mem head) (k, st) ts).1.1.clock =
        k.clock + (stopAnswers head ev enc (ts.map (·.tid))).length ∧
      Kernel.Issues Request.stopped? k (walkThreads (stopThread o mem head) (k, st) ts).1.1
        ((loopEvents head ev (ts.map (·.tid))).map Prod.fst).reverse
  | [], k, st, _ => ⟨rfl, rfl, ⟨[], rfl, rfl⟩⟩
  | t :: ts, k, st, ho => by
    simp only [walkThreads, List.map_cons, stopAnswers, loopEvents] at ho ⊢
    by_cases hh : t.tid = head
    · have hstay : stopThread o mem head (k, st) t = ((k, st), t) := by simp [stopThread, hh]
      simp only [hh, if_true, List.nil_append, List.append_nil] at ho ⊢
      rw [hstay]
      exact stopLoop_answers ts k st ho
    · have hne : ((t.tid : Int) ≠ head) := by exact_mod_cast hh
      simp only [hh, if_false] at ho ⊢
      cases hev : ev t.tid with
      | none =>
        simp only [hev] at ho
        have hok : (o k.clock).ok = true := by rw [← Nat.add_zero k.clock, ho.get (by simp)]; rfl
        have hstop : (stopThread o mem head (k, st) t).1 = ((k.getregs o mem t.tid).1, st) := by
          simp [stopThread, hne, Kernel.getregs, hok]
        obtain ⟨h₁, h₂, h₃⟩ := stopLoop_answers ts (k.getregs o mem t.tid).1 st ho.drop
        rw [hstop]
        have hk : (k.getregs o mem t.tid).1.clock = k.clock + 1 := rfl
        refine ⟨by simpa using h₁, ?_, by simpa using (Kernel.getregs_issues o t.tid).trans h₃⟩
        rw [h₂, hk, List.length_append, List.length_singleton]
        omega
      | some e =>
        simp only [hev] at ho
        have hfail : (o k.clock).ok = false := by rw [← Nat.add_zero k.clock, ho.get (by simp)]; rfl
        set r := ((k.getregs o mem t.tid).1.issue o mem (.tgkill t.tid sigstop)).1.waitpid o
        have hstop : (stopThread o mem head (k, st) t).1 = (r.1, ⟨r.2.tid, r.2.status⟩ :: st) := by
          simp [stopThread, hne, Kernel.getregs, hfail, r]
        have hr : r.2 = ⟨true, default, t.tid, enc e, []⟩ := ho.get (j := 2) (by simp)
        have hk : r.1.clock = k.clock + 3 := rfl
        obtain ⟨h₁, h₂, h₃⟩ := stopLoop_answers ts r.1 _ ho.drop
        have hkill : Kernel.Issues Request.stopped? k r.1 [t.tid] := by
          simpa [Request.stopped?] using (Kernel.getregs_issues o t.tid).trans
            ((Kernel.issue_issues o (Request.tgkill t.tid sigstop)).trans (Kernel.waitpid_issues o))
        rw [hstop]
        refine ⟨by rw [h₁, hr]; simp [toStatus], ?_, by simpa using hkill.trans h₃⟩
        rw [h₂, hk, List.length_append]
        simp only [List.length_cons, List.length_nil]
        omega

end Answers

/-- Every interleaving of the tracee threads with `wait_all_and_update_regs`, over distinct live
ids, that returns is a run of `waitAllAndUpdateRegs` for some oracle: the code returns the run's
status list, each event written by `enc`, and sends SIGSTOP to the threads whose waits the run
took after a SIGSTOP, oldest first, and to no other. -/
theorem stop_run_refines_waitAll {procs : Nat → Tracee} {tids : List Nat} {c : StopConfig}
    (hn : tids.Nodup) (hr : StopRun (StopConfig.start procs tids) c) (hd : c.pc = .done)
    (enc : WaitEvent → Int) {w : World} (hw : w.state.tHead.map (·.tid) = tids) (pid : Nat) :
    ∃ o : Oracle, (waitAllAndUpdateRegs o w pid).2 = some (c.statuses.map (toStatus enc)) ∧
      Kernel.Issues Request.stopped? w.kernel (waitAllAndUpdateRegs o w pid).1.kernel
        (c.consumed.map Prod.fst).reverse := by
  obtain ⟨ev, e₀, drained, hcons, hstat⟩ := (shaped_run hn (shaped_start procs tids) hr).done hd
  -- the first wait reports the run's first thread, the stop loop meets each thread as the run
  -- did, and one answer of the drain lists the drain's events, oldest first
  set first : Reply := ⟨true, default, c.head, enc e₀, []⟩
  set drain : Reply := ⟨true, default, 0, 0, drained.reverse.map fun p => ((p.1 : Int), enc p.2)⟩
  set sa := stopAnswers c.head ev enc tids
  set o : Oracle := fun n => ((first :: (sa ++ [drain]))[n - w.kernel.clock]?).getD drain
  have ho : Answers o w.kernel.clock ([first] ++ sa ++ [drain]) := fun j r hj => by
    simp only [o, Nat.add_sub_cancel_left, List.singleton_append, List.cons_append,
      List.nil_append] at hj ⊢
    rw [hj]; rfl
  have hfirst : o w.kernel.clock = first := by simpa using ho.get (j := 0) (by simp)
  have hdrain : o ((w.kernel.waitpid o).1.clock + sa.length) = drain := by
    simpa [Kernel.waitpid, Nat.add_assoc, Nat.add_comm 1] using ho.drop.get (j := 0) (by simp)
  refine ⟨o, ?_⟩
  have h₀ : (w.kernel.waitpid o).2.tid ≠ -1 := by
    show (o w.kernel.clock).tid ≠ -1
    rw [hfirst]
    exact (by omega : (c.head : Int) ≠ -1)
  simp only [waitAllAndUpdateRegs, h₀, if_false]
  show some (stopAndUpdate o _ (o w.kernel.clock)).2 = _ ∧
    Kernel.Issues _ _ (stopAndUpdate o _ (o w.kernel.clock)).1.kernel _
  rw [hfirst]
  obtain ⟨h₁, h₂, h₃⟩ := stopLoop_answers c.head ev enc o w.mem w.state.tHead (w.kernel.waitpid o).1
    [⟨c.head, enc e₀⟩] (by rw [hw]; exact ho.left.drop)
  rw [hw] at h₁ h₂ h₃
  set s₁ := walkThreads (stopThread o w.mem c.head) ((w.kernel.waitpid o).1, [⟨c.head, enc e₀⟩])
    w.state.tHead
  refine ⟨?_, ?_⟩
  · show some ((s₁.1.1.waitpid o).2.ready.foldl _ s₁.1.2) = _
    rw [foldl_push, h₁]
    show some ((List.map _ (o s₁.1.1.clock).ready).reverse ++ _) = _
    rw [h₂, hdrain, hstat, hcons]
    simp [drain, toStatus, List.map_reverse]
  · simpa [hcons] using ((Kernel.waitpid_issues o).trans h₃).trans
      ((Kernel.waitpid_issues o).trans (refreshLoop_stops o w.mem s₁.2 _))

/-- Threads 2 then 1 registered with the registers the kernel holds: the live list is `[1, 2]`. -/
def liveOneTwo : World :=
  (registerThread Arch.int3 Oracle.accepting
    (registerThread Arch.int3 Oracle.accepting World.empty 2).1 1).1

/-- The race of `race_run`, where thread 2's SIGSTOP is not the stop its wait reports, is a run of
the code over threads 1 and 2: one SIGSTOP, to thread 2, and both threads' stops returned. -/
theorem stop_run_refines_waitAll_race :
    ∃ o : Oracle, (waitAllAndUpdateRegs o liveOneTwo 1).2 = some [⟨2, 0⟩, ⟨1, 0⟩] ∧
      Kernel.Issues Request.stopped? liveOneTwo.kernel (waitAllAndUpdateRegs o liveOneTwo 1).1.kernel
        [2] := by
  obtain ⟨c, hr, hd, -, hc, hs⟩ := race_run
  obtain ⟨o, h₁, h₂⟩ :=
    stop_run_refines_waitAll (by decide) hr hd (fun _ => 0) (w := liveOneTwo) rfl 1
  rw [hs] at h₁
  rw [hc] at h₂
  exact ⟨o, h₁, h₂⟩

end Libdebug
