import Mathlib.Logic.Relation
import Mathlib.Logic.Function.Basic

/-!
# Stopping the world, over every interleaving

The session model hears the kernel through an oracle, so it cannot say what a thread does while
`wait_all_and_update_regs` is busy with the others.  This module makes the tracee threads
explicit: each runs, stops on its own (a breakpoint, a single step, another signal), exits, or
takes a pending SIGSTOP, at any moment while it runs (`Tracee.Moves`).  `PTRACE_GETREGS`
succeeds on a stopped thread only, `tgkill` makes SIGSTOP pending, and a wait reports one stop or
exit that no wait has reported yet.  The call is its requests in source order (`StopStep`), and
a run is any interleaving of the two (`StopRun`).

Between the failed `getregs` of a thread and its `tgkill` the thread may stop on its own.  Its
`waitpid` then reports that stop, and the SIGSTOP stays pending to the end of the call
(`sigstop_left_pending`); it stops the thread as soon as the thread is let run again.
`StopInv` pins the race down: once the wait after a SIGSTOP has reported, the thread is frozen
in `afterReport` of what it reported, and SIGSTOP is pending, when the call returns, for exactly
the threads whose wait reported a stop of their own (`sigstop_pending_iff_own_stop`).

The call does stop the world: the loop passes a thread only once it is halted, and no step lets
a halted thread run, so when the call returns every thread of the list it started with is
stopped or gone (`wait_stops_every_thread`).
-/

namespace Libdebug

/-- How the kernel sees a tracee thread: running, stopped by SIGSTOP or on its own and whether
a wait reported the stop, or exited and whether a wait reported it. -/
inductive TraceeRun where
  | running
  | stopped (bySigstop reported : Bool)
  | exited (reported : Bool)
  deriving DecidableEq, Repr

/-- A tracee thread: how it runs, and whether SIGSTOP is pending for it. -/
structure Tracee where
  run : TraceeRun
  sigstopPending : Bool
  deriving DecidableEq, Repr

/-- What a wait reports about a thread. -/
inductive WaitEvent where
  | ownStop
  | sigstopStop
  | exit
  deriving DecidableEq, Repr

namespace Tracee

/-- A thread's moves of its own, at any moment while it runs: it stops, it exits (and its
pending signals go with it), or it takes the pending SIGSTOP. -/
inductive Moves : Tracee → Tracee → Prop
  | stop (p : Bool) : Moves ⟨.running, p⟩ ⟨.stopped false false, p⟩
  | exit (p : Bool) : Moves ⟨.running, p⟩ ⟨.exited false, false⟩
  | sigstop : Moves ⟨.running, true⟩ ⟨.stopped true false, false⟩

/-- `PTRACE_GETREGS` succeeds on a stopped thread only. -/
def readable : Tracee → Bool
  | ⟨.stopped .., _⟩ => true
  | _ => false

/-- `tgkill(pid, tid, SIGSTOP)`: SIGSTOP becomes pending, unless the thread is gone. -/
def tgkill : Tracee → Tracee
  | ⟨.exited r, p⟩ => ⟨.exited r, p⟩
  | ⟨run, _⟩ => ⟨run, true⟩

/-- `PTRACE_CONT`: the thread runs again, its pending signals still pending. -/
def resume (x : Tracee) : Tracee := { x with run := .running }

/-- The event a wait for this thread reports, if there is one no wait has reported. -/
def report? : Tracee → Option WaitEvent
  | ⟨.stopped b false, _⟩ => some (if b then .sigstopStop else .ownStop)
  | ⟨.exited false, _⟩ => some .exit
  | _ => none

/-- The thread once a wait has reported it. -/
def reported : Tracee → Tracee
  | ⟨.stopped b _, p⟩ => ⟨.stopped b true, p⟩
  | ⟨.exited _, p⟩ => ⟨.exited true, p⟩
  | x => x

end Tracee

/-- Where `wait_all_and_update_regs` is: before its first wait (with the live list), in the stop
loop over the threads still to visit, between the failed `getregs` of `t` and its `tgkill`,
between that `tgkill` and the `waitpid` for `t`, in the non-blocking waits, or returned.  The
final `getregs` loop changes no thread and is left out. -/
inductive StopPc where
  | firstWait (tids : List Nat)
  | loop (ts : List Nat)
  | killing (t : Nat) (ts : List Nat)
  | waiting (t : Nat) (ts : List Nat)
  | draining
  | done
  deriving DecidableEq, Repr

/-- The call and the process.  `head` is the thread the first wait reported, `statuses` the
list the call returns, newest first, and `consumed` records, for each thread the call sent
SIGSTOP, what the wait after it reported. -/
structure StopConfig where
  pc : StopPc
  procs : Nat → Tracee
  head : Nat
  statuses : List (Nat × WaitEvent)
  consumed : List (Nat × WaitEvent)

/-- A call about to make its first wait, over the live list `tids`. -/
def StopConfig.start (procs : Nat → Tracee) (tids : List Nat) : StopConfig :=
  ⟨.firstWait tids, procs, 0, [], []⟩

/-- One step of the process or of `wait_all_and_update_regs`.  A running thread moves; or the
call makes its next request: the blocking wait for any thread, in the loop the skip of the
thread the first wait reported, a `getregs` that succeeds or fails, the `tgkill` after a failed
one and the blocking `waitpid` for that thread, then the non-blocking waits until one finds
nothing. -/
inductive StopStep : StopConfig → StopConfig → Prop
  | move {c : StopConfig} {t : Nat} {x : Tracee} (h : (c.procs t).Moves x) :
      StopStep c { c with procs := Function.update c.procs t x }
  | firstWait {c : StopConfig} {tids : List Nat} {t : Nat} {e : WaitEvent}
      (hpc : c.pc = .firstWait tids) (he : (c.procs t).report? = some e) :
      StopStep c { c with
        pc := .loop tids
        procs := Function.update c.procs t (c.procs t).reported
        head := t
        statuses := [(t, e)] }
  | skipFirst {c : StopConfig} {ts : List Nat} (hpc : c.pc = .loop (c.head :: ts)) :
      StopStep c { c with pc := .loop ts }
  | readable {c : StopConfig} {t : Nat} {ts : List Nat} (hpc : c.pc = .loop (t :: ts))
      (ht : t ≠ c.head) (hr : (c.procs t).readable = true) :
      StopStep c { c with pc := .loop ts }
  | unreadable {c : StopConfig} {t : Nat} {ts : List Nat} (hpc : c.pc = .loop (t :: ts))
      (ht : t ≠ c.head) (hr : (c.procs t).readable = false) :
      StopStep c { c with pc := .killing t ts }
  | tgkill {c : StopConfig} {t : Nat} {ts : List Nat} (hpc : c.pc = .killing t ts) :
      StopStep c { c with
        pc := .waiting t ts
        procs := Function.update c.procs t (c.procs t).tgkill }
  | waitpid {c : StopConfig} {t : Nat} {ts : List Nat} {e : WaitEvent}
      (hpc : c.pc = .waiting t ts) (he : (c.procs t).report? = some e) :
      StopStep c { c with
        pc := .loop ts
        procs := Function.update c.procs t (c.procs t).reported
        statuses := (t, e) :: c.statuses
        consumed := (t, e) :: c.consumed }
  | loopDone {c : StopConfig} (hpc : c.pc = .loop []) : StopStep c { c with pc := .draining }
  | drain {c : StopConfig} {t : Nat} {e : WaitEvent} (hpc : c.pc = .draining)
      (he : (c.procs t).report? = some e) :
      StopStep c { c with
        procs := Function.update c.procs t (c.procs t).reported
        statuses := (t, e) :: c.statuses }
  | drained {c : StopConfig} (hpc : c.pc = .draining) (hn : ∀ t, (c.procs t).report? = none) :
      StopStep c { c with pc := .done }

/-- The configurations an interleaving reaches. -/
def StopRun : StopConfig → StopConfig → Prop := Relation.ReflTransGen StopStep

/-! ## The thread a SIGSTOP is for -/

/-- The thread once the wait after its SIGSTOP reported `e`. -/
def afterReport : WaitEvent → Tracee
  | .ownStop => ⟨.stopped false true, true⟩
  | .sigstopStop => ⟨.stopped true true, false⟩
  | .exit => ⟨.exited true, false⟩

namespace Tracee

/-- Between the failed `getregs` and the `tgkill`: running, stopped on its own since, or gone,
with no SIGSTOP pending. -/
def Unsignalled : Tracee → Prop
  | ⟨.running, p⟩ | ⟨.stopped false false, p⟩ | ⟨.exited _, p⟩ => p = false
  | _ => False

/-- Between the `tgkill` and the `waitpid`: SIGSTOP pending while the thread runs or sits in a
stop of its own, taken by a SIGSTOP stop, dropped by an exit. -/
def Signalled : Tracee → Prop
  | ⟨.running, p⟩ | ⟨.stopped false false, p⟩ => p = true
  | ⟨.stopped true false, p⟩ | ⟨.exited _, p⟩ => p = false
  | _ => False

variable {x y : Tracee}

theorem Moves.run_eq (h : x.Moves y) : x.run = .running := by cases h <;> rfl

theorem Moves.pending (h : x.Moves y) (hy : y.sigstopPending = true) :
    x.sigstopPending = true := by
  cases h <;> simp_all

theorem Moves.unsignalled (h : x.Moves y) (hx : x.Unsignalled) : y.Unsignalled := by
  cases h <;> simp_all [Unsignalled]

theorem Moves.signalled (h : x.Moves y) (hx : x.Signalled) : y.Signalled := by
  cases h <;> simp_all [Signalled]

theorem Unsignalled.tgkill (hx : x.Unsignalled) : x.tgkill.Signalled := by
  rcases x with ⟨_ | ⟨_ | _, _ | _⟩ | _, _⟩ <;> simp_all [Unsignalled, Signalled, Tracee.tgkill]

/-- A thread whose SIGSTOP wait has reported is not waiting to be reported again. -/
theorem report?_afterReport (e : WaitEvent) : (afterReport e).report? = none := by
  cases e <;> rfl

/-- A thread whose SIGSTOP wait has reported does not run. -/
theorem afterReport_run_ne (e : WaitEvent) : (afterReport e).run ≠ .running := by
  cases e <;> simp [afterReport]

/-- The wait after the SIGSTOP leaves the thread in `afterReport` of what it reported. -/
theorem Signalled.reported_eq {e : WaitEvent} (hx : x.Signalled) (he : x.report? = some e) :
    x.reported = afterReport e := by
  cases e <;> rcases x with ⟨_ | ⟨_ | _, _ | _⟩ | _ | _, _ | _⟩ <;>
    simp_all [Signalled, report?, reported, afterReport]

theorem reported_sigstopPending (x : Tracee) : x.reported.sigstopPending = x.sigstopPending := by
  rcases x with ⟨_ | _ | _, _⟩ <;> rfl

/-- Stopped or exited. -/
def Halted (x : Tracee) : Prop := x.run ≠ .running

instance (x : Tracee) : Decidable x.Halted := inferInstanceAs (Decidable (_ ≠ _))

theorem Halted.reported (h : x.Halted) : x.reported.Halted := by
  rcases x with ⟨_ | _ | _, _⟩ <;> simp_all [Halted, Tracee.reported]

theorem Halted.tgkill (h : x.Halted) : x.tgkill.Halted := by
  rcases x with ⟨_ | _ | _, _⟩ <;> simp_all [Halted, Tracee.tgkill]

/-- A thread a wait has just reported is halted. -/
theorem halted_reported {e : WaitEvent} (he : x.report? = some e) : x.reported.Halted := by
  rcases x with ⟨_ | _ | _, _⟩ <;> simp_all [Halted, Tracee.reported, report?]

/-- A thread whose registers can be read is halted. -/
theorem halted_of_readable (h : x.readable = true) : x.Halted := by
  rcases x with ⟨_ | _ | _, _⟩ <;> simp_all [Halted, readable]

/-- An unreadable thread with no SIGSTOP pending is where the `tgkill` expects it. -/
theorem unsignalled_of_unreadable (hr : x.readable = false) (hp : x.sigstopPending = false) :
    x.Unsignalled := by
  rcases x with ⟨_ | _ | _, _⟩ <;> simp_all [readable, Unsignalled]

/-- Of the threads a SIGSTOP wait has reported, only an exited one is unreadable, and `tgkill`
leaves it alone. -/
theorem tgkill_afterReport {e : WaitEvent} (h : (afterReport e).Unsignalled) :
    (afterReport e).tgkill = afterReport e := by
  cases e <;> simp_all [afterReport, Unsignalled, Tracee.tgkill]

end Tracee

/-- What every configuration of a run from a start with no SIGSTOP pending satisfies. -/
structure StopInv (c : StopConfig) : Prop where
  consumed : ∀ p ∈ c.consumed, c.procs p.1 = afterReport p.2
  pending : ∀ t, (c.procs t).sigstopPending = true →
    (t, .ownStop) ∈ c.consumed ∨ ∃ ts, c.pc = .waiting t ts
  killing : ∀ t ts, c.pc = .killing t ts → (c.procs t).Unsignalled
  waiting : ∀ t ts, c.pc = .waiting t ts → (c.procs t).Signalled

namespace StopInv

variable {c : StopConfig}

theorem not_consumed_of_report (h : StopInv c) {t : Nat} {e : WaitEvent}
    (he : (c.procs t).report? = some e) : ∀ p ∈ c.consumed, p.1 ≠ t := fun p hp hpt => by
  rw [← hpt, h.consumed p hp, Tracee.report?_afterReport] at he
  cases he

/-- A step of the call that only moves its program counter, away from a `waitpid`, keeps the
invariant. -/
theorem of_pc (h : StopInv c) (hw : ∀ t ts, c.pc ≠ .waiting t ts) {pc : StopPc}
    (hk : ∀ t ts, pc ≠ .killing t ts) (hw' : ∀ t ts, pc ≠ .waiting t ts) :
    StopInv { c with pc := pc } where
  consumed := h.consumed
  pending t ht := .inl ((h.pending t ht).resolve_right fun ⟨ts, hts⟩ => hw t ts hts)
  killing t ts hpc := absurd hpc (hk t ts)
  waiting t ts hpc := absurd hpc (hw' t ts)

/-- A reported thread that no SIGSTOP wait consumed keeps the invariant. -/
theorem of_reported (h : StopInv c) (hw : ∀ t ts, c.pc ≠ .waiting t ts) {t : Nat} {e : WaitEvent}
    (he : (c.procs t).report? = some e) {pc : StopPc} (hk : ∀ t ts, pc ≠ .killing t ts)
    (hw' : ∀ t ts, pc ≠ .waiting t ts) (statuses : List (Nat × WaitEvent)) (head : Nat) :
    StopInv { c with
      pc := pc
      procs := Function.update c.procs t (c.procs t).reported
      statuses := statuses
      head := head } where
  consumed p hp := by
    dsimp only at hp ⊢
    rw [Function.update_noteq (h.not_consumed_of_report he p hp)]
    exact h.consumed p hp
  pending u hu := by
    dsimp only at hu ⊢
    refine .inl ((h.pending u ?_).resolve_right fun ⟨ts, hts⟩ => hw u ts hts)
    rcases eq_or_ne u t with rfl | hut
    · rwa [Function.update_same, Tracee.reported_sigstopPending] at hu
    · rwa [Function.update_noteq hut] at hu
  killing t ts hpc := absurd hpc (hk t ts)
  waiting t ts hpc := absurd hpc (hw' t ts)

end StopInv

/-- A thread's own move keeps the invariant: threads a SIGSTOP wait has reported no longer
run, and the thread between `tgkill` and `waitpid` stays `Signalled`. -/
theorem stopInv_move {c : StopConfig} (h : StopInv c) {t : Nat} {x : Tracee}
    (hm : (c.procs t).Moves x) : StopInv { c with procs := Function.update c.procs t x } where
  consumed p hp := by
    have hpt : p.1 ≠ t := fun hpt => by
      have := hm.run_eq
      rw [← hpt, h.consumed p hp] at this
      exact Tracee.afterReport_run_ne p.2 this
    dsimp only at hp ⊢
    rw [Function.update_noteq hpt]; exact h.consumed p hp
  pending u hu := by
    dsimp only at hu ⊢
    rcases eq_or_ne u t with rfl | hut
    · rw [Function.update_same] at hu; exact h.pending u (hm.pending hu)
    · rw [Function.update_noteq hut] at hu; exact h.pending u hu
  killing u ts hpc := by
    dsimp only at hpc ⊢
    rcases eq_or_ne u t with rfl | hut
    · rw [Function.update_same]; exact hm.unsignalled (h.killing u ts hpc)
    · rw [Function.update_noteq hut]; exact h.killing u ts hpc
  waiting u ts hpc := by
    dsimp only at hpc ⊢
    rcases eq_or_ne u t with rfl | hut
    · rw [Function.update_same]; exact hm.signalled (h.waiting u ts hpc)
    · rw [Function.update_noteq hut]; exact h.waiting u ts hpc

/-- A failed `getregs` finds the thread with no SIGSTOP pending. -/
theorem stopInv_unreadable {c : StopConfig} (h : StopInv c) {t : Nat} {ts : List Nat}
    (hpc : c.pc = .loop (t :: ts)) (hr : (c.procs t).readable = false) :
    StopInv { c with pc := .killing t ts } where
  consumed := h.consumed
  pending u hu := .inl ((h.pending u hu).resolve_right fun ⟨us, hus⟩ => by simp [hpc] at hus)
  killing u us hk := by
    obtain ⟨rfl, rfl⟩ := StopPc.killing.inj hk
    refine Tracee.unsignalled_of_unreadable hr (Bool.eq_false_iff.2 fun hp => ?_)
    obtain ho | ⟨us, hus⟩ := h.pending t hp
    · rw [h.consumed _ ho] at hr; cases hr
    · simp [hpc] at hus
  waiting u us hw := by simp at hw

/-- The `tgkill` leaves its thread `Signalled`. -/
theorem stopInv_tgkill {c : StopConfig} (h : StopInv c) {t : Nat} {ts : List Nat}
    (hpc : c.pc = .killing t ts) :
    StopInv { c with
      pc := .waiting t ts
      procs := Function.update c.procs t (c.procs t).tgkill } where
  consumed p hp := by
    dsimp only at hp ⊢
    rcases eq_or_ne p.1 t with hpt | hpt
    · have hu := h.killing t ts hpc
      rw [← hpt, h.consumed p hp] at hu
      rw [hpt, Function.update_same, ← hpt, h.consumed p hp, Tracee.tgkill_afterReport hu]
    · rw [Function.update_noteq hpt]; exact h.consumed p hp
  pending u hu := by
    dsimp only at hu ⊢
    rcases eq_or_ne u t with rfl | hut
    · exact .inr ⟨ts, rfl⟩
    · rw [Function.update_noteq hut] at hu
      exact .inl ((h.pending u hu).resolve_right fun ⟨us, hus⟩ => by simp [hpc] at hus)
  killing u us hk := by simp at hk
  waiting u us hw := by
    obtain ⟨rfl, rfl⟩ := StopPc.waiting.inj hw
    dsimp only
    rw [Function.update_same]
    exact (h.killing t ts hpc).tgkill

/-- The `waitpid` after the SIGSTOP records what it reported, and leaves the thread in
`afterReport` of it. -/
theorem stopInv_waitpid {c : StopConfig} (h : StopInv c) {t : Nat} {ts : List Nat} {e : WaitEvent}
    (hpc : c.pc = .waiting t ts) (he : (c.procs t).report? = some e) :
    StopInv { c with
      pc := .loop ts
      procs := Function.update c.procs t (c.procs t).reported
      statuses := (t, e) :: c.statuses
      consumed := (t, e) :: c.consumed } where
  consumed p hp := by
    dsimp only at hp ⊢
    rcases List.mem_cons.1 hp with rfl | hp
    · rw [Function.update_same]; exact (h.waiting _ _ hpc).reported_eq he
    · rw [Function.update_noteq (h.not_consumed_of_report he p hp)]; exact h.consumed p hp
  pending u hu := by
    dsimp only at hu ⊢
    refine .inl ?_
    rcases eq_or_ne u t with rfl | hut
    · rw [Function.update_same, (h.waiting _ _ hpc).reported_eq he] at hu
      cases e <;> simp_all [afterReport]
    · rw [Function.update_noteq hut] at hu
      obtain ho | ⟨us, hus⟩ := h.pending u hu
      · exact List.mem_cons_of_mem _ ho
      · rw [hpc] at hus; exact absurd (StopPc.waiting.inj hus).1.symm hut
  killing u us hk := by simp at hk
  waiting u us hw := by simp at hw

/-- Every step keeps the invariant. -/
theorem stopInv_step {c c' : StopConfig} (h : StopInv c) (hs : StopStep c c') : StopInv c' := by
  cases hs with
  | move hm => exact stopInv_move h hm
  | firstWait hpc he => exact h.of_reported (fun _ _ => by simp [hpc]) he (by simp) (by simp) _ _
  | skipFirst hpc => exact h.of_pc (fun _ _ => by simp [hpc]) (by simp) (by simp)
  | readable hpc => exact h.of_pc (fun _ _ => by simp [hpc]) (by simp) (by simp)
  | unreadable hpc _ hr => exact stopInv_unreadable h hpc hr
  | tgkill hpc => exact stopInv_tgkill h hpc
  | waitpid hpc he => exact stopInv_waitpid h hpc he
  | loopDone hpc => exact h.of_pc (fun _ _ => by simp [hpc]) (by simp) (by simp)
  | drain hpc he =>
    exact h.of_reported (fun _ _ => by simp [hpc]) he (by simp [hpc]) (by simp [hpc]) _ _
  | drained hpc => exact h.of_pc (fun _ _ => by simp [hpc]) (by simp) (by simp)

/-- A call that starts with no SIGSTOP pending starts in the invariant. -/
theorem stopInv_start {procs : Nat → Tracee} (h₀ : ∀ t, (procs t).sigstopPending = false)
    (tids : List Nat) : StopInv (StopConfig.start procs tids) where
  consumed _ hp := by simp [StopConfig.start] at hp
  pending t ht := by simp [StopConfig.start, h₀] at ht
  killing _ _ hpc := by simp [StopConfig.start] at hpc
  waiting _ _ hpc := by simp [StopConfig.start] at hpc

theorem stopInv_run {c₀ c : StopConfig} (h₀ : StopInv c₀) (hr : StopRun c₀ c) : StopInv c := by
  induction hr with
  | refl => exact h₀
  | tail _ hs ih => exact stopInv_step ih hs

/-! ## What the call leaves pending -/

theorem sigstop_pending_iff_own_stop {procs : Nat → Tracee} {tids : List Nat} {c : StopConfig}
    (h₀ : ∀ t, (procs t).sigstopPending = false) (hr : StopRun (StopConfig.start procs tids) c)
    (hd : c.pc = .done) :
    (∀ p ∈ c.consumed, c.procs p.1 = afterReport p.2) ∧
    (∀ t, (c.procs t).sigstopPending = true ↔ (t, .ownStop) ∈ c.consumed) ∧
    ∀ t, (c.procs t).sigstopPending = true →
      (c.procs t).resume.Moves ⟨.stopped true false, false⟩ := by
  have h := stopInv_run (stopInv_start h₀ tids) hr
  have hiff : ∀ t, (c.procs t).sigstopPending = true ↔ (t, .ownStop) ∈ c.consumed := fun t =>
    ⟨fun hp => (h.pending t hp).resolve_right fun ⟨ts, hts⟩ => by simp [hd] at hts,
      fun ho => by rw [h.consumed _ ho]; rfl⟩
  refine ⟨h.consumed, hiff, fun t hp => ?_⟩
  rw [h.consumed _ ((hiff t).1 hp)]
  exact .sigstop

/-- Thread 1 stopped on its own and not yet reported; thread 2 running; no other thread. -/
def racePrelude : Nat → Tracee
  | 1 => ⟨.stopped false false, false⟩
  | 2 => ⟨.running, false⟩
  | _ => ⟨.exited true, false⟩

/-- The first wait reports thread 1; the `getregs` of thread 2 fails; thread 2 then stops on
its own before the `tgkill`, and its `waitpid` reports that stop. -/
theorem race_run :
    ∃ c, StopRun (StopConfig.start racePrelude [1, 2]) c ∧ c.pc = .done ∧
      c.procs 2 = ⟨.stopped false true, true⟩ ∧ c.consumed = [(2, .ownStop)] ∧
      c.statuses = [(2, .ownStop), (1, .ownStop)] := by
  refine ⟨_, Relation.ReflTransGen.single
      (StopStep.firstWait (t := 1) (e := .ownStop) (by rfl) (by rfl))
    |>.tail (StopStep.skipFirst (by rfl))
    |>.tail (StopStep.unreadable (t := 2) (by rfl) (by decide) (by rfl))
    |>.tail (StopStep.move (t := 2) (by exact .stop false))
    |>.tail (StopStep.tgkill (by rfl))
    |>.tail (StopStep.waitpid (e := .ownStop) (by rfl) (by rfl))
    |>.tail (StopStep.loopDone (by rfl))
    |>.tail (StopStep.drained (by rfl) fun t => ?_), by rfl, by rfl, by rfl, by rfl⟩
  rcases t with _ | _ | _ | t <;> rfl

theorem sigstop_pending_iff_own_stop_race :
    ∃ c, StopRun (StopConfig.start racePrelude [1, 2]) c ∧ c.pc = .done ∧
      (∀ p ∈ c.consumed, c.procs p.1 = afterReport p.2) ∧
      (∀ t, (c.procs t).sigstopPending = true ↔ (t, .ownStop) ∈ c.consumed) ∧
      ∀ t, (c.procs t).sigstopPending = true →
        (c.procs t).resume.Moves ⟨.stopped true false, false⟩ := by
  obtain ⟨c, hr, hd, -⟩ := race_run
  exact ⟨c, hr, hd, sigstop_pending_iff_own_stop (fun t => by rcases t with _ | _ | _ | t <;> rfl)
    hr hd⟩

/-- With no SIGSTOP pending at the start, the SIGSTOP the call sends thread 2 is not the stop
its `waitpid` reports: it is still pending when the call returns, and stops the thread again
once the thread is let run. -/
theorem sigstop_left_pending :
    (∀ t, (racePrelude t).sigstopPending = false) ∧
    ∃ c, StopRun (StopConfig.start racePrelude [1, 2]) c ∧ c.pc = .done ∧
      (2, .ownStop) ∈ c.statuses ∧ (c.procs 2).sigstopPending = true ∧
      (c.procs 2).resume.Moves ⟨.stopped true false, false⟩ ∧
      (⟨.stopped true false, false⟩ : Tracee).report? = some .sigstopStop := by
  obtain ⟨c, hr, hd, h2, -, hs⟩ := race_run
  refine ⟨fun t => by rcases t with _ | _ | _ | t <;> rfl, c, hr, hd, by simp [hs], ?_, ?_, rfl⟩
  · rw [h2]
  · rw [h2]; exact .sigstop

/-! ## Every thread halted -/

/-- The threads of the live list the call has yet to visit. -/
def StopPc.toVisit : StopPc → List Nat
  | .firstWait ts | .loop ts => ts
  | .killing t ts | .waiting t ts => t :: ts
  | .draining | .done => []

/-- The threads of `tids` before the suffix `ts` are halted. -/
def Visited (tids ts : List Nat) (procs : Nat → Tracee) : Prop :=
  ∃ pre, tids = pre ++ ts ∧ ∀ u ∈ pre, (procs u).Halted

theorem Visited.mono {tids ts : List Nat} {p p' : Nat → Tracee} (h : Visited tids ts p)
    (hm : ∀ u, (p u).Halted → (p' u).Halted) : Visited tids ts p' :=
  let ⟨pre, hpre, hall⟩ := h
  ⟨pre, hpre, fun u hu => hm u (hall u hu)⟩

/-- Passing a halted thread extends the visited prefix by it. -/
theorem Visited.pass {tids ts : List Nat} {t : Nat} {p : Nat → Tracee}
    (h : Visited tids (t :: ts) p) (ht : (p t).Halted) : Visited tids ts p := by
  obtain ⟨pre, hpre, hall⟩ := h
  refine ⟨pre ++ [t], by simp [hpre], fun u hu => ?_⟩
  rcases List.mem_append.1 hu with hu | hu
  · exact hall u hu
  · rw [List.mem_singleton.1 hu]; exact ht

/-- What every configuration of a call over the live list `tids` satisfies: the threads it has
visited are halted, and so is the thread its first wait reported. -/
structure Quiesced (tids : List Nat) (c : StopConfig) : Prop where
  visited : Visited tids c.pc.toVisit c.procs
  head : (∃ ts, c.pc = .firstWait ts) ∨ (c.procs c.head).Halted

theorem halted_update {f : Nat → Tracee} {u t : Nat} {y : Tracee}
    (hy : (f u).Halted → y.Halted) (ht : (f t).Halted) : (Function.update f u y t).Halted := by
  rcases eq_or_ne t u with rfl | htu
  · rw [Function.update_same]; exact hy ht
  · rw [Function.update_noteq htu]; exact ht

/-- Nothing the process or the call does lets a halted thread run: only a resume would, and
the call makes none. -/
theorem StopStep.halted {c c' : StopConfig} (hs : StopStep c c') {u : Nat}
    (h : (c.procs u).Halted) : (c'.procs u).Halted := by
  cases hs with
  | move hm => exact halted_update (fun hx => absurd hm.run_eq hx) h
  | firstWait | waitpid | drain => exact halted_update Tracee.Halted.reported h
  | tgkill => exact halted_update Tracee.Halted.tgkill h
  | skipFirst | readable | unreadable | loopDone | drained => exact h

/-- Each visit halts the thread it passes: the skip passes the reported thread, a readable
thread is stopped, and the wait after a SIGSTOP reports its thread. -/
theorem quiesced_step {tids : List Nat} {c c' : StopConfig} (h : Quiesced tids c)
    (hs : StopStep c c') : Quiesced tids c' := by
  have hmono : ∀ u, (c.procs u).Halted → (c'.procs u).Halted := fun _ => hs.halted
  have hv := h.visited.mono hmono
  have hhead : (∀ ts, c.pc ≠ .firstWait ts) → (c'.procs c.head).Halted := fun hne =>
    hmono _ (h.head.resolve_left fun ⟨ts, h'⟩ => hne ts h')
  cases hs with
  | move => exact ⟨hv, h.head.imp_right (hmono _)⟩
  | firstWait hpc he =>
    rw [hpc] at hv
    exact ⟨hv, .inr (by simpa using Tracee.halted_reported he)⟩
  | skipFirst hpc =>
    rw [hpc] at hv hhead
    exact ⟨hv.pass (hhead (by simp)), .inr (hhead (by simp))⟩
  | readable hpc _ hr =>
    rw [hpc] at hv hhead
    exact ⟨hv.pass (Tracee.halted_of_readable hr), .inr (hhead (by simp))⟩
  | waitpid hpc he =>
    rw [hpc] at hv hhead
    exact ⟨hv.pass (by simpa using Tracee.halted_reported he), .inr (hhead (by simp))⟩
  | unreadable hpc | tgkill hpc | loopDone hpc | drained hpc =>
    rw [hpc] at hv hhead
    exact ⟨hv, .inr (hhead (by simp))⟩
  | drain hpc => exact ⟨hv, .inr (hhead (by simp [hpc]))⟩

theorem quiesced_start (procs : Nat → Tracee) (tids : List Nat) :
    Quiesced tids (StopConfig.start procs tids) :=
  ⟨⟨[], rfl, by simp⟩, .inl ⟨tids, rfl⟩⟩

theorem quiesced_run {tids : List Nat} {c₀ c : StopConfig} (h₀ : Quiesced tids c₀)
    (hr : StopRun c₀ c) : Quiesced tids c := by
  induction hr with
  | refl => exact h₀
  | tail _ hs ih => exact quiesced_step ih hs

/-- When `wait_all_and_update_regs` returns, every thread of the live list it started with is
stopped or gone, over every interleaving. -/
theorem wait_stops_every_thread {procs : Nat → Tracee} {tids : List Nat} {c : StopConfig}
    (hr : StopRun (StopConfig.start procs tids) c) (hd : c.pc = .done) :
    ∀ t ∈ tids, (c.procs t).Halted := by
  obtain ⟨pre, hpre, hall⟩ := (quiesced_run (quiesced_start procs tids) hr).visited
  rw [hd, StopPc.toVisit, List.append_nil] at hpre
  exact hpre ▸ hall

theorem wait_stops_every_thread_race :
    ∃ c, StopRun (StopConfig.start racePrelude [1, 2]) c ∧ c.pc = .done ∧
      ∀ t ∈ [1, 2], (c.procs t).Halted := by
  obtain ⟨c, hr, hd, -⟩ := race_run
  exact ⟨c, hr, hd, wait_stops_every_thread hr hd⟩

end Libdebug
