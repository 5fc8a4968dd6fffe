import Libdebug.ThreadTable

/-!
# Forwarding the signals of the threads

A live thread's `signal_to_forward` is delivered by the resume requests that carry a signal:
the `PTRACE_CONT` or `PTRACE_SYSCALL` of `cont_all_and_set_bps` and the `PTRACE_SINGLESTEP` of
`singlestep`, each of which clears it.  Every other request the core issues is plain: the
step-overs of `prepare_for_run` and the stepping loops of `step_until` and `stepping_finish`
resume without a signal, and the stop loop, the detach loops and `register_thread` resume
nothing (`World.Still`, proved once per loop in `Coordinator` and `Detach`).

`pendingSignal s t` is what thread `t` is owed, as a list: the nonzero signal of its live
entry, or nothing.  Each call either forwards exactly that, in a request for `t`, and leaves
`t` owed nothing (`Call.Forwards`), or forwards nothing to `t` and leaves what it is owed
alone, unless the call is the caller's own write to the slot, `t`'s unregistration or the
freeing of the list (`Call.KeepsSignal`).  Over a whole session the signals forwarded to `t`
and what it is still owed together make up what it was owed at the start: a signal is
forwarded once, or is still pending (`signal_forwarded_once`).
-/

namespace Libdebug

/-- The signal a resume request carries, for the thread it resumes. -/
def Request.forwardsTo (t : Nat) : Request → Option Nat
  | .singlestep u sig | .cont u sig | .syscall u sig => if u = t ∧ sig ≠ 0 then some sig else none
  | _ => none

theorem Request.Plain.forwardsTo {r : Request} (h : r.Plain) (t : Nat) : r.forwardsTo t = none := by
  cases r <;> simp_all [Request.Plain, Request.forwardsTo]

/-- The signal a live entry holds for thread `t`, if it is `t`'s and not zero. -/
def Thread.pendingFor (t : Nat) (th : Thread) : Option Nat :=
  if th.tid = t ∧ th.signalToForward ≠ 0 then some th.signalToForward else none

/-- What thread `t` is owed: the nonzero signals of its live entries, at most one under
distinct ids. -/
def GlobalState.pendingSignal (s : GlobalState) (t : Nat) : List Nat :=
  s.tHead.filterMap (Thread.pendingFor t)

/-- The calls that resume `t` with its signal. -/
def Call.Forwards (t : Nat) : Call → Prop
  | .contAllAndSetBps => True
  | .singlestep u => u = t
  | _ => False

/-- The calls that leave `t`'s slot to the core: all but the caller's write to it, `t`'s
unregistration and the freeing of the list. -/
def Call.KeepsSignal (t : Nat) : Call → Prop
  | .setSignalToForward u _ | .unregisterThread u => u ≠ t
  | .freeThreadList => False
  | _ => True

/-! ## The list of live threads -/

section Lists

variable {t : Nat}

/-- Two lists with the same ids and the same signals owe the same. -/
theorem filterMap_pendingFor_congr {l l' : List Thread} (htid : l'.map (·.tid) = l.map (·.tid))
    (hsig : l'.map (·.signalToForward) = l.map (·.signalToForward)) :
    l'.filterMap (Thread.pendingFor t) = l.filterMap (Thread.pendingFor t) := by
  induction l generalizing l' with
  | nil => rw [List.map_eq_nil_iff.1 htid]
  | cons x xs ih =>
    obtain _ | ⟨y, ys⟩ := l'
    · cases htid
    · simp only [List.map_cons, List.cons.injEq] at htid hsig
      simp only [List.filterMap_cons, Thread.pendingFor, htid.1, hsig.1, ih htid.2 hsig.2]

/-- An entry that is not `t`'s owes `t` nothing. -/
theorem Thread.pendingFor_of_ne {th : Thread} (h : th.tid ≠ t) : th.pendingFor t = none := by
  simp [Thread.pendingFor, h]

/-- Rewriting the entry `modifyThread` finds for another id, without touching its id, keeps what
`t` is owed. -/
theorem filterMap_pendingFor_modify {f : Thread → Thread} (hf : ∀ x, (f x).tid = x.tid) {u : Nat}
    (hu : u ≠ t) (l : List Thread) :
    (l.modify f (l.findIdx (·.tid == u))).filterMap (Thread.pendingFor t) =
      l.filterMap (Thread.pendingFor t) := by
  induction l with
  | nil => rfl
  | cons x xs ih =>
    rw [List.findIdx_cons]
    by_cases hx : x.tid = u
    · have hx' : (f x).tid ≠ t := (hf x).trans hx ▸ hu
      rw [show (x.tid == u) = true by simpa using hx, cond_true, List.modify_zero_cons,
        List.filterMap_cons, List.filterMap_cons, Thread.pendingFor_of_ne hx',
        Thread.pendingFor_of_ne (hx ▸ hu : x.tid ≠ t)]
    · rw [show (x.tid == u) = false by simpa using hx, cond_false, List.modify_succ_cons,
        List.filterMap_cons, List.filterMap_cons, ih]

/-- Removing the first entry of another id keeps what `t` is owed. -/
theorem filterMap_pendingFor_eraseP {u : Nat} (hu : u ≠ t) (l : List Thread) :
    (l.eraseP (·.tid == u)).filterMap (Thread.pendingFor t) = l.filterMap (Thread.pendingFor t) := by
  induction l with
  | nil => rfl
  | cons x xs ih =>
    by_cases hx : x.tid = u
    · rw [List.eraseP_cons_of_pos (by simpa using hx), List.filterMap_cons,
        Thread.pendingFor_of_ne (hx ▸ hu : x.tid ≠ t)]
    · rw [List.eraseP_cons_of_neg (by simpa using hx), List.filterMap_cons, List.filterMap_cons,
        ih]

/-- With distinct ids, what `t` is owed is what the entry `get_thread` finds holds. -/
theorem filterMap_pendingFor_of_nodup {l : List Thread} (hnd : (l.map (·.tid)).Nodup) :
    l.filterMap (Thread.pendingFor t) = ((l.find? (·.tid == t)).bind (Thread.pendingFor t)).toList := by
  induction l with
  | nil => rfl
  | cons x xs ih =>
    rw [List.map_cons, List.nodup_cons] at hnd
    by_cases hx : x.tid = t
    · have hnone : xs.filterMap (Thread.pendingFor t) = [] :=
        List.filterMap_eq_nil_iff.2 fun y hy => Thread.pendingFor_of_ne fun e =>
          hnd.1 (hx ▸ e ▸ List.mem_map_of_mem _ hy)
      cases h : x.pendingFor t <;> simp [List.filterMap_cons, hx, h, hnone]
    · simp [List.filterMap_cons, Thread.pendingFor_of_ne hx, hx, ih hnd.2]

/-- `singlestep`'s flush loop, with distinct ids: it takes the signal of the entry with the
id, or keeps `sig` when there is none, and clears it. -/
theorem walkThreads_takeSignal (u : Nat) :
    ∀ (sig : Nat) (l : List Thread), (l.map (·.tid)).Nodup →
      walkThreads (takeSignal u) sig l =
        (((l.find? (·.tid == u)).map (·.signalToForward)).getD sig,
          l.map fun th => if th.tid = u then { th with signalToForward := 0 } else th)
  | _, [], _ => rfl
  | sig, x :: xs, hnd => by
    rw [List.map_cons, List.nodup_cons] at hnd
    by_cases hx : x.tid = u
    · have hnone : xs.find? (·.tid == u) = none := List.find?_eq_none.2 fun y hy e =>
        hnd.1 (hx ▸ (beq_iff_eq.1 e) ▸ List.mem_map_of_mem _ hy)
      simp [walkThreads, takeSignal, hx, walkThreads_takeSignal u _ xs hnd.2, hnone]
    · simp [walkThreads, takeSignal, hx, walkThreads_takeSignal u _ xs hnd.2]

/-- The list `singlestep`'s loop leaves owes `t` nothing when `t` is the stepped thread, and what
it owed otherwise. -/
theorem filterMap_pendingFor_clear (u : Nat) (l : List Thread) :
    (l.map fun th => if th.tid = u then { th with signalToForward := 0 } else th).filterMap
        (Thread.pendingFor t) = if u = t then [] else l.filterMap (Thread.pendingFor t) := by
  rw [List.filterMap_map]
  split_ifs with hut
  · refine List.filterMap_eq_nil_iff.2 fun x _ => ?_
    by_cases hx : x.tid = u <;> simp [hx, Thread.pendingFor, ← hut]
  · congr 1; funext x
    by_cases hx : x.tid = u
    · simp [hx, Thread.pendingFor, hut]
    · simp [hx]

end Lists

/-! ## What each call forwards -/

section Calls

variable {arch : Arch} {o : Oracle} {pid : Nat} {t : Nat} {w w' : World}

/-- Between `w` and `w'` no request forwards a signal to `t`, and `t` is owed what it was. -/
def KeepsPending (t : Nat) (w w' : World) : Prop :=
  Kernel.Issues (Request.forwardsTo t) w.kernel w'.kernel [] ∧
    w'.state.pendingSignal t = w.state.pendingSignal t

theorem issues_of_plain {mem : Memory} {k k' : Kernel} (h : Kernel.Logs (Event.Plain mem) k k') :
    Kernel.Issues (Request.forwardsTo t) k k' [] :=
  let ⟨new, hlog, hP⟩ := h
  ⟨new, hlog, List.filterMap_eq_nil_iff.2 fun e he => (hP e (List.mem_reverse.1 he)).2.forwardsTo t⟩

theorem KeepsPending.of_still (h : w.Still w') : KeepsPending t w w' :=
  ⟨issues_of_plain h.plain, filterMap_pendingFor_congr h.frame.tids h.signals⟩

theorem KeepsPending.of_state (hk : w'.kernel = w.kernel)
    (hs : w'.state.pendingSignal t = w.state.pendingSignal t) : KeepsPending t w w' :=
  ⟨⟨[], by rw [hk]; rfl, rfl⟩, hs⟩

theorem KeepsPending.trans {w₁ w₂ w₃ : World} (h₁ : KeepsPending t w₁ w₂)
    (h₂ : KeepsPending t w₂ w₃) : KeepsPending t w₁ w₃ :=
  ⟨h₁.1.trans h₂.1, h₂.2.trans h₁.2⟩

/-- The restore loop writes memory only. -/
theorem KeepsPending.restore (h : KeepsPending t w w') : KeepsPending t w w'.restore := h

variable (o)

/-- `stepping_finish` forwards nothing, whether it returns or not. -/
theorem steppingFinish_keeps (arch : Arch) (w : World) (tid fuel : Nat) :
    KeepsPending t w (steppingFinish o arch w tid fuel).1 := by
  have hp : KeepsPending t w (prepareForRun o w tid).1 :=
    (KeepsPending.of_still (prepareForRun_still o w tid) :
      KeepsPending t w { (prepareForRun o w tid).1 with mem := w.mem })
  obtain ⟨w₁, hs, hr | ⟨hr, -⟩⟩ := steppingFinish_endsStill o arch w tid fuel <;> rw [hr]
  exacts [hp.trans (KeepsPending.of_still hs).restore, hp.trans (.of_still hs)]

/-- `singlestep` of another thread forwards nothing to `t`. -/
theorem singlestep_keeps (hs : w.state.LiveNodup) {u : Nat} (hu : u ≠ t) :
    KeepsPending t w (singlestep o w u).1 := by
  have hres := @Kernel.resume_issues o w.mem (flushRegs o w.mem w.state.tHead w.kernel)
    (Request.forwardsTo t) (.singlestep u (walkThreads (takeSignal u) 0 w.state.tHead).1)
  simp only [Request.forwardsTo, hu, false_and, if_false, Option.toList] at hres
  refine ⟨(issues_of_plain (flushRegs_plain o _ _ _)).trans hres, ?_⟩
  show (walkThreads (takeSignal u) 0 w.state.tHead).2.filterMap _ = _
  rw [walkThreads_takeSignal u 0 _ hs, filterMap_pendingFor_clear, if_neg hu]; rfl

/-- `singlestep` of `t` forwards what `t` is owed, in its `PTRACE_SINGLESTEP`, and leaves it owed
nothing. -/
theorem singlestep_forwards (hs : w.state.LiveNodup) :
    Kernel.Issues (Request.forwardsTo t) w.kernel (singlestep o w t).1.kernel
      (w.state.pendingSignal t) ∧ (singlestep o w t).1.state.pendingSignal t = [] := by
  have hwalk := walkThreads_takeSignal t 0 w.state.tHead hs
  have hsent : (Request.forwardsTo t (.singlestep t
      (walkThreads (takeSignal t) 0 w.state.tHead).1)).toList = w.state.pendingSignal t := by
    rw [hwalk, GlobalState.pendingSignal, filterMap_pendingFor_of_nodup hs]
    cases h : w.state.tHead.find? (·.tid == t) with
    | none => simp [Request.forwardsTo]
    | some x =>
      have hx : x.tid = t := by simpa using List.find?_some h
      simp [Request.forwardsTo, Thread.pendingFor, hx]
  have hr := @Kernel.resume_issues o w.mem (flushRegs o w.mem w.state.tHead w.kernel)
    (Request.forwardsTo t) (.singlestep t (walkThreads (takeSignal t) 0 w.state.tHead).1)
  rw [hsent] at hr
  refine ⟨(issues_of_plain (flushRegs_plain o _ _ _)).trans hr, ?_⟩
  show (walkThreads (takeSignal t) 0 w.state.tHead).2.filterMap _ = _
  rw [hwalk, filterMap_pendingFor_clear, if_pos rfl]

/-- The continue loop forwards to `t` what `t` is owed. -/
theorem contAll_forwards (mem : Memory) (hsc : Bool) (ts : List Thread) (k : Kernel) :
    Kernel.Issues (Request.forwardsTo t) k (contAll o mem hsc ts k) (ts.filterMap (Thread.pendingFor t)) := by
  obtain ⟨new, hlog, hreq, -⟩ := contAll_log o mem hsc ts k
  refine ⟨new, hlog, ?_⟩
  have hcont : Request.forwardsTo t ∘ contRequest hsc = Thread.pendingFor t := by
    funext th
    simp only [Function.comp, contRequest]
    split_ifs <;> rfl
  rw [show (fun e : Event => e.req.forwardsTo t) = Request.forwardsTo t ∘ (·.req) from rfl,
    ← List.filterMap_map, List.map_reverse, hreq, List.reverse_reverse, List.filterMap_map, hcont]

/-- `cont_all_and_set_bps` forwards nothing in `prepare_for_run`, then forwards to `t` what it
is owed, and leaves every live thread owed nothing. -/
theorem contAllAndSetBps_forwards (w : World) (pid : Nat) :
    Kernel.Issues (Request.forwardsTo t) w.kernel (prepareForRun o w pid).1.kernel [] ∧
    Kernel.Issues (Request.forwardsTo t) (prepareForRun o w pid).1.kernel
      (contAllAndSetBps o w pid).1.kernel (w.state.pendingSignal t) ∧
    ∀ th ∈ (contAllAndSetBps o w pid).1.state.tHead, th.signalToForward = 0 := by
  refine ⟨(KeepsPending.of_still (prepareForRun_still o w pid)).1, ?_, ?_⟩
  · have h := contAll_forwards o (t := t) (prepareForRun o w pid).1.mem
      (prepareForRun o w pid).1.state.handleSyscallEnabled (prepareForRun o w pid).1.state.tHead
      (prepareForRun o w pid).1.kernel
    rwa [show (prepareForRun o w pid).1.state.tHead.filterMap (Thread.pendingFor t) =
      w.state.pendingSignal t by rw [prepareForRun_state]; rfl] at h
  · intro th hth
    obtain ⟨x, -, rfl⟩ := List.mem_map.1 hth
    rfl

end Calls


/-! ## Over a session -/

section Session

variable {arch : Arch} {o : Oracle} {pid : Nat} {t : Nat} {w w' : World}

/-- A call that neither forwards `t`'s signal nor takes `t`'s slot from the core forwards
nothing to `t` and leaves what it is owed. -/
theorem keepsPending_exec {c : Call} (hs : w.state.LiveNodup) (hf : ¬c.Forwards t)
    (hk : c.KeepsSignal t) (he : exec arch o pid c w = some w') : KeepsPending t w w' := by
  cases c <;> simp only [Call.Forwards, Call.KeepsSignal, not_true_eq_false, not_false_eq_true]
    at hf hk
  all_goals first
    | (simp only [exec, Option.some.injEq] at he; subst he)
    | skip
  case registerThread u =>
    cases h : w.state.getThread u with
    | some th => rw [registerThread_of_some arch o h]; exact .of_state rfl rfl
    | none =>
      simp only [registerThread, h]
      exact ⟨Kernel.getregs_issues o u, by simp [GlobalState.pendingSignal, Thread.pendingFor]⟩
  case unregisterThread u =>
    cases h : w.state.getThread u with
    | none => rw [GlobalState.unregisterThread_of_none h]; exact .of_state rfl rfl
    | some th =>
      rw [GlobalState.unregisterThread_of_some h]
      exact .of_state rfl (filterMap_pendingFor_eraseP hk _)
  case setRegs u regs =>
    exact .of_state rfl (filterMap_pendingFor_congr
      (tids_modify (f := fun th => { th with regs }) (fun _ => rfl) _ _)
      (map_modify_of (g := (·.signalToForward)) (f := fun th => { th with regs }) (fun _ => rfl) _ _))
  case setSignalToForward u sig =>
    exact .of_state rfl
      (filterMap_pendingFor_modify (f := fun th => { th with signalToForward := sig }) (fun _ => rfl) hk _)
  case registerHwBreakpoint u address type len =>
    obtain ⟨bps, user, h⟩ := registerHwBreakpoint_shape w u address type len
    rw [h]; exact .of_state rfl rfl
  case unregisterHwBreakpoint u address =>
    obtain ⟨bps, user, h⟩ := unregisterHwBreakpoint_shape w u address
    rw [h]; exact .of_state rfl rfl
  case waitAllAndUpdateRegs =>
    obtain ⟨w₁, h, hr | ⟨l, hr⟩⟩ := waitAllAndUpdateRegs_still o w pid <;> rw [hr]
    exacts [.of_still h, (KeepsPending.of_still h).restore]
  case singlestep u => exact singlestep_keeps o hs hf
  case stepUntil tid addr maxSteps fuel =>
    rw [exec_stepUntil he]; exact .of_still (stepUntil_still o w _ _ _ _)
  case steppingFinish tid fuel =>
    obtain ⟨r, hr⟩ := exec_steppingFinish he
    have h := steppingFinish_keeps o (t := t) arch w tid fuel
    rwa [hr] at h
  case detachForKill => exact .of_still (detachForKill_still o w pid)
  case detachForMigration => exact .of_still (detachForMigration_still o w pid)
  case reattachFromGdb => exact .of_still (reattachFromGdb_still o w pid)
  case detachAndCont => exact .of_still (detachAndCont_still o w pid)
  all_goals exact .of_state rfl rfl

/-- Each call forwards to `t` what it is owed and leaves it owed nothing, when it is one that
forwards; any other forwards nothing to `t`, and leaves what `t` is owed unless it takes `t`'s
slot from the core. -/
theorem forwards_exec {c : Call} (hs : w.state.LiveNodup) (he : exec arch o pid c w = some w') :
    ∃ l, Kernel.Issues (Request.forwardsTo t) w.kernel w'.kernel l ∧
      (c.Forwards t → l = w.state.pendingSignal t ∧ w'.state.pendingSignal t = []) ∧
      (¬c.Forwards t → l = [] ∧
        (c.KeepsSignal t → w'.state.pendingSignal t = w.state.pendingSignal t)) := by
  by_cases hf : c.Forwards t
  · have hc : c = .contAllAndSetBps ∨ c = .singlestep t := by
      cases c <;> simp_all [Call.Forwards]
    rcases hc with rfl | rfl <;> simp only [exec, Option.some.injEq] at he <;> subst he
    · obtain ⟨h₁, h₂, h₃⟩ := contAllAndSetBps_forwards o (t := t) w pid
      refine ⟨_, h₁.trans h₂, fun _ => ⟨rfl, List.filterMap_eq_nil_iff.2 fun th hth => ?_⟩,
        fun h => absurd hf h⟩
      simp [Thread.pendingFor, h₃ th hth]
    · obtain ⟨h₁, h₂⟩ := singlestep_forwards o hs
      exact ⟨_, h₁, fun _ => ⟨rfl, h₂⟩, fun h => absurd hf h⟩
  · by_cases hk : c.KeepsSignal t
    · obtain ⟨h₁, h₂⟩ := keepsPending_exec hs hf hk he
      exact ⟨[], h₁, fun h => absurd h hf, fun _ => ⟨rfl, fun _ => h₂⟩⟩
    · have hker : w'.kernel = w.kernel := by
        cases c <;> simp only [Call.KeepsSignal, not_true_eq_false] at hk <;>
          simp only [exec, Option.some.injEq] at he <;> subst he <;> rfl
      exact ⟨[], ⟨[], by rw [hker]; rfl, rfl⟩, fun h => absurd h hf, fun _ => ⟨rfl, fun h => absurd h hk⟩⟩

theorem liveNodup_reachable {allowed : World → Call → Prop} {w₀ : World} (h₀ : w₀.state.LiveNodup)
    (hr : Reachable arch o pid allowed w₀ w) : w.state.LiveNodup :=
  hr.induction h₀ fun _ _ _ hs _ he => liveNodup_exec hs he

/-- Over a session that leaves `t`'s slot to the core, the signals forwarded to `t` and what it
is still owed make up what it was owed at the start. -/
theorem forwarded_run {w₀ : World} (h₀ : w₀.state.LiveNodup)
    (hr : Reachable arch o pid (fun _ c => c.KeepsSignal t) w₀ w) :
    ∃ l, Kernel.Issues (Request.forwardsTo t) w₀.kernel w.kernel l ∧
      l ++ w.state.pendingSignal t = w₀.state.pendingSignal t := by
  induction hr with
  | init => exact ⟨[], ⟨[], rfl, rfl⟩, rfl⟩
  | step c hr hk he ih =>
    obtain ⟨l, hl, hsum⟩ := ih
    obtain ⟨l', hl', hfw, hnf⟩ := forwards_exec (t := t) (liveNodup_reachable h₀ hr) he
    by_cases hf : c.Forwards t
    · obtain ⟨rfl, hp⟩ := hfw hf
      exact ⟨_, hl.trans hl', by rw [hp, List.append_nil, hsum]⟩
    · obtain ⟨rfl, hp⟩ := hnf hf
      exact ⟨_, hl.trans hl', by rw [List.append_nil, hp hk, hsum]⟩

end Session

/-! ## Exactly once -/

/-- Signal forwarding, over every session from a table with distinct ids and whatever the
kernel answers.  Each call forwards to `t` either nothing or what `t` was owed when it began:
that, once, if it is `cont_all_and_set_bps` or `singlestep` of `t`, which leave `t` owed
nothing; nothing otherwise, leaving what `t` is owed unless the call takes `t`'s slot from the
core.  Over a session that leaves the slot to the core, what was forwarded to `t` and what it is
still owed make up what it was owed at the start.  `prepare_for_run`, `step_until` and
`stepping_finish` forward nothing, returning or not, and `cont_all_and_set_bps` leaves every
live signal 0. -/
theorem signal_forwarded_once (arch : Arch) (o : Oracle) (pid : Nat) {w₀ : World}
    (h₀ : w₀.state.LiveNodup) (t : Nat) :
    (∀ c w w', Reachable arch o pid (fun _ _ => True) w₀ w → exec arch o pid c w = some w' →
      ∃ l, Kernel.Issues (Request.forwardsTo t) w.kernel w'.kernel l ∧
        (c.Forwards t → l = w.state.pendingSignal t ∧ w'.state.pendingSignal t = []) ∧
        (¬c.Forwards t → l = [] ∧
          (c.KeepsSignal t → w'.state.pendingSignal t = w.state.pendingSignal t))) ∧
    (∀ w, Reachable arch o pid (fun _ c => c.KeepsSignal t) w₀ w →
      ∃ l, Kernel.Issues (Request.forwardsTo t) w₀.kernel w.kernel l ∧
        l ++ w.state.pendingSignal t = w₀.state.pendingSignal t) ∧
    (∀ w tid addr maxSteps fuel,
      Kernel.Issues (Request.forwardsTo t) w.kernel (prepareForRun o w pid).1.kernel [] ∧
      Kernel.Issues (Request.forwardsTo t) w.kernel (stepUntil o w tid addr maxSteps fuel).1.kernel [] ∧
      Kernel.Issues (Request.forwardsTo t) w.kernel (steppingFinish o arch w tid fuel).1.kernel []) ∧
    ∀ w, ∀ th ∈ (contAllAndSetBps o w pid).1.state.tHead, th.signalToForward = 0 :=
  ⟨fun _ _ _ hr he => forwards_exec (liveNodup_reachable h₀ hr) he,
    fun _ hr => forwarded_run h₀ hr,
    fun w _ _ _ _ => ⟨(contAllAndSetBps_forwards o w pid).1,
      (KeepsPending.of_still (stepUntil_still o w _ _ _ _)).1, (steppingFinish_keeps o arch w _ _).1⟩,
    fun w => (contAllAndSetBps_forwards o (t := t) w pid).2.2⟩

/-- Thread 1 alone, stopped at 0, owed signal 10. -/
def signalledThread : World :=
  { World.empty with state := { World.empty.state with tHead := [⟨1, ⟨0, 0⟩, ⟨0, 0⟩, 10⟩] } }

theorem signal_forwarded_once_on_cont :
    ∃ l, Kernel.Issues (Request.forwardsTo 1) signalledThread.kernel
      (contAllAndSetBps Oracle.accepting signalledThread 1).1.kernel l ∧ l = [10] := by
  obtain ⟨l, hl, hf, -⟩ := (signal_forwarded_once Arch.int3 Oracle.accepting 1
    (by unfold GlobalState.LiveNodup; decide) 1).1 .contAllAndSetBps signalledThread _ .init rfl
  exact ⟨l, hl, (hf trivial).1.trans (by decide)⟩

end Libdebug
