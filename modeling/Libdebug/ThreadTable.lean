import Libdebug.Session

/-!
# The thread table over whole sessions

Live ids stay distinct in every state of every session, and only `free_thread_list` rewrites
the dead list: every other call keeps the old dead list as a suffix of the new one.
`register_thread` on a live id is a lookup that leaves the world alone, and `unregister_thread`
on a live id moves that entry, unchanged, from the live list to the head of the dead one
(`ThreadTableAt`, `threadTableAt_reachable`).

`register_thread` links a new thread at the head, so the first thread registered in an empty
table stays last while it is live, and the detach and reattach loops reach it after every other
thread (`processedLast_reachable`).  "First" counts from the last emptying of the table: a
session that frees the list and registers another thread before the process's own ends with the
process's thread at the head (`pid_not_last_after_free`).

A thread unregistered and registered again is live in a new entry, whose registers a new
`getregs` read, while its old entry stays on the dead list (`thread_round_trip`): one id can be
both live and dead.
-/

namespace Libdebug

/-- The calls that change the live ids or the dead list. -/
def Call.TouchesThreads : Call → Prop
  | .registerThread _ | .unregisterThread _ | .freeThreadList => True
  | _ => False

variable {arch : Arch} {o : Oracle} {pid : Nat} {w w' : World}

/-- Every other call keeps the live ids and the dead list. -/
theorem exec_threads {c : Call} (hc : ¬c.TouchesThreads) (h : exec arch o pid c w = some w') :
    w'.state.tHead.map (·.tid) = w.state.tHead.map (·.tid) ∧
      w'.state.deadTHead = w.state.deadTHead := by
  rcases em c.Runs with hr | hr
  · exact ⟨(exec_frame hr h).tids, (exec_frame hr h).dead⟩
  cases c <;> simp only [Call.TouchesThreads, Call.Runs, not_true_eq_false] at hc hr <;>
    simp only [exec, Option.some.injEq] at h <;> subst h
  case setRegs tid regs =>
    exact ⟨tids_modify (f := fun t => { t with regs }) (fun _ => rfl) _ _, rfl⟩
  case setSignalToForward tid sig =>
    exact ⟨tids_modify (f := fun t => { t with signalToForward := sig }) (fun _ => rfl) _ _, rfl⟩
  case registerHwBreakpoint tid address type len =>
    obtain ⟨bps, user, h⟩ := registerHwBreakpoint_shape w tid address type len
    rw [h]; exact ⟨rfl, rfl⟩
  case unregisterHwBreakpoint tid address =>
    obtain ⟨bps, user, h⟩ := unregisterHwBreakpoint_shape w tid address
    rw [h]; exact ⟨rfl, rfl⟩
  all_goals exact ⟨rfl, rfl⟩

/-! ## Distinct ids and the dead list -/

theorem liveNodup_exec {c : Call} (h : w.state.LiveNodup) (he : exec arch o pid c w = some w') :
    w'.state.LiveNodup := by
  rcases em c.TouchesThreads with ht | ht
  swap
  · unfold GlobalState.LiveNodup; rw [(exec_threads ht he).1]; exact h
  cases c <;> simp only [Call.TouchesThreads, not_true_eq_false] at ht <;>
    simp only [exec, Option.some.injEq] at he <;> subst he
  case registerThread tid => exact liveNodup_registerThread arch o h tid
  case unregisterThread => exact GlobalState.liveNodup_unregisterThread h
  case freeThreadList => exact List.nodup_nil

theorem registerThread_deadTHead (w : World) (tid : Nat) :
    (registerThread arch o w tid).1.state.deadTHead = w.state.deadTHead := by
  obtain ⟨ts, k, h⟩ := registerThread_shape arch o w tid
  rw [h]

/-- No call but `free_thread_list` drops or rewrites a dead entry. -/
theorem dead_suffix_exec {c : Call} (hc : c ≠ .freeThreadList)
    (he : exec arch o pid c w = some w') : w.state.deadTHead <:+ w'.state.deadTHead := by
  rcases em c.TouchesThreads with ht | ht
  swap
  · rw [(exec_threads ht he).2]
  cases c <;> simp only [Call.TouchesThreads, not_true_eq_false] at ht <;>
    simp only [exec, Option.some.injEq] at he <;> subst he
  case registerThread tid => rw [registerThread_deadTHead]
  case unregisterThread tid =>
    cases hg : w.state.getThread tid with
    | none => rw [GlobalState.unregisterThread_of_none hg]
    | some t => rw [GlobalState.unregisterThread_of_some hg]; exact List.suffix_cons t _
  case freeThreadList => exact absurd rfl hc

variable (arch o pid)

/-- The thread table at `w` is well kept: distinct live ids, `register_thread` on a
live id a pure lookup, `unregister_thread` on a live id a move of that entry to the dead list,
and every call but `free_thread_list` keeping the dead entries. -/
structure ThreadTableAt (w : World) : Prop where
  nodup : w.state.LiveNodup
  register : ∀ tid t, w.state.getThread tid = some t → registerThread arch o w tid = (w, t.regs)
  unregister : ∀ tid t, w.state.getThread tid = some t →
    (w.state.unregisterThread tid).tHead = w.state.tHead.filter (fun u => !(u.tid == tid)) ∧
      (w.state.unregisterThread tid).deadTHead = t :: w.state.deadTHead
  dead : ∀ c w', c ≠ .freeThreadList → exec arch o pid c w = some w' →
    w.state.deadTHead <:+ w'.state.deadTHead

variable {arch o pid}

theorem threadTableAt_of_liveNodup (h : w.state.LiveNodup) : ThreadTableAt arch o pid w where
  nodup := h
  register _ _ hg := registerThread_of_some arch o hg
  unregister _ _ hg := by
    rw [GlobalState.unregisterThread_of_some hg]
    exact ⟨GlobalState.eraseP_tid_eq_filter h, rfl⟩
  dead _ _ hc he := dead_suffix_exec hc he

theorem threadTableAt_reachable {w₀ : World} (h₀ : w₀.state.LiveNodup)
    (hr : Reachable arch o pid (fun _ _ => True) w₀ w) : ThreadTableAt arch o pid w :=
  threadTableAt_of_liveNodup <|
    hr.induction (P := fun w => w.state.LiveNodup) h₀ fun _ _ _ h _ he => liveNodup_exec h he

/-! ## The process's thread last -/

/-- The sessions of the ordering guarantee: while the live list is empty only the process's own
thread is registered, and it is never unregistered. -/
def PidFirst (pid : Nat) (w : World) : Call → Prop
  | .registerThread tid => w.state.tHead = [] → tid = pid
  | .unregisterThread tid => tid ≠ pid
  | _ => True

/-- The last live id, if any, is the process's. -/
def PidLast (pid : Nat) (s : GlobalState) : Prop :=
  ∀ t ∈ (s.tHead.map (·.tid)).getLast?, t = pid

/-- Dropping entries other than the process's keeps its thread last. -/
theorem getLast?_filter_tid {l : List Thread} (h : ∀ t ∈ (l.map (·.tid)).getLast?, t = pid)
    {p : Thread → Bool} (hp : ∀ u, u.tid = pid → p u = true) :
    ∀ t ∈ ((l.filter p).map (·.tid)).getLast?, t = pid := by
  rcases List.eq_nil_or_concat l with rfl | ⟨L, x, rfl⟩
  · simp
  · have hx : x.tid = pid := h x.tid (by simp)
    simp [List.filter_append, hp x hx, hx]

theorem pidLast_exec {c : Call} (h : PidLast pid w.state) (hn : w.state.LiveNodup)
    (hc : PidFirst pid w c) (he : exec arch o pid c w = some w') : PidLast pid w'.state := by
  rcases em c.TouchesThreads with ht | ht
  swap
  · unfold PidLast; rw [(exec_threads ht he).1]; exact h
  cases c <;> simp only [Call.TouchesThreads, not_true_eq_false] at ht <;>
    simp only [exec, Option.some.injEq] at he <;> subst he
  case registerThread tid =>
    cases hg : w.state.getThread tid with
    | some t => rwa [registerThread_of_some arch o hg]
    | none =>
      unfold PidLast
      rw [registerThread_of_none arch o hg]
      cases hl : w.state.tHead with
      | nil => simp [hc hl]
      | cons u us => simp only [PidLast, hl] at h; simpa using h
  case unregisterThread tid =>
    cases hg : w.state.getThread tid with
    | none => rwa [GlobalState.unregisterThread_of_none hg]
    | some t =>
      unfold PidLast
      rw [GlobalState.unregisterThread_of_some hg]
      dsimp only
      rw [GlobalState.eraseP_tid_eq_filter hn]
      exact getLast?_filter_tid h fun u hu => by simp [hu, Ne.symm hc]
  case freeThreadList => simp [PidLast, GlobalState.freeThreadList]

variable (o pid)

/-- The detach and reattach loops reach the process's thread, when it is live, after every
other live thread. -/
def ProcessedLast (w : World) : Prop :=
  pid ∈ w.state.tHead.map (·.tid) → ∃ ts, pid ∉ ts ∧ w.state.tHead.map (·.tid) = ts ++ [pid] ∧
    Kernel.Issues Request.detached? w.kernel (detachForKill o w pid).kernel (ts ++ [pid]) ∧
    Kernel.Issues Request.detached? w.kernel (detachForMigration o w pid).kernel (ts ++ [pid]) ∧
    Kernel.Issues Request.attached? w.kernel (reattachFromGdb o w pid).kernel (ts ++ [pid])

variable {o pid}

theorem processedLast_of_pidLast (h : PidLast pid w.state) (hn : w.state.LiveNodup) :
    ProcessedLast o pid w := fun hp => by
  obtain ⟨x, hx⟩ := Option.ne_none_iff_exists'.1
    (List.getLast?_eq_none_iff.not.2 (List.ne_nil_of_mem hp))
  obtain rfl := h x hx
  obtain ⟨ts, hts⟩ := List.getLast?_eq_some_iff.1 hx
  have hnd : x ∉ ts := by
    unfold GlobalState.LiveNodup at hn
    rw [hts] at hn
    exact fun hm => (List.nodup_append.1 hn).2.2 hm (List.mem_singleton_self x)
  refine ⟨ts, hnd, hts, ?_, ?_, ?_⟩ <;> rw [← hts]
  exacts [detachForKill_issues o w x, detachForMigration_issues o w x, reattachFromGdb_issues o w x]

theorem processedLast_reachable {w₀ : World} (h₀ : w₀.state.tHead = [])
    (hr : Reachable arch o pid (PidFirst pid) w₀ w) : ProcessedLast o pid w :=
  have h := hr.induction (P := fun w => w.state.LiveNodup ∧ PidLast pid w.state)
    ⟨by simp [GlobalState.LiveNodup, h₀], by simp [PidLast, h₀]⟩
    fun _ _ _ h hc he => ⟨liveNodup_exec h.1 he, pidLast_exec h.2 h.1 hc he⟩
  processedLast_of_pidLast h.2 h.1

theorem thread_table_invariant {w₀ : World} (h₀ : w₀.state.LiveNodup)
    (hr : Reachable arch o pid (fun _ _ => True) w₀ w) :
    ThreadTableAt arch o pid w ∧
      (w₀.state.tHead = [] → Reachable arch o pid (PidFirst pid) w₀ w → ProcessedLast o pid w) :=
  ⟨threadTableAt_reachable h₀ hr, processedLast_reachable⟩

/-- Threads 1 and 2 registered, 1 first. -/
def twoThreads : World :=
  (registerThread Arch.int3 Oracle.accepting
    (registerThread Arch.int3 Oracle.accepting World.empty 1).1 2).1

theorem thread_table_invariant_two_threads :
    World.empty.state.LiveNodup ∧ World.empty.state.tHead = [] ∧
      Reachable Arch.int3 Oracle.accepting 1 (PidFirst 1) World.empty twoThreads ∧
      ThreadTableAt Arch.int3 Oracle.accepting 1 twoThreads ∧
      ProcessedLast Oracle.accepting 1 twoThreads :=
  have hr : Reachable Arch.int3 Oracle.accepting 1 (PidFirst 1) World.empty twoThreads :=
    .step (.registerThread 2) (.step (.registerThread 1) .init (fun _ => rfl) rfl)
      (fun h => nomatch h) rfl
  ⟨List.nodup_nil, rfl, hr,
    (thread_table_invariant (show World.empty.state.LiveNodup from List.nodup_nil)
      (hr.mono fun _ _ _ => trivial)).1,
    (thread_table_invariant (show World.empty.state.LiveNodup from List.nodup_nil)
      (hr.mono fun _ _ _ => trivial)).2 rfl hr⟩

/-! ## A thread registered again -/

/-- `register_thread`, `unregister_thread` and `register_thread` again, for a thread not live at
the start: the thread is live again in a new entry, whose registers a new `getregs` read, and
the dead list has gained the first entry, with the registers read when it was registered. -/
theorem thread_round_trip {w w₁ w₂ w₃ : World} {tid : Nat} (h : w.state.getThread tid = none)
    (h₁ : exec arch o pid (.registerThread tid) w = some w₁)
    (h₂ : exec arch o pid (.unregisterThread tid) w₁ = some w₂)
    (h₃ : exec arch o pid (.registerThread tid) w₂ = some w₃) :
    w₃.state.tHead = ⟨tid, (w₂.kernel.getregs o w₂.mem tid).2.getD default,
        ⟨arch.fpregsAvx, default⟩, 0⟩ :: w.state.tHead ∧
    w₃.state.deadTHead = ⟨tid, (w.kernel.getregs o w.mem tid).2.getD default,
        ⟨arch.fpregsAvx, default⟩, 0⟩ :: w.state.deadTHead := by
  simp only [exec, Option.some.injEq] at h₁ h₂ h₃
  subst h₁ h₂ h₃
  obtain ⟨ts, k, hw₁⟩ := registerThread_shape arch o w tid
  have e₁ := registerThread_of_none arch o h
  rw [hw₁] at e₁ ⊢
  dsimp only at e₁
  subst e₁
  simp only [GlobalState.unregisterThread, List.find?_cons_of_pos, List.eraseP_cons_of_pos,
    beq_self_eq_true]
  exact ⟨registerThread_of_none arch o h, registerThread_deadTHead _ _⟩

/-- Register the process's thread 1, free the list, register thread 2, then thread 1 again. -/
def freedThenRegistered : World :=
  let w₁ := (registerThread Arch.int3 Oracle.accepting World.empty 1).1
  let w₂ := (registerThread Arch.int3 Oracle.accepting { w₁ with state := w₁.state.freeThreadList } 2).1
  (registerThread Arch.int3 Oracle.accepting w₂ 1).1

/-- The first registration was the process's and it was never unregistered, yet its thread is
at the head of the live list, and `ptrace_detach_for_kill` detaches it first. -/
theorem pid_not_last_after_free :
    Reachable Arch.int3 Oracle.accepting 1 (fun _ _ => True) World.empty freedThenRegistered ∧
    freedThenRegistered.state.tHead.map (·.tid) = [1, 2] ∧
    Kernel.Issues Request.detached? freedThenRegistered.kernel
      (detachForKill Oracle.accepting freedThenRegistered 1).kernel [1, 2] :=
  have h : freedThenRegistered.state.tHead.map (·.tid) = [1, 2] := by decide
  ⟨.step (.registerThread 1) (.step (.registerThread 2) (.step .freeThreadList
    (.step (.registerThread 1) .init trivial rfl) trivial rfl) trivial rfl) trivial rfl,
    h, h ▸ detachForKill_issues Oracle.accepting freedThenRegistered 1⟩

end Libdebug
