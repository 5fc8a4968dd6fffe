import Libdebug.State

/-!
# The thread table

`register_thread`, `unregister_thread`, `get_thread`, `get_thread_fp_regs` and
`free_thread_list`.  Only `register_thread` talks to the kernel, to fill a new cache; the
others move entries between the live list (`t_HEAD`) and the dead list (`dead_t_HEAD`).

The C functions stop at the first entry with a matching id, so they are `find?` and `eraseP`
here.  The table's invariant, that live ids are distinct, is `LiveNodup`; under it the first
match is the only one.
-/

namespace Libdebug

namespace GlobalState

/-- `get_thread`: the first live thread with this id. -/
def getThread (s : GlobalState) (tid : Nat) : Option Thread := s.tHead.find? (·.tid == tid)

/-- `get_thread_fp_regs`. -/
def getThreadFpRegs (s : GlobalState) (tid : Nat) : Option FpRegs :=
  (s.getThread tid).map (·.fpregs)

/-- `unregister_thread`: unlink the first live thread with this id and push it, unchanged, on
the dead list. -/
def unregisterThread (s : GlobalState) (tid : Nat) : GlobalState :=
  match s.tHead.find? (·.tid == tid) with
  | none => s
  | some t => { s with tHead := s.tHead.eraseP (·.tid == tid), deadTHead := t :: s.deadTHead }

/-- `free_thread_list`. -/
def freeThreadList (s : GlobalState) : GlobalState := { s with tHead := [], deadTHead := [] }

/-- A write by the caller through the pointer `register_thread` or `get_thread` handed out: it
reaches the first live thread with this id. -/
def modifyThread (s : GlobalState) (tid : Nat) (f : Thread → Thread) : GlobalState :=
  { s with tHead := s.tHead.modify f (s.tHead.findIdx (·.tid == tid)) }

/-- Live thread ids are pairwise distinct. -/
def LiveNodup (s : GlobalState) : Prop := (s.tHead.map (·.tid)).Nodup

end GlobalState

variable (arch : Arch) (o : Oracle)

/-- `register_thread`: the cached registers of the live thread with this id; a thread not yet
live gets a new entry at the head of the list, its cache read from the kernel.  When that read
fails the new cache is the unread block. -/
def registerThread (w : World) (tid : Nat) : World × Regs :=
  match w.state.getThread tid with
  | some t => (w, t.regs)
  | none =>
    let g := w.kernel.getregs o w.mem tid
    let t : Thread := ⟨tid, g.2.getD default, ⟨arch.fpregsAvx, default⟩, 0⟩
    ({ w with state := { w.state with tHead := t :: w.state.tHead }, kernel := g.1 }, t.regs)

/-! ## What each operation does to the lists -/

/-- Rewriting one entry in place keeps what the rewrite keeps. -/
theorem map_modify_of {β : Type} {g : Thread → β} {f : Thread → Thread} (hf : ∀ t, g (f t) = g t)
    (l : List Thread) (i : Nat) : (l.modify f i).map g = l.map g := by
  apply List.ext_getElem (by simp)
  intro n h₁ h₂
  simp only [List.getElem_map, List.getElem_modify]
  split <;> simp [hf]

/-- Rewriting one entry in place keeps the ids when the rewrite does. -/
theorem tids_modify {f : Thread → Thread} (hf : ∀ t, (f t).tid = t.tid) (l : List Thread)
    (i : Nat) : (l.modify f i).map (·.tid) = l.map (·.tid) :=
  map_modify_of hf l i

namespace GlobalState

variable {s : GlobalState} {tid : Nat}

theorem getThread_eq_none : s.getThread tid = none ↔ tid ∉ s.tHead.map (·.tid) := by
  simp [getThread, List.find?_eq_none]

theorem getThread_tid {t : Thread} (h : s.getThread tid = some t) : t.tid = tid := by
  simpa using List.find?_some h

theorem getThread_mem {t : Thread} (h : s.getThread tid = some t) : t ∈ s.tHead :=
  List.mem_of_find?_eq_some h

theorem unregisterThread_of_none (h : s.getThread tid = none) : s.unregisterThread tid = s := by
  simp only [unregisterThread]
  rw [show s.tHead.find? _ = none from h]

theorem unregisterThread_of_some {t : Thread} (h : s.getThread tid = some t) :
    s.unregisterThread tid =
      { s with tHead := s.tHead.eraseP (·.tid == tid), deadTHead := t :: s.deadTHead } := by
  simp only [unregisterThread]
  rw [show s.tHead.find? _ = some t from h]

/-- With distinct ids, removing the first match removes every entry with that id and keeps
the others in order. -/
theorem eraseP_tid_eq_filter (hs : s.LiveNodup) :
    s.tHead.eraseP (·.tid == tid) = s.tHead.filter (fun t => !(t.tid == tid)) := by
  unfold LiveNodup at hs
  generalize s.tHead = l at hs
  induction l with
  | nil => rfl
  | cons t ts ih =>
    simp only [List.map_cons, List.nodup_cons, List.mem_map] at hs
    by_cases h : t.tid = tid
    · subst h
      have : ∀ u ∈ ts, (!(u.tid == t.tid)) = true := fun u hu => by
        simpa using fun e => hs.1 ⟨u, hu, e⟩
      rw [List.eraseP_cons_of_pos (by simp), List.filter_cons_of_neg (by simp),
        List.filter_eq_self.2 this]
    · simp [List.eraseP_cons_of_neg, h, ih hs.2]

theorem liveNodup_unregisterThread (hs : s.LiveNodup) : (s.unregisterThread tid).LiveNodup := by
  cases h : s.getThread tid with
  | none => rwa [unregisterThread_of_none h]
  | some t =>
    rw [unregisterThread_of_some h]
    exact (List.eraseP_sublist _).map _ |>.nodup hs

end GlobalState

theorem registerThread_of_some {w : World} {tid : Nat} {t : Thread}
    (h : w.state.getThread tid = some t) : registerThread arch o w tid = (w, t.regs) := by
  simp [registerThread, h]

theorem registerThread_of_none {w : World} {tid : Nat} (h : w.state.getThread tid = none) :
    (registerThread arch o w tid).1.state.tHead =
      ⟨tid, (w.kernel.getregs o w.mem tid).2.getD default, ⟨arch.fpregsAvx, default⟩, 0⟩ ::
        w.state.tHead := by
  simp [registerThread, h]

theorem liveNodup_registerThread {w : World} (hs : w.state.LiveNodup) (tid : Nat) :
    (registerThread arch o w tid).1.state.LiveNodup := by
  cases h : w.state.getThread tid with
  | some t => rwa [registerThread_of_some arch o h]
  | none =>
    simp only [GlobalState.LiveNodup, registerThread_of_none arch o h, List.map_cons,
      List.nodup_cons]
    exact ⟨GlobalState.getThread_eq_none.1 h, hs⟩

end Libdebug
