import Libdebug.Session

/-!
# The breakpoint tables as maps

The software table is meant as a map from addresses to breakpoints, the hardware table as a map
from (thread, address) keys to entries.  `swView` and `hwView` read the lists as those maps, the
way the loops of the core look an entry up: the first entry with the key.

`TablesWF` is what makes the lists maps: software addresses strictly ascending, hardware keys
distinct.  It holds in every state of a session that starts with it (`tablesWF_reachable`), and
under it each table operation is one update of the map at its key (`ActsAsMaps`):
`register_breakpoint` enables the old entry or adds a new one that saves the word it read, the
unregistrations remove the key, and the enables and disables set the flag of the entry with the
key.
-/

namespace Libdebug

/-! ## Lookups in lists with distinct keys -/

section Keyed

variable {α β : Type} [DecidableEq β] {key : α → β} {l l' : List α} {x : β} {b : α}

theorem key_eq_of_find? (h : l.find? (fun e => key e = x) = some b) : key b = x := by
  simpa using List.find?_some h

theorem find?_key_eq_some_iff (hl : (l.map key).Nodup) :
    l.find? (fun e => key e = x) = some b ↔ b ∈ l ∧ key b = x := by
  refine ⟨fun h => ⟨List.mem_of_find?_eq_some h, key_eq_of_find? h⟩, ?_⟩
  rintro ⟨hb, rfl⟩
  obtain ⟨c, hc⟩ : ∃ c, l.find? (fun e => key e = key b) = some c :=
    Option.ne_none_iff_exists'.1 fun h => List.find?_eq_none.1 h b hb (by simp)
  rw [hc, List.inj_on_of_nodup_map hl (List.mem_of_find?_eq_some hc) hb (key_eq_of_find? hc)]

theorem find?_key_eq_none_iff : l.find? (fun e => key e = x) = none ↔ ∀ b ∈ l, key b ≠ x := by
  simp [List.find?_eq_none]

/-- Two lists with distinct keys and the same entries under `x` look `x` up alike. -/
theorem find?_key_congr (hl : (l.map key).Nodup) (hl' : (l'.map key).Nodup)
    (h : ∀ b, key b = x → (b ∈ l ↔ b ∈ l')) :
    l.find? (fun e => key e = x) = l'.find? (fun e => key e = x) :=
  Option.ext fun b => by
    simp only [Option.mem_def, find?_key_eq_some_iff hl, find?_key_eq_some_iff hl']
    exact and_congr_left (h b)

/-- With distinct keys, unlinking the first entry with key `x` keeps every other entry and
leaves none with `x`. -/
theorem mem_eraseP_key (hl : (l.map key).Nodup) {p : α → Bool}
    (hp : ∀ e, p e = true ↔ key e = x) : b ∈ l.eraseP p ↔ b ∈ l ∧ key b ≠ x := by
  by_cases hb : key b = x
  · refine iff_of_false (fun hm => ?_) fun h => h.2 hb
    obtain ⟨c, l₁, l₂, h₁, hc, rfl, he⟩ :=
      List.exists_of_eraseP (List.mem_of_mem_eraseP hm) ((hp b).2 hb)
    rw [he, List.mem_append] at hm
    rw [List.map_append, List.map_cons, List.nodup_append, List.nodup_cons] at hl
    rcases hm with hm | hm
    · exact h₁ b hm ((hp b).2 hb)
    · exact hl.2.1.1 (List.mem_map.2 ⟨b, hm, hb.trans ((hp c).1 hc).symm⟩)
  · rw [List.mem_eraseP_of_neg fun h => hb ((hp b).1 h)]
    exact (and_iff_left hb).symm

/-- A pass over the list that changes the entries with key `x` and keeps their key is one update
of the lookup at `x`. -/
theorem find?_key_map_update {g : α → α} (hg : ∀ e, key (g e) = key e) :
    (fun y => (l.map fun e => if key e = x then g e else e).find? (fun e => key e = y)) =
      Function.update (fun y => l.find? (fun e => key e = y)) x
        ((l.find? (fun e => key e = x)).map g) := by
  have hf : ∀ e, key (if key e = x then g e else e) = key e := fun e => by
    split_ifs <;> simp [hg]
  funext y
  simp only [List.find?_map, Function.comp_def, hf]
  by_cases hy : y = x
  · subst hy
    rw [Function.update_same]
    exact Option.map_congr fun e he => if_pos (key_eq_of_find? he)
  · rw [Function.update_noteq hy]
    refine (Option.map_congr fun e he => if_neg ?_).trans Option.map_id'
    exact fun h => hy ((key_eq_of_find? he).symm.trans h)

/-- With distinct keys, unlinking the first entry with key `x` is one update of the lookup: `x`
maps to nothing. -/
theorem find?_key_eraseP (hl : (l.map key).Nodup) {p : α → Bool}
    (hp : ∀ e, p e = true ↔ key e = x) :
    (fun y => (l.eraseP p).find? (fun e => key e = y)) =
      Function.update (fun y => l.find? (fun e => key e = y)) x none := by
  funext y
  by_cases hy : y = x
  · subst hy
    rw [Function.update_same]
    exact find?_key_eq_none_iff.2 fun b hb => ((mem_eraseP_key hl hp).1 hb).2
  · rw [Function.update_noteq hy]
    refine find?_key_congr (hl.sublist ((List.eraseP_sublist l).map key)) hl fun b hb => ?_
    rw [mem_eraseP_key hl hp]
    exact and_iff_left fun h => hy (hb ▸ h)

/-- Adding an entry `nb` with a key `x` no entry had is one update of the lookup: `x` maps to
`nb`. -/
theorem find?_key_insert (hl : (l.map key).Nodup) (hl' : (l'.map key).Nodup) {nb : α}
    (hnb : key nb = x) (habs : ∀ b ∈ l, key b ≠ x) (hmem : ∀ b, b ∈ l' ↔ b = nb ∨ b ∈ l) :
    (fun y => l'.find? (fun e => key e = y)) =
      Function.update (fun y => l.find? (fun e => key e = y)) x (some nb) := by
  funext y
  by_cases hy : y = x
  · subst hy
    rw [Function.update_same]
    exact (find?_key_eq_some_iff hl').2 ⟨(hmem nb).2 (.inl rfl), hnb⟩
  · rw [Function.update_noteq hy]
    refine find?_key_congr hl' hl fun b hb => ?_
    rw [hmem]
    exact or_iff_right fun h => hy (by rw [← hb, h, hnb])

end Keyed

/-! ## The views -/

/-- The software table as a map from addresses. -/
def swView (bps : List SoftwareBreakpoint) (address : Nat) : Option SoftwareBreakpoint :=
  bps.find? (·.addr = address)

/-- The hardware table as a map from (thread, address) keys. -/
def hwView (bps : List HardwareBreakpoint) (k : Nat × BitVec 64) : Option HardwareBreakpoint :=
  bps.find? fun e => (e.tid, e.addr) = k

/-- What makes the tables maps: software addresses strictly ascending, hardware keys distinct. -/
structure TablesWF (s : GlobalState) : Prop where
  sorted : Sorted s.swBHead
  keys : (s.hwBHead.map fun e => (e.tid, e.addr)).Nodup

theorem Sorted.addrs_nodup {l : List SoftwareBreakpoint} (hl : Sorted l) :
    (l.map (·.addr)).Nodup :=
  (List.pairwise_map.2 hl).imp ne_of_lt

/-- The loops of the hardware table find the entry the view holds. -/
theorem find?_isKey_eq_hwView (l : List HardwareBreakpoint) (tid : Nat) (address : BitVec 64) :
    l.find? (·.IsKey tid address) = hwView l (tid, address) :=
  congrArg l.find? (funext fun _ => Bool.eq_iff_iff.2 (isKey_iff.trans decide_eq_true_iff.symm))

variable (arch : Arch) (pid : Nat)

/-- The entry the software map holds at `address` after `register_breakpoint`: the old entry,
enabled, with its saved words kept; or a new enabled one that saves the word read at `address`
and its patched form. -/
def registeredEntry (w : World) (address : Nat) : SoftwareBreakpoint :=
  match swView w.state.swBHead address with
  | some b => { b with enabled := true }
  | none => ⟨address, peekData w.mem address, installBreakpoint arch (peekData w.mem address), true⟩

/-- Each table operation, applied to `w`, is one update of its table's map at its key, and
leaves the other keys alone. -/
structure ActsAsMaps (w : World) : Prop where
  register : ∀ address, swView (registerBreakpoint arch w pid address).state.swBHead =
    Function.update (swView w.state.swBHead) address (some (registeredEntry arch w address))
  unregister : ∀ address, swView (w.state.unregisterBreakpoint address).swBHead =
    Function.update (swView w.state.swBHead) address none
  enable : ∀ address, swView (w.state.enableBreakpoint address).swBHead =
    Function.update (swView w.state.swBHead) address
      ((swView w.state.swBHead address).map ({ · with enabled := true }))
  disable : ∀ address, swView (w.state.disableBreakpoint address).swBHead =
    Function.update (swView w.state.swBHead) address
      ((swView w.state.swBHead address).map ({ · with enabled := false }))
  registerHw : ∀ tid address type len,
    hwView (registerHwBreakpoint w tid address type len).state.hwBHead =
      Function.update (hwView w.state.hwBHead) (tid, address)
        (some ((hwView w.state.hwBHead (tid, address)).getD ⟨address, tid, true, type, len⟩))
  unregisterHw : ∀ tid address, hwView (unregisterHwBreakpoint w tid address).state.hwBHead =
    Function.update (hwView w.state.hwBHead) (tid, address) none
  enableHw : ∀ tid address, hwView (enableHwBreakpoint w tid address).state.hwBHead =
    Function.update (hwView w.state.hwBHead) (tid, address)
      ((hwView w.state.hwBHead (tid, address)).map ({ · with enabled := true }))
  disableHw : ∀ tid address, hwView (disableHwBreakpoint w tid address).state.hwBHead =
    Function.update (hwView w.state.hwBHead) (tid, address)
      ((hwView w.state.hwBHead (tid, address)).map ({ · with enabled := false }))

variable {arch pid}

/-! ## The software table -/

theorem swView_setBreakpointEnabled (l : List SoftwareBreakpoint) (address : Nat) (v : Bool) :
    swView (setBreakpointEnabled address v l) =
      Function.update (swView l) address ((swView l address).map ({ · with enabled := v })) :=
  @find?_key_map_update _ _ _ SoftwareBreakpoint.addr _ _ (fun b => { b with enabled := v }) fun _ => rfl

theorem swView_registerBreakpoint {w : World} (hl : Sorted w.state.swBHead) (address : Nat) :
    swView (registerBreakpoint arch w pid address).state.swBHead =
      Function.update (swView w.state.swBHead) address (some (registeredEntry arch w address)) := by
  by_cases hp : w.state.swBHead.any (·.addr == address)
  · obtain ⟨b, hb⟩ : ∃ b, swView w.state.swBHead address = some b :=
      Option.ne_none_iff_exists'.1 fun h => by
        obtain ⟨c, hc, hca⟩ := List.any_eq_true.1 hp
        exact find?_key_eq_none_iff.1 h c hc (by simpa using hca)
    simp only [registerBreakpoint, hp, if_true, enableFirst_eq_setBreakpointEnabled hl,
      swView_setBreakpointEnabled, registeredEntry, hb, Option.map_some']
  · have habs : ∀ c ∈ w.state.swBHead, c.addr ≠ address := fun c hc hca =>
      hp (List.any_eq_true.2 ⟨c, hc, by simp [hca]⟩)
    have hnone : swView w.state.swBHead address = none := find?_key_eq_none_iff.2 habs
    simp only [registerBreakpoint, hp, Bool.false_eq_true, if_false, registeredEntry, hnone]
    exact find?_key_insert hl.addrs_nodup (sorted_insertSorted hl habs).addrs_nodup rfl habs
      fun _ => mem_insertSorted

theorem swView_unregisterBreakpoint {s : GlobalState} (hl : Sorted s.swBHead) (address : Nat) :
    swView (s.unregisterBreakpoint address).swBHead =
      Function.update (swView s.swBHead) address none :=
  find?_key_eraseP hl.addrs_nodup fun _ => beq_iff_eq

/-! ## The hardware table -/

theorem hwView_registerHwBreakpoint {w : World} (tid : Nat) (address : BitVec 64)
    (type : Char × Char) (len : Nat) :
    hwView (registerHwBreakpoint w tid address type len).state.hwBHead =
      Function.update (hwView w.state.hwBHead) (tid, address)
        (some ((hwView w.state.hwBHead (tid, address)).getD ⟨address, tid, true, type, len⟩)) := by
  rw [← find?_isKey_eq_hwView]
  by_cases hp : w.state.hwBHead.any (·.IsKey tid address)
  · obtain ⟨b, hb⟩ := Option.ne_none_iff_exists'.1 fun h => by
      obtain ⟨c, hc, hck⟩ := List.any_eq_true.1 hp
      exact List.find?_eq_none.1 h c hc hck
    simp only [registerHwBreakpoint, hp, if_true, hb, Option.getD_some]
    rw [← hb, find?_isKey_eq_hwView, Function.update_eq_self]
  · have hnone : w.state.hwBHead.find? (·.IsKey tid address) = none :=
      List.find?_eq_none.2 fun c hc => by simpa using List.any_eq_false.1 (by simpa using hp) c hc
    simp only [registerHwBreakpoint, hp, Bool.false_eq_true, if_false, hnone, Option.getD_none]
    funext k
    by_cases hk : k = (tid, address)
    · subst hk
      simp [hwView]
    · simp [hwView, Function.update_noteq hk, Ne.symm hk]

theorem hwView_unregisterHwBreakpoint {w : World}
    (hk : (w.state.hwBHead.map fun e => (e.tid, e.addr)).Nodup) (tid : Nat) (address : BitVec 64) :
    hwView (unregisterHwBreakpoint w tid address).state.hwBHead =
      Function.update (hwView w.state.hwBHead) (tid, address) none := by
  unfold unregisterHwBreakpoint
  split
  · rename_i hf
    rw [find?_isKey_eq_hwView] at hf
    rw [← hf, Function.update_eq_self]
  · exact find?_key_eraseP hk fun _ => isKey_iff

theorem hwView_setHwEnabled {l : List HardwareBreakpoint}
    (hk : (l.map fun e => (e.tid, e.addr)).Nodup) (tid : Nat) (address : BitVec 64) (v : Bool)
    (user : Nat → Nat → BitVec 64) :
    hwView (setHwEnabled tid address v l user).1 =
      Function.update (hwView l) (tid, address)
        ((hwView l (tid, address)).map ({ · with enabled := v })) := by
  rw [setHwEnabled_eq hk]
  simp only [isKey_iff]
  exact @find?_key_map_update _ _ _ (fun e : HardwareBreakpoint => (e.tid, e.addr)) _ _
    (fun b => { b with enabled := v }) fun _ => rfl

/-! ## Whole sessions -/

variable {o : Oracle} {w w' : World}

/-- Under `TablesWF` every table operation is a map update. -/
theorem actsAsMaps_of_tablesWF (h : TablesWF w.state) : ActsAsMaps arch pid w where
  register := swView_registerBreakpoint h.sorted
  unregister := swView_unregisterBreakpoint h.sorted
  enable address := swView_setBreakpointEnabled _ address true
  disable address := swView_setBreakpointEnabled _ address false
  registerHw := hwView_registerHwBreakpoint
  unregisterHw := hwView_unregisterHwBreakpoint h.keys
  enableHw tid address := hwView_setHwEnabled h.keys tid address true w.user
  disableHw tid address := hwView_setHwEnabled h.keys tid address false w.user

theorem keys_registerHwBreakpoint (hk : (w.state.hwBHead.map fun e => (e.tid, e.addr)).Nodup)
    (tid : Nat) (address : BitVec 64) (type : Char × Char) (len : Nat) :
    ((registerHwBreakpoint w tid address type len).state.hwBHead.map
      fun e => (e.tid, e.addr)).Nodup := by
  unfold registerHwBreakpoint
  split_ifs with hp
  · exact hk
  · refine List.nodup_cons.2 ⟨fun hm => hp ?_, hk⟩
    obtain ⟨e, he, hek⟩ := List.mem_map.1 hm
    exact List.any_eq_true.2 ⟨e, he, isKey_iff.2 hek⟩

theorem keys_unregisterHwBreakpoint (hk : (w.state.hwBHead.map fun e => (e.tid, e.addr)).Nodup)
    (tid : Nat) (address : BitVec 64) :
    ((unregisterHwBreakpoint w tid address).state.hwBHead.map fun e => (e.tid, e.addr)).Nodup := by
  unfold unregisterHwBreakpoint
  split
  exacts [hk, hk.sublist ((List.eraseP_sublist _).map _)]

theorem sorted_exec {c : Call} (h : Sorted w.state.swBHead) (he : exec arch o pid c w = some w') :
    Sorted w'.state.swBHead := by
  rcases em c.TouchesCode with ht | ht
  swap
  · rw [(exec_code ht he).1]; exact h
  rcases em c.Runs with hr | hr
  · rw [(exec_frame hr he).sw]; exact h
  cases c <;> simp only [Call.TouchesCode, Call.Runs, not_true_eq_false] at ht hr <;>
    simp only [exec, Option.some.injEq] at he <;> subst he
  case registerBreakpoint address => exact sorted_registerBreakpoint arch h pid address
  case unregisterBreakpoint => exact sorted_eraseP h _
  case enableBreakpoint address => exact sorted_setBreakpointEnabled h address true
  case disableBreakpoint address => exact sorted_setBreakpointEnabled h address false
  case freeBreakpoints => exact List.Pairwise.nil
  case pokedata => exact h

theorem keys_exec {c : Call} (h : (w.state.hwBHead.map fun e => (e.tid, e.addr)).Nodup)
    (he : exec arch o pid c w = some w') : (w'.state.hwBHead.map fun e => (e.tid, e.addr)).Nodup := by
  rcases em c.Runs with hr | hr
  · rw [(exec_frame hr he).hw]; exact h
  rcases em c.TouchesDebugRegs with ht | ht
  swap
  · rw [(exec_debugRegs ht hr he).1]; exact h
  cases c <;> simp only [Call.TouchesDebugRegs, not_true_eq_false] at ht <;>
    simp only [exec, Option.some.injEq] at he <;> subst he
  case freeBreakpoints => exact List.nodup_nil
  case registerHwBreakpoint tid address type len =>
    exact keys_registerHwBreakpoint h tid address type len
  case unregisterHwBreakpoint tid address => exact keys_unregisterHwBreakpoint h tid address
  case enableHwBreakpoint =>
    simp only [enableHwBreakpoint, setHwEnabled_eq h]; exact keys_map_enabled h true
  case disableHwBreakpoint =>
    simp only [disableHwBreakpoint, setHwEnabled_eq h]; exact keys_map_enabled h false
  case pokeuser => exact h

theorem tablesWF_reachable {w₀ : World} (h₀ : TablesWF w₀.state)
    (hr : Reachable arch o pid (fun _ _ => True) w₀ w) : TablesWF w.state :=
  hr.induction (P := fun w => TablesWF w.state) h₀ fun _ _ _ h _ he => ⟨sorted_exec h.sorted he, keys_exec h.keys he⟩

theorem tables_are_maps {w₀ : World} (h₀ : TablesWF w₀.state)
    (hr : Reachable arch o pid (fun _ _ => True) w₀ w) : TablesWF w.state ∧ ActsAsMaps arch pid w :=
  have h := tablesWF_reachable h₀ hr
  ⟨h, actsAsMaps_of_tablesWF h⟩

theorem tables_are_maps_one_breakpoint :
    TablesWF World.empty.state ∧ TablesWF (registerBreakpoint Arch.int3 World.empty 1 0).state ∧
      ActsAsMaps Arch.int3 1 (registerBreakpoint Arch.int3 World.empty 1 0) :=
  ⟨⟨List.Pairwise.nil, List.nodup_nil⟩, tables_are_maps (o := Oracle.accepting)
    (⟨List.Pairwise.nil, List.nodup_nil⟩ : TablesWF World.empty.state) (.step (.registerBreakpoint 0) .init trivial rfl)⟩

/-! ## A registration undone, and one repeated -/

/-- `unregister_breakpoint` after `register_breakpoint` of an address the table does not hold
gives back the world as it was, but for the trap `register_breakpoint` wrote: unregistering
writes no memory.  On a table sorted by address, `register_breakpoint` of an address the table
holds is `enable_breakpoint` followed by the write of the trap over the word now in memory, and
the entry keeps the instruction it saved. -/
theorem register_breakpoint_round_trip (arch : Arch) (o : Oracle) (pid : Nat) (w : World)
    (address : Nat) :
    (w.state.swBHead.any (·.addr == address) = false →
      (exec arch o pid (.registerBreakpoint address) w).bind
          (exec arch o pid (.unregisterBreakpoint address)) =
        some (ptracePokedata w address (installBreakpoint arch (peekData w.mem address)))) ∧
    (Sorted w.state.swBHead → w.state.swBHead.any (·.addr == address) = true →
      exec arch o pid (.registerBreakpoint address) w =
        (exec arch o pid (.enableBreakpoint address) w).map
          (ptracePokedata · address (installBreakpoint arch (peekData w.mem address)))) := by
  refine ⟨fun hfresh => ?_, fun hs hknown => ?_⟩
  · have hnone : ∀ c ∈ w.state.swBHead, (c.addr == address) = false := fun c hc => by
      simpa using List.any_eq_false.1 hfresh c hc
    simp only [exec, Option.some_bind, registerBreakpoint, hfresh, Bool.false_eq_true, if_false,
      GlobalState.unregisterBreakpoint, eraseP_insertSorted (b := ⟨address, peekData w.mem address,
        installBreakpoint arch (peekData w.mem address), true⟩) (beq_self_eq_true address) hnone]
    rfl
  · simp only [exec, Option.map_some', registerBreakpoint, hknown, if_true,
      enableFirst_eq_setBreakpointEnabled hs]
    rfl

/-- The session after one `register_breakpoint` at address 0 on the empty world. -/
def oneBreakpoint : World := registerBreakpoint Arch.int3 World.empty 1 0

theorem register_breakpoint_round_trip_at_zero :
    (exec Arch.int3 Oracle.accepting 1 (.registerBreakpoint 0) World.empty).bind
        (exec Arch.int3 Oracle.accepting 1 (.unregisterBreakpoint 0)) =
      some (ptracePokedata World.empty 0 (installBreakpoint Arch.int3 (peekData World.empty.mem 0))) ∧
    exec Arch.int3 Oracle.accepting 1 (.registerBreakpoint 0) oneBreakpoint =
      (exec Arch.int3 Oracle.accepting 1 (.enableBreakpoint 0) oneBreakpoint).map
        (ptracePokedata · 0 (installBreakpoint Arch.int3 (peekData oneBreakpoint.mem 0))) :=
  ⟨(register_breakpoint_round_trip Arch.int3 Oracle.accepting 1 World.empty 0).1 rfl,
    (register_breakpoint_round_trip Arch.int3 Oracle.accepting 1 oneBreakpoint 0).2
      (@sorted_registerBreakpoint Arch.int3 World.empty List.Pairwise.nil 1 0) rfl⟩

end Libdebug
