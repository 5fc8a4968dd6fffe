import Libdebug.Protocol

/-!
# The general registers on AArch64

On AArch64 `getregs` and `setregs` move a thread's registers with `PTRACE_GETREGSET` and
`PTRACE_SETREGSET` of `NT_PRSTATUS`, and `struct ptrace_regs_struct` carries one field of the
core's own, `override_syscall_number`.  The caller sets it, with the new number in `x8`, to
change the system call a thread stopped at a system call's entry is about to make.  `setregs`
then first writes `x8` to the thread's `NT_ARM_SYSTEM_CALL` regset and clears the flag, whatever
that write answered; `getregs` clears the flag before it reads.  The flag lies past the
`user_pt_regs` block that `NT_PRSTATUS` moves, so the kernel neither reads nor writes it.  The
kernel side is a record per thread, as the x86_64 user area is, and whether each request
succeeds is an input: every result holds for all answers.

The register flush that opens `singlestep`, `step_until` and `prepare_for_run` calls `setregs`
for every live thread.  It writes one system call number per thread whose flag is set, in list
order, and none for the others, and leaves every flag clear and every block as it was, so a
second flush writes none: a pending override is applied once (`flush_applies_override_once`).
Registers a successful `setregs` wrote are what a successful `getregs` reads back, the number
`setregs` writes is `x8`, and a `getregs` in between cancels a pending override, even when it
fails (`setregs_getregs_arm`).  With its system call writes left out, the AArch64 flush issues
the requests of the architecture-independent `flushRegs`, one for one
(`flush_arm_refines_flushRegs`).
-/

namespace Libdebug

/-- The registers `NT_PRSTATUS` moves (`struct user_pt_regs`): `x8`, which holds the system
call number at a system call's entry, and the others as one block. -/
structure ArmUserRegs where
  x8 : BitVec 64
  rest : Nat
  deriving DecidableEq, Repr

/-- `struct ptrace_regs_struct` on AArch64: the `user_pt_regs` block, then the core's flag
`override_syscall_number`. -/
structure ArmRegs where
  user : ArmUserRegs
  overrideSyscallNumber : Bool
  deriving DecidableEq, Repr

/-- A live thread's entry, as far as the register code reads it. -/
structure ArmThread where
  tid : Nat
  regs : ArmRegs
  deriving DecidableEq, Repr

/-- The regset requests of `getregs` and `setregs`. -/
inductive ArmRegsRequest where
  | getPrstatus (tid : Nat)
  | setPrstatus (tid : Nat)
  | setSystemCall (tid : Nat)
  deriving DecidableEq, Repr

/-- The kernel's side: each thread's `NT_PRSTATUS` block, the word last written to its
`NT_ARM_SYSTEM_CALL` regset, and the requests issued so far, newest first. -/
structure ArmCpu where
  prstatus : Nat → ArmUserRegs
  syscallWord : Nat → BitVec 64
  log : List ArmRegsRequest

variable (ok : Nat → Bool)

/-- Issue a request; `ok n` says whether the `n`-th request of the run succeeds. -/
def ArmCpu.issue (cpu : ArmCpu) (req : ArmRegsRequest) : ArmCpu × Bool :=
  ({ cpu with log := req :: cpu.log }, ok cpu.log.length)

/-- `getregs` on AArch64: clear the flag, then `PTRACE_GETREGSET` of `NT_PRSTATUS`, which on
success fills the block; 0 or -1 as `ptrace` returns. -/
def getregsArm (cpu : ArmCpu) (tid : Nat) (regs : ArmRegs) : (ArmCpu × ArmRegs) × Int :=
  let r := cpu.issue ok (.getPrstatus tid)
  if r.2 then ((r.1, ⟨cpu.prstatus tid, false⟩), 0)
  else ((r.1, { regs with overrideSyscallNumber := false }), -1)

/-- The `NT_ARM_SYSTEM_CALL` write that opens `setregs` while the flag is set, and the clearing
of the flag, whatever the write answered. -/
def applyOverride (cpu : ArmCpu) (tid : Nat) (regs : ArmRegs) : ArmCpu × ArmRegs :=
  if regs.overrideSyscallNumber then
    let r := cpu.issue ok (.setSystemCall tid)
    (if r.2 then { r.1 with syscallWord := Function.update cpu.syscallWord tid regs.user.x8 }
      else r.1, { regs with overrideSyscallNumber := false })
  else (cpu, regs)

/-- `setregs` on AArch64: the override, then `PTRACE_SETREGSET` of `NT_PRSTATUS` with the
block; the entry keeps the cleared flag. -/
def setregsArm (cpu : ArmCpu) (tid : Nat) (regs : ArmRegs) : (ArmCpu × ArmRegs) × Int :=
  let s := applyOverride ok cpu tid regs
  let r := s.1.issue ok (.setPrstatus tid)
  ((if r.2 then { r.1 with prstatus := Function.update r.1.prstatus tid s.2.user } else r.1, s.2),
    if r.2 then 0 else -1)

/-- The register flush that opens `singlestep`, `step_until` and `prepare_for_run` on AArch64:
`setregs` of every live thread in list order, failures reported and skipped. -/
def flushRegsArm : ArmCpu → List ArmThread → ArmCpu × List ArmThread
  | cpu, [] => (cpu, [])
  | cpu, t :: ts =>
    let s := setregsArm ok cpu t.tid t.regs
    let r := flushRegsArm s.1.1 ts
    (r.1, { t with regs := s.1.2 } :: r.2)

/-- The requests of one `setregs`, oldest first: the system call number while the flag is set,
then the block. -/
def setregsRequests (tid : Nat) (regs : ArmRegs) : List ArmRegsRequest :=
  (if regs.overrideSyscallNumber then [.setSystemCall tid] else []) ++ [.setPrstatus tid]

/-! ## One call -/

section Calls

variable {ok} (cpu : ArmCpu) (tid : Nat) (regs : ArmRegs)

/-- Whatever the kernel answers, `setregs` leaves the flag clear and the block as it was. -/
theorem setregsArm_regs : (setregsArm ok cpu tid regs).1.2 =
    { regs with overrideSyscallNumber := false } := by
  obtain ⟨user, _ | _⟩ := regs <;> rfl

theorem setregsArm_log : (setregsArm ok cpu tid regs).1.1.log =
    (setregsRequests tid regs).reverse ++ cpu.log := by
  obtain ⟨user, _ | _⟩ := regs <;>
    simp only [setregsArm, applyOverride, ArmCpu.issue, Bool.false_eq_true, if_false, if_true] <;>
    split_ifs <;> rfl

/-- A `setregs` whose block write succeeded left the block in the kernel. -/
theorem setregsArm_prstatus (h : (setregsArm ok cpu tid regs).2 = 0) :
    (setregsArm ok cpu tid regs).1.1.prstatus tid = regs.user := by
  by_cases hok : ok (applyOverride ok cpu tid regs).1.log.length
  · have hu : (applyOverride ok cpu tid regs).2.user = regs.user := by
      simpa using congrArg ArmRegs.user (setregsArm_regs cpu tid regs)
    simp [setregsArm, ArmCpu.issue, hok, hu]
  · simp [setregsArm, ArmCpu.issue, hok] at h

/-- While the flag is set and the first write succeeds, the kernel's system call number is `x8`. -/
theorem setregsArm_syscallWord (h : regs.overrideSyscallNumber = true)
    (hok : ok cpu.log.length = true) :
    (setregsArm ok cpu tid regs).1.1.syscallWord tid = regs.user.x8 := by
  simp only [setregsArm, applyOverride, h, hok, if_true, ArmCpu.issue]
  split_ifs <;> simp

theorem getregsArm_eq : getregsArm ok cpu tid regs =
    if ok cpu.log.length then (({ cpu with log := .getPrstatus tid :: cpu.log },
      ⟨cpu.prstatus tid, false⟩), 0)
    else (({ cpu with log := .getPrstatus tid :: cpu.log },
      { regs with overrideSyscallNumber := false }), -1) := rfl

/-- A successful `getregs` reads the kernel's block, with the flag clear. -/
theorem getregsArm_of_ok (h : (getregsArm ok cpu tid regs).2 = 0) :
    (getregsArm ok cpu tid regs).1.2 = ⟨cpu.prstatus tid, false⟩ := by
  rw [getregsArm_eq] at h ⊢
  split_ifs at h ⊢
  · rfl
  · simp at h

end Calls

/-! ## The flush -/

/-- After the flush every entry has its flag clear and its block as before. -/
theorem flushRegsArm_threads : ∀ (cpu : ArmCpu) (ts : List ArmThread),
    (flushRegsArm ok cpu ts).2 =
      ts.map fun t => { t with regs := { t.regs with overrideSyscallNumber := false } }
  | _, [] => rfl
  | cpu, t :: ts => by
    simp only [flushRegsArm, List.map_cons, setregsArm_regs, flushRegsArm_threads _ ts]

/-- The requests of a flush, oldest first: each live thread's `setregs` in list order. -/
theorem flushRegsArm_log : ∀ (cpu : ArmCpu) (ts : List ArmThread), ∃ new,
    (flushRegsArm ok cpu ts).1.log = new ++ cpu.log ∧
      new.reverse = ts.flatMap fun t => setregsRequests t.tid t.regs
  | cpu, [] => ⟨[], rfl, rfl⟩
  | cpu, t :: ts => by
    obtain ⟨new, hlog, hreq⟩ := flushRegsArm_log (setregsArm ok cpu t.tid t.regs).1.1 ts
    refine ⟨new ++ (setregsRequests t.tid t.regs).reverse, ?_, ?_⟩
    · simp only [flushRegsArm, hlog, setregsArm_log, List.append_assoc]
    · simp [hreq]

/-- The flush applies every pending system-call override once.  Its requests are, for each live
thread in list order, the write of `x8` to `NT_ARM_SYSTEM_CALL` if the thread's flag is set and
then the write of its block; it leaves every flag clear and every block as it was; so a second
flush writes the blocks alone. -/
theorem flush_applies_override_once (cpu : ArmCpu) (ts : List ArmThread) :
    (flushRegsArm ok cpu ts).2 =
      ts.map (fun t => { t with regs := { t.regs with overrideSyscallNumber := false } }) ∧
    (∃ new, (flushRegsArm ok cpu ts).1.log = new ++ cpu.log ∧
      new.reverse = ts.flatMap fun t => setregsRequests t.tid t.regs) ∧
    ∃ new, (flushRegsArm ok (flushRegsArm ok cpu ts).1 (flushRegsArm ok cpu ts).2).1.log =
        new ++ (flushRegsArm ok cpu ts).1.log ∧
      new.reverse = ts.map fun t => .setPrstatus t.tid := by
  refine ⟨flushRegsArm_threads ok cpu ts, flushRegsArm_log ok cpu ts, ?_⟩
  obtain ⟨new, hlog, hreq⟩ := flushRegsArm_log ok (flushRegsArm ok cpu ts).1
    (flushRegsArm ok cpu ts).2
  refine ⟨new, hlog, hreq.trans ?_⟩
  rw [flushRegsArm_threads, List.flatMap_map, List.map_eq_flatMap]
  simp [setregsRequests]

/-- The register round trip on AArch64.  Registers a successful `setregs` wrote are what a
successful `getregs` reads back, with the flag clear; the system call number `setregs` writes
while the flag is set is `x8`; and `getregs` clears the flag whatever the kernel answers, so a
read before the next write cancels a pending override. -/
theorem setregs_getregs_arm (cpu : ArmCpu) (tid : Nat) (regs r : ArmRegs) :
    ((setregsArm ok cpu tid regs).2 = 0 →
      (getregsArm ok (setregsArm ok cpu tid regs).1.1 tid r).2 = 0 →
        (getregsArm ok (setregsArm ok cpu tid regs).1.1 tid r).1.2 =
          { regs with overrideSyscallNumber := false }) ∧
    (regs.overrideSyscallNumber = true → ok cpu.log.length = true →
      (setregsArm ok cpu tid regs).1.1.syscallWord tid = regs.user.x8) ∧
    (getregsArm ok cpu tid r).1.2.overrideSyscallNumber = false := by
  refine ⟨fun hset hget => ?_, setregsArm_syscallWord cpu tid regs, ?_⟩
  · rw [getregsArm_of_ok _ tid r hget, setregsArm_prstatus cpu tid regs hset]
  · rw [getregsArm_eq]; split_ifs <;> rfl

/-! ## Against the architecture-independent model -/

/-- The request of the architecture-independent model an AArch64 regset request stands for: the
block's read and write are `getregs` and `setregs`; the system call write has none. -/
def ArmRegsRequest.toRequest? : ArmRegsRequest → Option Request
  | .getPrstatus tid => some (.getregs tid)
  | .setPrstatus tid => some (.setregs tid)
  | .setSystemCall _ => none

theorem setregsRequests_toRequest (tid : Nat) (regs : ArmRegs) :
    (setregsRequests tid regs).filterMap ArmRegsRequest.toRequest? = [.setregs tid] := by
  unfold setregsRequests; split_ifs <;> rfl

/-- The requests of `flushRegs`, oldest first: one `setregs` per entry in list order. -/
theorem flushRegs_sends (o : Oracle) (mem : Memory) : ∀ (ts : List Thread) (k : Kernel),
    Kernel.Sends (fun _ => true) k (flushRegs o mem ts k) (ts.map fun t => .setregs t.tid)
  | [], _ => .of_log_eq rfl
  | t :: ts, k => by
    simpa using (Kernel.setregs_sends o mem k t.tid t.regs).trans (flushRegs_sends o mem ts _)

/-- The AArch64 flush refines the architecture-independent one: with its system call writes left
out, its requests are, one for one and in order, those `flushRegs` issues for the same threads,
whatever AArch64 registers the threads hold. -/
theorem flush_arm_refines_flushRegs (o : Oracle) (mem : Memory) (k : Kernel) (cpu : ArmCpu)
    (ts : List Thread) (view : Thread → ArmRegs) :
    ∃ newArm new,
      (flushRegsArm ok cpu (ts.map fun t => ⟨t.tid, view t⟩)).1.log = newArm ++ cpu.log ∧
      (flushRegs o mem ts k).log = new ++ k.log ∧
      newArm.reverse.filterMap ArmRegsRequest.toRequest? = new.reverse.map (·.req) := by
  obtain ⟨newArm, hArm, hreqArm⟩ := flushRegsArm_log ok cpu (ts.map fun t => ⟨t.tid, view t⟩)
  obtain ⟨new, hlog, hreq⟩ := flushRegs_sends o mem ts k
  refine ⟨newArm, new, hArm, hlog, ?_⟩
  rw [List.filter_true] at hreq
  rw [hreq, hreqArm, List.filterMap_flatMap, List.flatMap_map, List.map_eq_flatMap]
  simp only [setregsRequests_toRequest]

end Libdebug
