import Libdebug.Memory

/-!
# The core's records and the kernel it drives

The structures of `ptrace_cffi_source.c` as records, the lists behind their `next` pointers as
Lean lists in the same order, and `struct global_state` holding the four list heads.

The kernel is the other party.  Tracee memory and the user areas (where the x86_64 debug
registers live) are read and written by requests whose result the state decides.  The other
requests are answered by an oracle: whether the request succeeds, which registers a resumed
thread stops with, which status a wait reports.  A `Kernel` records the registers the kernel
holds for each thread, how many answers were taken, and every request issued together with
the memory and the thread's instruction pointer at that moment.  The log is never read by the
core; it is how a theorem says what held when a request was issued.  Every result is proved
for all oracles, so for every behaviour of the tracee.
-/

namespace Libdebug

/-- `struct ptrace_regs_struct`.  Its layout comes from the build; the core reads only the
instruction pointer (`INSTRUCTION_POINTER`), the rest moves as one block. -/
structure Regs where
  ip : Nat
  rest : Nat
  deriving DecidableEq, Repr, Inhabited

/-- `struct fp_regs_struct`: the extended-state kind tag and the block behind it. -/
structure FpRegs where
  type : Nat
  xsave : Nat
  deriving DecidableEq, Repr, Inhabited

/-- `struct thread`. -/
structure Thread where
  tid : Nat
  regs : Regs
  fpregs : FpRegs
  signalToForward : Nat
  deriving DecidableEq, Repr

/-- `struct software_breakpoint`. -/
structure SoftwareBreakpoint where
  addr : Nat
  instruction : Word
  patchedInstruction : Word
  enabled : Bool
  deriving DecidableEq

/-- `struct hardware_breakpoint`; `type` is the two characters of `char type[2]`. -/
structure HardwareBreakpoint where
  addr : BitVec 64
  tid : Nat
  enabled : Bool
  type : Char × Char
  len : Nat
  deriving DecidableEq, Repr

/-- `struct thread_status`: a thread id and a raw wait status, as `waitpid` returned them. -/
structure ThreadStatus where
  tid : Int
  status : Int
  deriving DecidableEq, Repr

/-- `struct global_state`. -/
structure GlobalState where
  tHead : List Thread
  deadTHead : List Thread
  swBHead : List SoftwareBreakpoint
  hwBHead : List HardwareBreakpoint
  handleSyscallEnabled : Bool

/-- Signal numbers from `<signal.h>` on Linux. -/
def sigkill : Nat := 9
def sigcont : Nat := 18
def sigstop : Nat := 19

/-- The requests the kernel answers.  `tgkill` and `kill` are the signal system calls; the
others are `ptrace` requests. -/
inductive Request where
  | getregs (tid : Nat)
  | setregs (tid : Nat)
  | singlestep (tid : Nat) (sig : Nat)
  | cont (tid : Nat) (sig : Nat)
  | syscall (tid : Nat) (sig : Nat)
  | attach (tid : Nat)
  | detach (tid : Nat)
  | tgkill (tid : Nat) (sig : Nat)
  | kill (pid : Nat) (sig : Nat)
  deriving DecidableEq, Repr

/-- The thread a request is about. -/
def Request.tid : Request → Nat
  | getregs t | setregs t | singlestep t _ | cont t _ | syscall t _ | attach t | detach t
  | tgkill t _ | kill t _ => t

/-- `PTRACE_CONT` or `PTRACE_SYSCALL`: the requests that let a thread run freely. -/
def Request.IsCont : Request → Prop
  | cont .. | syscall .. => True
  | _ => False

instance : DecidablePred Request.IsCont := fun r => by
  cases r <;> simp only [Request.IsCont] <;> infer_instance

/-- A request as the kernel received it: whether it succeeded, and the instruction pointer of
its thread and the memory at that moment. -/
structure Event where
  req : Request
  ok : Bool
  ip : Nat
  mem : Memory

/-- One answer of the kernel.  A request uses the fields that concern it: `ok` for success,
`regs` for the registers a resumed thread next stops with, `tid` and `status` for a wait, and
`ready` for the statuses a non-blocking wait loop collects. -/
structure Reply where
  ok : Bool
  regs : Regs
  tid : Int
  status : Int
  ready : List (Int × Int)

/-- The kernel's answers, in the order they are taken. -/
abbrev Oracle := Nat → Reply

/-- The kernel's side of the threads: the registers it holds for each, how many answers have
been taken, and the requests issued so far, newest first. -/
structure Kernel where
  regs : Nat → Regs
  clock : Nat
  log : List Event

namespace Kernel

variable (o : Oracle)

/-- Issue a request and take the kernel's answer.  The request is logged with the memory and
its thread's instruction pointer at that moment. -/
def issue (mem : Memory) (k : Kernel) (req : Request) : Kernel × Reply :=
  (⟨k.regs, k.clock + 1, ⟨req, (o k.clock).ok, (k.regs req.tid).ip, mem⟩ :: k.log⟩, o k.clock)

/-- `getregs`: the kernel's registers for `tid`, if the request succeeds. -/
def getregs (mem : Memory) (k : Kernel) (tid : Nat) : Kernel × Option Regs :=
  ((k.issue o mem (.getregs tid)).1, if (o k.clock).ok then some (k.regs tid) else none)

/-- `setregs`: on success the kernel holds `regs` for `tid`. -/
def setregs (mem : Memory) (k : Kernel) (tid : Nat) (regs : Regs) : Kernel × Bool :=
  let k' := (k.issue o mem (.setregs tid)).1
  (if (o k.clock).ok then { k' with regs := Function.update k'.regs tid regs } else k',
    (o k.clock).ok)

/-- A resume request (`PTRACE_SINGLESTEP`, `PTRACE_CONT`, `PTRACE_SYSCALL`).  On success the
thread runs, and when it next stops the kernel holds the answer's registers for it. -/
def resume (mem : Memory) (k : Kernel) (req : Request) : Kernel × Bool :=
  let k' := (k.issue o mem req).1
  (if (o k.clock).ok then { k' with regs := Function.update k'.regs req.tid (o k.clock).regs }
    else k', (o k.clock).ok)

/-- `waitpid`: the next status the kernel reports. -/
def waitpid (k : Kernel) : Kernel × Reply := ({ k with clock := k.clock + 1 }, o k.clock)

/-- `k'` is `k` after further requests, each satisfying `P`: the log keeps the older requests
and puts the new ones, newest first, in front of them. -/
def Logs (P : Event → Prop) (k k' : Kernel) : Prop := ∃ new, k'.log = new ++ k.log ∧ ∀ e ∈ new, P e

theorem Logs.refl (P : Event → Prop) (k : Kernel) : Logs P k k := ⟨[], rfl, by simp⟩

theorem Logs.trans {P : Event → Prop} {k₁ k₂ k₃ : Kernel} (h₁ : Logs P k₁ k₂) (h₂ : Logs P k₂ k₃) :
    Logs P k₁ k₃ := by
  obtain ⟨n₁, e₁, p₁⟩ := h₁
  obtain ⟨n₂, e₂, p₂⟩ := h₂
  refine ⟨n₂ ++ n₁, by rw [e₂, e₁, List.append_assoc], fun e he => ?_⟩
  rcases List.mem_append.1 he with he | he
  exacts [p₂ e he, p₁ e he]

theorem Logs.mono {P Q : Event → Prop} (hPQ : ∀ e, P e → Q e) {k k' : Kernel} (h : Logs P k k') :
    Logs Q k k' :=
  let ⟨new, hlog, hP⟩ := h
  ⟨new, hlog, fun e he => hPQ e (hP e he)⟩

/-- Between `k` and `k'`, the requests `sel` picks out were, oldest first, about the threads
`l`. -/
def Issues (sel : Request → Option Nat) (k k' : Kernel) (l : List Nat) : Prop :=
  ∃ new, k'.log = new ++ k.log ∧ new.reverse.filterMap (sel ·.req) = l

theorem Issues.trans {sel : Request → Option Nat} {k₁ k₂ k₃ : Kernel} {l₁ l₂ : List Nat}
    (h₁ : Issues sel k₁ k₂ l₁) (h₂ : Issues sel k₂ k₃ l₂) : Issues sel k₁ k₃ (l₁ ++ l₂) := by
  obtain ⟨n₁, e₁, p₁⟩ := h₁
  obtain ⟨n₂, e₂, p₂⟩ := h₂
  exact ⟨n₂ ++ n₁, by rw [e₂, e₁, List.append_assoc], by simp [List.filterMap_append, p₁, p₂]⟩

@[simp] theorem issue_regs (mem : Memory) (k : Kernel) (req : Request) :
    (k.issue o mem req).1.regs = k.regs := rfl

@[simp] theorem issue_log (mem : Memory) (k : Kernel) (req : Request) :
    (k.issue o mem req).1.log = ⟨req, (o k.clock).ok, (k.regs req.tid).ip, mem⟩ :: k.log := rfl

@[simp] theorem issue_snd (mem : Memory) (k : Kernel) (req : Request) :
    (k.issue o mem req).2 = o k.clock := rfl

@[simp] theorem issue_clock (mem : Memory) (k : Kernel) (req : Request) :
    (k.issue o mem req).1.clock = k.clock + 1 := rfl

@[simp] theorem waitpid_regs (k : Kernel) : (k.waitpid o).1.regs = k.regs := rfl

@[simp] theorem waitpid_log (k : Kernel) : (k.waitpid o).1.log = k.log := rfl

/-! What a request logs: itself, with the memory it was issued with. -/

variable {P : Event → Prop} {mem : Memory} {k : Kernel}

theorem issue_logs {req : Request} (h : ∀ ok ip, P ⟨req, ok, ip, mem⟩) :
    Logs P k (k.issue o mem req).1 := ⟨[_], rfl, by simpa using h _ _⟩

theorem getregs_logs {tid : Nat} (h : ∀ ok ip, P ⟨.getregs tid, ok, ip, mem⟩) :
    Logs P k (k.getregs o mem tid).1 := issue_logs o h

theorem setregs_logs {tid : Nat} {regs : Regs} (h : ∀ ok ip, P ⟨.setregs tid, ok, ip, mem⟩) :
    Logs P k (k.setregs o mem tid regs).1 := by
  unfold setregs; split_ifs <;> exact ⟨[_], rfl, by simpa using h _ _⟩

theorem resume_logs {req : Request} (h : ∀ ok ip, P ⟨req, ok, ip, mem⟩) :
    Logs P k (k.resume o mem req).1 := by
  unfold resume; split_ifs <;> exact ⟨[_], rfl, by simpa using h _ _⟩

theorem waitpid_logs : Logs P k (k.waitpid o).1 := ⟨[], rfl, by simp⟩

/-! Which threads the requests of one call are about. -/

variable {sel : Request → Option Nat}

theorem issue_issues (req : Request) : Issues sel k (k.issue o mem req).1 (sel req).toList :=
  ⟨[_], rfl, by cases h : sel req <;> simp [h]⟩

theorem getregs_issues (tid : Nat) :
    Issues sel k (k.getregs o mem tid).1 (sel (.getregs tid)).toList := issue_issues o _

theorem setregs_issues (tid : Nat) (regs : Regs) :
    Issues sel k (k.setregs o mem tid regs).1 (sel (.setregs tid)).toList := by
  unfold setregs; split_ifs <;> exact ⟨[_], rfl, by cases h : sel (.setregs tid) <;> simp [h]⟩

theorem resume_issues (req : Request) : Issues sel k (k.resume o mem req).1 (sel req).toList := by
  unfold resume; split_ifs <;> exact ⟨[_], rfl, by cases h : sel req <;> simp [h]⟩

theorem waitpid_issues : Issues sel k (k.waitpid o).1 [] := ⟨[], rfl, rfl⟩

end Kernel

/-- The whole system: the core's state, the tracee's memory, the threads' user areas (offset to
word), and the kernel's side of the threads. -/
structure World where
  state : GlobalState
  mem : Memory
  user : Nat → Nat → BitVec 64
  kernel : Kernel

end Libdebug
