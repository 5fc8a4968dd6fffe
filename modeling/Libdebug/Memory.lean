import Mathlib.Logic.Function.Basic
import Mathlib.Data.Fintype.Pi

/-!
# Tracee memory and the breakpoint patch

The tracee's address space is a byte function.  A machine word is the eight bytes at an
address, least significant first: what `PTRACE_PEEKDATA` returns and what `PTRACE_POKEDATA`
stores on a little-endian machine.  Addresses are natural numbers; the core only compares
them and moves whole words, so nothing wraps.

`INSTALL_BREAKPOINT` and the opcode tests of the stepping code are macros the build defines;
the source only uses them.  They are the fields of `Arch`.  The trap may be one to eight
bytes long (one on x86_64, four on AArch64), and every result below holds for any of them.
-/

namespace Libdebug

/-- A machine word, its bytes least significant first. -/
abbrev Word := Fin 8 → UInt8

/-- The tracee's memory, one byte per address. -/
abbrev Memory := Nat → UInt8

/-- `PTRACE_PEEKDATA`: the word stored at `addr`. -/
def peekData (mem : Memory) (addr : Nat) : Word := fun j => mem (addr + j)

/-- `PTRACE_POKEDATA`: store `w` at `addr` and leave every other byte alone. -/
def pokeData (mem : Memory) (addr : Nat) (w : Word) : Memory := fun p =>
  if h : addr ≤ p ∧ p < addr + 8 then w ⟨p - addr, by omega⟩ else mem p

theorem pokeData_of_not_mem {mem : Memory} {addr p : Nat} (w : Word)
    (h : p < addr ∨ addr + 8 ≤ p) : pokeData mem addr w p = mem p := by
  simp only [pokeData]
  rw [dif_neg (by omega)]

theorem pokeData_of_mem {mem : Memory} {addr p : Nat} (w : Word) (h₁ : addr ≤ p)
    (h₂ : p < addr + 8) : pokeData mem addr w p = w ⟨p - addr, by omega⟩ := by
  simp only [pokeData]
  rw [dif_pos ⟨h₁, h₂⟩]

/-- Every byte of a poked memory comes from the old memory or from the word. -/
theorem pokeData_cases (mem : Memory) (addr : Nat) (w : Word) (p : Nat) :
    pokeData mem addr w p = mem p ∨ ∃ j : Fin 8, addr + j = p ∧ pokeData mem addr w p = w j := by
  by_cases h : addr ≤ p ∧ p < addr + 8
  · exact .inr ⟨⟨p - addr, by omega⟩, by simp; omega, pokeData_of_mem w h.1 h.2⟩
  · exact .inl (pokeData_of_not_mem w (by omega))

@[simp] theorem peekData_apply (mem : Memory) (addr : Nat) (j : Fin 8) :
    peekData mem addr j = mem (addr + j) := rfl

/-- The architecture macros the core is built with: `INSTALL_BREAKPOINT`'s trap encoding,
`IS_SW_BREAKPOINT`, `IS_CALL_INSTRUCTION`, `IS_RET_INSTRUCTION` and `FPREGS_AVX`. -/
structure Arch where
  /-- The trap encoding, least significant byte first. -/
  trap : List UInt8
  trap_pos : 0 < trap.length
  trap_le : trap.length ≤ 8
  isSwBreakpoint : UInt8 → Bool
  isCallInstruction : Word → Bool
  isRetInstruction : UInt8 → Bool
  fpregsAvx : Nat

namespace Arch

variable (arch : Arch)

/-- How many low bytes of a word the trap covers. -/
def width : Nat := arch.trap.length

/-- Byte `j` of the trap encoding. -/
def trapAt (j : Nat) : UInt8 := arch.trap.getD j 0

/-- A trap planted at `a` covers byte `p`. -/
def Covers (a p : Nat) : Prop := a ≤ p ∧ p < a + arch.width

instance (a p : Nat) : Decidable (arch.Covers a p) := inferInstanceAs (Decidable (_ ∧ _))

theorem width_pos : 0 < arch.width := arch.trap_pos

theorem width_le : arch.width ≤ 8 := arch.trap_le

/-- Two addresses whose traps cannot overlap: equal, or at least a trap's width apart.  On
x86_64 any two addresses are; on AArch64 any two instruction addresses are. -/
def Apart (a b : Nat) : Prop := a = b ∨ a + arch.width ≤ b ∨ b + arch.width ≤ a

/-- A byte covered by traps planted at two apart addresses is covered by one trap. -/
theorem Apart.eq_of_covers {arch : Arch} {a b p : Nat} (h : arch.Apart a b)
    (ha : arch.Covers a p) (hb : arch.Covers b p) : a = b := by
  simp only [Apart, Covers] at *
  omega

/-- An x86_64 instance: the one-byte trap INT3 (0xCC), a near call (0xE8) and a near return
(0xC3). -/
def int3 : Arch where
  trap := [0xCC]
  trap_pos := by decide
  trap_le := by decide
  isSwBreakpoint b := b == 0xCC
  isCallInstruction w := w 0 == 0xE8
  isRetInstruction b := b == 0xC3
  fpregsAvx := 0

end Arch

variable (arch : Arch)

/-- `INSTALL_BREAKPOINT`: the trap over the low bytes of `w`, the other bytes of `w` kept. -/
def installBreakpoint (w : Word) : Word := fun j =>
  if j.val < arch.width then arch.trapAt j else w j

theorem installBreakpoint_of_lt (w : Word) {j : Fin 8} (h : j.val < arch.width) :
    installBreakpoint arch w j = arch.trapAt j := if_pos h

theorem installBreakpoint_of_le (w : Word) {j : Fin 8} (h : arch.width ≤ j.val) :
    installBreakpoint arch w j = w j := if_neg (by omega)

end Libdebug
