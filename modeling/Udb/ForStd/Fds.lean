import Mathlib

/-!
# Descriptors and pipes

A process sees its open files through a table of descriptors. What matters here of an
open file is whether it is an end of a pipe, and which: a reader of a pipe sees the
end of the file when no process holds the end that is written.

`fork` copies a table; `close` and `dup2` change one entry.
-/

namespace Fds

/-- An end of a pipe. -/
structure End where
  pipe : Nat
  write : Bool
  deriving DecidableEq, Repr

/-- What a descriptor stands for. -/
inductive Desc where
  | pipe (e : End)
  | other
  deriving DecidableEq, Repr

/-- The descriptors of a process. -/
abbrev Table := Nat → Option Desc

namespace Table

/-- `close(fd)` -/
def close (t : Table) (fd : Nat) : Table := Function.update t fd none

/-- `dup2(oldfd, newfd)` -/
def dup2 (t : Table) (oldfd newfd : Nat) : Table := Function.update t newfd (t oldfd)

/-- `fd` stands for an end of a pipe. -/
def At (t : Table) (fd pipe : Nat) (write : Bool) : Prop := t fd = some (.pipe ⟨pipe, write⟩)

/-- Some descriptor stands for it. -/
def Holds (t : Table) (pipe : Nat) (write : Bool) : Prop := ∃ fd, t.At fd pipe write

variable {t : Table} {fd a b pipe pipe' : Nat} {write write' : Bool} {d : Desc}

/-- A descriptor shows one end of one pipe. -/
theorem At.inj (h : t.At fd pipe write) (h' : t.At fd pipe' write') :
    pipe = pipe' ∧ write = write' := by
  have he := h.symm.trans h'
  simp only [Option.some.injEq, Desc.pipe.injEq, End.mk.injEq] at he
  exact he

@[simp] theorem close_self : t.close fd fd = none := by
  rw [close, Function.update_self]

/-- Other descriptors are left open. -/
theorem close_of_ne (h : a ≠ fd) : t.close fd a = t a := by
  rw [close, Function.update_of_ne h]

/-- An end that is still shown is shown by another descriptor. -/
theorem at_close_iff : (t.close fd).At a pipe write ↔ a ≠ fd ∧ t.At a pipe write := by
  by_cases h : a = fd
  · subst h
    simp [At]
  · rw [At, close_of_ne h]
    simp [At, h]

@[simp] theorem dup2_self : t.dup2 a b b = t a := by
  rw [dup2, Function.update_self]

/-- Other descriptors are as they were. -/
theorem dup2_of_ne (h : fd ≠ b) : t.dup2 a b fd = t fd := by
  rw [dup2, Function.update_of_ne h]

end Table

end Fds
