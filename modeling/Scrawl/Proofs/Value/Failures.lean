import Scrawl.Proofs.Outcome
import Scrawl.Scope
import Scrawl.Value.Operator

/-!
# Proofs/Value/Failures — what texts and operators can fail with

The only value without a text is an integer that is too long, so that is all that a text made of
values can fail for.  A scope fails only for a name that is not bound in it.  An operator can also
be given operands that do not go together, a zero divisor, or an integer that outgrows a double
(`Fault.IsArithmetic`).  All of these are faults that a program can bring about
(`Fault.IsOrdinary`).
-/

namespace Scrawl

open Decimal

/-! ## Texts -/

/-- **Only an integer has no text**, when it is too long. -/
theorem Value.failsOnly_write (v : Value) :
    FailsOnly (· = .number .tooLongToWrite) (Fault.ofNumber v.write) := by
  match v with
  | .int n =>
    rw [Value.write, writeInteger]
    split
    · exact .ok _
    · exact .error rfl
  | .float _ | .string _ | .bool _ | .void => exact .ok _

/-- A value is missing for its name alone. -/
theorem Scope.failsOnly_get (s : Scope) (name : String) :
    FailsOnly (· = .undefined .variable name) (s.get name) := by
  unfold Scope.get
  split
  · exact .ok _
  · exact .error rfl

/-- An assignment fails for its name alone. -/
theorem Scope.failsOnly_set (s : Scope) (name : String) (v : Value) :
    FailsOnly (· = .undefined .variable name) (s.set name v) := by
  unfold Scope.set
  split
  · exact .ok _
  · exact .error rfl

/-- A dump fails where one of its values has no text. -/
theorem Scope.failsOnly_dump (s : Scope) : FailsOnly (· = .number .tooLongToWrite) s.dump := by
  have hvariable (entry : String × Nat) :
      FailsOnly (· = .number .tooLongToWrite) (s.dumpVariable entry) :=
    (Value.failsOnly_write _).bind fun _ => .ok _
  have hframe (entry : Frame × Nat) :
      FailsOnly (· = .number .tooLongToWrite) (s.dumpFrame entry.2 entry.1) :=
    (FailsOnly.mapM hvariable _).bind fun _ => .ok _
  exact (FailsOnly.mapM hframe _).bind fun _ => .ok _

/-! ## Operators -/

/-- **A fault of an operator**: operands that do not go together, a zero divisor, or an integer that
outgrows a double or its text. -/
def Fault.IsArithmetic : Fault → Prop
  | .operands .. | .divisionByZero | .moduloByZero => True
  | .number .tooLargeForFloat | .number .tooLongToWrite => True
  | _ => False

namespace Number

/-- An integer too large for a double is the one number that does not combine. -/
theorem failsOnly_combine (onInts : Int → Int → Int) (onFloats : Float → Float → Float)
    (a b : Number) : FailsOnly Fault.IsArithmetic (combine onInts onFloats a b) := by
  unfold combine
  split
  · exact .ok _
  · split
    · exact .ok _
    · exact .error trivial

/-- An operator on numbers fails in the ways of arithmetic alone. -/
theorem failsOnly_apply (kind : Kind) (a b : Number) :
    FailsOnly Fault.IsArithmetic (apply kind a b) := by
  unfold apply
  split
  · exact .ok _
  · exact failsOnly_combine _ _ a b
  · exact failsOnly_combine _ _ a b
  · exact failsOnly_combine _ _ a b
  · split
    · exact .error trivial
    · exact failsOnly_combine _ _ a b
  · split
    · split
      · exact .error trivial
      · exact .ok _
    · exact .error trivial
  · exact .error trivial

end Number

namespace Value

/-- An operator on one operand fails for its sort, or in arithmetic. -/
theorem failsOnly_applyUnary (kind : Kind) (v : Value) :
    FailsOnly Fault.IsArithmetic (applyUnary kind v) := by
  unfold applyUnary
  split
  iterate 7 exact .ok _
  exact .error trivial

/-- An operator on two operands fails for their sorts, or in arithmetic. -/
theorem failsOnly_applyBinary (kind : Kind) (v w : Value) :
    FailsOnly Fault.IsArithmetic (applyBinary kind v w) := by
  unfold applyBinary
  dsimp only
  split
  · split
    · exact Number.failsOnly_apply kind _ _
    · exact .error trivial
  · split
    · exact Number.failsOnly_apply kind _ _
    · exact .error trivial
  · split
    · exact (w.failsOnly_write.mono fun _ h => h ▸ trivial).map _
    · exact .ok _
    · exact .ok _
    · exact .error trivial
  · split
    · exact .ok _
    · exact .ok _
    · exact .ok _
    · exact .error trivial
  · exact .error trivial

/-- **What an operator can fail with.** -/
theorem failsOnly_apply (kind : Kind) (v : Value) :
    ∀ w : Option Value, FailsOnly Fault.IsArithmetic (apply kind v w)
  | none => by
      rw [apply]
      split
      · exact .ok v
      · exact failsOnly_applyUnary kind v
  | some w => by
      rw [apply]
      split
      · exact .ok w
      · exact failsOnly_applyBinary kind v w

end Value

/-! ## Ordinary faults -/

/-- **A fault that a program can bring about**: an error of its own, calls nested too deep, or an
integer that outgrows a double or its text.  The others are those of odd trees, of frames popped out
of turn, and of texts that are no numbers. -/
def Fault.IsOrdinary : Fault → Prop
  | .undefined .. | .arity .. | .operands .. | .divisionByZero | .moduloByZero => True
  | .condition _ | .strayReturn | .unassignable _ | .unsteppable _ => True
  | .boundSort _ | .bound _ | .callDepth => True
  | .number .tooLargeForFloat | .number .tooLongToWrite => True
  | _ => False

/-- An outcome that fails only with ordinary faults. -/
def Ordinary {α : Type} (x : Except Fault α) : Prop := ∀ f, x = .error f → f.IsOrdinary

namespace Ordinary

variable {α β : Type}

theorem ok (a : α) : Ordinary (.ok a) := FailsOnly.ok a

theorem map {x : Except Fault α} (h : Ordinary x) (f : α → β) : Ordinary (x.map f) :=
  FailsOnly.map h f

end Ordinary

/-- A program can bring about any fault of arithmetic. -/
theorem Fault.IsArithmetic.isOrdinary : ∀ {f : Fault}, f.IsArithmetic → f.IsOrdinary
  | .operands .., _ | .divisionByZero, _ | .moduloByZero, _ => trivial
  | .number .tooLargeForFloat, _ | .number .tooLongToWrite, _ => trivial

theorem ordinary_write (v : Value) : Ordinary (Fault.ofNumber v.write) :=
  v.failsOnly_write.mono fun _ h => h ▸ trivial

theorem Scope.ordinary_dump (s : Scope) : Ordinary s.dump :=
  s.failsOnly_dump.mono fun _ h => h ▸ trivial

/-- **An operator fails only with ordinary faults.** -/
theorem Value.ordinary_apply (kind : Kind) (v : Value) (w : Option Value) :
    Ordinary (Value.apply kind v w) := (failsOnly_apply kind v w).mono fun _ h => h.isOrdinary

end Scrawl
