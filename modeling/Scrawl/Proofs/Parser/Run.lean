import Scrawl.Parser.Program

/-!
# Proofs/Parser/Run — what the small parsers do

One equation for each: the outcome of a parser at a cursor.
-/

namespace Scrawl

namespace Parser

variable {α β : Type}

/-- A sequence goes on where its first part ended, or fails there. -/
theorem run_bind (p : Parser α) (f : α → Parser β) (c : Cursor) :
    (p >>= f).run c = match p.run c with
      | (.ok a, d) => (f a).run d
      | (.error e, d) => (.error e, d) := by
  change ExceptT.bindCont f (p.run c).1 (p.run c).2 = _
  rcases p.run c with ⟨_ | _, _⟩ <;> rfl

@[simp] theorem run_pure (a : α) (c : Cursor) : (pure a : Parser α).run c = (.ok a, c) := rfl

@[simp] theorem run_get (c : Cursor) : (get : Parser Cursor).run c = (.ok c, c) := rfl

@[simp] theorem run_atEnd (c : Cursor) : atEnd.run c = (.ok c.rest.isEmpty, c) := rfl

@[simp] theorem run_ahead (offset : Nat) (c : Cursor) :
    (ahead offset).run c = (.ok (c.ahead offset), c) := rfl

@[simp] theorem run_peek (c : Cursor) : peek.run c = (.ok c.peek, c) := rfl

@[simp] theorem run_check (kind : Kind) (c : Cursor) :
    (check kind).run c = (.ok (decide (c.peek.kind = kind)), c) := rfl

/-- At the end the cursor stays where it is. -/
@[simp] theorem run_advance (c : Cursor) :
    advance.run c = (.ok c.peek, if c.rest.isEmpty then c else c.next) := by
  rw [advance, run_bind, run_get]
  dsimp only
  cases c.rest.isEmpty <;> rfl

/-- A token of the kind asked for is taken; at any other the parser fails where it stands. -/
theorem run_consume (kind : Kind) (expectation : String) (c : Cursor) :
    (consume kind expectation).run c =
      if c.peek.kind = kind then (.ok c.peek, c.next)
      else (.error (.unmet expectation c.peek), c) := by
  rw [consume, run_bind, run_get]
  dsimp only
  split <;> rfl

@[simp] theorem run_ofExcept (x : Except ParseError α) (c : Cursor) :
    (ofExcept x).run c = (x, c) := by
  cases x <;> rfl

/-- The fuel is settled by the cursor at which the parser is started. -/
theorem run_fuelled (p : Nat → Parser α) (c : Cursor) :
    (fuelled p).run c = (p (fuelFor c)).run c := rfl

end Parser

end Scrawl
