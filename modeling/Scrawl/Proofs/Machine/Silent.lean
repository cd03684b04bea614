import Scrawl.Proofs.Machine.Fuel

/-!
# Proofs/Machine/Silent — steps that are not announced

Nodes are announced at level 3 only.  Below it, a node is carried out without a message of its own,
and what it does is what its parts do.  An assignment, of whatever operator, comes to a value and
then stores it (`assigned`).
-/

namespace Scrawl

namespace Exec

/-- A variable is looked up in the scope, which stays as it is. -/
theorem run_lookup (name : String) (m : Machine) :
    (lookup name).run m = ((m.scope.get name).mapError .fault, m) := by
  change (ofFault (m.scope.get name)).run m = _
  cases m.scope.get name <;> rfl

/-! ## What an assignment comes to -/

/-- A variable and then an expression, evaluated. -/
def operands (fuel : Nat) (name : String) (e : Node) : Exec (Value × Value) := do
  let current ← lookup name
  let v ← evaluate fuel e
  return (current, v)

/-- **What an assignment comes to before it stores**: its operator on the variable and its right
side.  The variable is looked up whether its value is needed or not. -/
def assigned (fuel : Nat) (kind : Kind) (name : String) (e : Node) : Exec Value := do
  let p ← operands fuel name e
  ofFault (Value.apply kind p.1 (some p.2))

/-- More fuel does not change the operands that were computed. -/
theorem steady_operands (name : String) (e : Node) : Steady (operands · name e) := fun _ _ hle =>
  .bind (.refl _) fun _ => (steady_evaluate e hle).bind fun _ => .refl _

theorem steady_assigned (kind : Kind) (name : String) (e : Node) :
    Steady (assigned · kind name e) := fun _ _ hle =>
  (steady_operands name e hle).bind fun _ => .refl _

/-- An assignment in its steps. -/
theorem assigned_bind {α : Type} (fuel : Nat) (kind : Kind) (name : String) (e : Node)
    (f : Value → Exec α) :
    assigned fuel kind name e >>= f = (do
      let current ← lookup name
      let v ← evaluate fuel e
      ofFault (Value.apply kind current (some v)) >>= f) := by
  rw [assigned, operands]
  simp only [bind_assoc, pure_bind]

/-! ## Nodes in their steps -/

variable {m : Machine} (hm : m.verbosity < 3)

include hm

/-- A quiet machine announces nothing. -/
theorem run_announce_bind {α : Type} (text : String) (n : Node) (x : Exec α) :
    (announce text n >>= fun _ => x).run m = x.run m := by
  rw [run_bind, announce, run_sayLazily_of_lt hm]

/-- A name as a statement is evaluated, and its value dropped. -/
theorem run_visit_reference (name : String) (initializer : Node) (fuel : Nat) :
    (visit (fuel + 1) (.variable name initializer false)).run m =
      (discard (evaluate fuel (.variable name initializer false))).run m := by
  rw [visit]
  exact run_announce_bind hm "Visiting: " _ _

/-- A `return` looks at the depth of calls alone, a step assigns its value, and any other operator
is evaluated. -/
theorem run_visit_unary (operator : Token) (operand : Node) (fuel : Nat) :
    (visit (fuel + 1) (.unary operator operand)).run m =
      (if operator.kind = .returnWord then do
          if (← get).callDepth = 0 then fail .strayReturn
        else if operator.kind.isStep then
          match operand.referenced? with
          | none => fail (.unsteppable operator.lexeme)
          | some name => evaluate fuel (.unary operator operand) >>= assign name
        else discard (evaluate fuel (.unary operator operand)) : Exec Unit).run m := by
  rw [visit]
  exact run_announce_bind hm "Visiting: " _ _

/-- An assignment assigns what it comes to; any other operator is evaluated. -/
theorem run_visit_binary (operator : Token) (left right : Node) (fuel : Nat) :
    (visit (fuel + 1) (.binary operator left right)).run m =
      (if operator.kind.isAssign then
          match left.referenced? with
          | none => fail (.unassignable operator.lexeme)
          | some name => assigned fuel operator.kind name right >>= assign name
        else discard (evaluate fuel (.binary operator left right)) : Exec Unit).run m := by
  simp only [assigned_bind]
  rw [visit]
  exact run_announce_bind hm "Visiting: " _ _

theorem run_visit_definition (name : String) (initializer : Node) (fuel : Nat) :
    (visit (fuel + 1) (.variable name initializer true)).run m =
      (define fuel name initializer).run m := by
  rw [visit]
  exact run_announce_bind hm "Visiting: " _ _

/-- **An assignment to a name** assigns what it comes to. -/
theorem run_visit_assignment {operator : Token} (h : operator.kind.isAssign) (name : String)
    (right : Node) (fuel : Nat) :
    (visit (fuel + 1) (.binary operator (.reference name) right)).run m =
      (assigned fuel operator.kind name right >>= assign name).run m := by
  rw [run_visit_binary hm, if_pos h]
  rfl

/-- An operator is applied to the values of its operands, the left one evaluated first. -/
theorem run_evaluate_binary (operator : Token) (left right : Node) (fuel : Nat) :
    (evaluate (fuel + 1) (.binary operator left right)).run m =
      (do
        let v ← evaluate fuel left
        let w ← evaluate fuel right
        ofFault (Value.apply operator.kind v (some w))).run m := by
  rw [evaluate]
  exact run_announce_bind hm "Evaluating: " _ _

theorem run_evaluate_reference (name : String) (fuel : Nat) :
    (evaluate (fuel + 1) (.reference name)).run m = (lookup name).run m := by
  rw [Node.reference, evaluate]
  exact run_announce_bind hm "Evaluating: " _ _

theorem run_visit_block (statements : List Node) (fuel : Nat) :
    (visit (fuel + 1) (.block statements)).run m = (visitAll fuel statements).run m := by
  rw [visit]
  exact run_announce_bind hm "Visiting: " _ _

/-- A `while` loop is a loop without an update, in a frame of its own. -/
theorem run_visit_whileLoop (condition body : Node) (fuel : Nat) :
    (visit (fuel + 1) (.whileLoop condition body)).run m =
      (inFrame (loop fuel condition .absent body)).run m := by
  rw [visit]
  exact run_announce_bind hm "Visiting: " _ _

/-- A `for` loop has its initialization inside its frame, before the loop. -/
theorem run_visit_forLoop (initialization condition update body : Node) (fuel : Nat) :
    (visit (fuel + 1) (.forLoop initialization condition update body)).run m =
      (inFrame (do
        visit fuel initialization
        loop fuel condition update body)).run m := by
  rw [visit]
  exact run_announce_bind hm "Visiting: " _ _

end Exec

end Scrawl
