import Mathlib.Control.Monad.Basic
import Scrawl.Proofs.Machine.Silent

/-!
# Proofs/Machine/Compound — compound assignments abbreviate plain ones

    x op= e  ──looks x up, evaluates e, combines, assigns──  x = x op e

The plain assignment looks its variable up twice, once for the value that it then does not need, and
both times before `e` is evaluated.  So both spellings come to their value by the same computation
(`Exec.assigned`), and where the operands do not go together they fail alike but for the operator
that the message shows.
-/

namespace Scrawl

/-- **The operator in a compound assignment.** -/
def Kind.compounded? : Kind → Option Kind
  | .assignAdd => some .add
  | .assignSubtract => some .subtract
  | .assignMultiply => some .multiply
  | .assignDivide => some .divide
  | .assignModulo => some .modulo
  | _ => none

/-- What the operator in a compound assignment shares with it. -/
theorem Kind.of_compounded? {k k' : Kind} (h : k.compounded? = some k') :
    k.isAssign ∧ k ≠ .assign ∧ k' ≠ .assign ∧ k.operation = k'.operation := by
  cases k <;> cases h <;> decide

/-! ## Alike but for the operator -/

/-- **Outcomes alike but for an operator**: the same outcome, or a mismatch of operands of the same
sorts under one operator and under the other. -/
inductive Likewise (k k' : Kind) {α : Type} : Except Fault α → Except Fault α → Prop where
  | same (x : Except Fault α) : Likewise k k' x x
  | mismatch (left right : ValueSort) :
    Likewise k k' (.error (.operands k.symbol left (some right)))
      (.error (.operands k'.symbol left (some right)))

/-- **Two texts alike but for a symbol**, if they show it at all. -/
def SameBut (symbol symbol' text text' : String) : Prop :=
  text = text' ∨ ∃ start rest, text = start ++ symbol ++ rest ∧ text' = start ++ symbol' ++ rest

/-- A mismatch shows its operator once, or not at all. -/
theorem Fault.sameBut_message_operands (symbol symbol' : String) (left right : ValueSort) :
    SameBut symbol symbol' (Fault.operands symbol left (some right)).message
      (Fault.operands symbol' left (some right)).message := by
  have hshown (symbol : String) (h : left ≠ .void) :
      (Fault.operands symbol left (some right)).message =
        "invalid operands for expression: '" ++ left.name ++ "' " ++ symbol ++
          (" '" ++ right.name ++ "'") := by
    have htext (s : String) : toString s = s := rfl
    unfold Fault.message
    cases left with
    | void => contradiction
    | _ => simp only [htext, String.append_assoc]
  by_cases h : left = .void
  · subst h
    exact .inl rfl
  · exact .inr ⟨_, _, hshown symbol h, hshown symbol' h⟩

namespace Likewise

variable {k k' : Kind} {α : Type}

theorem sameBut_message {f f' : Fault} (h : Likewise k k' (.error f : Except Fault α) (.error f')) :
    SameBut k.symbol k'.symbol f.message f'.message := by
  cases h with
  | same => exact .inl rfl
  | mismatch left right => exact Fault.sameBut_message_operands _ _ left right

end Likewise

section Operation

variable {k k' : Kind} (h : k.operation = k'.operation)

include h

theorem Number.likewise_apply (a b : Number) :
    Likewise k k' (Number.apply k a b) (Number.apply k' a b) := by
  unfold Number.apply
  rw [h]
  cases k'.operation with
  | modulo => cases a <;> cases b <;> first | exact .same _ | exact .mismatch _ _
  | and | or | other => exact .mismatch _ _
  | _ => exact .same _

/-- **Operators of one operation differ in the mismatches they report.** -/
theorem Value.likewise_apply (hk : k ≠ .assign) (hk' : k' ≠ .assign) (v w : Value) :
    Likewise k k' (Value.apply k v (some w)) (Value.apply k' v (some w)) := by
  rw [Value.apply, Value.apply, if_neg hk, if_neg hk']
  unfold applyBinary
  rw [h]
  cases v with
  | int n | float n =>
    dsimp only
    generalize w.number? = b
    cases b with
    | none => exact .mismatch _ _
    | some b => exact Number.likewise_apply h _ b
  | string s =>
    dsimp only
    split
    · exact .same _
    · exact .same _
    · exact .same _
    · exact .mismatch _ _
  | bool b =>
    dsimp only
    split
    · exact .same _
    · exact .same _
    · exact .same _
    · exact .mismatch _ _
  | void => exact .mismatch _ _

end Operation

/-! ## One computation for both spellings -/

namespace Exec

theorem steady_assignment (kind : Kind) (name : String) (e : Node) :
    Steady fun fuel => assigned fuel kind name e >>= assign name := fun _ _ hle =>
  (steady_assigned kind name e hle).bind fun _ => .refl _

/-- **Operators of one operation assign alike.** -/
theorem exists_ends_assignment {k k' : Kind} (hop : k.operation = k'.operation) (hk : k ≠ .assign)
    (hk' : k' ≠ .assign) {name : String} {e : Node} {m m' : Machine}
    {outcome : Except Fault Unit}
    (h : Ends (fun fuel => assigned fuel k name e >>= assign name) m outcome m') :
    ∃ outcome', Likewise k k' outcome outcome' ∧
      Ends (fun fuel => assigned fuel k' name e >>= assign name) m outcome' m' := by
  obtain ⟨fuel, hrun⟩ := h
  dsimp only at hrun
  have hsteps (kind : Kind) : assigned fuel kind name e >>= assign name =
      operands fuel name e >>= fun p =>
        ofFault (Value.apply kind p.1 (some p.2)) >>= assign name := by
    rw [assigned, bind_assoc]
  have hrun' := run_bind (operands fuel name e)
    (fun p => ofFault (Value.apply k' p.1 (some p.2)) >>= assign name) m
  rw [← hsteps] at hrun'
  rw [hsteps, run_bind] at hrun
  generalize (operands fuel name e).run m = r at hrun hrun'
  obtain ⟨stop | ⟨v, w⟩, m₁⟩ := r
  · exact ⟨outcome, .same outcome, fuel, hrun'.trans hrun⟩
  have happly := Value.likewise_apply hop hk hk' v w
  dsimp only at hrun hrun'
  generalize Value.apply k v (some w) = x at happly hrun
  generalize Value.apply k' v (some w) = x' at happly hrun'
  cases happly with
  | same => exact ⟨outcome, .same outcome, fuel, hrun'.trans hrun⟩
  | mismatch left right =>
    obtain ⟨houtcome, rfl⟩ := Prod.mk.inj hrun
    obtain rfl := mapError_fault_inj (o := .error _) houtcome
    exact ⟨_, .mismatch left right, fuel, hrun'⟩

section Spellings

variable {operator plain equals : Token} {name : String} {e : Node} {m m' : Machine}
  {outcome : Except Fault Unit} (hm : m.verbosity < 3)

include hm

/-- A compound assignment comes to its value and stores it. -/
theorem ends_compound_iff (h : operator.kind.isAssign) :
    Ends (visit · (.binary operator (.reference name) e)) m outcome m' ↔
      Ends (fun fuel => assigned fuel operator.kind name e >>= assign name) m outcome m' := by
  rw [Ends.succ_iff (by rw [visit])]
  simp only [Ends, run_visit_assignment hm h]

/-- An operator on a variable and an expression has the value that its assignment comes to. -/
theorem run_evaluate_assigned (fuel : Nat) :
    (evaluate (fuel + 2) (.binary plain (.reference name) e)).run m =
      (assigned (fuel + 1) plain.kind name e).run m := by
  rw [run_evaluate_binary hm, assigned, operands]
  simp only [bind_assoc, pure_bind]
  rw [run_bind, run_bind, run_evaluate_reference hm]

/-- A plain assignment of an operator on its variable does the same. -/
theorem ends_expanded_iff (h : equals.kind = .assign) :
    Ends (visit · (.binary equals (.reference name) (.binary plain (.reference name) e))) m
        outcome m' ↔
      Ends (fun fuel => assigned fuel plain.kind name e >>= assign name) m outcome m' := by
  have hrun (fuel : Nat) :
      (visit (fuel + 3) (.binary equals (.reference name)
        (.binary plain (.reference name) e))).run m =
      (assigned (fuel + 1) plain.kind name e >>= assign name).run m := by
    -- The value of the first lookup is not used, but its fault is the one of the second.
    have hassign (current v : Value) :
        ofFault (Value.apply equals.kind current (some v)) >>= assign name = assign name v := by
      rw [h]
      rfl
    rw [run_visit_assignment hm (by rw [h]; rfl), assigned_bind]
    simp only [hassign]
    rw [run_bind, run_lookup]
    cases hget : m.scope.get name with
    | error f =>
      rw [assigned_bind, run_bind, run_lookup, hget]
      rfl
    | ok current =>
      dsimp only [Except.mapError]
      rw [run_bind, run_evaluate_assigned hm, ← run_bind]
  constructor
  · rintro ⟨fuel, hfuel⟩
    have hmore := Ends.run_eq_of_le (steady_visit _) hfuel (Nat.le_add_right fuel 3)
    exact ⟨fuel + 1, (hrun fuel).symm.trans hmore⟩
  · rintro ⟨fuel, hfuel⟩
    have hmore := Ends.run_eq_of_le (steady_assignment _ name e) hfuel (Nat.le_add_right fuel 1)
    exact ⟨fuel + 3, (hrun fuel).trans hmore⟩

end Spellings

/-- **A compound assignment is the plain assignment it abbreviates.**  Where nodes are not
announced, `x op= e` and `x = x op e` end on the same machines, whatever `e` does to the variable,
and leave the same machine behind: the console, the variables, the frames and the open calls.
Either both end normally, or both fail with the same fault, but that a mismatch of operands names
the operator which was written; and the messages show no other difference. -/
theorem compound_abbreviates {operator plain equals : Token}
    (hcompound : operator.kind.compounded? = some plain.kind) (hequals : equals.kind = .assign)
    (name : String) (e : Node) {m : Machine} (hm : m.verbosity < 3) :
    let short := Node.binary operator (.reference name) e
    let long := Node.binary equals (.reference name) (.binary plain (.reference name) e)
    ((∃ outcome m', Ends (visit · short) m outcome m') ↔
      ∃ outcome m', Ends (visit · long) m outcome m') ∧
    ∀ o₁ m₁ o₂ m₂, Ends (visit · short) m o₁ m₁ → Ends (visit · long) m o₂ m₂ →
      m₁ = m₂ ∧ Likewise operator.kind plain.kind o₁ o₂ ∧
        ∀ f₁ f₂, o₁ = .error f₁ → o₂ = .error f₂ →
          SameBut operator.kind.symbol plain.kind.symbol f₁.message f₂.message := by
  intro short long
  obtain ⟨hassign, hk, hk', hop⟩ := Kind.of_compounded? hcompound
  have hshort {o m'} : Ends (visit · short) m o m' ↔
      Ends (fun fuel => assigned fuel operator.kind name e >>= assign name) m o m' :=
    ends_compound_iff hm hassign
  have hlong {o m'} : Ends (visit · long) m o m' ↔
      Ends (fun fuel => assigned fuel plain.kind name e >>= assign name) m o m' :=
    ends_expanded_iff hm hequals
  simp only [hshort, hlong]
  refine ⟨⟨?_, ?_⟩, fun o₁ m₁ o₂ m₂ h₁ h₂ => ?_⟩
  · rintro ⟨o, m', h⟩
    obtain ⟨o', -, h'⟩ := exists_ends_assignment hop hk hk' h
    exact ⟨o', m', h'⟩
  · rintro ⟨o, m', h⟩
    obtain ⟨o', -, h'⟩ := exists_ends_assignment hop.symm hk' hk h
    exact ⟨o', m', h'⟩
  · obtain ⟨o', hlike, h'⟩ := exists_ends_assignment hop hk hk' h₁
    obtain ⟨rfl, rfl⟩ := h'.unique (steady_assignment _ name e) h₂
    refine ⟨rfl, hlike, ?_⟩
    rintro f₁ f₂ rfl rfl
    exact hlike.sameBut_message

/-- The expression calls a function that assigns to the variable: `x %= f()`, where `x` is `1` and
`f` sets it to a text, prints and returns a boolean.  The operand named is still the integer. -/
theorem compound_abbreviates_call :
    let equals : Token := ⟨.assign, "=", .none⟩
    let short := Node.binary ⟨.assignModulo, "%=", .none⟩ (.reference "x") (.call "f" [])
    let long := Node.binary equals (.reference "x")
      (.binary ⟨.modulo, "%", .none⟩ (.reference "x") (.call "f" []))
    let program := Node.block [
      .variable "x" (.binary equals (.reference "x") (.literal (.int 1))) true,
      .function "f" [] (.block [.binary equals (.reference "x") (.literal (.string "a")),
        .call "output" [.reference "x"],
        .unary ⟨.returnWord, "return", .none⟩ (.literal (.bool true))]) true]
    let m := ((runProgram 20 program).run (.start .usual 0 0 [])).2
    m.verbosity < 3 ∧ ∃ m',
      Ends (visit · short) m (.error (.operands "%=" .int (some .bool))) m' ∧
        Ends (visit · long) m (.error (.operands "%" .int (some .bool))) m' ∧
        m'.output = "a\n" := by
  intro equals short long program m
  have hm : m.verbosity < 3 := by decide +kernel
  have hshort : ((visit 20 short).run m).1 =
      .error (.fault (.operands "%=" .int (some .bool))) := by decide +kernel
  have hlong : ((visit 20 long).run m).1 =
      .error (.fault (.operands "%" .int (some .bool))) := by decide +kernel
  obtain ⟨-, hsame⟩ := @compound_abbreviates ⟨.assignModulo, "%=", .none⟩ ⟨.modulo, "%", .none⟩
    equals rfl rfl "x" (.call "f" []) m hm
  have hends : Ends (visit · short) m (.error (.operands "%=" .int (some .bool)))
      ((visit 20 short).run m).2 := .of_run hshort
  have hends' : Ends (visit · long) m (.error (.operands "%" .int (some .bool)))
      ((visit 20 long).run m).2 := .of_run hlong
  refine ⟨hm, _, hends, ?_, ?_⟩
  · rw [(hsame _ _ _ _ hends hends').1]
    exact hends'
  · decide +kernel

end Exec

end Scrawl
