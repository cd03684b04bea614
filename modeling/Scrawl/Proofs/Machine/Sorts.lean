import Scrawl.Proofs.Machine.CallFree

/-!
# Proofs/Machine/Sorts — operand errors depend on sorts only

Sorts can be reckoned with as values can: `Operation.sort?` is the matrix of the operators, which
says what sort they give between which sorts, and `Reckoning.sorts` has the mismatches with it.  An
operator keeps to the matrix unless it fails for the values themselves, and so does every expression
without calls (`Node.CallFree.foretells_reckon`).  Two machines on which the variables have the same
sorts therefore agree on every error about operands (`Exec.mismatch_by_sorts`).
-/

namespace Scrawl

/-! ## The matrix of the operators -/

/-- **The sort that an operation gives between two sorts**, if it goes between them. -/
def Operation.sort? (o : Operation) : ValueSort → ValueSort → Option ValueSort
  | .int, .int =>
    match o with
    | .compare _ => some .bool
    | .add | .subtract | .multiply | .divide | .modulo => some .int
    | _ => none
  | .int, .float | .float, .int | .float, .float =>
    match o with
    | .compare _ => some .bool
    | .add | .subtract | .multiply | .divide => some .float
    | _ => none
  | .string, _ =>
    match o with
    | .add => some .string
    | .compare .equal | .compare .notEqual => some .bool
    | _ => none
  | .bool, .bool =>
    match o with
    | .compare _ | .and | .or => some .bool
    | _ => none
  | _, _ => none

/-- The sort that an operator gives on one sort, if it goes with it. -/
def Kind.sort? : Kind → ValueSort → Option ValueSort
  | .negative, .int | .increment, .int | .decrement, .int => some .int
  | .negative, .float | .increment, .float | .decrement, .float => some .float
  | .not, .bool => some .bool
  | _, _ => none

/-- **An operator applied to sorts**: the sort it gives, or the mismatch. -/
def Kind.applySort (k : Kind) (left : ValueSort) : Option ValueSort → Except Fault ValueSort
  | none =>
    if k = .returnWord then .ok left
    else match k.sort? left with
      | some s => .ok s
      | none => .error (.operands k.symbol left none)
  | some right =>
    if k = .assign then .ok right
    else match k.operation.sort? left right with
      | some s => .ok s
      | none => .error (.operands k.symbol left (some right))

/-- A value stands for its sort. -/
def Reckoning.sorts : Reckoning ValueSort := ⟨Value.sort, Kind.applySort⟩

/-- **A fault that lies in the values**, whatever their sorts: a zero divisor, or an integer that
outgrows a double or its text. -/
def Fault.LiesInValues : Fault → Prop
  | .divisionByZero | .moduloByZero => True
  | .number .tooLargeForFloat | .number .tooLongToWrite => True
  | _ => False

/-! ## Outcomes and their sorts -/

/-- **What is reckoned of its sort foretells an outcome**, unless that fails for its values. -/
inductive Foretells : Except Fault ValueSort → Except Fault Value → Prop where
  | value {sort : ValueSort} {v : Value} (h : v.sort = sort) : Foretells (.ok sort) (.ok v)
  | fault (f : Fault) : Foretells (.error f) (.error f)
  | liesInValues {f : Fault} (expected : Except Fault ValueSort) (h : f.LiesInValues) :
    Foretells expected (.error f)

namespace Foretells

theorem map_sort (x : Except Fault Value) : Foretells (x.map Value.sort) x := by
  cases x with
  | error f => exact .fault f
  | ok v => exact .value rfl

theorem bind {s : Except Fault ValueSort} {x : Except Fault Value}
    {t : ValueSort → Except Fault ValueSort} {f : Value → Except Fault Value} (h : Foretells s x)
    (hf : ∀ v, Foretells (t v.sort) (f v)) : Foretells (s >>= t) (x >>= f) := by
  cases h with
  | @value sort v hv => exact hv ▸ hf v
  | fault f => exact .fault f
  | liesInValues _ h => exact .liesInValues _ h

/-- **Outcomes that were foretold alike are alike**, unless one of them fails for its values. -/
theorem alike {s : Except Fault ValueSort} {x y : Except Fault Value} (hx : Foretells s x)
    (hy : Foretells s y) :
    (∃ f, f.LiesInValues ∧ (x = .error f ∨ y = .error f)) ∨
      (∃ v w, x = .ok v ∧ y = .ok w ∧ v.sort = w.sort) ∨
      ∃ f, s = .error f ∧ x = .error f ∧ y = .error f := by
  cases hx with
  | liesInValues _ h => exact .inl ⟨_, h, .inl rfl⟩
  | @value sort v hv =>
    cases hy with
    | @value _ w hw => exact .inr (.inl ⟨v, w, rfl, rfl, hv.trans hw.symm⟩)
    | liesInValues _ h => exact .inl ⟨_, h, .inr rfl⟩
  | fault f =>
    cases hy with
    | fault _ => exact .inr (.inr ⟨f, rfl, rfl, rfl⟩)
    | liesInValues _ h => exact .inl ⟨_, h, .inr rfl⟩

end Foretells

/-! ## Operators -/

/-- The sort of the numbers that two numbers are combined as. -/
def Number.mixedSort : Number → Number → ValueSort
  | .int _, .int _ => .int
  | _, _ => .float

theorem Number.foretells_combine (onInts : Int → Int → Int) (onFloats : Float → Float → Float)
    (a b : Number) : Foretells (.ok (a.mixedSort b)) (combine onInts onFloats a b) := by
  unfold combine
  split
  · exact .value rfl
  · next hmixed =>
    have hsort : a.mixedSort b = .float := by
      cases a with
      | float x => rfl
      | int m =>
        cases b with
        | float y => rfl
        | int n => exact (hmixed m n rfl rfl).elim
    rw [hsort]
    split
    · exact .value rfl
    · exact .liesInValues _ (by trivial)

/-- **An operator between numbers keeps to the matrix.** -/
theorem Number.foretells_apply {k : Kind} (hk : k ≠ .assign) (a b : Number) :
    Foretells (k.applySort a.sort (some b.sort)) (apply k a b) := by
  have hcombine (onInts : Int → Int → Int) (onFloats : Float → Float → Float) :=
    foretells_combine onInts onFloats a b
  rw [Kind.applySort, if_neg hk]
  unfold apply
  cases k.operation with
  | compare c => cases a <;> cases b <;> exact .value rfl
  | add | subtract | multiply => cases a <;> cases b <;> exact hcombine _ _
  | divide =>
    by_cases hb : b.isZero
    · simp only [hb, ↓reduceIte]
      exact .liesInValues _ (by trivial)
    · simp only [hb, Bool.false_eq_true, ↓reduceIte]
      cases a <;> cases b <;> exact hcombine _ _
  | modulo =>
    cases a with
    | float x => cases b <;> exact .fault _
    | int m =>
      cases b with
      | float y => exact .fault _
      | int n =>
        by_cases hn : n = 0
        · simp only [hn, ↓reduceIte]
          exact .liesInValues _ (by trivial)
        · simp only [hn, ↓reduceIte]
          exact .value rfl
  | and | or | other => cases a <;> cases b <;> exact .fault _

namespace Value

theorem foretells_applyUnary {k : Kind} (hk : k ≠ .returnWord) (v : Value) :
    Foretells (k.applySort v.sort none) (applyUnary k v) := by
  rw [Kind.applySort, if_neg hk]
  cases v with
  | int _ | float _ =>
    cases k with
    | negative | increment | decrement => exact .value rfl
    | _ => exact .fault _
  | bool _ =>
    cases k with
    | not => exact .value rfl
    | _ => exact .fault _
  | string _ | void => cases k <;> exact .fault _

/-- A text takes any value behind it that has a text itself. -/
theorem foretells_write (s : String) (w : Value) :
    Foretells (.ok .string) ((Fault.ofNumber w.write).map fun t => .string (s ++ t)) := by
  cases hwrite : Fault.ofNumber w.write with
  | ok t => exact .value rfl
  | error f =>
    obtain rfl : f = .number .tooLongToWrite := w.failsOnly_write f hwrite
    exact .liesInValues _ (by trivial)

theorem foretells_applyBinary {k : Kind} (hk : k ≠ .assign) (v w : Value) :
    Foretells (k.applySort v.sort (some w.sort)) (applyBinary k v w) := by
  have hmatrix : k.applySort v.sort (some w.sort) = match k.operation.sort? v.sort w.sort with
      | some s => .ok s
      | none => .error (.operands k.symbol v.sort (some w.sort)) := by
    rw [Kind.applySort, if_neg hk]
  cases v with
  | int n =>
    cases w with
    | int m => exact Number.foretells_apply hk (.int n) (.int m)
    | float y => exact Number.foretells_apply hk (.int n) (.float y)
    | _ => exact hmatrix ▸ .fault _
  | float x =>
    cases w with
    | int m => exact Number.foretells_apply hk (.float x) (.int m)
    | float y => exact Number.foretells_apply hk (.float x) (.float y)
    | _ => exact hmatrix ▸ .fault _
  | string s =>
    rw [hmatrix]
    unfold applyBinary
    cases k.operation with
    | add => exact foretells_write s w
    | compare c =>
      cases c with
      | equal | notEqual => exact .value rfl
      | _ => exact .fault _
    | _ => exact .fault _
  | bool a =>
    rw [hmatrix]
    unfold applyBinary
    cases w with
    | bool b =>
      cases k.operation with
      | compare _ | and | or => exact .value rfl
      | _ => exact .fault _
    | _ => cases k.operation <;> exact .fault _
  | void => exact hmatrix ▸ .fault _

/-- **An operator keeps to the matrix** unless it fails for the values themselves. -/
theorem foretells_apply (k : Kind) (v : Value) (w : Option Value) :
    Foretells (k.applySort v.sort (w.map sort)) (apply k v w) := by
  cases w with
  | none =>
    by_cases hk : k = .returnWord
    · subst hk
      exact .value rfl
    · rw [apply, if_neg hk]
      exact foretells_applyUnary hk v
  | some w =>
    by_cases hk : k = .assign
    · subst hk
      exact .value rfl
    · rw [apply, if_neg hk]
      exact foretells_applyBinary hk v w

end Value

/-- Sorts only ever fail to go together. -/
theorem Kind.failsOnly_applySort (k : Kind) (left : ValueSort) (right : Option ValueSort) :
    FailsOnly (fun f => ∃ symbol left right, f = .operands symbol left right)
      (k.applySort left right) := by
  unfold applySort
  split
  · split
    · exact .ok _
    · split
      · exact .ok _
      · exact .error ⟨_, _, _, rfl⟩
  · split
    · exact .ok _
    · split
      · exact .ok _
      · exact .error ⟨_, _, _, rfl⟩

/-! ## Expressions -/

namespace Node.CallFree

variable {e : Node} (he : e.CallFree)

include he

/-- **The sorts of the variables foretell what an expression comes to.** -/
theorem foretells_reckon {sorts : String → Except Fault ValueSort}
    {env : String → Except Fault Value} (h : e.Names fun x => Foretells (sorts x) (env x)) :
    Foretells (e.reckon .sorts sorts) (e.reckon .values env) := by
  induction he with
  | literal v => exact .value rfl
  | reference name initializer => exact (names_variable.mp h).1
  | unary operator _ ih =>
    rw [reckon, reckon]
    exact (ih h).bind fun v => v.foretells_apply operator.kind none
  | binary operator _ _ ihl ihr =>
    obtain ⟨hl, hr⟩ := names_binary.mp h
    rw [reckon, reckon]
    refine (ihl hl).bind fun v => (ihr hr).bind fun w => ?_
    exact v.foretells_apply operator.kind (some w)

/-- An expression fails as its variables or its operators do. -/
theorem failsOnly_reckon {α : Type} {R : Reckoning α} {env : String → Except Fault α}
    {P : Fault → Prop} (henv : e.Names fun x => FailsOnly P (env x))
    (happly : ∀ k a b, FailsOnly P (R.apply k a b)) : FailsOnly P (e.reckon R env) := by
  induction he with
  | literal v => exact .ok _
  | reference name initializer => exact (names_variable.mp henv).1
  | unary operator _ ih =>
    rw [reckon]
    exact (ih henv).bind fun a => happly _ a none
  | binary operator _ _ ihl ihr =>
    obtain ⟨hl, hr⟩ := names_binary.mp henv
    rw [reckon]
    exact (ihl hl).bind fun a => (ihr hr).bind fun b => happly _ a (some b)

end Node.CallFree

namespace Exec

/-- However much is announced, an expression without calls comes to what was foretold. -/
theorem exists_ends_foretold {e : Node} (he : e.CallFree) {m : Machine}
    {sorts : String → Except Fault ValueSort}
    (h : e.Names fun x => (m.scope.get x).map Value.sort = sorts x) :
    ∃ outcome m', Ends (evaluate · e) m outcome m' ∧ Foretells (e.reckon .sorts sorts) outcome := by
  obtain ⟨m', -, hends | ⟨-, hends⟩⟩ := yields_evaluate he m
  · refine ⟨_, m', hends, he.foretells_reckon fun x hx => ?_⟩
    have hforetold := Foretells.map_sort (m.scope.get x)
    rwa [show (m.scope.get x).map Value.sort = sorts x from h x hx] at hforetold
  · exact ⟨_, m', hends, .liesInValues _ (by trivial)⟩

/-- **Operand errors depend on sorts only.**  Take any two machines on which every variable of an
expression without calls has values of the same sort, or none on both.  The expression ends on both,
and unless one of them fails for its values (a zero divisor, an integer that outgrows a double or
its text), either both give values of the same sort, or both fail with the same fault: a variable of
the expression that is not defined, or a mismatch of the same operator and the same sorts. -/
theorem mismatch_by_sorts {e : Node} (he : e.CallFree) {m₁ m₂ : Machine}
    (hsorts : ∀ x ∈ e.variableNames,
      (m₁.scope.get x).map Value.sort = (m₂.scope.get x).map Value.sort) :
    ∃ o₁ m₁' o₂ m₂', Ends (evaluate · e) m₁ o₁ m₁' ∧ Ends (evaluate · e) m₂ o₂ m₂' ∧
      ((∃ f, f.LiesInValues ∧ (o₁ = .error f ∨ o₂ = .error f)) ∨
        (∃ v₁ v₂, o₁ = .ok v₁ ∧ o₂ = .ok v₂ ∧ v₁.sort = v₂.sort) ∨
        ∃ f, o₁ = .error f ∧ o₂ = .error f ∧
          ((∃ x ∈ e.variableNames, f = .undefined .variable x) ∨
            ∃ symbol left right, f = .operands symbol left right)) := by
  obtain ⟨o₁, m₁', hends₁, hforetold₁⟩ := exists_ends_foretold he fun x hx => hsorts x hx
  obtain ⟨o₂, m₂', hends₂, hforetold₂⟩ := exists_ends_foretold he fun x (_ : x ∈ _) => rfl
  have hfails : FailsOnly (fun f => (∃ x ∈ e.variableNames, f = .undefined .variable x) ∨
      ∃ symbol left right, f = .operands symbol left right)
      (e.reckon .sorts fun x => (m₂.scope.get x).map Value.sort) := by
    refine he.failsOnly_reckon (fun x hx => ?_) fun k a b => ?_
    · exact ((m₂.scope.failsOnly_get x).mono fun f hf => .inl ⟨x, hx, hf⟩).map _
    · exact (k.failsOnly_applySort a b).mono fun f => .inr
  refine ⟨o₁, m₁', o₂, m₂', hends₁, hends₂, ?_⟩
  refine (hforetold₁.alike hforetold₂).imp_right (Or.imp_right ?_)
  rintro ⟨f, hf, rfl, rfl⟩
  exact ⟨f, rfl, rfl, hfails f hf⟩

/-- The quotients differ, the mismatch behind them does not: `x / y - b`. -/
theorem mismatch_by_sorts_quotient :
    let e := Node.binary ⟨.subtract, "-", .none⟩
      (.binary ⟨.divide, "/", .none⟩ (.reference "x") (.reference "y")) (.reference "b")
    let flat : List Request :=
      [.declare "x" (.int 7), .declare "y" (.int 2), .declare "b" (.bool true)]
    let nested : List Request :=
      [.declare "b" (.bool false), .push, .declare "y" (.int (-3)), .declare "x" (.int 0)]
    let m₁ : Machine := { Machine.start .usual 0 0 [] with scope := Scope.after flat }
    let m₂ : Machine := { Machine.start .usual 0 0 [] with scope := Scope.after nested }
    e.CallFree ∧ (∀ x ∈ e.variableNames,
        (m₁.scope.get x).map Value.sort = (m₂.scope.get x).map Value.sort) ∧
      ∃ f m₁' m₂', Ends (evaluate · e) m₁ (.error f) m₁' ∧ Ends (evaluate · e) m₂ (.error f) m₂' ∧
        f.message = "invalid operands for expression: 'int' - 'bool'" := by
  intro e flat nested m₁ m₂
  have he : e.CallFree :=
    .binary _ (.binary _ (.reference "x" _) (.reference "y" _)) (.reference "b" _)
  have hsorts : ∀ x ∈ e.variableNames,
      (m₁.scope.get x).map Value.sort = (m₂.scope.get x).map Value.sort := by
    change ∀ x ∈ ["x", "y", "b"], _
    simp only [List.forall_mem_cons]
    exact ⟨rfl, rfl, rfl, List.forall_mem_nil _⟩
  have hrun₁ : Ends (evaluate · e) m₁ (.error (.operands "-" .int (some .bool))) m₁ := ⟨5, rfl⟩
  have hrun₂ : Ends (evaluate · e) m₂ (.error (.operands "-" .int (some .bool))) m₂ := ⟨5, rfl⟩
  obtain ⟨o₁, m₁', o₂, m₂', hends₁, hends₂, hkind⟩ := mismatch_by_sorts he hsorts
  obtain ⟨rfl, rfl⟩ := hrun₁.unique (steady_evaluate e) hends₁
  obtain ⟨rfl, rfl⟩ := hrun₂.unique (steady_evaluate e) hends₂
  obtain ⟨f, hf, ⟨⟨⟩⟩ | ⟨⟨⟩⟩⟩ | ⟨v₁, v₂, ⟨⟩, -⟩ | ⟨f, ⟨⟩, -, -⟩ := hkind
  · cases hf
  · cases hf
  · exact ⟨he, hsorts, _, _, _, hends₁, hends₂, rfl⟩

end Exec

end Scrawl
