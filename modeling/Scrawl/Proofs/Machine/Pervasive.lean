import Scrawl.Proofs.Machine.Messages
import Scrawl.Proofs.Machine.Within
import Scrawl.Proofs.Node.Names

/-!
# Proofs/Machine/Pervasive — relations that go through every step of a run

A relation between computations is **pervasive** over some names when each step of a run that names
no others is related to itself, and every way of putting steps together keeps the relation.  Then
each part of a run over these names, on a machine whose functions are over them too, is related to
itself with at least as much fuel (`Pervasive.pervades`).  A property of one computation is such a
relation that does not look at the other.

The trees need not be those of programs, so a run can also fail for the shape of its tree
(`Fault.IsOdd`).  That a fault is ordinary or of this sort is itself such a property
(`runProgram_arising`).
-/

namespace Scrawl

/-! ## Faults of runs -/

/-- A fault of a tree that is odd in shape. -/
def Fault.IsOdd : Fault → Prop
  | .unexpected .. | .lacking .. => True
  | _ => False

/-- **A fault that a run can stop with**, whatever its tree is. -/
def Fault.Arises (f : Fault) : Prop := f.IsOrdinary ∨ f.IsOdd

/-- A fault of writing something out may arise in any run. -/
theorem Fault.IsUnwritable.arises : ∀ {f : Fault}, f.IsUnwritable → f.Arises
  | .number .tooLongToWrite, _ => .inl trivial
  | .lacking .., _ => .inr trivial

namespace Exec

variable {α β : Type}

/-! ## Calls and programs in their steps -/

/-- A call with so many others open, from where its frame is pushed. -/
def enter (fuel : Nat) (name : String) (arguments : List Value) (d : Definition) (depth : Nat)
    (limits : Limits) : Exec Value := do
  if limits.calls ≤ depth then fail .callDepth
  let v ← inCall do
    bindParameters d.parameters arguments
    sayLazily 3 fun m => m.scope.dump.map ("Scope:\n" ++ ·)
    evaluate fuel d.body
  say 2 (← ofFault (valueMessage ("return " ++ name ++ ": ") v))
  return v

/-- A call from where its function is known, or known not to be there. -/
def callFound (fuel : Nat) (name : String) (arguments : List Value) :
    Option Definition → Exec Value
  | none => fail (.undefined .function name)
  | some d => do
    unless d.parameters.length = arguments.length do
      fail (.arity name d.parameters.length arguments.length)
    let texts ← arguments.mapM write
    say 2 ("call " ++ name ++ "(" ++ ", ".intercalate texts ++ ")")
    let m ← get
    enter fuel name arguments d m.callDepth m.limits

/-- A call is the builtin of its name, or goes on from the function that the scope has. -/
theorem call_eq (fuel : Nat) (name : String) (arguments : List Value) :
    call (fuel + 1) name arguments = match Builtin.ofName? name with
      | some b => b.call fuel arguments
      | none => get >>= fun m => callFound fuel name arguments (m.scope.getFunction? name) := by
  rw [call]
  cases Builtin.ofName? name with
  | some b => rfl
  | none =>
    refine congrArg (get >>= ·) (funext fun m => ?_)
    cases m.scope.getFunction? name <;> rfl

/-- The machine that a program leaves behind, by the way it ended. -/
def leave (m : Machine) (result : Except Stop Unit) : Machine :=
  (match result with
    | .error (.fault .callDepth) => m.unwind
    | _ => m).closeTrace

/-- A run in its steps. -/
theorem run_runProgram (fuel : Nat) (program : Node) (m : Machine) :
    (runProgram fuel program).run m =
      let r := (visit fuel program).run m
      (r.1, leave r.2 r.1) := rfl

/-! ## Pervasive relations -/

/-- **A relation between computations that every step of a run over some names keeps.**  A
computation without fuel is related to all others.  Of the machine itself, a run looks only at the
open calls, at how many may be open and at the functions; its messages have headings, and only one
of them is about the scope. -/
structure Pervasive (N : String → Prop) (T : ∀ ⦃α : Type⦄, Exec α → Exec α → Prop) : Prop where
  pure : ∀ {α : Type} (a : α), T (Pure.pure a) (Pure.pure a)
  fail : ∀ {α : Type} {f : Fault}, f.Arises → T (Exec.fail f : Exec α) (Exec.fail f)
  exhausted : ∀ {α : Type} (y : Exec α), T (throw .exhausted) y
  bind : ∀ {α β : Type} {x y : Exec α} {f g : α → Exec β},
    T x y → (∀ a, T (f a) (g a)) → T (x >>= f) (y >>= g)
  nesting : ∀ {α : Type} {f g : Nat → Limits → Exec α},
    (∀ depth limits, T (f depth limits) (g depth limits)) →
      T (get >>= fun m => f m.callDepth m.limits) (get >>= fun m => g m.callDepth m.limits)
  function : ∀ {α : Type} (name : String) {f g : Option Definition → Exec α},
    T (f none) (g none) → (∀ d, d.Names N → T (f (some d)) (g (some d))) →
      T (get >>= fun m => f (m.scope.getFunction? name))
        (get >>= fun m => g (m.scope.getFunction? name))
  say : ∀ {level text}, TraceEntry.IsHeaded ⟨level, text⟩ →
    T (Exec.say level text) (Exec.say level text)
  report : ∀ {level : Int} {text : Except Fault String}, Reports level (fun _ => text) →
    T (sayLazily level fun _ => text) (sayLazily level fun _ => text)
  dump : T (sayLazily 3 fun m => m.scope.dump.map ("Scope:\n" ++ ·))
    (sayLazily 3 fun m => m.scope.dump.map ("Scope:\n" ++ ·))
  lookup : ∀ {name}, N name → T (Exec.lookup name) (Exec.lookup name)
  assign : ∀ {name} (v : Value), N name → T (Exec.assign name v) (Exec.assign name v)
  declare : ∀ {name} (v : Value), N name → T (Exec.declare name v) (Exec.declare name v)
  declareFunction : ∀ (name : String) {d : Definition}, d.Names N →
    T (modify fun m => { m with scope := m.scope.declareFunction name d })
      (modify fun m => { m with scope := m.scope.declareFunction name d })
  inFrame : ∀ {α : Type} {x y : Exec α}, T x y → T (Exec.inFrame x) (Exec.inFrame y)
  inCall : ∀ {α : Type} {x y : Exec α}, T x y → T (Exec.inCall x) (Exec.inCall y)
  builtin : ∀ {fuel fuel' : Nat} (b : Builtin) (arguments : List Value), fuel ≤ fuel' →
    T (b.call fuel arguments) (b.call fuel' arguments)

namespace Pervasive

variable {N : String → Prop} {T : ∀ ⦃α : Type⦄, Exec α → Exec α → Prop} (hT : Pervasive N T)

include hT

/-! ## Steps made of others -/

theorem discard {x y : Exec α} (h : T x y) : T (discard x) (discard y) :=
  hT.bind h fun _ => hT.pure ()

/-- Nothing behind a fault is reached. -/
theorem fail_bind {f : Fault} (hf : f.Arises) (k l : α → Exec β) :
    T (Exec.fail f >>= k) (Exec.fail f >>= l) := hT.fail hf

/-- What comes after an outcome may rely on how it came out. -/
theorem ofFault_bind {x : Except Fault α} (hx : FailsOnly Fault.Arises x) {f g : α → Exec β}
    (h : ∀ a, x = .ok a → T (f a) (g a)) :
    T (Exec.ofFault x >>= f) (Exec.ofFault x >>= g) := by
  obtain fault | a := x
  · exact hT.fail_bind (hx fault rfl) f g
  · exact h a rfl

/-- A result computed outside the machine, when its faults may arise. -/
theorem ofFault {x : Except Fault α} (hx : FailsOnly Fault.Arises x) :
    T (Exec.ofFault x) (Exec.ofFault x) := by
  obtain f | a := x
  · exact hT.fail (hx f rfl)
  · exact hT.pure a

/-- A value is written out, or is too long for it. -/
theorem write (v : Value) : T (Exec.write v) (Exec.write v) :=
  hT.ofFault (v.failsOnly_write.mono fun _ h => h ▸ .inl trivial)

/-- An operator is applied, or its operands do not fit it. -/
theorem apply (kind : Kind) (v : Value) (w : Option Value) :
    T (Exec.ofFault (Value.apply kind v w)) (Exec.ofFault (Value.apply kind v w)) :=
  hT.ofFault ((Value.failsOnly_apply kind v w).mono fun _ h => .inl h.isOrdinary)

/-- The announcement of a visit is a message with a heading. -/
theorem visiting (n : Node) :
    T (Exec.announce "Visiting: " n) (Exec.announce "Visiting: " n) :=
  hT.report (reports_label (by decide) n)

theorem evaluating (n : Node) :
    T (Exec.announce "Evaluating: " n) (Exec.announce "Evaluating: " n) :=
  hT.report (reports_label (by decide) n)

/-- Related steps are related in turn, over a list. -/
theorem mapM {f : α → Exec β} (h : ∀ a, T (f a) (f a)) (as : List α) :
    T (as.mapM f) (as.mapM f) := by
  induction as with
  | nil =>
    rw [List.mapM_nil]
    exact hT.pure []
  | cons a as ih =>
    rw [List.mapM_cons]
    exact hT.bind (h a) fun _ => hT.bind ih fun _ => hT.pure _

/-- Parameters are declared under their names, which are names of the tree. -/
theorem bindParameters {parameters : List Node} (h : ∀ p ∈ parameters, ∀ x ∈ p.name?, N x)
    (arguments : List Value) :
    T (Exec.bindParameters parameters arguments) (Exec.bindParameters parameters arguments) := by
  induction parameters generalizing arguments with
  | nil => exact hT.pure ()
  | cons p parameters ih =>
    obtain ⟨hp, hparameters⟩ := List.forall_mem_cons.mp h
    cases arguments with
    | nil => exact hT.pure ()
    | cons v arguments =>
      rw [Exec.bindParameters]
      split
      · exact hT.bind (hT.declare v (hp _ ‹_›)) fun _ => ih hparameters arguments
      · refine hT.fail_bind ?_ _ _
        exact .inr trivial

end Pervasive

/-! ## Running -/

/-- **The parts of a run over some names are related**, for two amounts of fuel. -/
structure Pervades (N : String → Prop) (T : ∀ ⦃α : Type⦄, Exec α → Exec α → Prop)
    (fuel fuel' : Nat) : Prop where
  visit : ∀ {n}, n.Names N → T (visit fuel n) (visit fuel' n)
  visitAll : ∀ {ns}, (∀ n ∈ ns, n.Names N) → T (visitAll fuel ns) (visitAll fuel' ns)
  loop : ∀ {condition update body}, condition.Names N → update.Names N → body.Names N →
    T (loop fuel condition update body) (loop fuel' condition update body)
  test : ∀ {n}, n.Names N → T (test fuel n) (test fuel' n)
  define : ∀ {name initializer}, N name → initializer.Names N →
    T (define fuel name initializer) (define fuel' name initializer)
  evaluate : ∀ {n}, n.Names N → T (evaluate fuel n) (evaluate fuel' n)
  evaluateAll : ∀ {ns}, (∀ n ∈ ns, n.Names N) → T (evaluateAll fuel ns) (evaluateAll fuel' ns)
  evaluateBlock : ∀ {ns}, (∀ n ∈ ns, n.Names N) →
    T (evaluateBlock fuel ns) (evaluateBlock fuel' ns)
  call : ∀ name arguments, T (call fuel name arguments) (call fuel' name arguments)

namespace Pervades

variable {N : String → Prop} {T : ∀ ⦃α : Type⦄, Exec α → Exec α → Prop} (hT : Pervasive N T)

include hT

/-- Without fuel on the left, anything is related. -/
theorem zero (fuel' : Nat) : Pervades N T 0 fuel' where
  visit _ := by rw [Exec.visit]; exact hT.exhausted _
  visitAll _ := by rw [Exec.visitAll]; exact hT.exhausted _
  loop _ _ _ := by rw [Exec.loop]; exact hT.exhausted _
  test _ := by rw [Exec.test]; exact hT.exhausted _
  define _ _ := by rw [Exec.define]; exact hT.exhausted _
  evaluate _ := by rw [Exec.evaluate]; exact hT.exhausted _
  evaluateAll _ := by rw [Exec.evaluateAll]; exact hT.exhausted _
  evaluateBlock _ := by rw [Exec.evaluateBlock]; exact hT.exhausted _
  call _ _ := by rw [Exec.call]; exact hT.exhausted _

variable {fuel fuel' : Nat} (h : Pervades N T fuel fuel')

include h

/-- An operator on one operand: a step assigns to a name of the tree. -/
theorem visit_unary {operator : Token} {operand : Node}
    (hn : (Node.unary operator operand).Names N) :
    T (Exec.visit (fuel + 1) (.unary operator operand))
      (Exec.visit (fuel' + 1) (.unary operator operand)) := by
  rw [Exec.visit, Exec.visit]
  refine hT.bind (hT.visiting _) fun _ => ?_
  dsimp only
  split
  · refine hT.nesting (f := fun depth _ => if depth = 0 then Exec.fail .strayReturn else pure ())
      (g := fun depth _ => if depth = 0 then Exec.fail .strayReturn else pure ()) fun depth _ => ?_
    split
    · exact hT.fail (.inl trivial)
    · exact hT.pure ()
  · split
    · split
      · exact hT.fail (.inl trivial)
      · have hx := (Node.names_unary.mp hn).referenced ‹_›
        exact hT.bind (h.evaluate hn) fun v => hT.assign v hx
    · exact hT.discard (h.evaluate hn)

/-- An operator on two operands: an assignment looks up and assigns a name of the tree. -/
theorem visit_binary {operator : Token} {left right : Node}
    (hn : (Node.binary operator left right).Names N) :
    T (Exec.visit (fuel + 1) (.binary operator left right))
      (Exec.visit (fuel' + 1) (.binary operator left right)) := by
  rw [Exec.visit, Exec.visit]
  refine hT.bind (hT.visiting _) fun _ => ?_
  dsimp only
  split
  · split
    · exact hT.fail (.inl trivial)
    · obtain ⟨hleft, hright⟩ := Node.names_binary.mp hn
      have hx := hleft.referenced ‹_›
      refine hT.bind (hT.lookup hx) fun current => hT.bind (h.evaluate hright) fun v => ?_
      exact hT.bind (hT.apply _ _ _) fun w => hT.assign w hx
  · exact hT.discard (h.evaluate hn)

/-- **One visit is related**, constructor by constructor. -/
theorem visit_succ {n : Node} (hn : n.Names N) :
    T (Exec.visit (fuel + 1) n) (Exec.visit (fuel' + 1) n) := by
  cases n with
  | unary operator operand => exact h.visit_unary hT hn
  | binary operator left right => exact h.visit_binary hT hn
  | absent =>
    rw [Exec.visit, Exec.visit]
    exact hT.bind (f := fun _ => pure ()) (g := fun _ => pure ()) (hT.pure ()) fun _ => hT.pure ()
  | value v =>
    rw [Exec.visit, Exec.visit]
    exact hT.bind (hT.visiting _) fun _ => hT.fail (.inr trivial)
  | block statements =>
    rw [Exec.visit, Exec.visit]
    exact hT.bind (hT.visiting _) fun _ => h.visitAll (Node.names_block.mp hn)
  | «variable» name initializer isDefinition =>
    obtain ⟨hname, hinitializer⟩ := Node.names_variable.mp hn
    cases isDefinition with
    | true =>
      rw [Exec.visit, Exec.visit]
      exact hT.bind (hT.visiting _) fun _ => h.define hname hinitializer
    | false =>
      rw [Exec.visit, Exec.visit]
      exact hT.bind (hT.visiting _) fun _ => hT.discard (h.evaluate hn)
  | function name parameters body isDefinition =>
    cases isDefinition with
    | true =>
      rw [Exec.visit, Exec.visit]
      refine hT.bind (hT.visiting _) fun _ => ?_
      exact hT.bind (hT.declareFunction name hn.definition) fun _ => hT.say (isHeaded_define name)
    | false =>
      rw [Exec.visit, Exec.visit]
      exact hT.bind (hT.visiting _) fun _ => hT.discard (h.evaluate hn)
  | terminal content =>
    rw [Exec.visit, Exec.visit]
    exact hT.bind (hT.visiting _) fun _ => hT.pure ()
  | choice condition whenTrue whenFalse =>
    obtain ⟨hcondition, htrue, hfalse⟩ := Node.names_choice.mp hn
    rw [Exec.visit, Exec.visit]
    refine hT.bind (hT.visiting _) fun _ => hT.bind (h.evaluate hcondition) fun v => ?_
    split
    · exact h.visit htrue
    · exact h.visit hfalse
    · exact hT.fail (.inl trivial)
  | whileLoop condition body =>
    obtain ⟨hcondition, hbody⟩ := Node.names_whileLoop.mp hn
    rw [Exec.visit, Exec.visit]
    refine hT.bind (hT.visiting _) fun _ => hT.inFrame ?_
    exact h.loop hcondition Node.names_absent hbody
  | forLoop initialization condition update body =>
    obtain ⟨hinitialization, hcondition, hupdate, hbody⟩ := Node.names_forLoop.mp hn
    rw [Exec.visit, Exec.visit]
    refine hT.bind (hT.visiting _) fun _ => hT.inFrame ?_
    exact hT.bind (h.visit hinitialization) fun _ => h.loop hcondition hupdate hbody

theorem visitAll_succ {ns : List Node} (hns : ∀ n ∈ ns, n.Names N) :
    T (Exec.visitAll (fuel + 1) ns) (Exec.visitAll (fuel' + 1) ns) := by
  cases ns with
  | nil =>
    rw [Exec.visitAll, Exec.visitAll]
    exact hT.pure ()
  | cons n rest =>
    obtain ⟨hn, hrest⟩ := List.forall_mem_cons.mp hns
    rw [Exec.visitAll, Exec.visitAll]
    exact hT.bind (h.visit hn) fun _ => h.visitAll hrest

/-- One turn of a loop is related: its test, its body, its update, and the loop with less fuel. -/
theorem loop_succ {condition update body : Node} (hcondition : condition.Names N)
    (hupdate : update.Names N) (hbody : body.Names N) :
    T (Exec.loop (fuel + 1) condition update body)
      (Exec.loop (fuel' + 1) condition update body) := by
  rw [Exec.loop, Exec.loop]
  refine hT.bind (h.test hcondition) fun goesOn => ?_
  split
  · refine hT.bind (h.visit hbody) fun _ => hT.bind (h.visit hupdate) fun _ => ?_
    exact h.loop hcondition hupdate hbody
  · exact hT.pure ()

theorem test_succ {condition : Node} (hn : condition.Names N) :
    T (Exec.test (fuel + 1) condition) (Exec.test (fuel' + 1) condition) := by
  by_cases ha : condition = .absent
  · rw [ha, Exec.test, Exec.test]
    exact hT.pure true
  · rw [Exec.test.eq_3 _ _ ha, Exec.test.eq_3 _ _ ha]
    refine hT.bind (h.evaluate hn) fun v => ?_
    split
    · exact hT.pure _
    · exact hT.pure false

/-- A definition is related: its value is evaluated first and declared under a name of the tree. -/
theorem define_succ {name : String} {initializer : Node} (hname : N name)
    (hn : initializer.Names N) :
    T (Exec.define (fuel + 1) name initializer) (Exec.define (fuel' + 1) name initializer) := by
  have hdeclare (v : Value) : T
      (do
        Exec.declare name v
        Exec.sayLazily 2 fun _ => valueMessage ("declare " ++ name ++ ": ") v)
      (do
        Exec.declare name v
        Exec.sayLazily 2 fun _ => valueMessage ("declare " ++ name ++ ": ") v) :=
    hT.bind (hT.declare v hname) fun _ => hT.report (.value (by decide) name v)
  rw [Exec.define, Exec.define]
  cases ha : initializer.assigned? with
  | some right => exact hT.bind (h.evaluate (hn.assigned ha)) hdeclare
  | none => exact hT.bind (hT.pure _) hdeclare

theorem evaluateAll_succ {ns : List Node} (hns : ∀ n ∈ ns, n.Names N) :
    T (Exec.evaluateAll (fuel + 1) ns) (Exec.evaluateAll (fuel' + 1) ns) := by
  cases ns with
  | nil =>
    rw [Exec.evaluateAll, Exec.evaluateAll]
    exact hT.pure []
  | cons n rest =>
    obtain ⟨hn, hrest⟩ := List.forall_mem_cons.mp hns
    rw [Exec.evaluateAll, Exec.evaluateAll]
    exact hT.bind (h.evaluate hn) fun _ => hT.bind (h.evaluateAll hrest) fun _ => hT.pure _

/-- A body is related up to its first `return`. -/
theorem evaluateBlock_succ {ns : List Node} (hns : ∀ n ∈ ns, n.Names N) :
    T (Exec.evaluateBlock (fuel + 1) ns) (Exec.evaluateBlock (fuel' + 1) ns) := by
  cases ns with
  | nil =>
    rw [Exec.evaluateBlock, Exec.evaluateBlock]
    exact hT.pure _
  | cons n rest =>
    obtain ⟨hn, hrest⟩ := List.forall_mem_cons.mp hns
    rw [Exec.evaluateBlock, Exec.evaluateBlock]
    split
    · exact h.evaluate hn
    · exact hT.bind (h.visit hn) fun _ => h.evaluateBlock hrest

/-- **One evaluation is related**, constructor by constructor. -/
theorem evaluate_succ {n : Node} (hn : n.Names N) :
    T (Exec.evaluate (fuel + 1) n) (Exec.evaluate (fuel' + 1) n) := by
  rw [Exec.evaluate.eq_def, Exec.evaluate.eq_def (fuel' + 1)]
  refine hT.bind (hT.evaluating _) fun _ => ?_
  split
  · exact h.evaluateBlock (Node.names_block.mp hn)
  · exact hT.lookup (Node.names_variable.mp hn).1
  · exact hT.pure _
  · exact hT.fail (.inr trivial)
  · exact hT.bind (h.evaluate (Node.names_unary.mp hn)) fun _ => hT.apply _ _ _
  · obtain ⟨hleft, hright⟩ := Node.names_binary.mp hn
    refine hT.bind (h.evaluate hleft) fun _ => hT.bind (h.evaluate hright) fun _ => ?_
    exact hT.apply _ _ _
  · exact hT.bind (h.evaluateAll hn.arguments) fun _ => h.call _ _
  · exact hT.fail (.inr trivial)

/-- A call is related from its frame on: the parameters, the dump and the body. -/
theorem enter (name : String) (arguments : List Value) {d : Definition} (hd : d.Names N)
    (depth : Nat) (limits : Limits) : T (Exec.enter fuel name arguments d depth limits)
      (Exec.enter fuel' name arguments d depth limits) := by
  have hbody : T
      (inCall do
        Exec.bindParameters d.parameters arguments
        Exec.sayLazily 3 fun m => m.scope.dump.map ("Scope:\n" ++ ·)
        Exec.evaluate fuel d.body)
      (inCall do
        Exec.bindParameters d.parameters arguments
        Exec.sayLazily 3 fun m => m.scope.dump.map ("Scope:\n" ++ ·)
        Exec.evaluate fuel' d.body) :=
    hT.inCall (hT.bind (hT.bindParameters hd.parameters _) fun _ => hT.bind hT.dump fun _ =>
      h.evaluate hd.body)
  rw [Exec.enter, Exec.enter]
  dsimp only
  split
  · refine hT.fail_bind ?_ _ _
    exact .inl trivial
  · have hreturn (v : Value) : Reports 2 fun _ => valueMessage ("return " ++ name ++ ": ") v :=
      .value (by decide) name v
    have harises (v : Value) :
        FailsOnly Fault.Arises (valueMessage ("return " ++ name ++ ": ") v) :=
      ((hreturn v).failsOnly .empty).mono fun _ => Fault.IsUnwritable.arises
    refine hT.bind hbody fun v => hT.ofFault_bind (harises v) fun text htext => ?_
    exact hT.bind (hT.say ((hreturn v).isHeaded (s := .empty) htext)) fun _ => hT.pure v

/-- A call is related from where its function is known. -/
theorem callFound (name : String) (arguments : List Value) {found : Option Definition}
    (hfound : ∀ d ∈ found, d.Names N) :
    T (Exec.callFound fuel name arguments found) (Exec.callFound fuel' name arguments found) := by
  cases found with
  | none => exact hT.fail (.inl trivial)
  | some d =>
    rw [Exec.callFound, Exec.callFound]
    dsimp only
    split
    · refine hT.bind (hT.mapM hT.write arguments) fun texts => ?_
      refine hT.bind (hT.say (isHeaded_call name texts)) fun _ => ?_
      exact hT.nesting fun depth limits => h.enter hT name arguments (hfound d rfl) depth limits
    · refine hT.fail_bind ?_ _ _
      exact .inl trivial

/-- **One call is related**; a builtin may draw with more fuel on the right. -/
theorem call_succ (hle : fuel ≤ fuel') (name : String) (arguments : List Value) :
    T (Exec.call (fuel + 1) name arguments) (Exec.call (fuel' + 1) name arguments) := by
  rw [call_eq, call_eq]
  cases Builtin.ofName? name with
  | some b => exact hT.builtin b arguments hle
  | none =>
    have hnone : ∀ d ∈ (none : Option Definition), d.Names N := by
      rintro d ⟨⟩
    refine hT.function name (h.callFound hT name arguments hnone) fun d hd => ?_
    refine h.callFound hT name arguments ?_
    rintro _ ⟨⟩
    exact hd

/-- **With one unit of fuel more.** -/
theorem succ (hle : fuel ≤ fuel') : Pervades N T (fuel + 1) (fuel' + 1) where
  visit := h.visit_succ hT
  visitAll := h.visitAll_succ hT
  loop := h.loop_succ hT
  test := h.test_succ hT
  define := h.define_succ hT
  evaluate := h.evaluate_succ hT
  evaluateAll := h.evaluateAll_succ hT
  evaluateBlock := h.evaluateBlock_succ hT
  call := h.call_succ hT hle

end Pervades

/-- **Every part of a run over some names is related to itself with at least as much fuel.** -/
theorem Pervasive.pervades {N : String → Prop} {T : ∀ ⦃α : Type⦄, Exec α → Exec α → Prop}
    (hT : Pervasive N T) : ∀ {fuel fuel' : Nat}, fuel ≤ fuel' → Pervades N T fuel fuel'
  | 0, fuel', _ => .zero hT fuel'
  | _ + 1, _ + 1, hle =>
      have hle := Nat.le_of_succ_le_succ hle
      (pervades hT hle).succ hT hle

/-! ## Runs of any tree -/

/-- A computation whose faults all arise. -/
def Arising (x : Exec α) : Prop := ∀ (m : Machine) (f : Fault), (x.run m).1 = .error (.fault f) →
  f.Arises

namespace Arising

theorem pure (a : α) : Arising (Pure.pure a) := by
  rintro m f ⟨⟩

theorem fail {f : Fault} (h : f.Arises) : Arising (Exec.fail f : Exec α) := by
  rintro m _ ⟨⟩
  exact h

theorem ofFault {x : Except Fault α} (h : FailsOnly Fault.Arises x) : Arising (Exec.ofFault x) := by
  obtain f | a := x
  · exact .fail (h f rfl)
  · exact .pure a

theorem modify (f : Machine → Machine) : Arising (modify f) := by
  rintro m f ⟨⟩

/-- What is done with the machine may depend on it. -/
theorem get_bind {f : Machine → Exec α} (h : ∀ m, Arising (f m)) : Arising (get >>= f) :=
  fun m => h m m

/-- Of computations in turn, either may stop the run. -/
theorem bind {x : Exec α} {f : α → Exec β} (hx : Arising x) (hf : ∀ a, Arising (f a)) :
    Arising (x >>= f) := by
  intro m fault h
  have hm := hx m
  rw [run_bind] at h
  generalize x.run m = r at h hm
  obtain ⟨stop | a, m'⟩ := r
  · cases h
    exact hm fault rfl
  · exact hf a m' fault h

theorem sayLazily (level : Int) {text : Machine → Except Fault String}
    (h : ∀ m, FailsOnly Fault.Arises (text m)) : Arising (sayLazily level text) := by
  refine .get_bind fun m => ?_
  split
  · exact .bind (.ofFault (h m)) fun _ => .modify _
  · exact .pure ()

theorem lookup (name : String) : Arising (lookup name) :=
  .get_bind fun m => .ofFault ((m.scope.failsOnly_get name).mono fun _ h => h ▸ .inl trivial)

theorem assign (name : String) (v : Value) : Arising (assign name v) := by
  refine .get_bind fun m => .bind (.ofFault ?_) fun _ => .modify _
  exact (m.scope.failsOnly_set name v).mono fun _ h => h ▸ .inl trivial

/-- A builtin's own faults are ordinary ones. -/
theorem builtin (fuel : Nat) (b : Builtin) (arguments : List Value) :
    Arising (b.call fuel arguments) := by
  intro m fault h
  obtain ⟨f, hf, hfault⟩ := OnConsole.builtin fuel b arguments
  rw [hf] at h
  exact .inl (hfault _ fault h).isOrdinary

end Arising

/-- **What a run stops with arises**: no step fails in another way. -/
theorem pervasive_arising : Pervasive (fun _ => True) fun _ x _ => Arising x where
  pure := .pure
  fail := .fail
  exhausted _ := by
    rintro m f ⟨⟩
  bind := .bind
  nesting h := .get_bind fun m => h m.callDepth m.limits
  function name f _ hnone hsome := .get_bind fun m => by
    cases m.scope.getFunction? name with
    | none => exact hnone
    | some d => exact hsome d (d.names_of_forall fun _ => trivial)
  say _ := .modify _
  report h := .sayLazily _ fun _ => (h.failsOnly .empty).mono fun _ => Fault.IsUnwritable.arises
  dump := .sayLazily _ fun m => (m.scope.failsOnly_dump.mono fun _ h => h ▸ .inl trivial).map _
  lookup _ := .lookup _
  assign v _ := .assign _ v
  declare _ _ := .modify _
  declareFunction _ _ _ := .modify _
  inFrame h m := h { m with scope := m.scope.push }
  inCall h m := h { m with callDepth := m.callDepth + 1, scope := m.scope.push }
  builtin b arguments _ := .builtin _ b arguments

/-- **Whatever tree is run, only faults that arise stop it.** -/
theorem runProgram_arising (fuel : Nat) (program : Node) : Arising (runProgram fuel program) :=
  (pervasive_arising.pervades (Nat.le_refl fuel)).visit (program.names_of_forall fun _ => trivial)

end Exec

end Scrawl
