import Scrawl.Proofs.Machine.Discipline
import Scrawl.Proofs.Machine.Messages
import Scrawl.Proofs.Scope.Density

/-!
# Proofs/Machine/Faults — what a run of a program can fail with

The tree of a program holds nothing that a run cannot deal with, and neither do the functions that
it leaves in the scope.  So a run fails only for reasons that lie in the program: one of its own
errors, or a number that outgrows a double or its text (`Fault.IsOrdinary`).  The invariant is
`Machine.Sound`: the scope is an arena, and its functions are made of statements.
-/

namespace Scrawl

/-! ## Sound machines -/

/-- A statement, whatever its literals are. -/
abbrev Node.Statement : Node → Prop := Node.IsStatement fun _ => True

/-- An expression, whatever its literals are. -/
abbrev Node.Expression : Node → Prop := Node.IsExpression fun _ => True

/-- A block of statements, whatever their literals are. -/
abbrev Node.Statements : Node → Prop := Node.IsProgram fun _ => True

/-- **A function as programs define it**: with names for parameters and a block of statements. -/
structure Definition.Formed (d : Definition) : Prop where
  parameters : ∀ p ∈ d.parameters, ∃ name, p = .reference name
  body : d.body.Statements

/-- Every function of the layers lies in a class. -/
def Layers.Defines (P : Definition → Prop) : Layers → Prop
  | .global l => ∀ entry ∈ l.functions, P entry.2
  | .inner l below => (∀ entry ∈ l.functions, P entry.2) ∧ below.Defines P

/-- An entry of a table after one is put in is that one or was there. -/
theorem mem_putEntry {α : Type} {name : String} {a : α} {entry : String × α} :
    ∀ {entries : List (String × α)}, entry ∈ putEntry name a entries →
      entry.2 = a ∨ entry ∈ entries
  | [], h => .inl (List.mem_singleton.mp h ▸ rfl)
  | (n, b) :: rest, h => by
      rw [putEntry] at h
      split at h
      · rcases List.mem_cons.mp h with rfl | h
        · exact .inl rfl
        · exact .inr (List.mem_cons_of_mem _ h)
      · rcases List.mem_cons.mp h with rfl | h
        · exact .inr List.mem_cons_self
        · exact (mem_putEntry h).imp_right (List.mem_cons_of_mem _)

namespace Layers

variable {P : Definition → Prop}

/-- A property of the functions held is kept by a change of the top that keeps it there. -/
theorem defines_modifyTop {f : Layer → Layer}
    (hf : ∀ l : Layer, (∀ entry ∈ l.functions, P entry.2) → ∀ entry ∈ (f l).functions, P entry.2) :
    ∀ {a : Layers}, a.Defines P → (a.modifyTop f).Defines P
  | .global l, h => hf l h
  | .inner l _, h => ⟨hf l h.1, h.2⟩

theorem Defines.bind (name : String) (v : Value) {a : Layers} (h : a.Defines P) :
    (a.modifyTop (.bind name v)).Defines P :=
  defines_modifyTop (f := .bind name v) (fun _ hl => hl) h

/-- A function put in has to have the property itself. -/
theorem Defines.declareFunction (name : String) {d : Definition} (hd : P d) {a : Layers}
    (h : a.Defines P) :
    (a.modifyTop fun l => { l with functions := putEntry name d l.functions }).Defines P := by
  refine defines_modifyTop (fun l hl entry he => ?_) h
  rcases mem_putEntry he with he | he
  · exact he ▸ hd
  · exact hl entry he

/-- An assignment touches values only, in whichever layer it lands. -/
theorem Defines.assign? {name : String} {v : Value} :
    ∀ {a b : Layers}, a.Defines P → a.assign? name v = some b → b.Defines P
  | .global l, b, h, hb => by
      rw [Layers.assign?] at hb
      split at hb
      · obtain rfl := Option.some.inj hb
        exact h
      · cases hb
  | .inner l below, b, h, hb => by
      rw [Layers.assign?] at hb
      split at hb
      · obtain rfl := Option.some.inj hb
        exact h
      · obtain ⟨below', hbelow, rfl⟩ := Option.map_eq_some_iff.mp hb
        exact ⟨h.1, h.2.assign? hbelow⟩

/-- The function a search finds is one of those held. -/
theorem Defines.search {name : String} {d : Definition} :
    ∀ {a : Layers}, a.Defines P → a.search (·.functions.lookup name) = some d → P d
  | .global l, h, hd => by
      obtain ⟨_, _, hsplit, -⟩ := List.lookup_eq_some_iff.mp hd
      exact h (name, d) (by simp [hsplit])
  | .inner l below, h, hd => by
      rw [Layers.search, Option.or_eq_some_iff] at hd
      rcases hd with hd | ⟨-, hd⟩
      · obtain ⟨_, _, hsplit, -⟩ := List.lookup_eq_some_iff.mp hd
        exact h.1 (name, d) (by simp [hsplit])
      · exact h.2.search hd

end Layers

/-- **A machine that programs leave behind**: its scope is an arena, and the functions in it are as
programs define them. -/
def Machine.Sound (m : Machine) : Prop :=
  ∃ a : Layers, m.scope = a.arena ∧ a.Defines Definition.Formed

namespace Machine

/-- A machine starts sound: its one layer holds no function yet. -/
theorem sound_start (limits : Limits) (verbosity seed : Int) (input : List String) :
    (start limits verbosity seed input).Sound :=
  ⟨.empty, rfl, nofun⟩

namespace Sound

variable {m : Machine} (h : m.Sound)

include h

/-- All that matters is the scope. -/
theorem of_scope {m' : Machine} (hm : m'.scope = m.scope) : m'.Sound := by
  obtain ⟨a, ha, hd⟩ := h
  exact ⟨a, hm.trans ha, hd⟩

/-- A sound scope numbers its slots without a gap, as arenas do. -/
theorem dense : m.scope.Dense := by
  obtain ⟨a, ha, -⟩ := h
  exact ha ▸ a.dense_arena

/-- A new frame holds no function, so nothing is to be checked of it. -/
theorem push : ({ m with scope := m.scope.push } : Machine).Sound := by
  obtain ⟨a, ha, hd⟩ := h
  refine ⟨.inner ⟨[], []⟩ a, ?_, nofun, hd⟩
  change m.scope.push = _
  rw [ha, Layers.push_arena]

/-- Dropping a frame keeps soundness also at the bottom, where it drops nothing. -/
theorem drop : ({ m with scope := m.scope.drop } : Machine).Sound := by
  obtain ⟨a, ha, hd⟩ := h
  obtain l | ⟨l, below⟩ := a
  · exact ⟨.global l, congrArg Scope.drop ha, hd⟩
  · exact ⟨below, (congrArg Scope.drop ha).trans (Layers.drop_arena l below), hd.2⟩

theorem declare (name : String) (v : Value) :
    ({ m with scope := (m.scope.declare name v).2 } : Machine).Sound := by
  obtain ⟨a, ha, hd⟩ := h
  refine ⟨a.modifyTop (.bind name v), ?_, hd.bind name v⟩
  change (m.scope.declare name v).2 = _
  rw [ha, Layers.declare_arena]

/-- Declaring a well-formed function is the one step that adds to what soundness asks. -/
theorem declareFunction (name : String) {d : Definition} (hf : d.Formed) :
    ({ m with scope := m.scope.declareFunction name d } : Machine).Sound := by
  obtain ⟨a, ha, hd⟩ := h
  refine ⟨_, ?_, hd.declareFunction name hf⟩
  change m.scope.declareFunction name d = _
  rw [ha, Layers.declareFunction_arena]

/-- An assignment that succeeds keeps the functions of every frame. -/
theorem set {name : String} {v : Value} {s : Scope} (hs : m.scope.set name v = .ok s) :
    ({ m with scope := s } : Machine).Sound := by
  obtain ⟨a, ha, hd⟩ := h
  rw [ha, Layers.set_arena, Layers.set] at hs
  cases hb : a.assign? name v with
  | none =>
    rw [hb] at hs
    cases hs
  | some b =>
    rw [hb] at hs
    exact ⟨b, (Except.ok.inj hs).symm, hd.assign? hb⟩

/-- **The functions of a sound machine are formed.** -/
theorem formed {name : String} {d : Definition} (hf : m.scope.getFunction? name = some d) :
    d.Formed := by
  obtain ⟨a, ha, hd⟩ := h
  rw [ha, Layers.getFunction?_arena] at hf
  exact hd.search hf

end Sound

end Machine

/-! ## Trees of programs -/

namespace Node

variable {L : Value → Prop} {n : Node}

/-- A place where a statement may stand: nothing, a statement or a block of them. -/
def Visited (n : Node) : Prop := n = .absent ∨ n.Statement ∨ n.Statements

/-- A place whose value may be asked for: an expression, the body of a function or what returns from
it. -/
def Evaluated (n : Node) : Prop :=
  n.Expression ∨ n.Statements ∨ ∃ operator e, n = .unary operator e ∧ e.Expression

/-- A literal's label can fail for the length of a number only. -/
theorem ordinary_label_literal (v : Value) : Ordinary (Node.literal v).label :=
  (failsOnly_label_literal v).mono fun _ h => h ▸ trivial

/-- A return among statements, and what it returns. -/
theorem IsStatement.exists_of_isReturn (h : n.IsStatement L) (hr : n.isReturn) :
    ∃ operator e, n = .unary operator e ∧ operator.kind = .returnWord ∧
      (e = .literal .void ∨ e.IsExpression L) := by
  cases h with
  | returnVoid hk => exact ⟨_, _, rfl, hk, .inl rfl⟩
  | returnValue hk he => exact ⟨_, _, rfl, hk, .inr he⟩
  | expression he =>
    cases he with
    | unary hk ho => exact ⟨_, _, rfl, of_decide_eq_true hr, .inr ho⟩
    | _ => cases hr
  | _ => cases hr

/-- A `return` is the statement that may stand where a value is asked for. -/
theorem IsStatement.evaluated (h : n.Statement) (hr : n.isReturn) : n.Evaluated := by
  obtain ⟨operator, e, rfl, -, rfl | he⟩ := h.exists_of_isReturn hr
  · exact .inr (.inr ⟨_, _, rfl, .literal trivial⟩)
  · exact .inr (.inr ⟨_, _, rfl, he⟩)

end Node

/-! ## Computations on sound machines -/

/-- **An end that is no fault of the machine**: a result in a class, an ordinary fault, or fuel that
ran out. -/
def EndsWell {α : Type} (Q : α → Prop) : Except Stop α → Prop
  | .ok a => Q a
  | .error (.fault f) => f.IsOrdinary
  | .error .exhausted => True

namespace Exec

variable {α β : Type} {P : α → Prop} {Q : β → Prop}

/-- **On a sound machine a computation ends well**, and leaves a sound machine however it ends. -/
def Safe (P : α → Prop) (x : Exec α) : Prop :=
  ∀ m : Machine, m.Sound → EndsWell P (x.run m).1 ∧ (x.run m).2.Sound

namespace Safe

theorem pure {a : α} (h : P a) : Safe P (Pure.pure a : Exec α) := fun _ hm => ⟨h, hm⟩

theorem exhausted : Safe P (throw .exhausted : Exec α) := fun _ hm => ⟨trivial, hm⟩

theorem fail {f : Fault} (h : f.IsOrdinary) : Safe P (fail f : Exec α) := fun _ hm => ⟨h, hm⟩

theorem get : Safe Machine.Sound (MonadState.get : Exec Machine) := fun _ hm => ⟨hm, hm⟩

theorem modify {f : Machine → Machine} (h : ∀ m : Machine, m.Sound → (f m).Sound) :
    Safe (fun _ => True) (modify f : Exec Unit) := fun m hm => ⟨trivial, h m hm⟩

/-- A result computed outside the machine is safe when its faults are ordinary ones. -/
theorem ofFault {x : Except Fault α} (h : Ordinary x) : Safe (fun _ => True) (ofFault x) := by
  intro m hm
  obtain f | a := x
  · exact ⟨h f rfl, hm⟩
  · exact ⟨trivial, hm⟩

/-- **Safe computations in turn**: the second starts where the first left a sound machine. -/
theorem bind {x : Exec α} {f : α → Exec β} (hx : Safe P x) (hf : ∀ a, P a → Safe Q (f a)) :
    Safe Q (x >>= f) := by
  intro m hm
  have h := hx m hm
  rw [run_bind]
  generalize x.run m = r at h ⊢
  obtain ⟨e | a, m'⟩ := r
  · exact ⟨by cases e <;> exact h.1, h.2⟩
  · exact hf a h.1 m' h.2

/-- A part whose result does not matter. -/
theorem step {x : Exec α} {f : α → Exec β} (hx : Safe (fun _ => True) x)
    (hf : ∀ a, Safe Q (f a)) : Safe Q (x >>= f) := hx.bind fun a _ => hf a

theorem fail_bind {f : Fault} (h : f.IsOrdinary) (g : α → Exec β) :
    Safe Q (Exec.fail f >>= g) := fun _ hm => ⟨h, hm⟩

theorem discard {x : Exec α} (hx : Safe (fun _ => True) x) : Safe (fun _ => True) (discard x) :=
  hx.step fun _ => .pure trivial

theorem mapM {f : α → Exec β} (h : ∀ a, Safe (fun _ => True) (f a)) :
    ∀ xs : List α, Safe (fun _ => True) (xs.mapM f)
  | [] => by
      rw [List.mapM_nil]
      exact .pure trivial
  | a :: xs => by
      rw [List.mapM_cons]
      exact (h a).step fun _ => (mapM h xs).step fun _ => .pure trivial

/-! ### The steps of a run -/

theorem write (v : Value) : Safe (fun _ => True) (write v) := .ofFault (ordinary_write v)

theorem say (level : Int) (text : String) : Safe (fun _ => True) (say level text) :=
  .modify fun m hm => hm.of_scope (m.scope_say level text)

/-- A line of the trace is safe where its text is, also when it is not made. -/
theorem sayLazily (level : Int) {text : Machine → Except Fault String}
    (h : ∀ m, Ordinary (text m)) : Safe (fun _ => True) (sayLazily level text) := by
  refine .bind .get fun m _ => ?_
  split
  · exact .step (.ofFault (h m)) fun _ => .say level _
  · exact .pure trivial

/-- A node is announced safely where it has a label. -/
theorem announce (text : String) {n : Node} (h : Ordinary n.label) :
    Safe (fun _ => True) (announce text n) :=
  .sayLazily 3 fun _ => h.map _

theorem lookup (name : String) : Safe (fun _ => True) (lookup name) := by
  refine .bind .get fun m _ => .ofFault ?_
  exact (m.scope.failsOnly_get name).mono fun _ h => h ▸ trivial

/-- An assignment fails only for a name that is not declared, and then changes nothing. -/
theorem assign (name : String) (v : Value) : Safe (fun _ => True) (assign name v) := by
  intro m hm
  rw [run_assign]
  cases h : m.scope.set name v with
  | ok scope => exact ⟨trivial, hm.set h⟩
  | error f =>
    obtain rfl := m.scope.failsOnly_set name v f h
    exact ⟨trivial, hm⟩

theorem declare (name : String) (v : Value) : Safe (fun _ => True) (declare name v) :=
  .modify fun _ hm => hm.declare name v

/-- A frame of its own is opened on and dropped from sound machines. -/
theorem inFrame {x : Exec α} (h : Safe P x) : Safe P (inFrame x) := fun m hm =>
  have hx := h { m with scope := m.scope.push } hm.push
  ⟨hx.1, hx.2.drop⟩

/-- A call of its own is a frame of its own, counted. -/
theorem inCall {x : Exec α} (h : Safe P x) : Safe P (inCall x) := fun m hm =>
  have hx := h.inFrame { m with callDepth := m.callDepth + 1 } (hm.of_scope rfl)
  ⟨hx.1, hx.2.of_scope rfl⟩

/-- **A builtin fails in ordinary ways only.** -/
theorem builtin (fuel : Nat) (b : Builtin) (arguments : List Value) :
    Safe (fun _ => True) (b.call fuel arguments) := by
  intro m hm
  obtain ⟨f, hf, hfault⟩ := OnConsole.builtin fuel b arguments
  rw [hf]
  refine ⟨?_, hm.of_scope rfl⟩
  rcases hend : (f m.console).1 with (fault | _) | v
  · exact (hfault _ fault hend).isOrdinary
  · trivial
  · trivial

/-- Parameters that are names are bound without a fault, however many values there are. -/
theorem bindParameters : ∀ {parameters : List Node} (arguments : List Value),
    (∀ p ∈ parameters, ∃ name, p = .reference name) →
      Safe (fun _ => True) (bindParameters parameters arguments)
  | [], _, _ => .pure trivial
  | _ :: _, [], _ => .pure trivial
  | parameter :: parameters, v :: arguments, h => by
      obtain ⟨⟨name, rfl⟩, hrest⟩ := List.forall_mem_cons.mp h
      exact .step (.declare name v) fun _ => bindParameters arguments hrest

end Safe

/-- **What the parts of a run may be given to end well**, for an amount of fuel. -/
structure Careful (fuel : Nat) : Prop where
  visit : ∀ {n : Node}, n.Visited → Safe (fun _ => True) (visit fuel n)
  visitAll : ∀ {ns : List Node}, (∀ n ∈ ns, n.Statement) → Safe (fun _ => True) (visitAll fuel ns)
  loop : ∀ {condition update body : Node}, (condition ≠ .absent → condition.Expression) →
    update.Visited → body.Statements → Safe (fun _ => True) (loop fuel condition update body)
  test : ∀ {condition : Node}, (condition ≠ .absent → condition.Expression) →
    Safe (fun _ => True) (test fuel condition)
  define : ∀ (name : String) {initializer : Node},
    (∀ right, initializer.assigned? = some right → right.Expression) →
      Safe (fun _ => True) (define fuel name initializer)
  evaluate : ∀ {n : Node}, n.Evaluated → Safe (fun _ => True) (evaluate fuel n)
  evaluateAll : ∀ {ns : List Node}, (∀ n ∈ ns, n.Expression) →
    Safe (fun _ => True) (evaluateAll fuel ns)
  evaluateBlock : ∀ {ns : List Node}, (∀ n ∈ ns, n.Statement) →
    Safe (fun _ => True) (evaluateBlock fuel ns)
  call : ∀ (name : String) (arguments : List Value), Safe (fun _ => True) (call fuel name arguments)

namespace Careful

/-- With no fuel left a run is exhausted, which is an ordinary ending. -/
theorem zero : Careful 0 where
  visit _ := by rw [Exec.visit]; exact .exhausted
  visitAll _ := by rw [Exec.visitAll]; exact .exhausted
  loop _ _ _ := by rw [Exec.loop]; exact .exhausted
  test _ := by rw [Exec.test]; exact .exhausted
  define _ _ _ := by rw [Exec.define]; exact .exhausted
  evaluate _ := by rw [Exec.evaluate]; exact .exhausted
  evaluateAll _ := by rw [Exec.evaluateAll]; exact .exhausted
  evaluateBlock _ := by rw [Exec.evaluateBlock]; exact .exhausted
  call _ _ := by rw [Exec.call]; exact .exhausted

variable {fuel : Nat} (h : Careful fuel)

include h

/-- An operator on one operand: a `return` looks at the depth of calls alone, a step assigns, and
any other is evaluated. -/
theorem visit_unary (operator : Token) {operand : Node} (ho : operand.Expression) :
    Safe (fun _ => True) (Exec.visit (fuel + 1) (.unary operator operand)) := by
  have he : (Node.unary operator operand).Evaluated := .inr (.inr ⟨_, _, rfl, ho⟩)
  rw [Exec.visit]
  refine .step (.announce _ (.ok _)) fun _ => ?_
  dsimp only
  split
  · refine .bind .get fun m _ => ?_
    split
    · exact .fail trivial
    · exact .pure trivial
  · split
    · split
      · exact .fail trivial
      · exact .step (h.evaluate he) fun v => .assign _ v
    · exact (h.evaluate he).discard

/-- An operator on two operands: an assignment evaluates its right side, any other is evaluated. -/
theorem visit_binary (operator : Token) {left right : Node}
    (he : (Node.binary operator left right).Expression) (hr : right.Expression) :
    Safe (fun _ => True) (Exec.visit (fuel + 1) (.binary operator left right)) := by
  rw [Exec.visit]
  refine .step (.announce _ (.ok _)) fun _ => ?_
  dsimp only
  split
  · split
    · exact .fail trivial
    · refine .step (.lookup _) fun v => .step (h.evaluate (.inl hr)) fun w => ?_
      exact .step (.ofFault (Value.ordinary_apply _ v (some w))) fun w => .assign _ w
  · exact (h.evaluate (.inl he)).discard

/-- **An expression is visited safely**, as a statement of its own. -/
theorem visit_expression {e : Node} (he : e.Expression) :
    Safe (fun _ => True) (Exec.visit (fuel + 1) e) := by
  cases he with
  | literal _ =>
    rw [Node.literal, Exec.visit]
    exact .step (.announce _ (Node.ordinary_label_literal _)) fun _ => .pure trivial
  | reference name =>
    rw [Node.reference, Exec.visit]
    exact .step (.announce _ (.ok _)) fun _ => (h.evaluate (.inl (.reference name))).discard
  | call name ha =>
    rw [Node.call, Exec.visit]
    exact .step (.announce _ (.ok _)) fun _ => (h.evaluate (.inl (.call name ha))).discard
  | unary _ ho => exact h.visit_unary _ ho
  | binary hk hl hr => exact h.visit_binary _ (.binary hk hl hr) hr

/-- A variable is defined safely where what its initializer assigns is an expression. -/
theorem visit_variable (name : String) {initializer : Node}
    (hi : ∀ right, initializer.assigned? = some right → right.Expression) :
    Safe (fun _ => True) (Exec.visit (fuel + 1) (.variable name initializer true)) := by
  rw [Exec.visit]
  exact .step (.announce _ (.ok _)) fun _ => h.define name hi

/-- A choice is visited safely where its condition is an expression and its branches may stand
there. -/
theorem visit_choice {condition whenTrue whenFalse : Node} (hc : condition.Expression)
    (ht : whenTrue.Visited) (hf : whenFalse.Visited) :
    Safe (fun _ => True) (Exec.visit (fuel + 1) (.choice condition whenTrue whenFalse)) := by
  rw [Exec.visit]
  refine .step (.announce _ (.ok _)) fun _ => .step (h.evaluate (.inl hc)) fun v => ?_
  split
  · exact h.visit ht
  · exact h.visit hf
  · exact .fail trivial

/-- **A statement is visited safely**, one case per sort of statement. -/
theorem visit_statement {n : Node} (hn : n.Statement) :
    Safe (fun _ => True) (Exec.visit (fuel + 1) n) := by
  cases hn with
  | expression he => exact h.visit_expression he
  | declaration name => exact h.visit_variable name nofun
  | definition name hk he =>
    refine h.visit_variable name fun right hr => ?_
    rw [Node.assigned?, if_pos hk] at hr
    exact Option.some.inj hr ▸ he
  | function name hp hbody =>
    rw [Exec.visit]
    refine .step (.announce _ (.ok _)) fun _ => .step (.modify fun m hm => ?_) fun _ => .say 2 _
    exact hm.declareFunction name ⟨hp, .intro hbody⟩
  | returnVoid _ => exact h.visit_unary _ (.literal trivial)
  | returnValue _ he => exact h.visit_unary _ he
  | choice hc ht => exact h.visit_choice hc (.inr (.inr (.intro ht))) (.inl rfl)
  | choiceElse hc ht hf =>
    exact h.visit_choice hc (.inr (.inr (.intro ht))) (.inr (.inr (.intro hf)))
  | choiceChain hc ht hf => exact h.visit_choice hc (.inr (.inr (.intro ht))) (.inr (.inl hf))
  | whileLoop hc hbody =>
    rw [Exec.visit]
    refine .step (.announce _ (.ok _)) fun _ => .inFrame ?_
    exact h.loop (fun _ => hc) (.inl rfl) (.intro hbody)
  | forLoop hi hc hu hbody =>
    rw [Exec.visit]
    refine .step (.announce _ (.ok _)) fun _ => .inFrame (.step (h.visit ?_) fun _ => ?_)
    · exact or_iff_not_imp_left.mpr fun hne => .inl (hi hne)
    · refine h.loop hc ?_ (.intro hbody)
      exact or_iff_not_imp_left.mpr fun hne => .inl (.expression (hu hne))

/-- What may stand where a statement does is visited safely. -/
theorem visit_succ {n : Node} (hn : n.Visited) :
    Safe (fun _ => True) (Exec.visit (fuel + 1) n) := by
  obtain rfl | hn | hn := hn
  · rw [Exec.visit]
    exact fun m hm => ⟨trivial, hm⟩
  · exact h.visit_statement hn
  · obtain @⟨statements, hs⟩ := hn
    rw [Exec.visit]
    exact .step (.announce _ (.ok _)) fun _ => h.visitAll hs

/-- Statements are visited safely in turn. -/
theorem visitAll_succ : ∀ {ns : List Node}, (∀ n ∈ ns, n.Statement) →
    Safe (fun _ => True) (Exec.visitAll (fuel + 1) ns)
  | [], _ => by
      rw [Exec.visitAll]
      exact .pure trivial
  | n :: ns, hns => by
      obtain ⟨hn, hns⟩ := List.forall_mem_cons.mp hns
      rw [Exec.visitAll]
      exact .step (h.visit (.inr (.inl hn))) fun _ => h.visitAll hns

/-- One turn of a loop is safe, its condition being absent or an expression. -/
theorem loop_succ {condition update body : Node} (hc : condition ≠ .absent → condition.Expression)
    (hu : update.Visited) (hb : body.Statements) :
    Safe (fun _ => True) (Exec.loop (fuel + 1) condition update body) := by
  rw [Exec.loop]
  refine .step (h.test hc) fun goesOn => ?_
  split
  · refine .step (h.visit (.inr (.inr hb))) fun _ => .step (h.visit hu) fun _ => ?_
    exact h.loop hc hu hb
  · exact .pure trivial

theorem test_succ {condition : Node} (hc : condition ≠ .absent → condition.Expression) :
    Safe (fun _ => True) (Exec.test (fuel + 1) condition) := by
  by_cases ha : condition = .absent
  · rw [ha, Exec.test]
    exact .pure trivial
  · rw [Exec.test.eq_3 _ _ ha]
    refine .step (h.evaluate (.inl (hc ha))) fun v => ?_
    split
    · exact .pure trivial
    · exact .pure trivial

/-- A definition is safe where what its initializer assigns, if anything, is an expression. -/
theorem define_succ (name : String) {initializer : Node}
    (hi : ∀ right, initializer.assigned? = some right → right.Expression) :
    Safe (fun _ => True) (Exec.define (fuel + 1) name initializer) := by
  have hdeclare (v : Value) : Safe (fun _ => True) (do
      declare name v
      sayLazily 2 fun _ => valueMessage ("declare " ++ name ++ ": ") v) :=
    .step (.declare name v) fun _ => .sayLazily 2 fun _ => (ordinary_write v).map _
  rw [Exec.define]
  split
  · rename_i right hright
    exact .step (h.evaluate (.inl (hi right hright))) hdeclare
  · exact .step (.pure trivial) hdeclare

/-- **An expression is evaluated safely**, one case per sort of expression. -/
theorem evaluate_expression {e : Node} (he : e.Expression) :
    Safe (fun _ => True) (Exec.evaluate (fuel + 1) e) := by
  cases he with
  | literal _ =>
    rw [Node.literal, Exec.evaluate]
    exact .step (.announce _ (Node.ordinary_label_literal _)) fun _ => .pure trivial
  | reference name =>
    rw [Node.reference, Exec.evaluate]
    exact .step (.announce _ (.ok _)) fun _ => .lookup name
  | call name ha =>
    rw [Node.call, Exec.evaluate]
    exact .step (.announce _ (.ok _)) fun _ => .step (h.evaluateAll ha) fun _ => h.call name _
  | unary _ ho =>
    rw [Exec.evaluate]
    refine .step (.announce _ (.ok _)) fun _ => .step (h.evaluate (.inl ho)) fun v => ?_
    exact .ofFault (Value.ordinary_apply _ v none)
  | binary _ hl hr =>
    rw [Exec.evaluate]
    refine .step (.announce _ (.ok _)) fun _ => .step (h.evaluate (.inl hl)) fun v => ?_
    exact .step (h.evaluate (.inl hr)) fun w => .ofFault (Value.ordinary_apply _ v (some w))

/-- What may stand where a value is asked for is evaluated safely. -/
theorem evaluate_succ {n : Node} (hn : n.Evaluated) :
    Safe (fun _ => True) (Exec.evaluate (fuel + 1) n) := by
  obtain he | hn | ⟨operator, e, rfl, he⟩ := hn
  · exact h.evaluate_expression he
  · obtain @⟨statements, hs⟩ := hn
    rw [Exec.evaluate]
    exact .step (.announce _ (.ok _)) fun _ => h.evaluateBlock hs
  · rw [Exec.evaluate]
    refine .step (.announce _ (.ok _)) fun _ => .step (h.evaluate (.inl he)) fun v => ?_
    exact .ofFault (Value.ordinary_apply _ v none)

theorem evaluateAll_succ : ∀ {ns : List Node}, (∀ n ∈ ns, n.Expression) →
    Safe (fun _ => True) (Exec.evaluateAll (fuel + 1) ns)
  | [], _ => by
      rw [Exec.evaluateAll]
      exact .pure trivial
  | n :: ns, hns => by
      obtain ⟨hn, hns⟩ := List.forall_mem_cons.mp hns
      rw [Exec.evaluateAll]
      exact .step (h.evaluate (.inl hn)) fun _ => .step (h.evaluateAll hns) fun _ => .pure trivial

/-- A body is evaluated safely up to its first `return`. -/
theorem evaluateBlock_succ : ∀ {ns : List Node}, (∀ n ∈ ns, n.Statement) →
    Safe (fun _ => True) (Exec.evaluateBlock (fuel + 1) ns)
  | [], _ => by
      rw [Exec.evaluateBlock]
      exact .pure trivial
  | n :: ns, hns => by
      obtain ⟨hn, hns⟩ := List.forall_mem_cons.mp hns
      rw [Exec.evaluateBlock]
      split
      · rename_i hr
        exact h.evaluate (hn.evaluated hr)
      · exact .step (h.visit (.inr (.inl hn))) fun _ => h.evaluateBlock hns

/-- **A call ends well**: what the scope holds under its name is a function of a program. -/
theorem call_succ (name : String) (arguments : List Value) :
    Safe (fun _ => True) (Exec.call (fuel + 1) name arguments) := by
  rw [Exec.call]
  split
  · exact .builtin fuel _ arguments
  · refine .bind .get fun m hm => ?_
    split
    · exact .fail trivial
    · rename_i d hd
      have hformed : d.Formed := hm.formed hd
      have hbody : Safe (fun _ => True) (inCall do
          bindParameters d.parameters arguments
          sayLazily 3 fun m => m.scope.dump.map ("Scope:\n" ++ ·)
          Exec.evaluate fuel d.body) :=
        .inCall (.step (.bindParameters _ hformed.parameters) fun _ =>
          .step (.sayLazily 3 fun m => m.scope.ordinary_dump.map _) fun _ =>
            h.evaluate (.inr (.inl hformed.body)))
      dsimp only
      split
      · refine .step (.mapM .write _) fun texts => .step (.say 2 _) fun _ =>
          .bind .get fun m _ => ?_
        split
        · exact .fail_bind (by trivial) _
        · refine .step hbody fun v => .step (.ofFault ((ordinary_write v).map _)) fun _ => ?_
          exact .step (.say 2 _) fun _ => .pure trivial
      · exact .fail_bind (by trivial) _

/-- **With one unit of fuel more.** -/
theorem succ : Careful (fuel + 1) where
  visit := h.visit_succ
  visitAll := h.visitAll_succ
  loop := h.loop_succ
  test := h.test_succ
  define := h.define_succ
  evaluate := h.evaluate_succ
  evaluateAll := h.evaluateAll_succ
  evaluateBlock := h.evaluateBlock_succ
  call := h.call_succ

end Careful

/-- **A run ends well on every sound machine**, however much fuel it has. -/
theorem careful : ∀ fuel : Nat, Careful fuel
  | 0 => .zero
  | fuel + 1 => (careful fuel).succ

/-! ## Frames that are there -/

/-- **The frame that a computation is given is there to be popped when it ends**, however that
is. -/
def KeepsFrame (x : Exec α) : Prop :=
  ∀ m : Machine, ∃ s, (x.run { m with scope := m.scope.push }).2.scope.pop = .ok s

theorem Within.keepsFrame {x : Exec α} (h : Within Machine.Grows x) : x.KeepsFrame := by
  intro m
  exact ⟨_, (h { m with scope := m.scope.push }).scope.pop_eq⟩

/-! ## Programs -/

/-- Without a trace, only the run itself is left of the run with its tokens. -/
theorem run_runTokens {m : Machine} (hm : m.verbosity < 1) (fuel : Nat) (tokens : List Token)
    (program : Node) :
    (runTokens fuel tokens program).run m = (runProgram fuel program).run m := by
  rw [runTokens, run_bind, run_sayLazily_of_lt hm]
  dsimp only
  rw [run_bind, run_sayLazily_of_lt hm]

/-- **A program's run ends well** on a sound machine: with a result or in an ordinary fault. -/
theorem runProgram_endsWell {program : Node} (h : program.Statements) (fuel : Nat) {m : Machine}
    (hm : m.Sound) : EndsWell (fun _ => True) ((runProgram fuel program).run m).1 :=
  ((careful fuel).visit (.inr (.inr h)) m hm).1

end Exec

/-- **Programs fail only for reasons of their own.**  Whatever the source text, the seed and the
input are, a run of a program that parses ends normally or with an ordinary fault, if it ends.

This holds of every part of a run: on a sound machine a statement and an expression end well and
leave a sound machine, however they end.  There every handle leads to a slot, and the frame that a
loop or a call pushes is always there to be popped. -/
theorem parsed_runs_end_well :
    (∀ (ε : Type) (file : Except ε Unit) (limits : Limits) (fuel : Nat) (source : String)
        (seed : Int) (input : List String) (result : Except Stop Unit) (m : Machine),
      runSource fuel source (Machine.opened file limits 0 seed input) = .ok (.ok (result, m)) →
        EndsWell (fun _ => True) result) ∧
    (∀ (L : Value → Prop) (n : Node), n.IsStatement L → ∀ fuel m, m.Sound →
      EndsWell (fun _ => True) ((Exec.visit fuel n).run m).1 ∧
        ((Exec.visit fuel n).run m).2.Sound) ∧
    (∀ (L : Value → Prop) (e : Node), e.IsExpression L → ∀ fuel m, m.Sound →
      EndsWell (fun _ => True) ((Exec.evaluate fuel e).run m).1 ∧
        ((Exec.evaluate fuel e).run m).2.Sound) ∧
    (∀ m : Machine, m.Sound →
      (∀ f ∈ m.scope.frames, ∀ entry ∈ f.handles, entry.2 < m.scope.slots.size) ∧
        ∀ name handle, m.scope.resolve? name = some handle →
          ∃ v, m.scope.slots[handle]? = some v ∧ m.scope.get name = .ok v ∧
            ∀ w, ∃ s, m.scope.set name w = .ok s ∧ s.slots[handle]? = some w) ∧
    (∀ fuel condition update body, (Exec.loop fuel condition update body).KeepsFrame) ∧
    (∀ fuel initialization condition update body, Exec.KeepsFrame do
      Exec.visit fuel initialization
      Exec.loop fuel condition update body) ∧
    (∀ fuel (d : Definition) arguments, Exec.KeepsFrame do
      Exec.bindParameters d.parameters arguments
      Exec.sayLazily 3 fun m => m.scope.dump.map ("Scope:\n" ++ ·)
      Exec.evaluate fuel d.body) := by
  refine ⟨fun ε file limits fuel source seed input result m h => ?_, fun L n hn fuel => ?_,
    fun L e he fuel => ?_, fun m hm => ?_, fun fuel condition update body => ?_,
    fun fuel initialization condition update body => ?_, fun fuel d arguments => ?_⟩
  · obtain ⟨⟨tokens, program⟩, hparsed, hrun⟩ := exists_of_map_eq_ok h
    have hprogram : program.Statements := (isProgram_of_parseSource hparsed).mono fun _ _ => trivial
    have hend := Exec.runProgram_endsWell hprogram fuel (Machine.sound_start limits 0 seed input)
    have hresult : ((Exec.runTokens fuel tokens program).run (.start limits 0 seed input)).1 =
        result := congrArg Prod.fst (Except.ok.inj hrun)
    rwa [← Exec.run_runTokens (by decide : (0 : Int) < 1) fuel tokens program, hresult] at hend
  · exact (Exec.careful fuel).visit (.inr (.inl (hn.mono fun _ _ => trivial)))
  · exact (Exec.careful fuel).evaluate (.inl (he.mono fun _ _ => trivial))
  · exact ⟨fun _ hf _ => hm.dense.lt_size hf, fun _ _ => hm.dense.slot_of_resolve?⟩
  · exact ((Exec.disciplined fuel).loop condition update body).keepsFrame
  · have h := Exec.disciplined fuel
    exact (Exec.Within.bind (h.visit initialization)
      fun _ => h.loop condition update body).keepsFrame
  · have h := Exec.disciplined fuel
    exact (Exec.Within.bind (.bindParameters _ arguments) fun _ =>
      .bind (Exec.Within.sayLazily 3 _).grows fun _ => h.evaluate d.body).keepsFrame

/-- A program that calls what it never defines, and the call by itself. -/
theorem parsed_runs_end_well_undefined_call :
    let fault : Stop := .fault (.undefined .function "f")
    let machine := Machine.opened (.ok () : Except Empty Unit) .usual 0 0 []
    (∃ m, runSource 20 "f();" machine = .ok (.ok (.error fault, m)) ∧
      EndsWell (fun _ => True) (.error fault : Except Stop Unit)) ∧
    (Node.call "f" []).IsExpression (fun _ => True) ∧ (Machine.start .usual 0 0 []).Sound ∧
      EndsWell (fun _ => True)
        ((Exec.evaluate 20 (.call "f" [])).run (.start .usual 0 0 [])).1 := by
  intro fault machine
  have htokens : tokenize "f();" = .ok [⟨.identifier, "f", ⟨1, 1⟩⟩, ⟨.leftParen, "(", ⟨1, 2⟩⟩,
      ⟨.rightParen, ")", ⟨1, 3⟩⟩, ⟨.endStatement, ";", ⟨1, 4⟩⟩] := by decide +kernel
  have hrun : (runSource 20 "f();" machine).map (Except.map Prod.fst) =
      .ok (.ok (.error fault)) := by
    rw [runSource, parseSource, htokens]
    rfl
  obtain ⟨r, h, hr⟩ := exists_of_map_eq_ok hrun
  obtain ⟨⟨result, m⟩, rfl, rfl⟩ := exists_of_map_eq_ok hr
  have he : (Node.call "f" []).IsExpression (fun _ => True) := .call "f" (by simp)
  have hm := Machine.sound_start .usual 0 0 []
  exact ⟨⟨m, h, parsed_runs_end_well.1 Empty (.ok ()) .usual 20 "f();" 0 [] _ m h⟩, he, hm,
    (parsed_runs_end_well.2.2.1 _ _ he 20 _ hm).1⟩

end Scrawl
