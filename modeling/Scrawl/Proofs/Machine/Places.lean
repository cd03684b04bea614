import Scrawl.Proofs.Machine.Uniform
import Scrawl.Proofs.Machine.Within
import Scrawl.Proofs.Node.Rendering

/-!
# Proofs/Machine/Places — a run takes no notice of places

`unplaced` forgets where the operators of a tree stood, and on a machine those of all functions
defined there.  Each part of a run **mirrors** itself on what is left (`Exec.mirrored`): it ends
the same way, and the machine afterwards is the one that would have come out, without the places.
Nothing that can be seen of a run tells the two apart, messages of the trace included.
-/

namespace Scrawl

/-! ## Functions without places -/

/-- A function without the places of its operators. -/
def Definition.unplaced (d : Definition) : Definition :=
  ⟨d.parameters.map Node.unplaced, d.body.unplaced⟩

/-- …all functions of a frame. -/
def Frame.unplaced (f : Frame) : Frame :=
  { f with functions := f.functions.map (Prod.map id Definition.unplaced) }

/-- …and of a scope. -/
def Scope.unplaced (s : Scope) : Scope :=
  { s with globals := s.globals.unplaced, locals := s.locals.map Frame.unplaced }

/-- …and of a machine. -/
def Machine.unplaced (m : Machine) : Machine := { m with scope := m.scope.unplaced }

section Entries

variable {α β : Type} (f : α → β) (name : String)

/-- Entering a renamed value in renamed entries is entering it and renaming. -/
theorem putEntry_map (a : α) : ∀ entries : List (String × α),
    putEntry name (f a) (entries.map (Prod.map id f)) =
      (putEntry name a entries).map (Prod.map id f)
  | [] => rfl
  | (n, b) :: rest => by
      rw [List.map_cons, putEntry, Prod.map_apply, putEntry, id, putEntry_map a rest]
      split <;> rfl

theorem lookup_map : ∀ entries : List (String × α),
    (entries.map (Prod.map id f)).lookup name = (entries.lookup name).map f
  | [] => rfl
  | (n, b) :: rest => by
      rw [List.map_cons, Prod.map_apply, List.lookup_cons, List.lookup_cons, lookup_map rest, id]
      cases name == n <;> rfl

end Entries

namespace Scope

variable (s : Scope)

theorem top_unplaced : s.unplaced.top = s.top.unplaced := by
  obtain ⟨slots, globals, locals⟩ := s
  cases locals <;> rfl

/-- A change of the top frame that commutes with forgetting places does so in the whole scope. -/
theorem modifyTop_unplaced {f g : Frame → Frame}
    (h : ∀ frame : Frame, g frame.unplaced = (f frame).unplaced) :
    s.unplaced.modifyTop g = (s.modifyTop f).unplaced := by
  obtain ⟨slots, globals, locals⟩ := s
  cases locals with
  | nil => exact congrArg (fun globals => Scope.mk slots globals []) (h globals)
  | cons frame rest =>
    exact congrArg (fun frame => Scope.mk slots globals.unplaced (frame :: rest.map Frame.unplaced))
      (h frame)

/-- A search whose finds are renamed in each frame has its find renamed in the scope. -/
theorem search_unplaced {α β : Type} {f : Frame → Option α} {g : Frame → Option β} {k : α → β}
    (h : ∀ frame : Frame, g frame.unplaced = (f frame).map k) :
    s.unplaced.search g = (s.search f).map k := by
  have hlocals : (s.locals.map Frame.unplaced).findSome? g = (s.locals.findSome? f).map k := by
    induction s.locals with
    | nil => rfl
    | cons frame rest ih =>
      rw [List.map_cons, List.findSome?_cons, List.findSome?_cons, h, ih]
      cases f frame <;> rfl
  rw [search, search, Option.map_or, ← h, ← hlocals]
  rfl

theorem resolve?_unplaced (name : String) : s.unplaced.resolve? name = s.resolve? name := by
  have h : s.unplaced.resolve? name = (s.resolve? name).map id :=
    s.search_unplaced fun _ => Option.map_id_apply.symm
  rwa [Option.map_id_apply] at h

/-- Values are found without places as with them: only functions hold any. -/
theorem get_unplaced (name : String) : s.unplaced.get name = s.get name := by
  rw [get, get, resolve?_unplaced]
  rfl

theorem set_unplaced (name : String) (v : Value) :
    s.unplaced.set name v = (s.set name v).map unplaced := by
  rw [set, set, resolve?_unplaced]
  cases s.resolve? name <;> rfl

/-- The function found without places is the one found with them, its own places forgotten. -/
theorem getFunction?_unplaced (name : String) :
    s.unplaced.getFunction? name = (s.getFunction? name).map Definition.unplaced :=
  s.search_unplaced fun frame => lookup_map Definition.unplaced name frame.functions

theorem declareFunction_unplaced (name : String) (d : Definition) :
    s.unplaced.declareFunction name d.unplaced = (s.declareFunction name d).unplaced :=
  s.modifyTop_unplaced fun frame => by
    rw [Frame.unplaced, putEntry_map]
    rfl

/-- A declaration leaves the same scope up to places, whichever of its two branches it takes. -/
theorem declare_unplaced (name : String) (v : Value) :
    (s.unplaced.declare name v).2 = (s.declare name v).2.unplaced := by
  have hhandles : s.unplaced.top.handles = s.top.handles := by
    rw [top_unplaced]
    rfl
  rw [declare, declare, hhandles]
  cases s.top.handles.lookup name with
  | some handle => rfl
  | none =>
    let bind (frame : Frame) : Frame :=
      { frame with handles := frame.handles ++ [(name, s.slots.size)] }
    have hbind : s.unplaced.modifyTop bind = (s.modifyTop bind).unplaced :=
      s.modifyTop_unplaced fun _ => rfl
    exact congrArg (fun t : Scope => { t with slots := s.slots.push v }) hbind

theorem drop_unplaced : s.unplaced.drop = s.drop.unplaced := by
  obtain ⟨slots, globals, locals⟩ := s
  cases locals <;> rfl

/-- Going back to the global frame goes by the number of slots, and slots have no places. -/
theorem unwind_unplaced : s.unplaced.unwind = s.unwind.unplaced := by
  have hlast : s.unplaced.locals.getLast? = s.locals.getLast?.map Frame.unplaced :=
    List.getLast?_map
  rw [unwind, unwind, hlast]
  cases s.locals.getLast? <;> rfl

theorem dumpFrame_unplaced (level : Nat) (frame : Frame) :
    s.unplaced.dumpFrame level frame.unplaced = s.dumpFrame level frame := by
  rw [dumpFrame, dumpFrame, Frame.unplaced, List.map_map]
  rfl

/-- **A dump shows no place**: functions are listed by name alone. -/
theorem dump_unplaced : s.unplaced.dump = s.dump := by
  have hframes : s.unplaced.frames = s.frames.map Frame.unplaced := by
    simp [frames, unplaced]
  rw [dump, dump, hframes, List.zipIdx_map, List.mapM_map]
  simp only [Function.comp_def, Prod.map_fst, Prod.map_snd, dumpFrame_unplaced, id]

end Scope

/-! ## Nodes without places -/

namespace Node

@[simp] theorem shape_unplaced (n : Node) : n.unplaced.shape = n.shape := by
  cases n <;> rfl

@[simp] theorem name?_unplaced (n : Node) : n.unplaced.name? = n.name? := by
  cases n <;> rfl

@[simp] theorem isReturn_unplaced (n : Node) : n.unplaced.isReturn = n.isReturn := by
  cases n <;> rfl

/-- What an initializer assigns is found by the kind of its operator, whatever the place. -/
theorem assigned?_unplaced (n : Node) : n.unplaced.assigned? = n.assigned?.map unplaced := by
  cases n with
  | binary operator left right =>
    change (if operator.kind = .assign then some right.unplaced else none) = _
    rw [assigned?]
    split <;> rfl
  | _ => rfl

/-- **A label shows no place.** -/
@[simp] theorem label_unplaced (n : Node) : n.unplaced.label = n.label := by
  cases n with
  | terminal content => cases content <;> rfl
  | _ => rfl

end Node

/-! ## Computations that mirror others -/

namespace Exec

variable {α β : Type}

/-- A computation in a frame of its own, opened: the frame is dropped however the computation
ends. -/
theorem run_inFrame (x : Exec α) (m : Machine) :
    (inFrame x).run m =
      let r := x.run { m with scope := m.scope.push }
      (r.1, { r.2 with scope := r.2.scope.drop }) := rfl

/-- **A computation mirrors another** when it does to the image of a machine what the other does to
the machine. -/
def Mirrors (φ : Machine → Machine) (x y : Exec α) : Prop :=
  ∀ m, y.run (φ m) = ((x.run m).1, φ (x.run m).2)

namespace Mirrors

section Rules

variable {φ : Machine → Machine}

theorem pure (a : α) : Mirrors φ (Pure.pure a) (Pure.pure a) := fun _ => rfl

theorem throw (e : Stop) : Mirrors φ (throw e : Exec α) (throw e) := fun _ => rfl

theorem fail (f : Fault) : Mirrors φ (Exec.fail f : Exec α) (Exec.fail f) := fun _ => rfl

/-- Nothing behind a fault is reached. -/
theorem fail_bind (f : Fault) {g g' : α → Exec β} :
    Mirrors φ (Exec.fail f >>= g) (Exec.fail f >>= g') := fun _ => rfl

/-- A result computed outside the machine is the same from either machine. -/
theorem ofFault : ∀ x : Except Fault α, Mirrors φ (Exec.ofFault x) (Exec.ofFault x)
  | .ok _ => fun _ => rfl
  | .error _ => fun _ => rfl

/-- A change of the machine that commutes with `φ` is mirrored by itself. -/
theorem modify {f g : Machine → Machine} (h : ∀ m, g (φ m) = φ (f m)) :
    Mirrors φ (modify f : Exec Unit) (modify g) := fun m =>
  congrArg (fun m => (Except.ok PUnit.unit, m)) (h m)

/-- **In sequence, both parts mirror.** -/
theorem bind {x y : Exec α} {f g : α → Exec β} (hx : Mirrors φ x y)
    (hf : ∀ a, Mirrors φ (f a) (g a)) : Mirrors φ (x >>= f) (y >>= g) := by
  intro m
  rw [run_bind, run_bind, hx m]
  generalize x.run m = r
  obtain ⟨e | a, m'⟩ := r
  · rfl
  · exact hf a m'

/-- What is read off the machine may differ by `φ`, as long as what follows mirrors there. -/
theorem get_bind {f g : Machine → Exec β} (h : ∀ m, Mirrors φ (f m) (g (φ m))) :
    Mirrors φ (get >>= f) (get >>= g) := fun m => h m m

theorem discard {x y : Exec α} (h : Mirrors φ x y) : Mirrors φ (discard x) (discard y) :=
  h.bind fun _ => .pure ()

theorem ite {c : Prop} [Decidable c] {x y x' y' : Exec α} (h : Mirrors φ x y)
    (h' : Mirrors φ x' y') : Mirrors φ (if c then x else x') (if c then y else y') := by
  split
  · exact h
  · exact h'

/-- Mirroring computations mirror in turn. -/
theorem mapM {f g : α → Exec β} (h : ∀ a, Mirrors φ (f a) (g a)) :
    ∀ as : List α, Mirrors φ (as.mapM f) (as.mapM g)
  | [] => by
      rw [List.mapM_nil, List.mapM_nil]
      exact .pure []
  | a :: as => by
      rw [List.mapM_cons, List.mapM_cons]
      exact (h a).bind fun _ => (mapM h as).bind fun _ => .pure _

end Rules

/-! ## The steps of a run -/

theorem say (level : Int) (text : String) :
    Mirrors Machine.unplaced (Exec.say level text) (Exec.say level text) := by
  refine .modify fun m => ?_
  rw [Machine.say, Machine.say, apply_ite Machine.unplaced, apply_ite Machine.unplaced]
  rfl

/-- A line of the trace is mirrored where its text is the same on both machines. -/
theorem sayLazily (level : Int) {text text' : Machine → Except Fault String}
    (h : ∀ m, text' m.unplaced = text m) :
    Mirrors Machine.unplaced (Exec.sayLazily level text) (Exec.sayLazily level text') := by
  refine .get_bind fun m => .ite ?_ (.pure ())
  rw [h]
  exact .bind (.ofFault _) fun _ => .say level _

/-- A node is announced by its label, so its place is not announced. -/
theorem announce (text : String) (n : Node) :
    Mirrors Machine.unplaced (Exec.announce text n) (Exec.announce text n.unplaced) :=
  .sayLazily 3 fun _ => by rw [Node.label_unplaced]

theorem write (v : Value) : Mirrors Machine.unplaced (Exec.write v) (Exec.write v) := .ofFault _

theorem lookup (name : String) :
    Mirrors Machine.unplaced (Exec.lookup name) (Exec.lookup name) := by
  refine .get_bind fun m => ?_
  change Mirrors _ _ (Exec.ofFault (m.scope.unplaced.get name))
  rw [Scope.get_unplaced]
  exact .ofFault _

theorem assign (name : String) (v : Value) :
    Mirrors Machine.unplaced (Exec.assign name v) (Exec.assign name v) := by
  intro m
  have hset : m.unplaced.scope.set name v = (m.scope.set name v).map Scope.unplaced :=
    m.scope.set_unplaced name v
  rw [run_assign, run_assign, hset]
  cases m.scope.set name v <;> rfl

theorem declare (name : String) (v : Value) :
    Mirrors Machine.unplaced (Exec.declare name v) (Exec.declare name v) :=
  .modify fun m => congrArg (fun scope => ({ m with scope := scope } : Machine))
    (m.scope.declare_unplaced name v)

/-- A frame of its own is opened empty and dropped on both sides alike. -/
theorem inFrame {x y : Exec α} (h : Mirrors Machine.unplaced x y) :
    Mirrors Machine.unplaced (Exec.inFrame x) (Exec.inFrame y) := by
  intro m
  have hx : y.run { m.unplaced with scope := m.unplaced.scope.push } = _ :=
    h { m with scope := m.scope.push }
  rw [run_inFrame, run_inFrame, hx]
  exact congrArg (fun scope => (_, ({ (x.run _).2 with scope := scope } : Machine)))
    (Scope.drop_unplaced _)

/-- A call of its own is a frame of its own, counted on both sides alike. -/
theorem inCall {x y : Exec α} (h : Mirrors Machine.unplaced x y) :
    Mirrors Machine.unplaced (Exec.inCall x) (Exec.inCall y) := by
  intro m
  have hx : (Exec.inFrame y).run { m.unplaced with callDepth := m.callDepth + 1 } = _ :=
    h.inFrame { m with callDepth := m.callDepth + 1 }
  exact congrArg (fun r => (r.1, ({ r.2 with callDepth := r.2.callDepth - 1 } : Machine))) hx

/-- A builtin works on the console and on the numbers drawn, and neither has places. -/
theorem builtin (fuel : Nat) (b : Builtin) (arguments : List Value) :
    Mirrors Machine.unplaced (b.call fuel arguments) (b.call fuel arguments) := by
  intro m
  obtain ⟨f, hf, -⟩ := OnConsole.builtin fuel b arguments
  rw [hf, hf]
  rfl

/-- Parameters are bound by their names, which a place does not change. -/
theorem bindParameters : ∀ (parameters : List Node) (arguments : List Value),
    Mirrors Machine.unplaced (Exec.bindParameters parameters arguments)
      (Exec.bindParameters (parameters.map Node.unplaced) arguments)
  | [], _ => .pure ()
  | _ :: _, [] => .pure ()
  | parameter :: parameters, v :: arguments => by
      rw [List.map_cons, Exec.bindParameters, Exec.bindParameters, Node.name?_unplaced,
        Node.shape_unplaced]
      split
      · exact .bind (.declare _ v) fun _ => bindParameters parameters arguments
      · exact .bind (.fail _) fun _ => bindParameters parameters arguments

end Mirrors

/-! ## Running -/

/-- **The parts of a run mirror themselves**, for an amount of fuel. -/
structure Mirrored (fuel : Nat) : Prop where
  visit : ∀ n, Mirrors Machine.unplaced (visit fuel n) (visit fuel n.unplaced)
  visitAll : ∀ ns, Mirrors Machine.unplaced (visitAll fuel ns) (visitAll fuel (ns.map .unplaced))
  loop : ∀ condition update body, Mirrors Machine.unplaced (loop fuel condition update body)
    (loop fuel condition.unplaced update.unplaced body.unplaced)
  test : ∀ n, Mirrors Machine.unplaced (test fuel n) (test fuel n.unplaced)
  define : ∀ name initializer, Mirrors Machine.unplaced (define fuel name initializer)
    (define fuel name initializer.unplaced)
  evaluate : ∀ n, Mirrors Machine.unplaced (evaluate fuel n) (evaluate fuel n.unplaced)
  evaluateAll : ∀ ns, Mirrors Machine.unplaced (evaluateAll fuel ns)
    (evaluateAll fuel (ns.map .unplaced))
  evaluateBlock : ∀ ns, Mirrors Machine.unplaced (evaluateBlock fuel ns)
    (evaluateBlock fuel (ns.map .unplaced))
  call : ∀ name arguments, Mirrors Machine.unplaced (call fuel name arguments)
    (call fuel name arguments)

namespace Mirrored

/-- With no fuel left both sides are exhausted. -/
theorem zero : Mirrored 0 where
  visit _ := by rw [Exec.visit, Exec.visit]; exact .throw _
  visitAll _ := by rw [Exec.visitAll, Exec.visitAll]; exact .throw _
  loop _ _ _ := by rw [Exec.loop, Exec.loop]; exact .throw _
  test _ := by rw [Exec.test, Exec.test]; exact .throw _
  define _ _ := by rw [Exec.define, Exec.define]; exact .throw _
  evaluate _ := by rw [Exec.evaluate, Exec.evaluate]; exact .throw _
  evaluateAll _ := by rw [Exec.evaluateAll, Exec.evaluateAll]; exact .throw _
  evaluateBlock _ := by rw [Exec.evaluateBlock, Exec.evaluateBlock]; exact .throw _
  call _ _ := by rw [Exec.call]; exact .throw _

variable {fuel : Nat} (h : Mirrored fuel)

include h

/-- An operator on one operand: a `return` looks at the depth of calls alone, a step assigns, and
any other is evaluated. -/
theorem visit_unary (operator : Token) (operand : Node) :
    Mirrors Machine.unplaced (Exec.visit (fuel + 1) (.unary operator operand))
      (Exec.visit (fuel + 1) (Node.unary operator operand).unplaced) := by
  have hvalue := h.evaluate (.unary operator operand)
  rw [Node.unplaced] at hvalue ⊢
  rw [Exec.visit, Exec.visit, Node.referenced?_unplaced]
  refine .bind (.announce _ (.unary operator operand)) fun _ => ?_
  refine .ite (.get_bind fun m => .ite (.fail _) (.pure ())) (.ite ?_ hvalue.discard)
  split
  · exact .fail _
  · exact .bind hvalue fun v => .assign _ v

/-- An operator on two operands: an assignment evaluates its right side, any other is evaluated. -/
theorem visit_binary (operator : Token) (left right : Node) :
    Mirrors Machine.unplaced (Exec.visit (fuel + 1) (.binary operator left right))
      (Exec.visit (fuel + 1) (Node.binary operator left right).unplaced) := by
  have hvalue := h.evaluate (.binary operator left right)
  rw [Node.unplaced] at hvalue ⊢
  rw [Exec.visit, Exec.visit, Node.referenced?_unplaced]
  refine .bind (.announce _ (.binary operator left right)) fun _ => .ite ?_ hvalue.discard
  split
  · exact .fail _
  · refine .bind (.lookup _) fun current => .bind (h.evaluate right) fun v => ?_
    exact .bind (.ofFault _) fun w => .assign _ w

/-- **One visit mirrors**, constructor by constructor. -/
theorem visit_succ (n : Node) :
    Mirrors Machine.unplaced (Exec.visit (fuel + 1) n) (Exec.visit (fuel + 1) n.unplaced) := by
  match n with
  | .absent =>
    rw [Node.unplaced, Exec.visit]
    exact fun _ => rfl
  | .value v =>
    rw [Node.unplaced, Exec.visit]
    exact .bind (.announce _ (.value v)) fun _ => .fail _
  | .block statements =>
    rw [Node.unplaced, Node.unplacedAll_eq_map, Exec.visit, Exec.visit]
    exact .bind (.announce _ (.block statements)) fun _ => h.visitAll statements
  | .variable name initializer true =>
    rw [Node.unplaced, Exec.visit, Exec.visit]
    exact .bind (.announce _ (.variable name initializer true)) fun _ => h.define name initializer
  | .variable name initializer false =>
    rw [Node.unplaced, Exec.visit, Exec.visit]
    exact .bind (.announce _ (.variable name initializer false)) fun _ =>
      (h.evaluate (.variable name initializer false)).discard
  | .function name parameters body true =>
    rw [Node.unplaced, Node.unplacedAll_eq_map, Exec.visit, Exec.visit]
    refine .bind (.announce _ (.function name parameters body true)) fun _ => ?_
    refine .bind (.modify fun m => ?_) fun _ => .say 2 _
    exact congrArg (fun scope => ({ m with scope := scope } : Machine))
      (m.scope.declareFunction_unplaced name ⟨parameters, body⟩)
  | .function name parameters body false =>
    rw [Node.unplaced, Exec.visit, Exec.visit]
    exact .bind (.announce _ (.function name parameters body false)) fun _ =>
      (h.evaluate (.function name parameters body false)).discard
  | .terminal content =>
    rw [Node.unplaced, Exec.visit, Exec.visit]
    exact .bind (.announce _ (.terminal content)) fun _ => .pure ()
  | .unary operator operand => exact h.visit_unary operator operand
  | .binary operator left right => exact h.visit_binary operator left right
  | .choice condition whenTrue whenFalse =>
    rw [Node.unplaced, Exec.visit, Exec.visit]
    refine .bind (.announce _ (.choice condition whenTrue whenFalse)) fun _ => ?_
    refine .bind (h.evaluate condition) fun v => ?_
    split
    · exact h.visit whenTrue
    · exact h.visit whenFalse
    · exact .fail _
  | .whileLoop condition body =>
    rw [Node.unplaced, Exec.visit, Exec.visit]
    exact .bind (.announce _ (.whileLoop condition body)) fun _ =>
      .inFrame (h.loop condition .absent body)
  | .forLoop initialization condition update body =>
    rw [Node.unplaced, Exec.visit, Exec.visit]
    exact .bind (.announce _ (.forLoop initialization condition update body)) fun _ =>
      .inFrame (.bind (h.visit initialization) fun _ => h.loop condition update body)

theorem visitAll_succ (ns : List Node) : Mirrors Machine.unplaced (Exec.visitAll (fuel + 1) ns)
    (Exec.visitAll (fuel + 1) (ns.map .unplaced)) := by
  cases ns with
  | nil =>
    rw [List.map_nil, Exec.visitAll]
    exact .pure ()
  | cons n rest =>
    rw [List.map_cons, Exec.visitAll, Exec.visitAll]
    exact .bind (h.visit n) fun _ => h.visitAll rest

/-- One turn of a loop: the test, the body and the update each mirror. -/
theorem loop_succ (condition update body : Node) :
    Mirrors Machine.unplaced (Exec.loop (fuel + 1) condition update body)
      (Exec.loop (fuel + 1) condition.unplaced update.unplaced body.unplaced) := by
  rw [Exec.loop, Exec.loop]
  refine .bind (h.test condition) fun goesOn => .ite ?_ (.pure ())
  refine .bind (h.visit body) fun _ => .bind (h.visit update) fun _ => ?_
  exact h.loop condition update body

/-- A test mirrors, the absent condition being absent on both sides. -/
theorem test_succ (condition : Node) :
    Mirrors Machine.unplaced (Exec.test (fuel + 1) condition)
      (Exec.test (fuel + 1) condition.unplaced) := by
  by_cases ha : condition = .absent
  · rw [ha, Node.unplaced, Exec.test]
    exact .pure true
  · have hb : condition.unplaced ≠ .absent := by
      intro hb
      cases condition <;> first | exact ha rfl | cases hb
    rw [Exec.test.eq_3 _ _ ha, Exec.test.eq_3 _ _ hb]
    refine .bind (h.evaluate condition) fun v => ?_
    split
    · exact .pure _
    · exact .pure false

/-- A definition mirrors, its initializer being looked at by its shape. -/
theorem define_succ (name : String) (initializer : Node) :
    Mirrors Machine.unplaced (Exec.define (fuel + 1) name initializer)
      (Exec.define (fuel + 1) name initializer.unplaced) := by
  rw [Exec.define, Exec.define, Node.assigned?_unplaced]
  cases initializer.assigned? with
  | none =>
    exact .bind (.pure _) fun v => .bind (.declare name v) fun _ => .sayLazily 2 fun _ => rfl
  | some right =>
    exact .bind (h.evaluate right) fun v => .bind (.declare name v) fun _ =>
      .sayLazily 2 fun _ => rfl

theorem evaluateAll_succ (ns : List Node) :
    Mirrors Machine.unplaced (Exec.evaluateAll (fuel + 1) ns)
      (Exec.evaluateAll (fuel + 1) (ns.map .unplaced)) := by
  cases ns with
  | nil =>
    rw [List.map_nil, Exec.evaluateAll]
    exact .pure []
  | cons n rest =>
    rw [List.map_cons, Exec.evaluateAll, Exec.evaluateAll]
    exact .bind (h.evaluate n) fun _ => .bind (h.evaluateAll rest) fun _ => .pure _

theorem evaluateBlock_succ (ns : List Node) :
    Mirrors Machine.unplaced (Exec.evaluateBlock (fuel + 1) ns)
      (Exec.evaluateBlock (fuel + 1) (ns.map .unplaced)) := by
  cases ns with
  | nil =>
    rw [List.map_nil, Exec.evaluateBlock]
    exact .pure _
  | cons n rest =>
    rw [List.map_cons, Exec.evaluateBlock, Exec.evaluateBlock, Node.isReturn_unplaced]
    exact .ite (h.evaluate n) (.bind (h.visit n) fun _ => h.evaluateBlock rest)

/-- **One evaluation mirrors**, shape by shape. -/
theorem evaluate_succ (n : Node) :
    Mirrors Machine.unplaced (Exec.evaluate (fuel + 1) n)
      (Exec.evaluate (fuel + 1) n.unplaced) := by
  match n with
  | .block statements =>
    rw [Node.unplaced, Node.unplacedAll_eq_map, Exec.evaluate, Exec.evaluate]
    exact .bind (.announce _ (.block statements)) fun _ => h.evaluateBlock statements
  | .variable name initializer false =>
    rw [Node.unplaced, Exec.evaluate, Exec.evaluate]
    exact .bind (.announce _ (.variable name initializer false)) fun _ => .lookup name
  | .terminal (.value v) =>
    rw [Node.unplaced, Node.unplaced, Exec.evaluate]
    exact .bind (.announce _ (.terminal (.value v))) fun _ => .pure v
  | .unary operator operand =>
    rw [Node.unplaced, Exec.evaluate, Exec.evaluate]
    exact .bind (.announce _ (.unary operator operand)) fun _ =>
      .bind (h.evaluate operand) fun _ => .ofFault _
  | .binary operator left right =>
    rw [Node.unplaced, Exec.evaluate, Exec.evaluate]
    exact .bind (.announce _ (.binary operator left right)) fun _ =>
      .bind (h.evaluate left) fun _ => .bind (h.evaluate right) fun _ => .ofFault _
  | .function name arguments body false =>
    rw [Node.unplaced, Node.unplacedAll_eq_map, Exec.evaluate, Exec.evaluate]
    exact .bind (.announce _ (.function name arguments body false)) fun _ =>
      .bind (h.evaluateAll arguments) fun values => h.call name values
  | .terminal .absent | .terminal (.block _) | .terminal (.variable ..) | .terminal (.function ..)
  | .terminal (.terminal _) | .terminal (.unary ..) | .terminal (.binary ..)
  | .terminal (.choice ..) | .terminal (.whileLoop ..) | .terminal (.forLoop ..) =>
    exact .bind (.announce _ (.terminal _)) fun _ => .fail _
  | .absent | .value _ | .variable _ _ true | .function _ _ _ true | .choice .. | .whileLoop ..
  | .forLoop .. =>
    exact .bind (.announce _ _) fun _ => .fail _

/-- A call mirrors: the definition called is the same one, its own places forgotten. -/
theorem call_succ (name : String) (arguments : List Value) :
    Mirrors Machine.unplaced (Exec.call (fuel + 1) name arguments)
      (Exec.call (fuel + 1) name arguments) := by
  rw [Exec.call]
  split
  · exact .builtin fuel _ arguments
  · refine .get_bind fun m => ?_
    have hfunction : m.unplaced.scope.getFunction? name =
        (m.scope.getFunction? name).map Definition.unplaced := m.scope.getFunction?_unplaced name
    rw [hfunction]
    cases m.scope.getFunction? name with
    | none => exact .fail _
    | some d =>
      have hlength : d.unplaced.parameters.length = d.parameters.length := List.length_map _
      have hbody : Mirrors Machine.unplaced
          (inCall do
            bindParameters d.parameters arguments
            sayLazily 3 fun m => m.scope.dump.map ("Scope:\n" ++ ·)
            Exec.evaluate fuel d.body)
          (inCall do
            bindParameters d.unplaced.parameters arguments
            sayLazily 3 fun m => m.scope.dump.map ("Scope:\n" ++ ·)
            Exec.evaluate fuel d.unplaced.body) := by
        refine .inCall (.bind (.bindParameters _ _) fun _ => .bind (.sayLazily 3 fun m => ?_)
          fun _ => h.evaluate d.body)
        exact congrArg (Except.map _) m.scope.dump_unplaced
      dsimp only [Option.map_some]
      rw [hlength]
      refine .ite (.bind (.mapM .write arguments) fun texts => ?_) (.fail_bind _)
      refine .bind (.say 2 _) fun _ => .get_bind fun m => .ite (.fail_bind _) ?_
      exact .bind hbody fun v => .bind (.ofFault _) fun text => .bind (.say 2 text) fun _ => .pure v

/-- One unit of fuel more, each of the nine functions by its own lemma. -/
theorem succ : Mirrored (fuel + 1) where
  visit := h.visit_succ
  visitAll := h.visitAll_succ
  loop := h.loop_succ
  test := h.test_succ
  define := h.define_succ
  evaluate := h.evaluate_succ
  evaluateAll := h.evaluateAll_succ
  evaluateBlock := h.evaluateBlock_succ
  call := h.call_succ

end Mirrored

/-- **Every part of a run mirrors itself.** -/
theorem mirrored : ∀ fuel : Nat, Mirrored fuel
  | 0 => .zero
  | fuel + 1 => (mirrored fuel).succ

/-- **A program runs as it does without the places of its operators.** -/
theorem runProgram_unplaced (fuel : Nat) (program : Node) :
    Mirrors Machine.unplaced (runProgram fuel program) (runProgram fuel program.unplaced) := by
  intro m
  have hvisit := (mirrored fuel).visit program m
  have hunwind (m : Machine) : m.unplaced.unwind = m.unwind.unplaced :=
    congrArg (fun scope => ({ m with scope := scope, callDepth := 0 } : Machine))
      m.scope.unwind_unplaced
  rw [run_runProgram, run_runProgram, hvisit]
  generalize (visit fuel program).run m = r
  obtain ⟨result, m'⟩ := r
  dsimp only
  unfold leave
  split
  · rw [hunwind]
    rfl
  · rfl

end Exec

end Scrawl
