import Scrawl.Proofs.Machine.Pervasive

/-!
# Proofs/Machine/Uniform — relations that go through the runs of all trees

A relation between computations is **uniform** when it is pervasive whatever the names and the
faults are: each step of a run is related to itself and every way of putting steps together keeps
the relation.  Then each part of a run is related to itself with at least as much fuel
(`Uniform.related`), and a fact about whole runs only has to be shown of their steps.
-/

namespace Scrawl

namespace Exec

/-- **A relation between computations that every step of a run keeps.**  A computation without fuel
is related to all others.  Of the machine itself, a run looks only at the open calls, at how many
may be open and at the functions; its messages have headings, and are about the scope at most. -/
structure Uniform (T : ∀ ⦃α : Type⦄, Exec α → Exec α → Prop) : Prop where
  pure : ∀ {α : Type} (a : α), T (Pure.pure a) (Pure.pure a)
  fail : ∀ {α : Type} (f : Fault), T (Exec.fail f : Exec α) (Exec.fail f)
  exhausted : ∀ {α : Type} (y : Exec α), T (throw .exhausted) y
  bind : ∀ {α β : Type} {x y : Exec α} {f g : α → Exec β},
    T x y → (∀ a, T (f a) (g a)) → T (x >>= f) (y >>= g)
  nesting : ∀ {α : Type} {f g : Nat → Limits → Exec α},
    (∀ depth limits, T (f depth limits) (g depth limits)) →
      T (get >>= fun m => f m.callDepth m.limits) (get >>= fun m => g m.callDepth m.limits)
  function : ∀ {α : Type} (name : String) {f g : Option Definition → Exec α},
    (∀ d, T (f d) (g d)) → T (get >>= fun m => f (m.scope.getFunction? name))
      (get >>= fun m => g (m.scope.getFunction? name))
  say : ∀ {level text}, TraceEntry.IsHeaded ⟨level, text⟩ →
    T (Exec.say level text) (Exec.say level text)
  sayLazily : ∀ {level text}, Reports level text →
    T (Exec.sayLazily level fun m => text m.scope) (Exec.sayLazily level fun m => text m.scope)
  lookup : ∀ name, T (Exec.lookup name) (Exec.lookup name)
  assign : ∀ name v, T (Exec.assign name v) (Exec.assign name v)
  declare : ∀ name v, T (Exec.declare name v) (Exec.declare name v)
  declareFunction : ∀ (name : String) (d : Definition),
    T (modify fun m => { m with scope := m.scope.declareFunction name d })
      (modify fun m => { m with scope := m.scope.declareFunction name d })
  inFrame : ∀ {α : Type} {x y : Exec α}, T x y → T (Exec.inFrame x) (Exec.inFrame y)
  inCall : ∀ {α : Type} {x y : Exec α}, T x y → T (Exec.inCall x) (Exec.inCall y)
  builtin : ∀ {fuel fuel' : Nat} (b : Builtin) (arguments : List Value), fuel ≤ fuel' →
    T (b.call fuel arguments) (b.call fuel' arguments)

/-- **The parts of a run are related**, for two amounts of fuel. -/
structure Related (T : ∀ ⦃α : Type⦄, Exec α → Exec α → Prop) (fuel fuel' : Nat) : Prop where
  visit : ∀ n, T (visit fuel n) (visit fuel' n)
  visitAll : ∀ ns, T (visitAll fuel ns) (visitAll fuel' ns)
  loop : ∀ condition update body,
    T (loop fuel condition update body) (loop fuel' condition update body)
  test : ∀ n, T (test fuel n) (test fuel' n)
  define : ∀ name initializer, T (define fuel name initializer) (define fuel' name initializer)
  evaluate : ∀ n, T (evaluate fuel n) (evaluate fuel' n)
  evaluateAll : ∀ ns, T (evaluateAll fuel ns) (evaluateAll fuel' ns)
  evaluateBlock : ∀ ns, T (evaluateBlock fuel ns) (evaluateBlock fuel' ns)
  call : ∀ name arguments, T (call fuel name arguments) (call fuel' name arguments)

namespace Uniform

variable {T : ∀ ⦃α : Type⦄, Exec α → Exec α → Prop} (hT : Uniform T)

include hT

/-- A uniform relation does not look at names, nor at faults. -/
theorem pervasive : Pervasive (fun _ => True) T where
  pure := hT.pure
  fail _ := hT.fail _
  exhausted := hT.exhausted
  bind := hT.bind
  nesting := hT.nesting
  function name f g hnone hsome := hT.function name fun found => by
    cases found with
    | none => exact hnone
    | some d => exact hsome d (d.names_of_forall fun _ => trivial)
  say := hT.say
  report := hT.sayLazily
  dump := hT.sayLazily reports_dump
  lookup _ := hT.lookup _
  assign v _ := hT.assign _ v
  declare v _ := hT.declare _ v
  declareFunction name d _ := hT.declareFunction name d
  inFrame := hT.inFrame
  inCall := hT.inCall
  builtin := hT.builtin

variable {fuel fuel' : Nat} (hle : fuel ≤ fuel')

include hle

/-- **Every part of a run is related to itself with at least as much fuel.** -/
theorem related : Related T fuel fuel' :=
  have h := hT.pervasive.pervades hle
  have hnames (n : Node) : n.Names fun _ => True := n.names_of_forall fun _ => trivial
  { visit n := h.visit (hnames n)
    visitAll _ := h.visitAll fun n _ => hnames n
    loop condition update body := h.loop (hnames condition) (hnames update) (hnames body)
    test n := h.test (hnames n)
    define _ initializer := h.define trivial (hnames initializer)
    evaluate n := h.evaluate (hnames n)
    evaluateAll _ := h.evaluateAll fun n _ => hnames n
    evaluateBlock _ := h.evaluateBlock fun n _ => hnames n
    call := h.call }

theorem enter (name : String) (arguments : List Value) (d : Definition) (depth : Nat)
    (limits : Limits) : T (Exec.enter fuel name arguments d depth limits)
      (Exec.enter fuel' name arguments d depth limits) :=
  (hT.pervasive.pervades hle).enter hT.pervasive name arguments
    (d.names_of_forall fun _ => trivial) depth limits

theorem callFound (name : String) (arguments : List Value) (found : Option Definition) :
    T (Exec.callFound fuel name arguments found) (Exec.callFound fuel' name arguments found) :=
  (hT.pervasive.pervades hle).callFound hT.pervasive name arguments
    fun d _ => d.names_of_forall fun _ => trivial

end Uniform

end Exec

end Scrawl
