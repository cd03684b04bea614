import Scrawl.Proofs.Machine.Follows

/-!
# Proofs/Machine/Alike — alike trees run alike

Alike trees, run on alike machines, end alike and leave alike machines behind: by induction on the
fuel of the first side, all parts of a run follow each other (`Exec.followed`).  The relation has no
preferred side (`Likeness.flip`), which gives the same the other way round.  Where the relation is a
function, the second run ends in the image of the first (`Likeness.ends_image`).
-/

namespace Scrawl

namespace Exec

/-! ## Running -/

/-- **The parts of a run on alike trees follow each other**, for an amount of fuel on the first
side. -/
structure Followed (L : Likeness) (fuel : Nat) : Prop where
  visit : ∀ {depth : Nat} {n n' : Node}, Node.Alike L.names L.definitions (0 < depth) n n' →
    Follows L depth (visit fuel n) (visit · n')
  visitAll : ∀ {depth : Nat} {ns ns' : List Node},
    Node.AlikeAll L.names L.definitions (0 < depth) ns ns' →
      Follows L depth (visitAll fuel ns) (visitAll · ns')
  loop : ∀ {depth : Nat} {c u b c' u' b' : Node}, Node.AlikeExpression L.names c c' →
    Node.AlikeExpression L.names u u' → Node.Alike L.names L.definitions (0 < depth) b b' →
      Follows L depth (loop fuel c u b) (loop · c' u' b')
  test : ∀ {depth : Nat} {c c' : Node}, Node.AlikeExpression L.names c c' →
    Follows L depth (test fuel c) (test · c')
  define : ∀ {depth : Nat} {x y : String} {i i' : Node}, L.names x y →
    Option.Rel (Node.AlikeExpression L.names) i.assigned? i'.assigned? →
      Follows L depth (define fuel x i) (define · y i')
  evaluate : ∀ {depth : Nat} {e e' : Node}, Node.AlikeExpression L.names e e' →
    Follows L depth (evaluate fuel e) (evaluate · e')
  evaluateAll : ∀ {depth : Nat} {es es' : List Node}, Node.AlikeExpressions L.names es es' →
    Follows L depth (evaluateAll fuel es) (evaluateAll · es')
  evaluateBody : ∀ {depth : Nat} {ns ns' : List Node}, 0 < depth →
    Node.AlikeBody L.names L.definitions ns ns' →
      Follows L depth (Exec.evaluate fuel (.block ns)) (Exec.evaluate · (.block ns'))
  evaluateBlock : ∀ {depth : Nat} {ns ns' : List Node}, 0 < depth →
    Node.AlikeBody L.names L.definitions ns ns' →
      Follows L depth (evaluateBlock fuel ns) (evaluateBlock · ns')
  call : ∀ {depth : Nat} {x y : String} (arguments : List Value), L.names x y →
    Follows L depth (call fuel x arguments) (call · y arguments)

namespace Followed

variable {L : Likeness}

/-- Without fuel the first side does not end, and there is nothing to follow. -/
theorem zero : Followed L 0 where
  visit _ := by rw [Exec.visit]; exact .exhausted (steady_visit _)
  visitAll _ := by rw [Exec.visitAll]; exact .exhausted (steady_visitAll _)
  loop _ _ _ := by rw [Exec.loop]; exact .exhausted (steady_loop _ _ _)
  test _ := by rw [Exec.test]; exact .exhausted (steady_test _)
  define _ _ := by rw [Exec.define]; exact .exhausted (steady_define _ _)
  evaluate _ := by rw [Exec.evaluate]; exact .exhausted (steady_evaluate _)
  evaluateAll _ := by rw [Exec.evaluateAll]; exact .exhausted (steady_evaluateAll _)
  evaluateBody _ _ := by rw [Exec.evaluate]; exact .exhausted (steady_evaluate _)
  evaluateBlock _ _ := by rw [Exec.evaluateBlock]; exact .exhausted (steady_evaluateBlock _)
  call _ _ := by rw [Exec.call]; exact .exhausted (steady_call _ _)

variable {fuel depth : Nat} (h : Followed L fuel)

include h

/-- As many calls are open on both sides, so a `return` does the same; a step assigns to related
names. -/
theorem visit_unary (operator : Token) {e e' : Node} (he : Node.AlikeExpression L.names e e') :
    Follows L depth (Exec.visit (fuel + 1) (.unary operator e))
      (Exec.visit · (.unary operator e')) := by
  have hvalue : Follows L depth _ _ := h.evaluate (.unary operator he)
  have hname := he.referenced?
  refine .of_succ (steady_visit _) ?_
  simp only [Exec.visit]
  refine .bind (.announce _ _ _) fun _ => .ite (fun _ => ?_) fun _ => .ite (fun _ => ?_) fun _ => ?_
  · refine .get_bind (fun _ => .const _) fun m m' hm _ => ?_
    rw [hm.callDepth]
    exact .ite (fun _ => .fail (.same trivial)) fun _ => .pure ()
  · generalize e.referenced? = name at hname ⊢
    generalize e'.referenced? = name' at hname ⊢
    cases hname with
    | none => exact .fail (.same trivial)
    | some hx => exact hvalue.bind fun v => .assign hx v
  · exact hvalue.discard

/-- An assignment assigns to related names, and not to what is no name on either side. -/
theorem visit_binary (operator : Token) {l r l' r' : Node}
    (hl : Node.AlikeExpression L.names l l') (hr : Node.AlikeExpression L.names r r') :
    Follows L depth (Exec.visit (fuel + 1) (.binary operator l r))
      (Exec.visit · (.binary operator l' r')) := by
  have hvalue : Follows L depth _ _ := h.evaluate (.binary operator hl hr)
  have hname := hl.referenced?
  refine .of_succ (steady_visit _) ?_
  simp only [Exec.visit]
  refine .bind (.announce _ _ _) fun _ => .ite (fun _ => ?_) fun _ => hvalue.discard
  generalize l.referenced? = name at hname ⊢
  generalize l'.referenced? = name' at hname ⊢
  cases hname with
  | none => exact .fail (.same trivial)
  | some hx =>
    refine .bind (.lookup hx) fun current => .bind (h.evaluate hr) fun v => ?_
    exact .bind (.apply _ current (some v)) fun w => .assign hx w

/-- Alike expressions are visited alike, one case per sort of expression. -/
theorem visit_expression {e e' : Node} (he : Node.AlikeExpression L.names e e') :
    Follows L depth (Exec.visit (fuel + 1) e) (Exec.visit · e') := by
  cases he with
  | unary operator he => exact h.visit_unary operator he
  | binary operator hl hr => exact h.visit_binary operator hl hr
  | absent =>
    refine .of_succ (steady_visit _) ?_
    simp only [Exec.visit]
    exact .pure ()
  | literal v =>
    refine .of_succ (steady_visit _) ?_
    simp only [Node.literal, Exec.visit]
    exact .bind (.announce _ _ _) fun _ => .pure ()
  | reference hx =>
    refine .of_succ (steady_visit _) ?_
    simp only [Node.reference, Exec.visit]
    exact .bind (.announce _ _ _) fun _ => (h.evaluate (.reference hx)).discard
  | call hx ha =>
    refine .of_succ (steady_visit _) ?_
    simp only [Node.call, Exec.visit]
    exact .bind (.announce _ _ _) fun _ => (h.evaluate (.call hx ha)).discard

/-- **Alike statements are visited alike**; a `return` that only one side has does nothing inside of
a function. -/
theorem visit_succ {n n' : Node} (hn : Node.Alike L.names L.definitions (0 < depth) n n') :
    Follows L depth (Exec.visit (fuel + 1) n) (Exec.visit · n') := by
  cases hn with
  | expression he => exact h.visit_expression he
  | definition hx hi =>
    refine .of_succ (steady_visit _) ?_
    simp only [Exec.visit]
    exact .bind (.announce _ _ _) fun _ => h.define hx hi
  | function hx hd =>
    refine .of_succ (steady_visit _) ?_
    simp only [Exec.visit]
    refine .bind (.announce _ _ _) fun _ => .bind (.modify fun hm => ⟨?_, rfl⟩) fun _ => .say ?_
    · exact hm.withScope (hm.scope.declareFunction L.biUnique hx hd)
    · intro hnames
      rw [hnames _ _ hx]
  | block hs =>
    refine .of_succ (steady_visit _) ?_
    simp only [Exec.visit]
    exact .bind (.announce _ _ _) fun _ => h.visitAll hs
  | choice hc ht hf =>
    refine .of_succ (steady_visit _) ?_
    simp only [Exec.visit]
    refine .bind (.announce _ _ _) fun _ => .bind (h.evaluate hc) fun v => ?_
    obtain _ | _ | _ | (_ | _) | _ := v
    case bool.true => exact h.visit ht
    case bool.false => exact h.visit hf
    all_goals exact .fail (.same trivial)
  | whileLoop hc hb =>
    refine .of_succ (steady_visit _) ?_
    simp only [Exec.visit]
    exact .bind (.announce _ _ _) fun _ => .inFrame (h.loop hc .absent hb)
  | forLoop hi hc hu hb =>
    refine .of_succ (steady_visit _) ?_
    simp only [Exec.visit]
    exact .bind (.announce _ _ _) fun _ => .inFrame (.bind (h.visit hi) fun _ => h.loop hc hu hb)
  | dropped hd hn =>
    refine .of_succ (steady_visit _) ?_
    simp only [Exec.visit]
    exact .dropped hn hd (fuel + 1)
  | added hd hn =>
    rw [Exec.visit]
    exact .added hn hd

/-- Alike statements are visited in turn, the first side's `return`s and the second's passed over.
-/
theorem visitAll_succ {ns ns' : List Node}
    (hns : Node.AlikeAll L.names L.definitions (0 < depth) ns ns') :
    Follows L depth (Exec.visitAll (fuel + 1) ns) (Exec.visitAll · ns') := by
  have hdropped {n : Node} {ns ns' : List Node} (hd : 0 < depth) (hn : n.isReturn)
      (hs : Node.AlikeAll L.names L.definitions (0 < depth) ns ns') :
      Follows L depth (Exec.visitAll (fuel + 1) (n :: ns)) (Exec.visitAll · ns') := by
    rw [Exec.visitAll]
    exact (Follows.dropped hn hd fuel).bind fun _ => h.visitAll hs
  -- What is only on the second side costs no fuel on the first, so the induction is on that side.
  induction ns' generalizing ns with
  | nil =>
    cases hns with
    | nil =>
      refine .of_succ (steady_visitAll _) ?_
      simp only [Exec.visitAll]
      exact .pure ()
    | dropped hd hn hs => exact hdropped hd hn hs
  | cons n' ns' ih =>
    cases hns with
    | cons hn hs =>
      refine .of_succ (steady_visitAll _) ?_
      simp only [Exec.visitAll]
      exact .bind (h.visit hn) fun _ => h.visitAll hs
    | dropped hd hn hs => exact hdropped hd hn hs
    | added hd hn hs =>
      refine .of_succ (steady_visitAll _) ?_
      simp only [Exec.visitAll]
      exact (Follows.added hn hd).bind fun _ => ih hs

/-- A turn of one loop follows a turn of the other. -/
theorem loop_succ {c u b c' u' b' : Node} (hc : Node.AlikeExpression L.names c c')
    (hu : Node.AlikeExpression L.names u u')
    (hb : Node.Alike L.names L.definitions (0 < depth) b b') :
    Follows L depth (Exec.loop (fuel + 1) c u b) (Exec.loop · c' u' b') := by
  refine .of_succ (steady_loop _ _ _) ?_
  simp only [Exec.loop]
  refine .bind (h.test hc) fun goesOn => .ite (fun _ => ?_) fun _ => .pure ()
  refine .bind (h.visit hb) fun _ => .bind (h.visit (.expression hu)) fun _ => ?_
  exact h.loop hc hu hb

theorem test_succ {c c' : Node} (hc : Node.AlikeExpression L.names c c') :
    Follows L depth (Exec.test (fuel + 1) c) (Exec.test · c') := by
  refine .of_succ (steady_test _) ?_
  by_cases ha : c = .absent
  · subst ha
    cases hc
    simp only [Exec.test]
    exact .pure true
  · have ha' : c' ≠ .absent := by
      rintro rfl
      cases hc
      exact ha rfl
    simp only [Exec.test.eq_3 _ _ ha, Exec.test.eq_3 _ _ ha']
    refine .bind (h.evaluate hc) fun v => ?_
    cases v <;> exact .pure _

/-- Related names are declared with the same value, or both void. -/
theorem define_succ {x y : String} {i i' : Node} (hx : L.names x y)
    (hi : Option.Rel (Node.AlikeExpression L.names) i.assigned? i'.assigned?) :
    Follows L depth (Exec.define (fuel + 1) x i) (Exec.define · y i') := by
  refine .of_succ (steady_define _ _) ?_
  simp only [Exec.define]
  generalize i.assigned? = right at hi ⊢
  generalize i'.assigned? = right' at hi ⊢
  cases hi with
  | none => exact .bind (.pure _) fun v => .bind (.declare hx v) fun _ => .declared hx v
  | some he => exact .bind (h.evaluate he) fun v => .bind (.declare hx v) fun _ => .declared hx v

/-- **Alike expressions have the same value.** -/
theorem evaluate_succ {e e' : Node} (he : Node.AlikeExpression L.names e e') :
    Follows L depth (Exec.evaluate (fuel + 1) e) (Exec.evaluate · e') := by
  refine .of_succ (steady_evaluate _) ?_
  cases he with
  | absent =>
    simp only [Exec.evaluate]
    exact .bind (.announce _ _ _) fun _ => .fail (.same trivial)
  | literal v =>
    simp only [Node.literal, Exec.evaluate]
    exact .bind (.announce _ _ _) fun _ => .pure v
  | reference hx =>
    simp only [Node.reference, Exec.evaluate]
    exact .bind (.announce _ _ _) fun _ => .lookup hx
  | call hx ha =>
    simp only [Node.call, Exec.evaluate]
    exact .bind (.announce _ _ _) fun _ => .bind (h.evaluateAll ha) fun values => h.call values hx
  | unary operator he =>
    simp only [Exec.evaluate]
    exact .bind (.announce _ _ _) fun _ => .bind (h.evaluate he) fun v => .apply _ v none
  | binary operator hl hr =>
    simp only [Exec.evaluate]
    exact .bind (.announce _ _ _) fun _ => .bind (h.evaluate hl) fun v =>
      .bind (h.evaluate hr) fun w => .apply _ v (some w)

theorem evaluateAll_succ {es es' : List Node} (he : Node.AlikeExpressions L.names es es') :
    Follows L depth (Exec.evaluateAll (fuel + 1) es) (Exec.evaluateAll · es') := by
  refine .of_succ (steady_evaluateAll _) ?_
  cases he with
  | nil =>
    simp only [Exec.evaluateAll]
    exact .pure []
  | cons he hs =>
    simp only [Exec.evaluateAll]
    exact .bind (h.evaluate he) fun v => .bind (h.evaluateAll hs) fun vs => .pure _

/-- The body of a function is evaluated up to its first `return`, on both sides. -/
theorem evaluateBody_succ {ns ns' : List Node} (hd : 0 < depth)
    (hns : Node.AlikeBody L.names L.definitions ns ns') :
    Follows L depth (Exec.evaluate (fuel + 1) (.block ns)) (Exec.evaluate · (.block ns')) := by
  refine .of_succ (steady_evaluate _) ?_
  simp only [Exec.evaluate]
  exact .bind (.announce _ _ _) fun _ => h.evaluateBlock hd hns

theorem evaluateBlock_succ {ns ns' : List Node} (hd : 0 < depth)
    (hns : Node.AlikeBody L.names L.definitions ns ns') :
    Follows L depth (Exec.evaluateBlock (fuel + 1) ns) (Exec.evaluateBlock · ns') := by
  refine .of_succ (steady_evaluateBlock _) ?_
  cases hns with
  | nil =>
    simp only [Exec.evaluateBlock]
    exact .pure Value.void
  | @returned operator e e' _ _ hk he =>
    have hr (e : Node) : (Node.unary operator e).isReturn = true := decide_eq_true hk
    simp only [Exec.evaluateBlock, hr]
    exact h.evaluate (.unary operator he)
  | cons hn hn' hs hrest =>
    rw [← eq_true hd] at hs
    simp only [Exec.evaluateBlock, hn, hn']
    exact .bind (h.visit hs) fun _ => h.evaluateBlock hd hrest

/-- **Related functions, called with the same arguments.** -/
theorem enter_succ {x y : String} (hx : L.names x y) (arguments : List Value) {d d' : Definition}
    (hd : Definition.Alike L.names L.definitions d d') (limits : Limits) :
    Follows L depth (enter fuel x arguments d depth limits)
      (enter · y arguments d' depth limits) := by
  obtain ⟨ns, ns', hns, hns', hbody⟩ := hd.body
  have hcall : Follows L depth
      (inCall do
        Exec.bindParameters d.parameters arguments
        Exec.sayLazily 3 fun m => m.scope.dump.map ("Scope:\n" ++ ·)
        Exec.evaluate fuel d.body)
      (fun fuel => inCall do
        Exec.bindParameters d'.parameters arguments
        Exec.sayLazily 3 fun m => m.scope.dump.map ("Scope:\n" ++ ·)
        Exec.evaluate fuel d'.body) := by
    rw [hns, hns']
    exact .inCall (.bind (.bindParameters hd.parameters arguments) fun _ =>
      .bind (.sayLazily_three _) fun _ => h.evaluateBody (Nat.succ_pos depth) hbody)
  simp only [enter]
  refine .ite (fun _ => .fail_bind ?_) fun _ => hcall.bind fun v => .returned hx v
  exact .same (f := .callDepth) trivial

/-- Calls of related names go to related functions, or fail each in its own name. -/
theorem callFound_succ {x y : String} (hx : L.names x y) (arguments : List Value)
    {found found' : Option Definition} (hfound : Option.Rel L.definitions found found') :
    Follows L depth (callFound fuel x arguments found) (callFound · y arguments found') := by
  cases hfound with
  | none => exact .fail (.undefined _ hx)
  | @some d d' hd =>
    have halike := L.alike d d' hd
    have hlength : d'.parameters.length = d.parameters.length := halike.parameters.length_eq.symm
    simp only [callFound, hlength]
    refine .ite (fun _ => ?_) fun _ => .fail_bind (.arity hx _ _)
    refine .bind (.mapM .write arguments) fun texts => .bind (.say fun hnames => ?_) fun _ => ?_
    · rw [hnames x y hx]
    · refine .get_bind (fun m => steady_enter y arguments d' m.callDepth m.limits)
        fun m m' hm hdepth => ?_
      rw [hm.callDepth, hm.limits, hdepth]
      exact h.enter_succ hx arguments halike m.limits

/-- **Related names are called alike**; a builtin is related to itself alone. -/
theorem call_succ {x y : String} (arguments : List Value) (hx : L.names x y) :
    Follows L depth (Exec.call (fuel + 1) x arguments) (Exec.call · y arguments) := by
  refine .of_succ (steady_call _ _) ?_
  simp only [call_eq, L.ofName?_eq hx]
  cases Builtin.ofName? x with
  | some b => exact .builtin fuel b arguments
  | none =>
    refine .get_bind (fun m => steady_callFound y arguments _) fun m m' hm _ => ?_
    exact h.callFound_succ hx arguments (hm.scope.getFunction? L.biUnique hx)

/-- **With one unit of fuel more.** -/
theorem succ : Followed L (fuel + 1) where
  visit := h.visit_succ
  visitAll := h.visitAll_succ
  loop := h.loop_succ
  test := h.test_succ
  define := h.define_succ
  evaluate := h.evaluate_succ
  evaluateAll := h.evaluateAll_succ
  evaluateBody := h.evaluateBody_succ
  evaluateBlock := h.evaluateBlock_succ
  call := h.call_succ

end Followed

/-- **Every part of a run follows itself on alike trees.** -/
theorem followed (L : Likeness) : ∀ fuel : Nat, Followed L fuel
  | 0 => .zero
  | fuel + 1 => (followed L fuel).succ

/-! ## Programs -/

/-- What a run leaves behind is alike where what it ended with is. -/
theorem alike_leave {L : Likeness} {m m' : Machine} (h : L.Alike m m')
    {outcome outcome' : Except Fault Unit} (ho : OutcomeAlike L.names outcome outcome') :
    L.Alike (leave m (outcome.mapError .fault)) (leave m' (outcome'.mapError .fault)) := by
  have hclose {m m' : Machine} (h : L.Alike m m') : L.Alike m.closeTrace m'.closeTrace :=
    { h with tracing := rfl }
  have hunwind : L.Alike m.unwind m'.unwind := (h.withScope h.scope.unwind).withCallDepth 0
  cases ho with
  | ok _ => exact hclose h
  | error hf =>
    cases hf with
    | undefined _ _ | arity _ _ _ => exact hclose h
    | same hf =>
      rename_i f
      cases f with
      | callDepth => exact hclose hunwind
      | _ => exact hclose h

/-- **Alike programs end alike.** -/
theorem Ends.of_alike {L : Likeness} {p p' : Node} {m m' m₁ : Machine} {outcome : Except Fault Unit}
    (hp : Node.Alike L.names L.definitions False p p') (hm : L.Alike m m') (hd : m.callDepth = 0)
    (h : Ends (runProgram · p) m outcome m₁) :
    ∃ outcome' m₁', Ends (runProgram · p') m' outcome' m₁' ∧
      OutcomeAlike L.names outcome outcome' ∧ L.Alike m₁ m₁' := by
  obtain ⟨m₂, ⟨fuel, hrun⟩, rfl⟩ := ends_runProgram_iff.mp h
  rw [← eq_false (Nat.lt_irrefl 0)] at hp
  obtain ⟨outcome', m₂', hends, houtcome, hm₂, -⟩ := ((followed L fuel).visit hp).ends hm hd hrun
  exact ⟨outcome', _, ends_runProgram_iff.mpr ⟨m₂', hends, rfl⟩, houtcome,
    alike_leave hm₂ houtcome⟩

end Exec

/-! ## Images -/

/-- A fault about another name. -/
def Fault.renamed (r : String → String) : Fault → Fault
  | .undefined sort name => .undefined sort (r name)
  | .arity name expected actual => .arity (r name) expected actual
  | f => f

/-- A machine with other names and functions. -/
def Machine.mapped (r : String → String) (δ : Definition → Definition) (m : Machine) : Machine :=
  { m with scope := m.scope.mapped r δ }

namespace Likeness

variable (L : Likeness)

/-- Before a run there is nothing that could differ, but what the traces begin with. -/
theorem alike_start {verbosity : Int} (hv : verbosity < 3)
    (hnamed : 2 ≤ verbosity → ∀ x y, L.names x y → x = y) (limits : Limits) (seed : Int)
    (input : List String) :
    L.Alike ((Machine.start limits verbosity seed input).withTrace L.shown)
      ((Machine.start limits verbosity seed input).withTrace L.shown') where
  scope := Scope.alike_empty
  callDepth := rfl
  limits := rfl
  verbosity := rfl
  tracing := rfl
  trace := ⟨#[], Array.append_empty.symm, Array.append_empty.symm⟩
  console := rfl
  verbosity_lt := hv
  named := hnamed

variable {r : String → String} {δ : Definition → Definition}
  (hnames : ∀ x y, L.names x y → y = r x) (hdefinitions : ∀ d d', L.definitions d d' → d' = δ d)

include hnames

/-- Where the names are renamed by a function, so is the name that a fault is about. -/
theorem eq_renamed {α : Type} {outcome outcome' : Except Fault α}
    (h : OutcomeAlike L.names outcome outcome') : outcome' = outcome.mapError (.renamed r) := by
  cases h with
  | ok a => rfl
  | error h =>
    cases h with
    | undefined sort hx => rw [hnames _ _ hx]; rfl
    | arity hx _ _ => rw [hnames _ _ hx]; rfl
    | same hf =>
      rename_i f
      cases f with
      | undefined _ _ | arity _ _ _ => exact absurd hf id
      | _ => rfl

include hdefinitions

/-- Where names and functions are images, so is the machine, but for what the traces begin with. -/
theorem Alike.eq_mapped {m m' : Machine} (h : L.Alike m m') :
    ∃ rest, m.trace = L.shown ++ rest ∧ m' = (m.mapped r δ).withTrace (L.shown' ++ rest) := by
  obtain ⟨rest, hrest, hrest'⟩ := h.trace
  refine ⟨rest, hrest, ?_⟩
  have hscope := h.scope.eq_mapped hnames hdefinitions
  have hinput : m'.input = m.input := congrArg Console.input h.console
  have houtput : m'.output = m.output := congrArg Console.output h.console
  have hrandom : m'.random = m.random := congrArg Console.random h.console
  rw [Machine.withTrace, Machine.mapped, ← hscope, ← h.callDepth, ← h.limits, ← h.verbosity,
    ← h.tracing, ← hrest', ← hinput, ← houtput, ← hrandom]

variable {p p' : Node} (hp : Node.Alike L.names L.definitions False p p') {verbosity : Int}
  (hv : verbosity < 3) (hnamed : 2 ≤ verbosity → ∀ x y, L.names x y → x = y) {limits : Limits}
  {seed : Int} {input : List String}

include hp hv hnamed

/-- **Where a program ends, so does its image**, and in the image of that end. -/
theorem ends_image {outcome : Except Fault Unit} {m : Machine}
    (h : Exec.Ends (Exec.runProgram · p)
      ((Machine.start limits verbosity seed input).withTrace L.shown) outcome m) :
    ∃ rest, m.trace = L.shown ++ rest ∧
    Exec.Ends (Exec.runProgram · p')
      ((Machine.start limits verbosity seed input).withTrace L.shown')
      (outcome.mapError (.renamed r)) ((m.mapped r δ).withTrace (L.shown' ++ rest)) := by
  obtain ⟨outcome', m', hends, houtcome, hm⟩ :=
    h.of_alike hp (L.alike_start hv hnamed limits seed input) rfl
  obtain ⟨rest, htrace, rfl⟩ := Alike.eq_mapped L hnames hdefinitions hm
  obtain rfl := L.eq_renamed hnames houtcome
  exact ⟨rest, htrace, hends⟩

/-- **Where the image of a program ends, so does the program**, and the one end is the image of the
other. -/
theorem ends_of_image {outcome' : Except Fault Unit} {m' : Machine}
    (h : Exec.Ends (Exec.runProgram · p')
      ((Machine.start limits verbosity seed input).withTrace L.shown') outcome' m') :
    ∃ outcome m rest,
    Exec.Ends (Exec.runProgram · p) ((Machine.start limits verbosity seed input).withTrace L.shown)
      outcome m ∧ m.trace = L.shown ++ rest ∧ outcome' = outcome.mapError (.renamed r) ∧
        m' = (m.mapped r δ).withTrace (L.shown' ++ rest) := by
  have hnamed' (hle : 2 ≤ verbosity) (x y : String) (hx : L.names y x) : x = y :=
    (hnamed hle y x hx).symm
  obtain ⟨outcome, m, hends, -⟩ := h.of_alike (L := L.flip) hp.flip
    (L.flip.alike_start hv hnamed' limits seed input) rfl
  obtain ⟨rest, htrace, hends'⟩ := L.ends_image hnames hdefinitions hp hv hnamed hends
  obtain ⟨houtcome, hm⟩ := h.unique (Exec.steady_runProgram p') hends'
  exact ⟨outcome, m, rest, hends, htrace, houtcome, hm⟩

end Likeness

end Scrawl
