import Scrawl.Proofs.Machine.Uniform
import Scrawl.Proofs.Parser.Trees

/-!
# Proofs/Machine/Discipline — frames and calls come and go in stack order

Every push of a run sits in `inFrame` or `inCall`, so every path out of it pops again.  That each
step lets the innermost frame grow and no more goes through all parts of a run (`disciplined`).
**Expressions and loops change no frame at all** (`evaluate_same`, `visit_whileLoop_same`,
`visit_forLoop_same`), and programs run one after the other on one machine each leave it at rest
(`Machine.AtRest.afterPrograms`).
-/

namespace Scrawl

namespace Exec

open Machine (Same Grows)

theorem Within.announce (text : String) (n : Node) : Within Same (announce text n) :=
  .sayLazily 3 _

theorem Within.bindParameters :
    ∀ (parameters : List Node) (arguments : List Value),
      Within Grows (bindParameters parameters arguments)
  | [], _ => .pure ()
  | _ :: _, [] => .pure ()
  | parameter :: parameters, v :: arguments => by
      rw [Exec.bindParameters]
      split
      · exact .bind (.declare _ v) fun _ => Within.bindParameters parameters arguments
      · exact .fail_bind _ _

/-- **Every step of a run lets the innermost frame grow at most.**  A frame that is pushed on the
way is dropped again by whoever pushed it. -/
theorem uniform_grows : Uniform fun _ x _ => Within Grows x where
  pure := .pure
  fail := .fail
  exhausted _ := .throw _
  bind := .bind
  nesting h := .bind .get fun m => h m.callDepth m.limits
  function name _ _ h := .bind .get fun m => h (m.scope.getFunction? name)
  say _ := (Within.say _ _).grows
  sayLazily _ := (Within.sayLazily _ _).grows
  lookup := .lookup
  assign name v := (Within.assign name v).grows
  declare := .declare
  declareFunction name d := .modify fun m => ⟨m.scope.grows_declareFunction name d, rfl⟩
  inFrame h := (Within.inFrame h).grows
  inCall h := (Within.inCall h).grows
  builtin b arguments _ := (Within.builtin _ b arguments).grows

/-- **A run lets the innermost frame grow and no more**, however much fuel it has. -/
theorem disciplined (fuel : Nat) : Related (fun _ x _ => Within Grows x) fuel fuel :=
  uniform_grows.related le_rfl

/-- **A call leaves the frames as they were**, whatever the body of the function is. -/
theorem call_same (name : String) (arguments : List Value) :
    ∀ fuel, Within Same (call fuel name arguments)
  | 0 => by
      rw [call]
      exact .throw _
  | fuel + 1 => by
      rw [call]
      split
      · exact .builtin fuel _ arguments
      · refine .bind .get fun m => ?_
        split
        · exact .fail _
        · rename_i d _
          have hbody : Within Same (inCall do
              bindParameters d.parameters arguments
              sayLazily 3 fun m => m.scope.dump.map ("Scope:\n" ++ ·)
              evaluate fuel d.body) :=
            .inCall (.bind (.bindParameters _ _) fun _ =>
              .bind (Within.sayLazily 3 _).grows fun _ => (disciplined fuel).evaluate d.body)
          dsimp only
          split
          · refine .bind (.mapM .write _) fun _ => .bind (.say 2 _) fun _ => .bind .get fun m => ?_
            split
            · exact .fail_bind _ _
            · refine .bind hbody fun v => .bind (.ofFault _) fun _ => ?_
              exact .bind (.say 2 _) fun _ => .pure v
          · exact .fail_bind _ _

/-! ## Expressions and loops -/

/-- Arguments change no frame if none of them does. -/
theorem evaluateAll_same {arguments : List Node}
    (h : ∀ a ∈ arguments, ∀ fuel, Within Same (evaluate fuel a)) :
    ∀ fuel, Within Same (evaluateAll fuel arguments) := by
  induction arguments with
  | nil =>
    rintro (_ | fuel) <;> rw [evaluateAll]
    · exact .throw _
    · exact .pure []
  | cons a rest ih =>
    obtain ⟨ha, hrest⟩ := List.forall_mem_cons.mp h
    rintro (_ | fuel) <;> rw [evaluateAll]
    · exact .throw _
    · exact .bind (ha fuel) fun _ => .bind (ih hrest fuel) fun _ => .pure _

/-- **An expression changes no frame.**  The calls in it run in frames of their own. -/
theorem evaluate_same {L : Value → Prop} {e : Node} (he : e.IsExpression L) :
    ∀ fuel, Within Same (evaluate fuel e) := by
  have hzero (e : Node) : Within Same (evaluate 0 e) := by
    rw [evaluate]
    exact .throw _
  induction he with
  | literal _ =>
    rintro (_ | fuel)
    · exact hzero _
    · rw [Node.literal, evaluate]
      exact .bind (.announce _ _) fun _ => .pure _
  | reference name =>
    rintro (_ | fuel)
    · exact hzero _
    · rw [Node.reference, evaluate]
      exact .bind (.announce _ _) fun _ => .lookup name
  | call name _ ih =>
    rintro (_ | fuel)
    · exact hzero _
    · rw [Node.call, evaluate]
      refine .bind (.announce _ _) fun _ => .bind (evaluateAll_same ih fuel) fun values => ?_
      exact call_same name values fuel
  | unary _ _ ih =>
    rintro (_ | fuel)
    · exact hzero _
    · rw [evaluate]
      exact .bind (.announce _ _) fun _ => .bind (ih fuel) fun _ => .ofFault _
  | binary _ _ _ ihl ihr =>
    rintro (_ | fuel)
    · exact hzero _
    · rw [evaluate]
      refine .bind (.announce _ _) fun _ => .bind (ihl fuel) fun _ => ?_
      exact .bind (ihr fuel) fun _ => .ofFault _

theorem visit_whileLoop_same (condition body : Node) :
    ∀ fuel, Within Same (visit fuel (.whileLoop condition body))
  | 0 => by
      rw [visit]
      exact .throw _
  | fuel + 1 => by
      rw [visit]
      refine .bind (.announce _ _) fun _ => ?_
      exact .inFrame ((disciplined fuel).loop condition .absent body)

theorem visit_forLoop_same (initialization condition update body : Node) :
    ∀ fuel, Within Same (visit fuel (.forLoop initialization condition update body))
  | 0 => by
      rw [visit]
      exact .throw _
  | fuel + 1 => by
      have h := disciplined fuel
      rw [visit]
      refine .bind (.announce _ _) fun _ => ?_
      exact .inFrame (.bind (h.visit initialization) fun _ => h.loop condition update body)

end Exec

/-! ## Programs on one machine -/

namespace Machine

/-- **A machine between programs**: the global frame alone, with a slot for each of its variables,
and no call open. -/
structure AtRest (m : Machine) : Prop where
  locals : m.scope.locals = []
  callDepth : m.callDepth = 0
  base : m.scope.globals.base = 0
  slots : m.scope.slots.size = m.scope.globals.handles.length

theorem atRest_start (limits : Limits) (verbosity seed : Int) (input : List String) :
    (start limits verbosity seed input).AtRest := ⟨rfl, rfl, rfl, rfl⟩

/-- A machine at rest that has only grown is at rest. -/
theorem AtRest.of_grows {m m' : Machine} (h : m.AtRest) (hg : m.Grows m') : m'.AtRest := by
  have htop {s : Scope} (hs : s.locals = []) : s.top = s.globals := by rw [Scope.top, hs]; rfl
  have houter : m'.scope.outer = [] := by rw [hg.scope.outer, Scope.outer, h.locals]
  have hlocals : m'.scope.locals = [] := by
    unfold Scope.outer at houter
    split at houter
    · assumption
    · simp at houter
  have hframe := hg.scope.top
  have hsize := hg.scope.size
  rw [htop h.locals, htop hlocals] at hframe hsize
  have hslots := h.slots
  exact ⟨hlocals, hg.callDepth.trans h.callDepth, hframe.base.trans h.base, by omega⟩

/-- At rest there is nothing to unwind. -/
theorem AtRest.unwind {m : Machine} (h : m.AtRest) : m.unwind = m := by
  obtain ⟨⟨slots, globals, locals⟩, callDepth⟩ := m
  obtain rfl : locals = [] := h.locals
  obtain rfl : callDepth = 0 := h.callDepth
  rfl

/-- **A program lets a machine at rest grow**, whether it ends, fails or nests calls too deep. -/
theorem AtRest.runProgram {m : Machine} (h : m.AtRest) (fuel : Nat) (program : Node) :
    m.Grows ((Exec.runProgram fuel program).run m).2 := by
  have hvisit : m.Grows ((Exec.visit fuel program).run m).2 :=
    (Exec.disciplined fuel).visit program m
  have hrest := h.of_grows hvisit
  unfold Exec.runProgram
  change m.Grows (closeTrace _)
  split
  · exact ⟨hrest.unwind.symm ▸ hvisit.scope, hrest.unwind.symm ▸ hvisit.callDepth⟩
  · exact ⟨hvisit.scope, hvisit.callDepth⟩

/-- The machine after programs that run one after the other, each with its fuel and however it
ends. -/
def afterPrograms (m : Machine) (programs : List (Nat × Node)) : Machine :=
  programs.foldl (fun m p => ((Exec.runProgram p.1 p.2).run m).2) m

/-- **Programs on one machine leave it at rest, grown.** -/
theorem AtRest.afterPrograms {m : Machine} (h : m.AtRest) (programs : List (Nat × Node)) :
    m.Grows (m.afterPrograms programs) := by
  induction programs generalizing m with
  | nil => exact refl m
  | cons p programs ih =>
    have hp := h.runProgram p.1 p.2
    exact Trans.trans hp (ih (h.of_grows hp))

end Machine

/-- **Stack discipline.**  On every machine, with any fuel and however it ends, the value of an
expression and a loop leave all frames, the number of slots and the open calls as they were, and
any other node at most lets the innermost frame grow.  So programs that run one after the other
find the machine at rest and leave it at rest, with all they found bound as it was.  Whatever the
parser returns is a program of such statements and expressions. -/
theorem stack_discipline :
    (∀ (L : Value → Prop) (e : Node), e.IsExpression L →
      ∀ (fuel : Nat) (m : Machine), m.Same ((Exec.evaluate fuel e).run m).2) ∧
    (∀ (condition body : Node) (fuel : Nat) (m : Machine),
      m.Same ((Exec.visit fuel (.whileLoop condition body)).run m).2) ∧
    (∀ (initialization condition update body : Node) (fuel : Nat) (m : Machine),
      m.Same ((Exec.visit fuel (.forLoop initialization condition update body)).run m).2) ∧
    (∀ (n : Node) (fuel : Nat) (m : Machine), m.Grows ((Exec.visit fuel n).run m).2) ∧
    (∀ limits verbosity seed input earlier later,
      let m := (Machine.start limits verbosity seed input).afterPrograms earlier
      m.AtRest ∧ m.Grows (m.afterPrograms later)) ∧
    (∀ tokens program, parse tokens = .ok program → program.IsProgram Value.IsLiteral) := by
  refine ⟨fun L e he => Exec.evaluate_same he, Exec.visit_whileLoop_same, Exec.visit_forLoop_same,
    fun n fuel => (Exec.disciplined fuel).visit n,
    fun limits verbosity seed input earlier later => ?_, fun tokens program => isProgram_of_parse⟩
  have hstart := Machine.atRest_start limits verbosity seed input
  have hrest := hstart.of_grows (hstart.afterPrograms earlier)
  exact ⟨hrest, hrest.afterPrograms later⟩

/-- A call that fails inside a loop inside the function. -/
theorem stack_discipline_failing_call :
    let body : Node := .block [.variable "x" (.reference "x") true,
      .whileLoop (.literal (.bool true)) (.block [.variable "y" (.reference "y") true,
        .reference "z"])]
    let m : Machine := { Machine.start .usual 0 0 [] with
      scope := Scope.empty.declareFunction "f" ⟨[], body⟩ }
    (Node.call "f" []).IsExpression (fun _ => True) ∧
      ((Exec.evaluate 20 (.call "f" [])).run m).1 = .error (.fault (.undefined .variable "z")) ∧
      m.Same ((Exec.evaluate 20 (.call "f" [])).run m).2 := by
  have he : (Node.call "f" []).IsExpression (fun _ => True) := .call "f" (by simp)
  exact ⟨he, rfl, stack_discipline.1 _ _ he 20 _⟩

end Scrawl
