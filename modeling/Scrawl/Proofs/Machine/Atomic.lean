import Scrawl.Proofs.Machine.CallFree
import Scrawl.Proofs.Machine.Faults
import Scrawl.Proofs.Scope.Writes

/-!
# Proofs/Machine/Atomic — simple statements are all or nothing

    x = e   x op= e   x++      one slot, the one that `x` had
    var x   var x = e          the slot of `x` in the innermost frame, or one more at the end

A simple statement computes a value first and writes last, and what it writes to is known to be
there by then.  So it fails on the machine as it was, or writes one place (`Scope.Takes`) and leaves
every other name with its value (`Exec.simple_atomic`).
-/

namespace Scrawl

namespace Node

/-- The variable that an expression stores into when it stands as a statement. -/
def target? : Node → Option String
  | .unary operator operand => if operator.kind.isStep then operand.referenced? else none
  | .binary operator left _ => if operator.kind.isAssign then left.referenced? else none
  | _ => none

/-- **The variable that a statement writes**: the one it stores into or defines. -/
def written? : Node → Option String
  | .variable name _ true => some name
  | n => n.target?

/-- **A simple statement**: an expression, which may be an assignment or a step, or the definition
of a variable; neither with calls. -/
inductive Simple : Node → Prop
  | expression {e : Node} (h : e.CallFree) : Simple e
  | definition (name : String) {initializer : Node}
      (h : ∀ e, initializer.assigned? = some e → e.CallFree) :
      Simple (.variable name initializer true)

theorem written?_of_target? {n : Node} {x : String} (h : n.target? = some x) :
    n.written? = some x := by
  unfold written?
  split
  · cases h
  · exact h

end Node

/-! ## One place of a scope -/

namespace Scope

/-- **The value that a simple statement comes to**: its own as an expression, or the first one of
the variable that it defines. -/
def resultOf (s : Scope) : Node → Except Fault Value
  | .variable _ initializer true =>
    match initializer.assigned? with
    | some e => s.valueOf e
    | none => .ok .void
  | e => s.valueOf e

/-- **What a simple statement makes of a scope.** -/
inductive Takes (s : Scope) : Node → Scope → Prop where
  /-- Nothing, if it stores nothing. -/
  | nothing {e : Node} (he : e.CallFree) (ht : e.target? = none) : Takes s e s
  /-- Its value comes into the slot that its variable has. -/
  | stored {e : Node} {x : String} {handle : Nat} {v : Value} (ht : e.target? = some x)
    (hx : s.resolve? x = some handle) (hslot : handle < s.slots.size) (hv : s.resultOf e = .ok v) :
    Takes s e (s.store handle v)
  /-- The first value comes into the slot that the variable has in the innermost frame. -/
  | redefined {x : String} {initializer : Node} {handle : Nat} {v : Value}
    (hx : s.top.handles.lookup x = some handle) (hslot : handle < s.slots.size)
    (hv : s.resultOf (.variable x initializer true) = .ok v) :
    Takes s (.variable x initializer true) (s.store handle v)
  /-- …or into a new slot, if that frame has no such variable. -/
  | defined {x : String} {initializer : Node} {v : Value} (hx : s.top.handles.lookup x = none)
    (hv : s.resultOf (.variable x initializer true) = .ok v) :
    Takes s (.variable x initializer true) (s.extended x v)

theorem resultOf_of_callFree {e : Node} (he : e.CallFree) (s : Scope) :
    s.resultOf e = s.valueOf e := by
  cases he <;> rfl

/-- **A simple statement changes the value of no other name.** -/
theorem Takes.get_eq {s t : Scope} {a : Layers} (ha : s = a.arena) {n : Node} (h : s.Takes n t)
    {y : String} (hy : n.written? ≠ some y) : t.get y = s.get y := by
  cases h with
  | nothing => rfl
  | stored ht hx =>
    rw [get_store ha hx, if_neg]
    rintro rfl
    exact hy (Node.written?_of_target? ht)
  | redefined hx =>
    rw [get_store ha (resolve?_of_top hx), if_neg]
    rintro rfl
    exact hy rfl
  | defined hx =>
    rw [← declare_of_new hx, get_declare ha, if_neg]
    rintro rfl
    exact hy rfl

theorem valueOf_of_referenced? {n : Node} {x : String} (h : n.referenced? = some x) (s : Scope) :
    s.valueOf n = s.get x := by
  unfold Node.referenced? at h
  split at h
  · cases h
    rfl
  · cases h

/-- What is computed from a variable is only there if the variable is. -/
theorem exists_get_of_bind {s : Scope} {n : Node} {x : String} (hx : n.referenced? = some x)
    {f : Value → Except Fault Value} {v : Value} (h : (s.valueOf n >>= f) = .ok v) :
    ∃ w, s.get x = .ok w := by
  obtain ⟨w, hw, -⟩ := exists_of_bind_eq_ok h
  exact ⟨w, (valueOf_of_referenced? hx s).symm.trans hw⟩

end Scope

/-! ## Statements -/

namespace Exec

variable {m : Machine}

/-- **A statement that is all or nothing** on a machine.  One that writes a variable fails only if
it has no value to write. -/
def Atomic (n : Node) (m : Machine) : Prop :=
  (∃ fault, Ends (visit · n) m (.error fault) m ∧
      ∀ x, n.written? = some x → m.scope.resultOf n = .error fault) ∨
    ∃ t, Ends (visit · n) m (.ok ()) { m with scope := t } ∧ m.scope.Takes n t

namespace Atomic

/-- **A statement that comes to its value and then writes is atomic** if the write cannot fail. -/
theorem of_write {n : Node} {x : Nat → Exec Value} {write : Value → Exec Unit} (hx : Steady x)
    (hvalue : Ends x m (m.scope.resultOf n) m)
    (hsame : ∀ {outcome m'}, Ends (fun fuel => x fuel >>= write) m outcome m' →
      Ends (visit · n) m outcome m')
    (hwrite : ∀ v, m.scope.resultOf n = .ok v →
      ∃ t, (write v).run m = (.ok (), { m with scope := t }) ∧ m.scope.Takes n t) :
    Atomic n m := by
  have hsequence {outcome m'} : Ends (fun fuel => x fuel >>= write) m outcome m' ↔ _ :=
    Ends.bind_iff hx fun v => .const (write v)
  cases hresult : m.scope.resultOf n with
  | error fault =>
    rw [hresult] at hvalue
    exact .inl ⟨fault, hsame (hsequence.mpr (.inl ⟨fault, rfl, hvalue⟩)), fun _ _ => hresult⟩
  | ok v =>
    rw [hresult] at hvalue
    obtain ⟨t, hrun, htakes⟩ := hwrite v hresult
    exact .inr ⟨t, hsame (hsequence.mpr (.inr ⟨v, m, hvalue, 0, hrun⟩)), htakes⟩

section Expression

variable {e : Node} (he : e.CallFree)

include he

/-- An expression that stores nothing may fail for other reasons. -/
theorem of_fail (ht : e.target? = none) {fault : Fault}
    (hrun : (visit (0 + 1) e).run m = (fail fault : Exec Unit).run m) : Atomic e m := by
  have hwritten : e.written? = none := by cases he <;> exact ht
  exact .inl ⟨fault, ⟨1, hrun⟩, fun x hx => by simp [hwritten] at hx⟩

/-- An expression that is only evaluated writes nothing. -/
theorem evaluated (hm : m.verbosity < 3) (ht : e.target? = none)
    (hrun : ∀ fuel, (visit (fuel + 1) e).run m = (discard (evaluate fuel e)).run m) :
    Atomic e m :=
  of_write (steady_evaluate e)
    ((ends_evaluate_iff he hm).mpr ⟨Scope.resultOf_of_callFree he m.scope, rfl⟩) (.of_succ hrun)
    fun _ _ => ⟨m.scope, rfl, .nothing he ht⟩

/-- An expression that stores its value does so in the slot of its variable. -/
theorem storing {x : String} {value : Nat → Exec Value} (ht : e.target? = some x)
    (hsteady : Steady value) (hvalue : Ends value m (m.scope.valueOf e) m)
    (hrun : ∀ fuel, (visit (fuel + 1) e).run m = (value fuel >>= assign x).run m)
    (hget : ∀ v, m.scope.valueOf e = .ok v → ∃ w, m.scope.get x = .ok w) : Atomic e m := by
  have hresult := Scope.resultOf_of_callFree he m.scope
  rw [← hresult] at hvalue hget
  refine of_write hsteady hvalue (.of_succ hrun) fun v hv => ?_
  obtain ⟨w, hw⟩ := hget v hv
  obtain ⟨handle, hx, hslot⟩ := Scope.exists_slot_of_get hw
  refine ⟨_, ?_, .stored ht hx hslot hv⟩
  rw [run_assign, Scope.set_eq_store hx]

end Expression

end Atomic

/-! ## Expressions -/

theorem yields_operands (x : String) {right : Node} (hr : right.CallFree) (m : Machine) :
    Yields (operands · x right) m
      (m.scope.get x >>= fun v => m.scope.valueOf right >>= fun w => .ok (v, w)) := by
  refine (Yields.lookup x m).bind (.const _) (fun v _ _ hle => ?_) fun v m' hm' => ?_
  · exact (steady_evaluate right hle).bind fun _ => .refl _
  · have hright := yields_evaluate hr m'
    rw [hm'.scope] at hright
    exact hright.bind (steady_evaluate right) (fun _ => .const _) fun w m'' _ =>
      .ofFault (.ok (v, w)) m''

/-- **An assignment comes to its value as an expression**, its variable being its left side. -/
theorem yields_assigned (operator : Token) {left right : Node} {x : String}
    (hx : left.referenced? = some x) (hr : right.CallFree) (m : Machine) :
    Yields (assigned · operator.kind x right) m
      (m.scope.valueOf (.binary operator left right)) := by
  have hvalue : m.scope.valueOf (.binary operator left right) =
      (m.scope.get x >>= fun v => m.scope.valueOf right >>= fun w => .ok (v, w)) >>= fun p =>
        Value.apply operator.kind p.1 (some p.2) := by
    rw [← Scope.valueOf_of_referenced? hx]
    simp only [bind_assoc]
    rfl
  rw [hvalue]
  exact (yields_operands x hr m).bind (steady_operands x right) (fun _ => .const _)
    fun p m' _ => .ofFault _ m'

section Silent

variable (hm : m.verbosity < 3)

include hm

namespace Atomic

theorem unary (operator : Token) {operand : Node} (h : operand.CallFree) :
    Atomic (.unary operator operand) m := by
  have he : (Node.unary operator operand).CallFree := .unary operator h
  have hrun := run_visit_unary hm operator operand
  by_cases hreturn : operator.kind = .returnWord
  · have htarget : (Node.unary operator operand).target? = none := by
      rw [Node.target?, hreturn]
      rfl
    simp only [if_pos hreturn] at hrun
    have hstop : (visit (0 + 1) (.unary operator operand)).run m =
        (if m.callDepth = 0 then fail .strayReturn else pure () : Exec Unit).run m := hrun 0
    by_cases hdepth : m.callDepth = 0
    · rw [if_pos hdepth] at hstop
      exact of_fail he htarget hstop
    · rw [if_neg hdepth] at hstop
      exact .inr ⟨m.scope, ⟨1, hstop⟩, .nothing he htarget⟩
  simp only [if_neg hreturn] at hrun
  by_cases hstep : operator.kind.isStep
  · simp only [if_pos hstep] at hrun
    cases hx : operand.referenced? with
    | none =>
      exact of_fail he (by rw [Node.target?, if_pos hstep, hx]) ((hrun 0).trans (by rw [hx]))
    | some x =>
      simp only [hx] at hrun
      exact storing he (by rw [Node.target?, if_pos hstep, hx]) (steady_evaluate _)
        ((ends_evaluate_iff he hm).mpr ⟨rfl, rfl⟩) hrun fun v hv => Scope.exists_get_of_bind hx hv
  · simp only [if_neg hstep] at hrun
    exact evaluated he hm (by rw [Node.target?, if_neg hstep]) hrun

theorem binary (operator : Token) {left right : Node} (hl : left.CallFree) (hr : right.CallFree) :
    Atomic (.binary operator left right) m := by
  have he : (Node.binary operator left right).CallFree := .binary operator hl hr
  have hrun := run_visit_binary hm operator left right
  by_cases hassign : operator.kind.isAssign
  · simp only [if_pos hassign] at hrun
    cases hx : left.referenced? with
    | none =>
      exact of_fail he (by rw [Node.target?, if_pos hassign, hx]) ((hrun 0).trans (by rw [hx]))
    | some x =>
      simp only [hx] at hrun
      exact storing he (by rw [Node.target?, if_pos hassign, hx])
        (steady_assigned operator.kind x right) ((yields_assigned operator hx hr m).ends hm) hrun
        fun v hv => Scope.exists_get_of_bind hx hv
  · simp only [if_neg hassign] at hrun
    exact evaluated he hm (by rw [Node.target?, if_neg hassign]) hrun

/-- An expression is all or nothing as a statement. -/
theorem expression {e : Node} (he : e.CallFree) : Atomic e m := by
  cases he with
  | literal v =>
    have hrun : (visit (0 + 1) (.literal v)).run m = (.ok (), m) := by
      rw [Node.literal, visit]
      exact run_announce_bind hm "Visiting: " _ (pure ())
    exact .inr ⟨m.scope, ⟨1, hrun⟩, .nothing (.literal v) rfl⟩
  | reference name initializer =>
    exact evaluated (.reference name initializer) hm rfl (run_visit_reference hm name initializer)
  | unary operator h => exact unary hm operator h
  | binary operator hl hr => exact binary hm operator hl hr

end Atomic

end Silent

/-! ## Definitions -/

/-- What a definition does with the first value of its variable. -/
def introduce (name : String) (v : Value) : Exec Unit := do
  declare name v
  sayLazily 2 fun _ => valueMessage ("declare " ++ name ++ ": ") v

theorem run_introduce (hm : m.verbosity < 2) (name : String) (v : Value) :
    (introduce name v).run m = (.ok (), { m with scope := (m.scope.declare name v).2 }) := by
  have hquiet : ({ m with scope := (m.scope.declare name v).2 } : Machine).verbosity < 2 := hm
  rw [introduce, run_bind]
  exact run_sayLazily_of_lt hquiet

/-- A definition computes the first value before anything else. -/
theorem exists_initial (hm : m.verbosity < 3) (name : String) {initializer : Node}
    (h : ∀ e, initializer.assigned? = some e → e.CallFree) :
    ∃ x, Steady x ∧ Ends x m (m.scope.resultOf (.variable name initializer true)) m ∧
      ∀ fuel, define (fuel + 1) name initializer = x fuel >>= introduce name := by
  simp only [Scope.resultOf, define]
  cases hassigned : initializer.assigned? with
  | none => exact ⟨fun _ => pure .void, .const _, ⟨0, rfl⟩, fun _ => rfl⟩
  | some e =>
    have hends := (ends_evaluate_iff (h e hassigned) hm).mpr ⟨rfl, rfl⟩
    exact ⟨(evaluate · e), steady_evaluate e, hends, fun _ => rfl⟩

/-- A definition is all or nothing: the message about it comes last, and is not shown here. -/
theorem Atomic.definition (hm : m.verbosity < 2) {a : Layers} (ha : m.scope = a.arena)
    (name : String) {initializer : Node}
    (h : ∀ e, initializer.assigned? = some e → e.CallFree) :
    Atomic (.variable name initializer true) m := by
  have hlow : m.verbosity < 3 := by omega
  obtain ⟨x, hx, hvalue, hdefine⟩ := exists_initial hlow name h
  have hsame {outcome m'} (hends : Ends (fun fuel => x fuel >>= introduce name) m outcome m') :
      Ends (visit · (.variable name initializer true)) m outcome m' :=
    .of_succ (run_visit_definition hlow name initializer)
      (.of_succ (fun fuel => by rw [hdefine fuel]) hends)
  refine of_write hx hvalue hsame fun v hv => ⟨_, run_introduce hm name v, ?_⟩
  cases hlookup : m.scope.top.handles.lookup name with
  | none =>
    rw [Scope.declare_of_new hlookup]
    exact .defined hlookup hv
  | some handle =>
    rw [Scope.declare_of_bound hlookup]
    exact .redefined hlookup (Scope.lt_size_of_resolve? ha (Scope.resolve?_of_top hlookup)) hv

theorem atomic_of_simple {n : Node} (hn : n.Simple) (hm : m.verbosity < 2)
    {a : Layers} (ha : m.scope = a.arena) : Atomic n m := by
  cases hn with
  | expression he => exact .expression (by omega) he
  | definition name h => exact .definition hm ha name h

/-- **Simple statements are all or nothing, and write one place.**  On a machine that programs leave
behind and that shows no messages, a simple statement always ends.  If it fails, the machine is
exactly as it was.  If it does not, nothing but the scope is different, and that in one place: the
slot that its variable had, or for a definition the slot of the variable in the innermost frame or
one new slot at the end.  Every name but the one that is written keeps its value. -/
theorem simple_atomic {n : Node} (hn : n.Simple) {m : Machine} (hm : m.Sound)
    (hlow : m.verbosity < 2) :
    (∃ outcome m', Ends (visit · n) m outcome m') ∧
      ∀ outcome m', Ends (visit · n) m outcome m' →
        match outcome with
        | .error fault => m' = m ∧ ∀ x, n.written? = some x → m.scope.resultOf n = .error fault
        | .ok _ => ∃ t, m' = { m with scope := t } ∧ m.scope.Takes n t ∧
          ∀ y, n.written? ≠ some y → t.get y = m.scope.get y := by
  obtain ⟨a, ha, -⟩ := hm
  obtain ⟨fault, h, hresult⟩ | ⟨t, h, htakes⟩ := atomic_of_simple hn hlow ha
  · refine ⟨⟨_, _, h⟩, fun outcome m' hends => ?_⟩
    obtain ⟨rfl, rfl⟩ := hends.unique (steady_visit n) h
    exact ⟨rfl, hresult⟩
  · refine ⟨⟨_, _, h⟩, fun outcome m' hends => ?_⟩
    obtain ⟨rfl, rfl⟩ := hends.unique (steady_visit n) h
    exact ⟨t, rfl, htakes, fun y hy => htakes.get_eq ha hy⟩

/-- `x -= y` has a value in the inner frame, so it is written to the `x` of that frame. -/
theorem simple_atomic_shadowed :
    let n := Node.binary ⟨.assignSubtract, "-=", .none⟩ (.reference "x") (.reference "y")
    let outer := (Scope.empty.declare "x" (.int 1)).2
    let inner := ((outer.push.declare "y" (.int 3)).2.declare "x" (.int 10)).2
    let m : Machine := { Machine.start .usual 0 0 [] with scope := inner }
    n.Simple ∧ m.Sound ∧ m.verbosity < 2 ∧ n.written? = some "x" ∧
      inner.resultOf n = .ok (.int 7) ∧
      ∃ t, Ends (visit · n) m (.ok ()) { m with scope := t } ∧ inner.Takes n t ∧
        t.get "y" = inner.get "y" := by
  intro n outer inner m
  have hn : n.Simple := .expression (.binary _ (.reference "x" _) (.reference "y" _))
  have hm : m.Sound := (((Machine.sound_start .usual 0 0 []).declare "x" (.int 1)).push.declare "y"
    (.int 3)).declare "x" (.int 10)
  have hwritten : n.written? = some "x" := rfl
  have hresult : inner.resultOf n = .ok (.int 7) := rfl
  obtain ⟨⟨outcome, m', hends⟩, hall⟩ := simple_atomic hn hm (by decide)
  specialize hall outcome m' hends
  cases outcome with
  | error fault => cases hresult.symm.trans (hall.2 "x" hwritten)
  | ok _ =>
    obtain ⟨t, rfl, htakes, hkeep⟩ := hall
    exact ⟨hn, hm, by decide, hwritten, hresult, t, hends, htakes, hkeep "y" (by decide)⟩

end Exec

end Scrawl
