import Scrawl.Proofs.Machine.Console
import Scrawl.Proofs.Machine.Fuel
import Scrawl.Proofs.Node.Alike
import Scrawl.Proofs.Scope.Alike

/-!
# Proofs/Machine/Follows — computations that end alike

A `Likeness` says which names and functions of two machines belong together.  On alike machines one
computation **follows** another (`Exec.Follows`): where that one ends, so does it, with a like
outcome and a like machine.  One side may have more to do than the other, so the amounts of fuel may
differ: it ends *with some amount of fuel*.  There is a rule for every step of a run.
-/

namespace Scrawl

/-! ## Outcomes -/

/-- A fault whose message holds no name. -/
def Fault.IsNameless : Fault → Prop
  | .undefined .. | .arity .. => False
  | _ => True

/-- A fault of arithmetic is about no name. -/
theorem Fault.IsArithmetic.isNameless : ∀ {f : Fault}, f.IsArithmetic → f.IsNameless
  | .operands .., _ | .divisionByZero, _ | .moduloByZero, _ => trivial
  | .number .tooLargeForFloat, _ | .number .tooLongToWrite, _ => trivial

/-- **Faults that differ at most in a name**, which is related. -/
inductive Fault.Alike (ν : String → String → Prop) : Fault → Fault → Prop
  | undefined (sort : NameSort) {x y : String} (hx : ν x y) :
      Alike ν (.undefined sort x) (.undefined sort y)
  | arity {x y : String} (hx : ν x y) (expected actual : Nat) :
      Alike ν (.arity x expected actual) (.arity y expected actual)
  | same {f : Fault} (h : f.IsNameless) : Alike ν f f

/-- **Outcomes with the same result or with alike faults.** -/
inductive OutcomeAlike (ν : String → String → Prop) {α : Type} :
    Except Fault α → Except Fault α → Prop
  | ok (a : α) : OutcomeAlike ν (.ok a) (.ok a)
  | error {f f' : Fault} (h : f.Alike ν f') : OutcomeAlike ν (.error f) (.error f')

/-- An outcome that fails without a name is alike to itself, whatever the names are. -/
theorem OutcomeAlike.of_failsOnly {ν : String → String → Prop} {α : Type} {x : Except Fault α}
    (h : FailsOnly Fault.IsNameless x) : OutcomeAlike ν x x := by
  obtain f | a := x
  · exact .error (.same (h f rfl))
  · exact .ok a

/-! ## Machines -/

/-- **A way for two machines to be alike**: which of their names and functions are related, and what
their traces begin with.  No two names are related to one, built-in functions keep their names, and
related functions do the same. -/
structure Likeness where
  names : String → String → Prop
  definitions : Definition → Definition → Prop
  shown : Array TraceEntry
  shown' : Array TraceEntry
  biUnique : Relator.BiUnique names
  builtin : ∀ b : Builtin, names b.name b.name
  alike : ∀ d d', definitions d d' → Definition.Alike names definitions d d'

namespace Likeness

/-- The same likeness from the other side. -/
def flip (L : Likeness) : Likeness where
  names x y := L.names y x
  definitions d d' := L.definitions d' d
  shown := L.shown'
  shown' := L.shown
  biUnique := ⟨fun _ _ _ h h' => L.biUnique.2 h h', fun _ _ _ h h' => L.biUnique.1 h h'⟩
  builtin := L.builtin
  alike d d' h := (L.alike d' d h).flip

/-- **Alike machines.**  No message about a node is let through, and messages about names only if
the names are the same. -/
structure Alike (L : Likeness) (m m' : Machine) : Prop where
  scope : Scope.Alike L.names L.definitions m.scope m'.scope
  callDepth : m'.callDepth = m.callDepth
  limits : m'.limits = m.limits
  verbosity : m'.verbosity = m.verbosity
  tracing : m'.tracing = m.tracing
  trace : ∃ rest, m.trace = L.shown ++ rest ∧ m'.trace = L.shown' ++ rest
  console : m'.console = m.console
  verbosity_lt : m.verbosity < 3
  named : 2 ≤ m.verbosity → ∀ x y, L.names x y → x = y

/-- **Related names are one builtin, or both none.** -/
theorem ofName?_eq (L : Likeness) {x y : String} (hx : L.names x y) :
    Builtin.ofName? y = Builtin.ofName? x := by
  have hname (b : Builtin) : (b.name = y) = (b.name = x) :=
    propext (Relator.rel_eq L.biUnique (L.builtin b) hx).symm
  unfold Builtin.ofName?
  simp only [hname]

namespace Alike

variable {L : Likeness} {m m' : Machine} (h : L.Alike m m')

include h

/-- A change of the scopes. -/
theorem withScope {s s' : Scope} (hs : Scope.Alike L.names L.definitions s s') :
    L.Alike { m with scope := s } { m' with scope := s' } :=
  { h with scope := hs }

/-- A change of the number of open calls. -/
theorem withCallDepth (depth : Nat) :
    L.Alike { m with callDepth := depth } { m' with callDepth := depth } :=
  { h with callDepth := rfl }

theorem withConsole (c : Console) : L.Alike (m.withConsole c) (m'.withConsole c) :=
  { h with console := rfl }

theorem print (text : String) : L.Alike (m.print text) (m'.print text) := by
  have hprint (m : Machine) : m.print text =
      m.withConsole { m.console with output := m.console.output ++ text ++ "\n" } := rfl
  rw [hprint, hprint, h.console]
  exact h.withConsole _

/-- **A message that is the same on both sides where it is let through.** -/
theorem say {level : Int} {text text' : String} (ht : level ≤ m.verbosity → text' = text) :
    L.Alike (m.say level text) (m'.say level text') := by
  by_cases hlt : m.verbosity < level
  · have hlt' : m'.verbosity < level := h.verbosity ▸ hlt
    rw [Machine.say, Machine.say, if_pos hlt, if_pos hlt']
    exact h
  · have hlt' : ¬m'.verbosity < level := h.verbosity ▸ hlt
    obtain rfl := ht (by omega)
    rw [Machine.say, Machine.say, if_neg hlt, if_neg hlt']
    by_cases htracing : m.tracing = true
    · rw [if_pos htracing, if_pos (h.tracing.trans htracing)]
      obtain ⟨rest, hrest, hrest'⟩ := h.trace
      refine { h with trace := ⟨rest.push ⟨level, text'⟩, ?_, ?_⟩ }
      · rw [hrest, Array.append_push]
      · rw [hrest', Array.append_push]
    · rw [if_neg htracing, if_neg (by rwa [h.tracing])]
      exact h.print text'

end Alike

theorem sharesConsole (L : Likeness) : Machine.SharesConsole L.Alike where
  console_eq := Alike.console
  withConsole := Alike.withConsole

end Likeness

/-! ## Computations that follow others -/

namespace Exec

variable {α β : Type}

/-- **A computation follows another**, given that so many calls are open: on alike machines, where
that one ends, it ends alike with some amount of fuel, and leaves alike machines with as many calls
open. -/
structure Follows (L : Likeness) (depth : Nat) (x : Exec α) (y : Nat → Exec α) : Prop where
  steady : Steady y
  ends : ∀ {m m' m₁ : Machine} {outcome : Except Fault α}, L.Alike m m' → m.callDepth = depth →
    x.run m = (outcome.mapError .fault, m₁) → ∃ outcome' m₁', Ends y m' outcome' m₁' ∧
      OutcomeAlike L.names outcome outcome' ∧ L.Alike m₁ m₁' ∧ m₁.callDepth = depth

namespace Follows

variable {L : Likeness} {depth : Nat}

/-- **One step on either side.** -/
theorem step {x y : Exec α} (h : ∀ {m m' : Machine}, L.Alike m m' → m.callDepth = depth →
    ∃ outcome outcome' m₁ m₁', x.run m = (outcome.mapError .fault, m₁) ∧
      y.run m' = (outcome'.mapError .fault, m₁') ∧ OutcomeAlike L.names outcome outcome' ∧
        L.Alike m₁ m₁' ∧ m₁.callDepth = depth) : Follows L depth x fun _ => y where
  steady := .const y
  ends hm hd hrun := by
    obtain ⟨outcome, outcome', m₁, m₁', hx, hy, halike⟩ := h hm hd
    rw [hx] at hrun
    obtain ⟨houtcome, rfl⟩ := Prod.mk.inj hrun
    obtain rfl := mapError_fault_inj houtcome
    exact ⟨outcome', m₁', ⟨0, hy⟩, halike⟩

theorem pure (a : α) : Follows L depth (Pure.pure a) fun _ => Pure.pure a :=
  step fun hm hd => ⟨.ok a, .ok a, _, _, rfl, rfl, .ok a, hm, hd⟩

theorem fail {f f' : Fault} (hf : f.Alike L.names f') :
    Follows L depth (Exec.fail f : Exec α) fun _ => Exec.fail f' :=
  step fun hm hd => ⟨.error f, .error f', _, _, rfl, rfl, .error hf, hm, hd⟩

theorem ofFault {x y : Except Fault α} (h : OutcomeAlike L.names x y) :
    Follows L depth (Exec.ofFault x) fun _ => Exec.ofFault y := by
  cases h with
  | ok a => exact pure a
  | error hf => exact fail hf

/-- Without fuel there is nothing to follow. -/
theorem exhausted {y : Nat → Exec α} (hy : Steady y) :
    Follows L depth (throw .exhausted : Exec α) y where
  steady := hy
  ends := by
    intro m m' m₁ outcome _ _ hrun
    obtain f | a := outcome <;> cases hrun

/-- **In sequence.** -/
theorem bind {x : Exec α} {y : Nat → Exec α} {f : α → Exec β} {g : Nat → α → Exec β}
    (hx : Follows L depth x y) (hf : ∀ a, Follows L depth (f a) (g · a)) :
    Follows L depth (x >>= f) fun fuel => y fuel >>= g fuel where
  steady _ _ hle := .bind (hx.steady hle) fun a => (hf a).steady hle
  ends hm hd hrun := by
    rename_i m m' m₂ outcome
    have hends : Ends (fun _ => x >>= f) m outcome m₂ := ⟨0, hrun⟩
    rw [Ends.bind_iff (.const x) fun a => .const (f a)] at hends
    obtain ⟨fault, rfl, _, hfirst⟩ | ⟨a, m₁, ⟨_, hfirst⟩, _, hsecond⟩ := hends
    · obtain ⟨outcome', m₁', hy, halike, hm₁⟩ := hx.ends hm hd hfirst
      cases halike with
      | error hfault =>
        have hsteady (a : α) := (hf a).steady
        exact ⟨_, m₁', (Ends.bind_iff hx.steady hsteady).mpr (.inl ⟨_, rfl, hy⟩),
          .error hfault, hm₁⟩
    · obtain ⟨outcome', m₁', hy, halike, hm₁, hd₁⟩ := hx.ends hm hd hfirst
      cases halike with
      | ok a =>
        obtain ⟨outcome'', m₂', hg, hrest⟩ := (hf a).ends hm₁ hd₁ hsecond
        have hsteady (a : α) := (hf a).steady
        exact ⟨outcome'', m₂',
          (Ends.bind_iff hx.steady hsteady).mpr (.inr ⟨a, m₁', hy, hg⟩), hrest⟩

/-- Nothing behind a fault is reached. -/
theorem fail_bind {f f' : Fault} (hf : f.Alike L.names f') {k : α → Exec β}
    {l : Nat → α → Exec β} :
    Follows L depth (Exec.fail f >>= k) fun fuel => Exec.fail f' >>= l fuel where
  steady _ _ _ _ _ := rfl
  ends := (fail (α := β) hf).ends

theorem discard {x : Exec α} {y : Nat → Exec α} (h : Follows L depth x y) :
    Follows L depth (discard x) fun fuel => discard (y fuel) := h.bind fun _ => pure ()

theorem ite {c : Prop} [Decidable c] {x x' : Exec α} {y y' : Nat → Exec α}
    (h : c → Follows L depth x y) (h' : ¬c → Follows L depth x' y') :
    Follows L depth (if c then x else x') fun fuel => if c then y fuel else y' fuel := by
  by_cases hc : c
  · simp only [if_pos hc]
    exact h hc
  · simp only [if_neg hc]
    exact h' hc

/-- What follows itself does so over a list. -/
theorem mapM {f : α → Exec β} (h : ∀ a, Follows L depth (f a) fun _ => f a) :
    ∀ as : List α, Follows L depth (as.mapM f) fun _ => as.mapM f
  | [] => by
      rw [List.mapM_nil]
      exact pure []
  | a :: as => by
      rw [List.mapM_cons]
      exact (h a).bind fun _ => (mapM h as).bind fun _ => pure _

/-- What is done may depend on the machine. -/
theorem get_bind {f : Machine → Exec α} {g : Nat → Machine → Exec α} (hg : ∀ m, Steady (g · m))
    (h : ∀ m m', L.Alike m m' → m.callDepth = depth → Follows L depth (f m) (g · m')) :
    Follows L depth (get >>= f) fun fuel => get >>= g fuel where
  steady _ _ hle := .bind (.refl _) fun m => hg m hle
  ends hm hd hrun := (h _ _ hm hd).ends hm hd hrun

/-- One more unit of fuel. -/
theorem of_succ {x : Exec α} {y : Nat → Exec α} (hy : Steady y)
    (h : Follows L depth x fun fuel => y (fuel + 1)) : Follows L depth x y where
  steady := hy
  ends hm hd hrun := by
    obtain ⟨outcome', m₁', ⟨fuel, hfuel⟩, hrest⟩ := h.ends hm hd hrun
    exact ⟨outcome', m₁', ⟨fuel + 1, hfuel⟩, hrest⟩

/-! ## The steps of a run -/

theorem modify {f g : Machine → Machine}
    (h : ∀ {m m'}, L.Alike m m' → L.Alike (f m) (g m') ∧ (f m).callDepth = m.callDepth) :
    Follows L depth (modify f : Exec Unit) fun _ => modify g :=
  step fun hm hd =>
    ⟨.ok (), .ok (), _, _, rfl, rfl, .ok (), (h hm).1, (h hm).2.trans hd⟩

/-- Announcements are not shown, so they may differ. -/
theorem announce (text : String) (n n' : Node) :
    Follows L depth (Exec.announce text n) fun _ => Exec.announce text n' := by
  refine step fun {m m'} hm hd => ⟨.ok (), .ok (), m, m', ?_, ?_, .ok (), hm, hd⟩
  · exact run_sayLazily_of_lt hm.verbosity_lt
  · exact run_sayLazily_of_lt (hm.verbosity ▸ hm.verbosity_lt)

/-- The scope of a call is not shown either. -/
theorem sayLazily_three (text : Machine → Except Fault String) :
    Follows L depth (Exec.sayLazily 3 text) fun _ => Exec.sayLazily 3 text := by
  refine step fun {m m'} hm hd => ⟨.ok (), .ok (), m, m', ?_, ?_, .ok (), hm, hd⟩
  · exact run_sayLazily_of_lt hm.verbosity_lt
  · exact run_sayLazily_of_lt (hm.verbosity ▸ hm.verbosity_lt)

/-- A message about names is the same if the names are. -/
theorem say {text text' : String} (ht : (∀ x y, L.names x y → x = y) → text' = text) :
    Follows L depth (Exec.say 2 text) fun _ => Exec.say 2 text' :=
  modify fun hm => ⟨hm.say fun hle => ht (hm.named hle), Machine.callDepth_say 2 text _⟩

theorem write (v : Value) : Follows L depth (Exec.write v) fun _ => Exec.write v :=
  ofFault (.of_failsOnly (v.failsOnly_write.mono fun _ h => h ▸ trivial))

section Names

variable {x y : String} (hx : L.names x y)

include hx

/-- A line that shows a name is shown only where related names are the same. -/
theorem declared (v : Value) :
    Follows L depth (Exec.sayLazily 2 fun _ => valueMessage ("declare " ++ x ++ ": ") v) fun _ =>
      Exec.sayLazily 2 fun _ => valueMessage ("declare " ++ y ++ ": ") v := by
  refine step fun {m m'} hm hd => ?_
  by_cases hle : 2 ≤ m.verbosity
  · obtain rfl : x = y := hm.named hle x y hx
    have hle' : 2 ≤ m'.verbosity := hm.verbosity ▸ hle
    have hfails : FailsOnly Fault.IsNameless (valueMessage ("declare " ++ x ++ ": ") v) :=
      (v.failsOnly_write.mono fun _ h => h ▸ trivial).map _
    rcases ht : valueMessage ("declare " ++ x ++ ": ") v with f | text
    · exact ⟨.error f, .error f, m, m', run_sayLazily_of_error rfl hle,
        run_sayLazily_of_error rfl hle', .error (.same (hfails f ht)), hm, hd⟩
    · exact ⟨.ok (), .ok (), _, _, run_sayLazily_of_ok rfl, run_sayLazily_of_ok rfl, .ok (),
        hm.say fun _ => rfl, (Machine.callDepth_say 2 text m).trans hd⟩
  · have hlt : m.verbosity < 2 := by omega
    exact ⟨.ok (), .ok (), m, m', run_sayLazily_of_lt hlt,
      run_sayLazily_of_lt (hm.verbosity ▸ hlt), .ok (), hm, hd⟩

/-- …and so is the line about what a function returns. -/
theorem returned (v : Value) :
    Follows L depth
      (do
        Exec.say 2 (← Exec.ofFault (valueMessage ("return " ++ x ++ ": ") v))
        return v)
      fun _ => do
        Exec.say 2 (← Exec.ofFault (valueMessage ("return " ++ y ++ ": ") v))
        return v := by
  unfold valueMessage
  rcases ht : Fault.ofNumber v.write with f | text
  · exact fail (.same (v.failsOnly_write f ht ▸ trivial))
  · refine (say fun hnames => ?_).bind fun _ => pure v
    rw [hnames x y hx]

theorem lookup : Follows L depth (Exec.lookup x) fun _ => Exec.lookup y := by
  refine get_bind (fun _ => .const _) fun m m' hm _ => ofFault ?_
  obtain ⟨v, hv, hv'⟩ | ⟨hv, hv'⟩ := hm.scope.get L.biUnique hx
  · rw [hv, hv']
    exact .ok v
  · rw [hv, hv']
    exact .error (.undefined _ hx)

/-- An assignment to related names lands in one slot, or fails for each in its own name. -/
theorem assign (v : Value) : Follows L depth (Exec.assign x v) fun _ => Exec.assign y v := by
  refine step fun {m m'} hm hd => ?_
  rw [run_assign, run_assign]
  obtain ⟨s, s', hs, hs', hscope⟩ | ⟨hs, hs'⟩ := hm.scope.set L.biUnique hx v
  · rw [hs, hs']
    exact ⟨.ok (), .ok (), _, _, rfl, rfl, .ok (), hm.withScope hscope, hd⟩
  · rw [hs, hs']
    exact ⟨.error _, .error _, m, m', rfl, rfl, .error (.undefined _ hx), hm, hd⟩

theorem declare (v : Value) : Follows L depth (Exec.declare x v) fun _ => Exec.declare y v :=
  modify fun hm => ⟨hm.withScope (hm.scope.declare L.biUnique hx v), rfl⟩

end Names

/-- **A frame of its own**, on either side. -/
theorem inFrame {x : Exec α} {y : Nat → Exec α} (h : Follows L depth x y) :
    Follows L depth (Exec.inFrame x) fun fuel => Exec.inFrame (y fuel) where
  steady _ _ hle := .inFrame (h.steady hle)
  ends hm hd hrun := by
    rename_i m m' m₁ outcome
    obtain ⟨hresult, rfl⟩ := Prod.mk.inj hrun
    obtain ⟨outcome', m₁', ⟨fuel, hfuel⟩, halike, hm₁, hd₁⟩ :=
      h.ends (hm.withScope hm.scope.push) hd (Prod.ext hresult rfl)
    refine ⟨outcome', { m₁' with scope := m₁'.scope.drop }, ⟨fuel, ?_⟩, halike,
      hm₁.withScope hm₁.scope.drop, hd₁⟩
    exact congrArg (fun r => (r.1, ({ r.2 with scope := r.2.scope.drop } : Machine))) hfuel

/-- **A call**, in which one more is open. -/
theorem inCall {x : Exec α} {y : Nat → Exec α} (h : Follows L (depth + 1) x y) :
    Follows L depth (Exec.inCall x) fun fuel => Exec.inCall (y fuel) where
  steady _ _ hle := .inCall (h.steady hle)
  ends hm hd hrun := by
    rename_i m m' m₁ outcome
    obtain ⟨hresult, rfl⟩ := Prod.mk.inj hrun
    have hdeeper : L.Alike { m with callDepth := m.callDepth + 1 }
        { m' with callDepth := m'.callDepth + 1 } := by
      rw [hm.callDepth]
      exact hm.withCallDepth _
    obtain ⟨outcome', m₁', ⟨fuel, hfuel⟩, halike, hm₁, hd₁⟩ :=
      h.inFrame.ends hdeeper (congrArg (· + 1) hd) (Prod.ext hresult rfl)
    refine ⟨outcome', { m₁' with callDepth := m₁'.callDepth - 1 }, ⟨fuel, ?_⟩, halike, ?_, ?_⟩
    · exact congrArg (fun r => (r.1, ({ r.2 with callDepth := r.2.callDepth - 1 } : Machine))) hfuel
    · rw [hm₁.callDepth]
      exact hm₁.withCallDepth _
    · exact congrArg (· - 1) hd₁

/-- A builtin follows itself: it knows nothing but the console. -/
theorem builtin (fuel : Nat) (b : Builtin) (arguments : List Value) :
    Follows L depth (b.call fuel arguments) (b.call · arguments) where
  steady _ _ hle := .builtin hle b arguments
  ends hm hd hrun := by
    rename_i m m' m₁ outcome
    have hconsole := OnConsole.builtin fuel b arguments
    obtain ⟨hresult, hmachine⟩ := hconsole.run_related L.sharesConsole hm
    obtain ⟨f, hf, hfault⟩ := hconsole
    rw [hrun] at hresult hmachine
    refine ⟨outcome, ((b.call fuel arguments).run m').2, ⟨fuel, Prod.ext hresult rfl⟩, ?_,
      hmachine, ?_⟩
    · obtain fault | v := outcome
      · have hrefused : b.IsFault fault := by
          refine hfault m.console fault ?_
          rw [hf] at hrun
          exact congrArg Prod.fst hrun
        cases fault with
        | arity name expected actual =>
          obtain rfl : name = b.name := hrefused
          exact .error (.arity (L.builtin b) expected actual)
        | undefined sort name => exact absurd hrefused id
        | _ => exact .error (.same trivial)
      · exact .ok v
    · rw [hf] at hrun
      obtain ⟨-, rfl⟩ := Prod.mk.inj hrun
      exact hd

/-- Parameters with related names are bound to the same values. -/
theorem bindParameters {parameters parameters' : List Node}
    (h : List.Forall₂ (fun p p' => ∃ x y, L.names x y ∧ p = .reference x ∧ p' = .reference y)
      parameters parameters') : ∀ arguments : List Value,
    Follows L depth (Exec.bindParameters parameters arguments) fun _ =>
      Exec.bindParameters parameters' arguments := by
  induction h with
  | nil => exact fun _ => pure ()
  | cons hp _ ih =>
    obtain ⟨x, y, hx, rfl, rfl⟩ := hp
    intro arguments
    cases arguments with
    | nil => exact pure ()
    | cons v arguments => exact (declare hx v).bind fun _ => ih arguments

theorem apply (kind : Kind) (v : Value) (w : Option Value) :
    Follows L depth (Exec.ofFault (Value.apply kind v w)) fun _ =>
      Exec.ofFault (Value.apply kind v w) :=
  ofFault (.of_failsOnly ((Value.failsOnly_apply kind v w).mono fun _ h => h.isNameless))

end Follows

/-! ## Returns without effect -/

/-- **Inside of a function, a `return` that is visited does nothing.** -/
theorem run_visit_return {n : Node} {m : Machine} (hn : n.isReturn) (hv : m.verbosity < 3)
    (hd : 0 < m.callDepth) (fuel : Nat) : (visit (fuel + 1) n).run m = (.ok (), m) := by
  unfold Node.isReturn at hn
  split at hn
  case h_2 => cases hn
  case h_1 operator operand =>
    rw [visit]
    change (announce "Visiting: " (.unary operator operand) >>= _).run m = _
    rw [run_bind, announce, run_sayLazily_of_lt hv]
    dsimp only
    rw [if_pos (of_decide_eq_true hn)]
    change (if m.callDepth = 0 then fail .strayReturn else pure () : Exec Unit).run m = _
    rw [if_neg (by omega)]
    rfl

section Returns

variable {L : Likeness} {depth : Nat} {n : Node} (hn : n.isReturn) (hd : 0 < depth)

include hn hd

/-- Inside of a function a `return` that is visited does nothing, so it may be left out… -/
theorem Follows.dropped (fuel : Nat) : Follows L depth (visit fuel n) fun _ => Pure.pure () where
  steady := .const _
  ends hm hdepth hrun := by
    obtain _ | fuel := fuel
    · rw [visit] at hrun
      exact (Follows.exhausted (.const _)).ends hm hdepth hrun
    · rw [run_visit_return hn hm.verbosity_lt (hdepth ▸ hd)] at hrun
      exact (Follows.pure ()).ends hm hdepth hrun

/-- …or put in. -/
theorem Follows.added : Follows L depth (Pure.pure ()) (visit · n) where
  steady := steady_visit n
  ends hm hdepth hrun := by
    obtain ⟨outcome', m₁', ⟨fuel, hfuel⟩, hrest⟩ := (Follows.pure ()).ends hm hdepth hrun
    refine ⟨outcome', m₁', ⟨1, ?_⟩, hrest⟩
    rw [← hfuel]
    exact run_visit_return hn (hm.verbosity ▸ hm.verbosity_lt) (hm.callDepth ▸ hdepth ▸ hd) 0

end Returns

end Exec

end Scrawl
