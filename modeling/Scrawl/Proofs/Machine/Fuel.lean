import Scrawl.Proofs.Machine.Uniform
import Scrawl.Proofs.Machine.Within

/-!
# Proofs/Machine/Fuel — how a run ends

A run that does not run out of fuel does the same with more of it, so doing the same wherever the
fuel lasts is a uniform relation (`uniform_extends`).  `Exec.Ends x m outcome m'` says that `x`
ends on the machine `m` with some amount of fuel; which amount does not matter, and a run ends in
one way only (`Ends.unique`).
-/

namespace Scrawl

/-- What is drawn within some tries is drawn within more. -/
theorem Generator.below?_of_le {bound : Nat} {r : Nat × Generator} :
    ∀ {tries tries' : Nat} {g : Generator}, tries ≤ tries' → g.below? tries bound = some r →
      g.below? tries' bound = some r
  | 0, _, _, _, h => by
      rw [below?] at h
      cases h
  | tries + 1, tries' + 1, g, hle, h => by
      rw [below?] at h ⊢
      dsimp only at h ⊢
      split
      · rename_i hbelow
        rwa [if_pos hbelow] at h
      · rename_i hbelow
        rw [if_neg hbelow] at h
        exact below?_of_le (Nat.le_of_succ_le_succ hle) h

namespace Exec

variable {α β : Type}

/-- **One computation does what another does** wherever that one does not run out of fuel. -/
def Extends (y x : Exec α) : Prop :=
  ∀ m, (x.run m).1 ≠ .error .exhausted → y.run m = x.run m

namespace Extends

theorem refl (x : Exec α) : Extends x x := fun _ _ => rfl

/-- **Computations in turn extend in turn**: a part that runs out of fuel is where the whole does.
-/
theorem bind {x y : Exec α} {f g : α → Exec β} (h : Extends y x)
    (hf : ∀ a, Extends (g a) (f a)) : Extends (y >>= g) (x >>= f) := by
  intro m hm
  rw [run_bind] at hm ⊢
  rw [run_bind]
  have hx : (x.run m).1 ≠ .error .exhausted := by
    intro he
    rw [show x.run m = (.error .exhausted, (x.run m).2) from Prod.ext he rfl] at hm
    exact hm rfl
  rw [h m hx]
  generalize x.run m = r at hm ⊢
  obtain ⟨e | a, m'⟩ := r
  · rfl
  · exact hf a m' hm

theorem inFrame {x y : Exec α} (h : Extends y x) : Extends (inFrame y) (inFrame x) := by
  intro m hm
  exact congrArg (fun r => (r.1, ({ r.2 with scope := r.2.scope.drop } : Machine)))
    (h { m with scope := m.scope.push } hm)

theorem inCall {x y : Exec α} (h : Extends y x) : Extends (inCall y) (inCall x) := by
  intro m hm
  exact congrArg (fun r => (r.1, ({ r.2 with callDepth := r.2.callDepth - 1 } : Machine)))
    (h.inFrame { m with callDepth := m.callDepth + 1 } hm)

/-- More tries draw what fewer tries drew. -/
theorem drawBelow {tries tries' : Nat} (hle : tries ≤ tries') (v : Value) :
    Extends (Builtin.drawBelow tries' v) (Builtin.drawBelow tries v) := by
  cases v with
  | int n =>
    rw [Builtin.drawBelow, Builtin.drawBelow]
    split
    · exact .refl _
    · refine .bind (.refl _) fun m => ?_
      cases hdrawn : m.random.below? tries n.toNat with
      | none => exact fun _ h => absurd rfl h
      | some drawn =>
        rw [Generator.below?_of_le hle hdrawn]
        exact .refl _
  | _ => exact .refl _

/-- A builtin uses its fuel for drawing alone. -/
theorem builtin {fuel fuel' : Nat} (hle : fuel ≤ fuel') (b : Builtin) (arguments : List Value) :
    Extends (b.call fuel' arguments) (b.call fuel arguments) := by
  unfold Builtin.call
  split
  · exact .refl _
  · exact .refl _
  · exact .drawBelow hle _
  · exact .refl _

end Extends

/-- **Doing the same wherever the fuel lasts goes through every step of a run.** -/
theorem uniform_extends : Uniform fun _ x y => Extends y x where
  pure _ := .refl _
  fail _ := .refl _
  exhausted _ := fun _ h => absurd rfl h
  bind := .bind
  nesting h := .bind (.refl _) fun m => h m.callDepth m.limits
  function name _ _ h := .bind (.refl _) fun m => h (m.scope.getFunction? name)
  say _ := .refl _
  sayLazily _ := .refl _
  lookup _ := .refl _
  assign _ _ := .refl _
  declare _ _ := .refl _
  declareFunction _ _ := .refl _
  inFrame := .inFrame
  inCall := .inCall
  builtin b arguments hle := .builtin hle b arguments

/-! ## The end of a run -/

/-- More fuel changes nothing that a computation does. -/
def Steady (x : Nat → Exec α) : Prop := ∀ ⦃fuel fuel'⦄, fuel ≤ fuel' → Extends (x fuel') (x fuel)

/-- **A computation ends**, with some amount of fuel. -/
def Ends (x : Nat → Exec α) (m : Machine) (outcome : Except Fault α) (m' : Machine) : Prop :=
  ∃ fuel, (x fuel).run m = (outcome.mapError .fault, m')

/-- A computation without fuel of its own. -/
theorem Steady.const (x : Exec α) : Steady fun _ => x := fun _ _ _ => .refl x

/-- **More fuel does not change how a visit ended.** -/
theorem steady_visit (n : Node) : Steady (visit · n) :=
  fun _ _ hle => (Uniform.related uniform_extends hle).visit n

theorem steady_visitAll (ns : List Node) : Steady (visitAll · ns) :=
  fun _ _ hle => (Uniform.related uniform_extends hle).visitAll ns

theorem steady_loop (condition update body : Node) : Steady (loop · condition update body) :=
  fun _ _ hle => (Uniform.related uniform_extends hle).loop condition update body

theorem steady_test (n : Node) : Steady (test · n) :=
  fun _ _ hle => (Uniform.related uniform_extends hle).test n

theorem steady_define (name : String) (initializer : Node) : Steady (define · name initializer) :=
  fun _ _ hle => (Uniform.related uniform_extends hle).define name initializer

theorem steady_evaluate (n : Node) : Steady (evaluate · n) :=
  fun _ _ hle => (Uniform.related uniform_extends hle).evaluate n

theorem steady_evaluateAll (ns : List Node) : Steady (evaluateAll · ns) :=
  fun _ _ hle => (Uniform.related uniform_extends hle).evaluateAll ns

theorem steady_evaluateBlock (ns : List Node) : Steady (evaluateBlock · ns) :=
  fun _ _ hle => (Uniform.related uniform_extends hle).evaluateBlock ns

theorem steady_call (name : String) (arguments : List Value) : Steady (call · name arguments) :=
  fun _ _ hle => (Uniform.related uniform_extends hle).call name arguments

theorem steady_enter (name : String) (arguments : List Value) (d : Definition) (depth : Nat)
    (limits : Limits) : Steady (enter · name arguments d depth limits) :=
  fun _ _ hle => Uniform.enter uniform_extends hle name arguments d depth limits

theorem steady_callFound (name : String) (arguments : List Value) (found : Option Definition) :
    Steady (callFound · name arguments found) :=
  fun _ _ hle => Uniform.callFound uniform_extends hle name arguments found

/-- …nor how a program's run did. -/
theorem steady_runProgram (program : Node) : Steady (runProgram · program) := by
  intro fuel fuel' hle m hm
  rw [run_runProgram, run_runProgram, steady_visit program hle m hm]

/-- Outcomes can be told from the stops that they become. -/
theorem mapError_fault_inj {o o' : Except Fault α}
    (h : o.mapError Stop.fault = o'.mapError .fault) : o = o' := by
  obtain f | a := o <;> obtain f' | a' := o' <;> cases h <;> rfl

namespace Ends

variable {x : Nat → Exec α} {m m' m'' : Machine} {outcome outcome' : Except Fault α}

/-- An amount of fuel that lasts shows how a computation ends. -/
theorem of_run {fuel : Nat} (h : ((x fuel).run m).1 = outcome.mapError .fault) :
    Ends x m outcome ((x fuel).run m).2 := ⟨fuel, Prod.ext h rfl⟩

/-- A run that ends does so with every larger amount of fuel. -/
theorem run_eq_of_le (hx : Steady x) {fuel fuel' : Nat}
    (h : (x fuel).run m = (outcome.mapError .fault, m')) (hle : fuel ≤ fuel') :
    (x fuel').run m = (outcome.mapError .fault, m') := by
  rw [hx hle m, h]
  rw [h]
  cases outcome <;> rintro ⟨⟩

/-- **A run ends in one way only.** -/
theorem unique (hx : Steady x) (h : Ends x m outcome m') (h' : Ends x m outcome' m'') :
    outcome = outcome' ∧ m' = m'' := by
  obtain ⟨fuel, hrun⟩ := h
  obtain ⟨fuel', hrun'⟩ := h'
  have hmax := run_eq_of_le hx hrun (Nat.le_max_left fuel fuel')
  rw [run_eq_of_le hx hrun' (Nat.le_max_right fuel fuel')] at hmax
  obtain ⟨houtcome, rfl⟩ := Prod.mk.inj hmax
  exact ⟨(mapError_fault_inj houtcome).symm, rfl⟩

/-- Without fuel nothing ends. -/
theorem succ_iff (hzero : x 0 = throw .exhausted) :
    Ends x m outcome m' ↔ Ends (fun fuel => x (fuel + 1)) m outcome m' := by
  constructor
  · rintro ⟨_ | fuel, hrun⟩
    · rw [hzero] at hrun
      cases outcome <;> cases hrun
    · exact ⟨fuel, hrun⟩
  · rintro ⟨fuel, hrun⟩
    exact ⟨fuel + 1, hrun⟩

/-- One step and then another computation ends as that does. -/
theorem of_succ {y : Nat → Exec α} (hrun : ∀ fuel, (x (fuel + 1)).run m = (y fuel).run m)
    (h : Ends y m outcome m') : Ends x m outcome m' := by
  obtain ⟨fuel, h⟩ := h
  exact ⟨fuel + 1, (hrun fuel).trans h⟩

/-- **A sequence ends where its first part fails, or where the second part ends after it.** -/
theorem bind_iff {f : Nat → α → Exec β} {outcome : Except Fault β} (hx : Steady x)
    (hf : ∀ a, Steady (f · a)) : Ends (fun fuel => x fuel >>= f fuel) m outcome m' ↔
      (∃ fault, outcome = .error fault ∧ Ends x m (.error fault) m') ∨
        ∃ a m₁, Ends x m (.ok a) m₁ ∧ Ends (f · a) m₁ outcome m' := by
  constructor
  · rintro ⟨fuel, hrun⟩
    rw [run_bind] at hrun
    cases hfirst : (x fuel).run m with
    | mk first m₁ =>
      rw [hfirst] at hrun
      cases first with
      | ok a => exact .inr ⟨a, m₁, ⟨fuel, hfirst⟩, fuel, hrun⟩
      | error stop =>
        obtain ⟨houtcome, rfl⟩ := Prod.mk.inj hrun
        cases outcome with
        | ok b => cases houtcome
        | error fault =>
          obtain rfl : stop = .fault fault := Except.error.inj houtcome
          exact .inl ⟨fault, rfl, fuel, hfirst⟩
  · rintro (⟨fault, rfl, fuel, hrun⟩ | ⟨a, m₁, ⟨fuel, hrun⟩, fuel', hrun'⟩)
    · refine ⟨fuel, ?_⟩
      rw [run_bind, hrun]
      rfl
    · refine ⟨max fuel fuel', ?_⟩
      rw [run_bind, run_eq_of_le hx hrun (Nat.le_max_left fuel fuel')]
      exact run_eq_of_le (hf a) hrun' (Nat.le_max_right fuel fuel')

end Ends

/-- A program ends where its tree does, and then leaves the machine. -/
theorem ends_runProgram_iff {program : Node} {m m' : Machine} {outcome : Except Fault Unit} :
    Ends (runProgram · program) m outcome m' ↔
      ∃ m₁, Ends (visit · program) m outcome m₁ ∧ leave m₁ (outcome.mapError .fault) = m' := by
  constructor
  · rintro ⟨fuel, hrun⟩
    rw [run_runProgram] at hrun
    obtain ⟨hresult, rfl⟩ := Prod.mk.inj hrun
    exact ⟨_, ⟨fuel, Prod.ext hresult rfl⟩, by rw [hresult]⟩
  · rintro ⟨m₁, ⟨fuel, hrun⟩, rfl⟩
    refine ⟨fuel, ?_⟩
    rw [run_runProgram, hrun]

end Exec

end Scrawl
