import Mathlib.Order.Defs.Unbundled
import Scrawl.Proofs.Machine.Console
import Scrawl.Proofs.Scope.Frames

/-!
# Proofs/Machine/Within — computations that change a machine only so far

`Exec.Within R x` says that the machines before and after `x` are related by `R`, **however `x`
ends**.  For a preorder it goes through sequences (`Within.bind`), so the relation of a computation
is put together from those of its parts.  The two preorders here carry the two relations of
`Proofs/Scope/Frames` over to machines and keep the number of open calls.
-/

namespace Scrawl

namespace Machine

/-- **The frames and the open calls are as they were.** -/
structure Same (m m' : Machine) : Prop where
  scope : m.scope.Same m'.scope
  callDepth : m'.callDepth = m.callDepth

/-- **At most the innermost frame has grown**; the open calls are as they were. -/
structure Grows (m m' : Machine) : Prop where
  scope : m.scope.Grows m'.scope
  callDepth : m'.callDepth = m.callDepth

instance : IsPreorder Machine Same where
  refl _ := ⟨.refl _, rfl⟩
  trans _ _ _ h h' := ⟨h.scope.trans h'.scope, h'.callDepth.trans h.callDepth⟩

instance : IsPreorder Machine Grows where
  refl _ := ⟨.refl _, rfl⟩
  trans _ _ _ h h' := ⟨h.scope.trans h'.scope, h'.callDepth.trans h.callDepth⟩

theorem Same.grows {m m' : Machine} (h : m.Same m') : m.Grows m' := ⟨h.scope.grows, h.callDepth⟩

/-- **A relation that takes no notice** of the trace, the console and the random numbers. -/
def Blind (R : Machine → Machine → Prop) : Prop :=
  ∀ (m : Machine) (trace : Array TraceEntry) (input : List String) (output : String)
    (random : Generator),
    R m { m with trace := trace, input := input, output := output, random := random }

theorem blind_same : Blind Same := fun _ _ _ _ _ => ⟨.refl _, rfl⟩

/-- A relation that takes no notice of the trace holds across a message. -/
theorem Blind.say {R : Machine → Machine → Prop} (hR : Blind R) (level : Int) (text : String)
    (m : Machine) : R m (m.say level text) := by
  unfold Machine.say
  split
  · exact hR m m.trace m.input m.output m.random
  · split
    · exact hR m _ m.input m.output m.random
    · exact hR m m.trace m.input _ m.random

/-- Messages leave the scopes as they are… -/
@[simp] theorem scope_say (level : Int) (text : String) (m : Machine) :
    (m.say level text).scope = m.scope :=
  Blind.say (R := fun m m' => m'.scope = m.scope) (fun _ _ _ _ _ => rfl) level text m

/-- …and the open calls… -/
@[simp] theorem callDepth_say (level : Int) (text : String) (m : Machine) :
    (m.say level text).callDepth = m.callDepth :=
  Blind.say (R := fun m m' => m'.callDepth = m.callDepth) (fun _ _ _ _ _ => rfl) level text m

/-- …and the limits… -/
@[simp] theorem limits_say (level : Int) (text : String) (m : Machine) :
    (m.say level text).limits = m.limits :=
  Blind.say (R := fun m m' => m'.limits = m.limits) (fun _ _ _ _ _ => rfl) level text m

/-- …and the verbosity. -/
@[simp] theorem verbosity_say (level : Int) (text : String) (m : Machine) :
    (m.say level text).verbosity = m.verbosity :=
  Blind.say (R := fun m m' => m'.verbosity = m.verbosity) (fun _ _ _ _ _ => rfl) level text m

end Machine

namespace Exec

variable {α β : Type}

/-- **However a computation ends, the machines before and after are related.** -/
def Within (R : Machine → Machine → Prop) (x : Exec α) : Prop := ∀ m, R m (x.run m).2

/-- A sequence goes on where its first part ended, or stops there. -/
theorem run_bind (x : Exec α) (f : α → Exec β) (m : Machine) :
    (x >>= f).run m = match x.run m with
      | (.ok a, m') => (f a).run m'
      | (.error e, m') => (.error e, m') := by
  change ExceptT.bindCont f (x.run m).1 (x.run m).2 = _
  rcases x.run m with ⟨_ | _, _⟩ <;> rfl

/-- A message whose text can be made is one like any other. -/
theorem run_sayLazily_of_ok {level : Int} {text : Machine → Except Fault String} {m : Machine}
    {t : String} (h : text m = .ok t) : (sayLazily level text).run m = (.ok (), m.say level t) := by
  change (if level ≤ m.verbosity then ofFault (text m) >>= say level else pure () : Exec Unit).run m
    = _
  rw [h]
  split
  · rfl
  · rw [Machine.say, if_pos (by omega)]
    rfl

/-- A message that is let through fails if its text does. -/
theorem run_sayLazily_of_error {level : Int} {text : Machine → Except Fault String} {m : Machine}
    {f : Fault} (h : text m = .error f) (hle : level ≤ m.verbosity) :
    (sayLazily level text).run m = (.error (.fault f), m) := by
  change (if level ≤ m.verbosity then ofFault (text m) >>= say level else pure () : Exec Unit).run m
    = _
  rw [h, if_pos hle]
  rfl

/-- A text that is not let through is not made. -/
theorem run_sayLazily_of_lt {level : Int} {text : Machine → Except Fault String} {m : Machine}
    (h : m.verbosity < level) : (sayLazily level text).run m = (.ok (), m) := by
  change (if level ≤ m.verbosity then ofFault (text m) >>= say level else pure () : Exec Unit).run m
    = _
  rw [if_neg (by omega)]
  rfl

/-! ## Putting computations together -/

theorem Within.modify {R : Machine → Machine → Prop} {f : Machine → Machine}
    (h : ∀ m, R m (f m)) : Within R (modify f : Exec Unit) := h

section Preorder

variable {R : Machine → Machine → Prop} [IsPreorder Machine R]

theorem Within.pure (a : α) : Within R (Pure.pure a : Exec α) := fun m => refl m

theorem Within.throw (e : Stop) : Within R (throw e : Exec α) := fun m => refl m

theorem Within.fail (f : Fault) : Within R (fail f : Exec α) := fun m => refl m

/-- Nothing behind a fault is reached. -/
theorem Within.fail_bind (f : Fault) (g : α → Exec β) : Within R (Exec.fail f >>= g) :=
  fun m => refl m

theorem Within.get : Within R (MonadState.get : Exec Machine) := fun m => refl m

/-- A result computed outside the machine leaves the machine as it was. -/
theorem Within.ofFault : ∀ x : Except Fault α, Within R (Exec.ofFault x)
  | .ok _ => fun m => refl m
  | .error _ => fun m => refl m

/-- **In sequence, a preorder is kept**, also when the first part stops. -/
theorem Within.bind {x : Exec α} {f : α → Exec β} (hx : Within R x) (hf : ∀ a, Within R (f a)) :
    Within R (x >>= f) := by
  intro m
  have h := hx m
  rw [run_bind]
  generalize x.run m = r at h ⊢
  obtain ⟨e | a, m'⟩ := r
  · exact h
  · exact Trans.trans h (hf a m')

theorem Within.lookup (name : String) : Within R (lookup name) := .bind .get fun _ => .ofFault _

theorem Within.write (v : Value) : Within R (write v) := .ofFault _

/-- What keeps within a relation does so over a list. -/
theorem Within.mapM {f : α → Exec β} (h : ∀ a, Within R (f a)) :
    ∀ xs : List α, Within R (xs.mapM f)
  | [] => by
      rw [List.mapM_nil]
      exact .pure []
  | a :: xs => by
      rw [List.mapM_cons]
      exact (h a).bind fun _ => (mapM h xs).bind fun _ => .pure _

end Preorder

theorem Within.grows {x : Exec α} (h : Within Machine.Same x) : Within Machine.Grows x :=
  fun m => (h m).grows

/-! ## The steps of a run -/

section Blind

variable {R : Machine → Machine → Prop} (hR : Machine.Blind R)

include hR

theorem Within.say_of_blind (level : Int) (text : String) : Within R (say level text) :=
  .modify (hR.say level text)

/-- **Built-in functions** only use the console and the random numbers. -/
theorem Within.builtin_of_blind (fuel : Nat) (b : Builtin) (arguments : List Value) :
    Within R (b.call fuel arguments) := by
  intro m
  obtain ⟨f, hf, -⟩ := OnConsole.builtin fuel b arguments
  rw [hf]
  exact hR m m.trace _ _ _

variable [IsPreorder Machine R]

/-- A message keeps within a relation that takes no notice of the trace, made or not. -/
theorem Within.sayLazily_of_blind (level : Int) (text : Machine → Except Fault String) :
    Within R (sayLazily level text) := by
  refine .bind .get fun m => ?_
  split
  · exact .bind (.ofFault _) fun _ => .say_of_blind hR level _
  · exact .pure ()

end Blind

theorem Within.say (level : Int) (text : String) : Within Machine.Same (say level text) :=
  .say_of_blind Machine.blind_same level text

theorem Within.sayLazily (level : Int) (text : Machine → Except Fault String) :
    Within Machine.Same (sayLazily level text) :=
  .sayLazily_of_blind Machine.blind_same level text

/-- A builtin changes no frame. -/
theorem Within.builtin (fuel : Nat) (b : Builtin) (arguments : List Value) :
    Within Machine.Same (b.call fuel arguments) :=
  .builtin_of_blind Machine.blind_same fuel b arguments

/-- An assignment stops where the name is unknown. -/
theorem run_assign (name : String) (v : Value) (m : Machine) :
    (assign name v).run m = match m.scope.set name v with
      | .ok scope => (.ok (), { m with scope := scope })
      | .error f => (.error (.fault f), m) := by
  change ((ofFault (m.scope.set name v) : Exec Scope) >>= _).run m = _
  rw [run_bind]
  cases m.scope.set name v <;> rfl

/-- An assignment changes a slot and no frame. -/
theorem Within.assign (name : String) (v : Value) : Within Machine.Same (assign name v) := by
  intro m
  rw [run_assign]
  cases h : m.scope.set name v with
  | error f => exact refl m
  | ok scope => exact ⟨Scope.same_set h, rfl⟩

/-- A declaration makes the innermost frame grow. -/
theorem Within.declare (name : String) (v : Value) : Within Machine.Grows (declare name v) :=
  .modify fun m => ⟨m.scope.grows_declare name v, rfl⟩

/-- **A frame of its own brings the frames back**, however its computation ends. -/
theorem Within.inFrame {x : Exec α} (h : Within Machine.Grows x) :
    Within Machine.Same (inFrame x) := fun m =>
  have hx := h { m with scope := m.scope.push }
  ⟨hx.scope.same_drop, hx.callDepth⟩

/-- **A call brings the frames and the number of open calls back.** -/
theorem Within.inCall {x : Exec α} (h : Within Machine.Grows x) :
    Within Machine.Same (inCall x) := by
  intro m
  have hx := (Within.inFrame h) { m with callDepth := m.callDepth + 1 }
  refine ⟨hx.scope, ?_⟩
  exact congrArg (· - 1) hx.callDepth

end Exec

end Scrawl
