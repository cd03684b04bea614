import Scrawl.Machine.Builtin
import Scrawl.Proofs.Value.Failures

/-!
# Proofs/Machine/Console — what the built-in functions use of a machine

A built-in function reads the input, prints and draws random numbers, and looks at nothing else of
the machine it runs on (`Exec.OnConsole.builtin`).  So on two machines with the same console it does
the same, whatever else tells them apart.
-/

namespace Scrawl

/-- **The console of a machine**, with its random numbers. -/
structure Console where
  input : List String
  output : String
  random : Generator

namespace Machine

/-- The console that a machine has. -/
def console (m : Machine) : Console := ⟨m.input, m.output, m.random⟩

/-- A machine with another console. -/
def withConsole (m : Machine) (c : Console) : Machine :=
  { m with input := c.input, output := c.output, random := c.random }

/-- A machine with another trace. -/
def withTrace (m : Machine) (trace : Array TraceEntry) : Machine := { m with trace := trace }

/-- **A relation between machines with the same console**, which lets it change on both. -/
structure SharesConsole (R : Machine → Machine → Prop) : Prop where
  console_eq : ∀ {m m' : Machine}, R m m' → m'.console = m.console
  withConsole : ∀ {m m' : Machine}, R m m' → ∀ c, R (m.withConsole c) (m'.withConsole c)

end Machine

/-- **What a built-in function can fail with**: the number of its arguments, a bound that is not
good, or an integer that is too long to be written. -/
def Builtin.IsFault (b : Builtin) : Fault → Prop
  | .arity name _ _ => name = b.name
  | .bound _ | .boundSort _ | .number .tooLongToWrite => True
  | _ => False

/-- A program can bring about any fault of a built-in function. -/
theorem Builtin.IsFault.isOrdinary {b : Builtin} : ∀ {f : Fault}, b.IsFault f → f.IsOrdinary
  | .arity .., _ | .bound _, _ | .boundSort _, _ | .number .tooLongToWrite, _ => trivial

namespace Exec

variable {α : Type}

/-- **A computation that uses nothing but the console**, and fails only with faults of a class. -/
def OnConsole (P : Fault → Prop) (x : Exec α) : Prop :=
  ∃ f : Console → Except Stop α × Console,
    (∀ m, x.run m = ((f m.console).1, m.withConsole (f m.console).2)) ∧
      ∀ c fault, (f c).1 = .error (.fault fault) → P fault

namespace OnConsole

theorem fail {P : Fault → Prop} {f : Fault} (h : P f) : OnConsole P (fail f : Exec α) := by
  refine ⟨fun c => (.error (.fault f), c), fun _ => rfl, ?_⟩
  rintro c _ ⟨⟩
  exact h

theorem readLine (P : Fault → Prop) : OnConsole P Builtin.readLine := by
  refine ⟨fun c => (.ok (.ofInput (c.input.head?.getD "")), { c with input := c.input.drop 1 }),
    fun _ => rfl, ?_⟩
  rintro c fault ⟨⟩

/-- A value is printed, or too long to be written. -/
theorem printValue {P : Fault → Prop} (hP : P (.number .tooLongToWrite)) (v : Value) :
    OnConsole P (Builtin.printValue v) := by
  unfold Builtin.printValue Exec.write
  rcases hv : Fault.ofNumber v.write with f | text
  · exact .fail (v.failsOnly_write f hv ▸ hP)
  · refine ⟨fun c => (.ok .void, { c with output := c.output ++ text ++ "\n" }), fun _ => rfl, ?_⟩
    rintro c fault ⟨⟩

/-- A number is drawn below a bound, or the bound is no good. -/
theorem drawBelow (tries : Nat) (v : Value) :
    OnConsole (Builtin.IsFault .rand) (Builtin.drawBelow tries v) := by
  obtain n | x | s | b | _ := v
  case int =>
    rw [Builtin.drawBelow, Exec.write]
    split
    · rcases hn : Fault.ofNumber (Value.int n).write with f | text
      · exact .fail ((Value.int n).failsOnly_write f hn ▸ trivial)
      · exact .fail (f := .bound n) trivial
    · refine ⟨fun c => (c.random.below? tries n.toNat).elim (.error .exhausted, c) fun drawn =>
        (.ok (.int drawn.1), { c with random := drawn.2 }), fun m => ?_, fun c fault => ?_⟩
      · have hget (f : Machine → Exec Value) : (get >>= f).run m = (f m).run m := rfl
        rw [hget, Machine.console]
        dsimp only
        cases m.random.below? tries n.toNat <;> rfl
      · dsimp only
        cases c.random.below? tries n.toNat <;> rintro ⟨⟩
  all_goals exact .fail (f := .boundSort _) trivial

/-- **Built-in functions use nothing but the console.** -/
theorem builtin (fuel : Nat) (b : Builtin) (arguments : List Value) :
    OnConsole b.IsFault (b.call fuel arguments) := by
  unfold Builtin.call
  split
  · exact .readLine _
  · exact .printValue trivial _
  · exact .drawBelow fuel _
  · exact .fail (f := .arity _ _ _) rfl

end OnConsole

/-- **What uses nothing but the console does the same on machines that share it.** -/
theorem OnConsole.run_related {P : Fault → Prop} {x : Exec α} (h : OnConsole P x)
    {R : Machine → Machine → Prop} (hR : Machine.SharesConsole R) {m m' : Machine} (hm : R m m') :
    (x.run m').1 = (x.run m).1 ∧ R (x.run m).2 (x.run m').2 := by
  obtain ⟨f, hf, -⟩ := h
  rw [hf, hf, hR.console_eq hm]
  exact ⟨rfl, hR.withConsole hm _⟩

end Exec

end Scrawl
