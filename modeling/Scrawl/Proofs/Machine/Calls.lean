import Scrawl.Proofs.Machine.Faults
import Scrawl.Proofs.Machine.Session
import Scrawl.Proofs.Machine.Silent
import Scrawl.Proofs.Scope.Writes

/-!
# Proofs/Machine/Calls — a call is its body in a frame of its own

    push · bind the parameters · evaluate the body · pop

A call makes the texts of its arguments and of its result, for messages that may not even be shown.
An integer with too many digits has no text, and that is the one failure that a call adds to those
of its body (`Exec.call_ends_as_body`).
-/

namespace Scrawl

open Decimal

/-! ## Values without a text -/

namespace Value

/-- **A value that cannot be written**: an integer with more digits than the limit. -/
def isOverlong : Value → Bool
  | .int n => tenPow digitLimit ≤ n.natAbs
  | _ => false

/-- A value, provided that it can be written. -/
def unlessOverlong (v : Value) : Except Fault Value :=
  if v.isOverlong then .error (.number .tooLongToWrite) else .ok v

/-- A value that is not overlong is passed on. -/
theorem unlessOverlong_of_not {v : Value} (h : v.isOverlong = false) :
    (.ok v >>= unlessOverlong) = .ok v := by
  change v.unlessOverlong = _
  rw [unlessOverlong, h, if_neg Bool.false_ne_true]

/-- **An overlong value has no text**… -/
theorem write_of_overlong {v : Value} (h : v.isOverlong = true) :
    Fault.ofNumber v.write = .error (.number .tooLongToWrite) := by
  cases v with
  | int n =>
    rw [isOverlong, decide_eq_true_iff] at h
    rw [write, writeInteger, if_neg (Nat.not_lt.mpr h), Fault.ofNumber]
  | _ => cases h

/-- …and every other has one. -/
theorem exists_write {v : Value} (h : v.isOverlong = false) :
    ∃ text, Fault.ofNumber v.write = .ok text := by
  cases v with
  | int n =>
    rw [isOverlong, decide_eq_false_iff_not] at h
    rw [write, writeInteger, if_pos (Nat.not_le.mp h)]
    exact ⟨_, rfl⟩
  | _ => exact ⟨_, rfl⟩

end Value

/-! ## The machine in a call -/

/-- The names of the parameters. -/
def Definition.parameterNames (d : Definition) : List String := d.parameters.filterMap Node.name?

/-- **A machine that has entered a function**: with a new frame, in which the parameters got the
arguments from left to right, and with one more call open. -/
def Machine.entered (m : Machine) (d : Definition) (arguments : List Value) : Machine :=
  { m with
    scope := m.scope.push.declareAll (d.parameterNames.zip arguments)
    callDepth := m.callDepth + 1 }

namespace Exec

variable {m m' : Machine}

/-- **How the body of a function ends in a call**, from the push of its frame to the pop. -/
def BodyEnds (m : Machine) (d : Definition) (arguments : List Value)
    (outcome : Except Fault Value) (m' : Machine) : Prop :=
  ∃ m₁ s, Ends (evaluate · d.body) (m.entered d arguments) outcome m₁ ∧
    m₁.scope.pop = .ok s ∧ m' = { m₁ with scope := s, callDepth := m.callDepth }

/-! ## The steps of a call -/

/-- The texts of values are there unless one of the values cannot be written. -/
theorem exists_run_mapM_write (arguments : List Value) (m : Machine) :
    ∃ texts, (arguments.mapM write).run m =
      (if arguments.any Value.isOverlong then .error (.fault (.number .tooLongToWrite))
        else .ok texts, m) := by
  induction arguments with
  | nil => exact ⟨[], rfl⟩
  | cons v rest ih =>
    rw [List.mapM_cons, run_bind, write, List.any_cons]
    cases hv : v.isOverlong with
    | true =>
      rw [Value.write_of_overlong hv]
      exact ⟨[], rfl⟩
    | false =>
      obtain ⟨text, htext⟩ := Value.exists_write hv
      obtain ⟨texts, hrest⟩ := ih
      rw [htext, Bool.false_or]
      refine ⟨text :: texts, ?_⟩
      change (List.mapM write rest >>= _).run m = _
      rw [run_bind, hrest]
      cases rest.any Value.isOverlong <;> rfl

theorem run_say_of_lt {level : Int} (h : m.verbosity < level) (text : String) :
    (say level text).run m = (.ok (), m) := by
  have hsay : m.say level text = m := if_pos h
  exact congrArg (Except.ok (), ·) hsay

/-- Parameters that are names are declared one after the other. -/
theorem run_bindParameters {parameters : List Node}
    (h : ∀ p ∈ parameters, ∃ name, p = .reference name) (arguments : List Value) (m : Machine) :
    (bindParameters parameters arguments).run m = (.ok (), { m with
      scope := m.scope.declareAll ((parameters.filterMap Node.name?).zip arguments) }) := by
  induction parameters generalizing arguments m with
  | nil => rfl
  | cons p parameters ih =>
    obtain ⟨⟨name, rfl⟩, hrest⟩ := List.forall_mem_cons.mp h
    cases arguments with
    | nil => rfl
    | cons v arguments => exact ih hrest arguments _

section Found

variable {name : String} {d : Definition} {arguments : List Value}

/-- What a call does with the result of its body. -/
def report (name : String) (v : Value) : Exec Value := do
  say 2 (← ofFault (valueMessage ("return " ++ name ++ ": ") v))
  return v

/-- The report of an overlong value fails also where it is not shown. -/
theorem run_report (hlow : m.verbosity < 2) (name : String) (v : Value) :
    (report name v).run m = (v.unlessOverlong.mapError .fault, m) := by
  rw [report, valueMessage, Value.unlessOverlong]
  cases hv : v.isOverlong with
  | true =>
    rw [Value.write_of_overlong hv]
    rfl
  | false =>
    obtain ⟨text, htext⟩ := Value.exists_write hv
    rw [htext]
    change (say 2 _ >>= fun _ => pure v).run m = _
    rw [run_bind, run_say_of_lt hlow]
    rfl

/-- A call in its frame. -/
def inBody (fuel : Nat) (d : Definition) (arguments : List Value) : Exec Value := inCall do
  bindParameters d.parameters arguments
  sayLazily 3 fun m => m.scope.dump.map ("Scope:\n" ++ ·)
  evaluate fuel d.body

/-- More fuel does not change how a body ended. -/
theorem steady_inBody (d : Definition) (arguments : List Value) :
    Steady (inBody · d arguments) := fun _ _ hle =>
  .inCall ((Extends.refl _).bind fun _ => (Extends.refl _).bind fun _ => steady_evaluate d.body hle)

section Formed

variable (hd : d.Formed) (hm : m.verbosity < 3)

include hd hm

/-- A body runs one call deeper, in a frame with its parameters. -/
theorem run_inBody (fuel : Nat) :
    (inBody fuel d arguments).run m =
      let r := (evaluate fuel d.body).run (m.entered d arguments)
      (r.1, { r.2 with scope := r.2.scope.drop, callDepth := r.2.callDepth - 1 }) := by
  let pushed : Machine := { m with scope := m.scope.push, callDepth := m.callDepth + 1 }
  have hentered : (m.entered d arguments).verbosity < 3 := hm
  have hbody : (do
      bindParameters d.parameters arguments
      sayLazily 3 fun m => m.scope.dump.map ("Scope:\n" ++ ·)
      evaluate fuel d.body).run pushed = (evaluate fuel d.body).run (m.entered d arguments) := by
    rw [run_bind, run_bindParameters hd.parameters]
    change (sayLazily 3 _ >>= _).run (m.entered d arguments) = _
    rw [run_bind, run_sayLazily_of_lt hentered]
  rw [← hbody]
  rfl

/-- **In its frame, a call goes as its body does.** -/
theorem ends_inBody_iff {outcome : Except Fault Value} :
    Ends (inBody · d arguments) m outcome m' ↔ BodyEnds m d arguments outcome m' := by
  simp only [Ends, BodyEnds, run_inBody hd hm]
  have hgrows (fuel : Nat) := (disciplined fuel).evaluate d.body (m.entered d arguments)
  have hpop (fuel : Nat) : ((evaluate fuel d.body).run (m.entered d arguments)).2.scope.pop = _ :=
    ((Scope.grows_declareAll _ _).trans (hgrows fuel).scope).pop_eq
  have hdepth (fuel : Nat) :
      ((evaluate fuel d.body).run (m.entered d arguments)).2.callDepth - 1 = m.callDepth :=
    congrArg (· - 1) (hgrows fuel).callDepth
  constructor
  · rintro ⟨fuel, hrun⟩
    obtain ⟨houtcome, rfl⟩ := Prod.mk.inj hrun
    refine ⟨_, _, ⟨fuel, Prod.ext houtcome rfl⟩, hpop fuel, ?_⟩
    rw [hdepth]
  · rintro ⟨m₁, s, ⟨fuel, hrun⟩, hs, rfl⟩
    refine ⟨fuel, ?_⟩
    have hpop := hpop fuel
    have hdepth := hdepth fuel
    rw [hrun] at hpop hdepth ⊢
    obtain rfl := Except.ok.inj (hs.symm.trans hpop)
    rw [← hdepth]

end Formed

/-- Below the limit a call is its body and the report of its value. -/
theorem enter_eq {depth : Nat} {limits : Limits} (hdepth : depth < limits.calls) (fuel : Nat) :
    enter fuel name arguments d depth limits = inBody fuel d arguments >>= report name := by
  rw [enter, if_neg (Nat.not_le.mpr hdepth)]
  rfl

/-- The result of a call is that of its body, if it can be written. -/
theorem ends_enter_iff (name : String) (hd : d.Formed) (hlow : m.verbosity < 2)
    (hdepth : m.callDepth < m.limits.calls) {outcome : Except Fault Value} :
    Ends (enter · name arguments d m.callDepth m.limits) m outcome m' ↔
      ∃ o, BodyEnds m d arguments o m' ∧ outcome = o >>= Value.unlessOverlong := by
  have hm : m.verbosity < 3 := by omega
  simp only [enter_eq hdepth]
  rw [Ends.bind_iff (steady_inBody d arguments) fun v => .const (report name v)]
  simp only [ends_inBody_iff hd hm]
  have hreport {v : Value} {m₁ : Machine} (h : BodyEnds m d arguments (.ok v) m₁) :
      Ends (fun _ => report name v) m₁ v.unlessOverlong m₁ := by
    obtain ⟨m₂, s, ⟨fuel, hrun⟩, -, rfl⟩ := h
    have hsettings := (uniform_sameSettings.related (Nat.le_refl fuel)).evaluate d.body
      (m.entered d arguments)
    rw [hrun] at hsettings
    have hquiet : ({ m₂ with scope := s, callDepth := m.callDepth } : Machine).verbosity < 2 :=
      hsettings.verbosity ▸ hlow
    exact ⟨0, run_report hquiet name v⟩
  constructor
  · rintro (⟨fault, rfl, h⟩ | ⟨v, m₁, h, hrest⟩)
    · exact ⟨.error fault, h, rfl⟩
    · obtain ⟨rfl, rfl⟩ := hrest.unique (.const _) (hreport h)
      exact ⟨.ok v, h, rfl⟩
  · rintro ⟨fault | v, h, rfl⟩
    · exact .inl ⟨fault, rfl, h⟩
    · exact .inr ⟨v, m', h, hreport h⟩

/-! ## Calls -/

section Call

variable (hbuiltin : Builtin.ofName? name = none) (hfound : m.scope.getFunction? name = some d)
  (hlength : d.parameters.length = arguments.length)

include hbuiltin hfound hlength

/-- A call writes out its arguments, traced or not, before it enters. -/
theorem run_call_eq_texts (fuel : Nat) :
    (call (fuel + 1) name arguments).run m = (do
      let texts ← arguments.mapM write
      say 2 ("call " ++ name ++ "(" ++ ", ".intercalate texts ++ ")")
      let m ← get
      enter fuel name arguments d m.callDepth m.limits).run m := by
  rw [call_eq, hbuiltin]
  change (callFound fuel name arguments (m.scope.getFunction? name)).run m = _
  rw [hfound, callFound, if_pos hlength]

/-- **An overlong argument ends a call** before its body. -/
theorem ends_call_of_overlong (hlong : arguments.any Value.isOverlong = true) :
    Ends (call · name arguments) m (.error (.number .tooLongToWrite)) m := by
  obtain ⟨texts, htexts⟩ := exists_run_mapM_write arguments m
  refine ⟨1, ?_⟩
  rw [run_call_eq_texts hbuiltin hfound hlength, run_bind, htexts, hlong]
  rfl

/-- With texts for its arguments a call enters its function. -/
theorem run_call_of_writable (hlow : m.verbosity < 2)
    (hshort : arguments.any Value.isOverlong = false) (fuel : Nat) :
    (call (fuel + 1) name arguments).run m =
      (enter fuel name arguments d m.callDepth m.limits).run m := by
  obtain ⟨texts, htexts⟩ := exists_run_mapM_write arguments m
  rw [run_call_eq_texts hbuiltin hfound hlength, run_bind, htexts, hshort]
  change (say 2 _ >>= _).run m = _
  rw [run_bind, run_say_of_lt hlow]
  rfl

end Call

end Found

/-- **A call is its body in a frame of its own, but for texts.**  On a machine that programs leave
behind and that shows no messages, let a function of the program be called with as many arguments as
it has parameters, where another call may be opened.  If an argument is an integer with too many
digits to be written, the call fails for that, and the machine is as it was.  Otherwise the call
ends just when its body does in a new frame with the parameters in it, one call deeper; then the
frame is popped, and a failure is that of the body and a value is its value, unless that value
cannot be written.

In the frame a parameter has the value of its argument, and of the last one if its name is
repeated; every other name means what it meant outside. -/
theorem call_ends_as_body {m : Machine} (hm : m.Sound) (hlow : m.verbosity < 2) {name : String}
    (hbuiltin : Builtin.ofName? name = none) {d : Definition}
    (hfound : m.scope.getFunction? name = some d) {arguments : List Value}
    (hlength : d.parameters.length = arguments.length) (hdepth : m.callDepth < m.limits.calls) :
    (∀ outcome m', Ends (call · name arguments) m outcome m' ↔
      if arguments.any Value.isOverlong then
        outcome = .error (.number .tooLongToWrite) ∧ m' = m
      else ∃ o, BodyEnds m d arguments o m' ∧ outcome = o >>= Value.unlessOverlong) ∧
    ∀ y, (m.entered d arguments).scope.get y =
      match (d.parameterNames.zip arguments).reverse.lookup y with
      | some v => .ok v
      | none => m.scope.get y := by
  constructor
  · intro outcome m'
    cases hlong : arguments.any Value.isOverlong with
    | true =>
      have hends := ends_call_of_overlong hbuiltin hfound hlength hlong
      rw [if_pos rfl]
      constructor
      · intro h
        exact h.unique (steady_call name arguments) hends
      · rintro ⟨rfl, rfl⟩
        exact hends
    | false =>
      rw [if_neg Bool.false_ne_true, ← ends_enter_iff name (hm.formed hfound) hlow hdepth,
        Ends.succ_iff (by rw [call])]
      simp only [Ends, run_call_of_writable hbuiltin hfound hlength hlow hlong]
  · obtain ⟨a, ha, -⟩ := hm
    have hpush : m.scope.push = (Layers.inner ⟨[], []⟩ a).arena := by rw [ha, Layers.push_arena]
    intro y
    rw [← Scope.get_push ha y]
    exact Scope.get_declareAll _ hpush y

/-- The body of `f(x, x)` returns `x` and does so whatever the first argument is.  The call does
not, if that argument cannot be written. -/
theorem call_ends_as_body_repeated :
    let d : Definition :=
      ⟨[.reference "x", .reference "x"], .block [.unary Kind.returnWord.token (.reference "x")]⟩
    let m : Machine :=
      { Machine.start .usual 0 0 [] with scope := Scope.empty.declareFunction "f" d }
    let long : Value := .int (tenPow digitLimit)
    m.Sound ∧ m.verbosity < 2 ∧ Builtin.ofName? "f" = none ∧
      m.scope.getFunction? "f" = some d ∧ m.callDepth < m.limits.calls ∧
      (∀ v, d.parameters.length = [v, .int 2].length ∧ BodyEnds m d [v, .int 2] (.ok (.int 2)) m) ∧
      Ends (call · "f" [.int 1, .int 2]) m (.ok (.int 2)) m ∧
      Ends (call · "f" [long, .int 2]) m (.error (.number .tooLongToWrite)) m := by
  intro d m long
  have hreturn : ∀ n ∈ [Node.unary Kind.returnWord.token (.reference "x")], n.Statement :=
    List.forall_mem_singleton.mpr (.returnValue rfl (.reference "x"))
  have hparameters : ∀ p ∈ d.parameters, ∃ name, p = .reference name :=
    List.forall_mem_cons.mpr ⟨⟨"x", rfl⟩, List.forall_mem_singleton.mpr ⟨"x", rfl⟩⟩
  have hm : m.Sound :=
    (Machine.sound_start .usual 0 0 []).declareFunction "f" ⟨hparameters, .intro hreturn⟩
  have hbuiltin : Builtin.ofName? "f" = none := by decide
  have hfound : m.scope.getFunction? "f" = some d := rfl
  have hlength (v : Value) : d.parameters.length = [v, .int 2].length := rfl
  have hbody (v : Value) : BodyEnds m d [v, .int 2] (.ok (.int 2)) m :=
    ⟨m.entered d [v, .int 2], m.scope, ⟨4, rfl⟩, rfl, rfl⟩
  have hcall (v : Value) :=
    (call_ends_as_body hm (by decide) hbuiltin hfound (hlength v) (by decide)).1
  have htwo : (Value.int 2).isOverlong = false := by decide +kernel
  have hshort : [.int 1, .int 2].any Value.isOverlong = false := by decide +kernel
  have hlong : [long, .int 2].any Value.isOverlong = true := by decide +kernel
  refine ⟨hm, by decide, hbuiltin, hfound, by decide, fun v => ⟨hlength v, hbody v⟩, ?_, ?_⟩
  · refine (hcall (.int 1) _ _).mpr ?_
    rw [hshort, if_neg Bool.false_ne_true]
    exact ⟨.ok (.int 2), hbody (.int 1), (Value.unlessOverlong_of_not htwo).symm⟩
  · refine (hcall long _ _).mpr ?_
    rw [if_pos hlong]
    exact ⟨rfl, rfl⟩

end Exec

end Scrawl
