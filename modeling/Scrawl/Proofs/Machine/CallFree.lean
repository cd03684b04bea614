import Scrawl.Proofs.Machine.Fuel
import Scrawl.Proofs.Machine.Messages
import Scrawl.Proofs.Machine.Silent
import Scrawl.Proofs.Node.Names
import Scrawl.Proofs.Scope.Layers

/-!
# Proofs/Machine/CallFree — expressions without calls

The value of an expression without calls is **reckoned** from what its variables stand for, by
recursion on the tree and without a machine (`Node.reckon`).  A machine that evaluates the
expression arrives at that value and does nothing else but announce nodes
(`Exec.yields_evaluate`): the operators that store only do so in statements.  So the expression
leaves no trace, and its value depends on the variables in it and on nothing else
(`Exec.callFree_pure`).
-/

namespace Scrawl

/-! ## Reckoning -/

/-- **What expressions are reckoned with**: what stands for a value, and what operators do. -/
structure Reckoning (α : Type) where
  ofValue : Value → α
  apply : Kind → α → Option α → Except Fault α

/-- Values stand for themselves. -/
def Reckoning.values : Reckoning Value := ⟨id, Value.apply⟩

namespace Node

/-- **An expression without calls.**  Its operators are of any kind, those that store included. -/
inductive CallFree : Node → Prop
  | literal (v : Value) : CallFree (.literal v)
  | reference (name : String) (initializer : Node) : CallFree (.variable name initializer false)
  | unary (operator : Token) {operand : Node} (h : CallFree operand) :
      CallFree (.unary operator operand)
  | binary (operator : Token) {left right : Node} (hl : CallFree left) (hr : CallFree right) :
      CallFree (.binary operator left right)

variable {α : Type}

/-- **What an expression without calls comes to**, given what its variables stand for. -/
def reckon (R : Reckoning α) (env : String → Except Fault α) : Node → Except Fault α
  | .variable name _ false => env name
  | .terminal (.value v) => .ok (R.ofValue v)
  | .unary operator operand => do
    let a ← operand.reckon R env
    R.apply operator.kind a none
  | .binary operator left right => do
    let a ← left.reckon R env
    let b ← right.reckon R env
    R.apply operator.kind a (some b)
  | n => .error (.unexpected .evaluating n.shape)

namespace CallFree

variable {e : Node} (he : e.CallFree)

include he

/-- **Only the variables that occur matter.** -/
theorem reckon_congr {R : Reckoning α} {env env' : String → Except Fault α}
    (h : e.Names fun x => env x = env' x) : e.reckon R env = e.reckon R env' := by
  induction he with
  | literal v => rfl
  | reference name initializer => exact (names_variable.mp h).1
  | unary operator _ ih => rw [reckon, reckon, ih h]
  | binary operator _ _ ihl ihr =>
    obtain ⟨hl, hr⟩ := names_binary.mp h
    rw [reckon, reckon, ihl hl, ihr hr]

/-- Only a literal can have no label, when it is too long. -/
theorem failsOnly_label : FailsOnly (· = .number .tooLongToWrite) e.label := by
  cases he with
  | literal v => exact failsOnly_label_literal v
  | _ => exact .ok _

end CallFree

end Node

/-- **The value of an expression without calls in a scope.** -/
def Scope.valueOf (s : Scope) (e : Node) : Except Fault Value :=
  e.reckon .values fun name => s.get name

/-! ## Machines that only announce -/

namespace Machine

/-- **Nothing but announcements lies between two machines**, and where none is let through, nothing
does. -/
structure Announced (m m' : Machine) : Prop where
  scope : m'.scope = m.scope
  verbosity : m'.verbosity = m.verbosity
  silent : m.verbosity < 3 → m' = m

namespace Announced

theorem refl (m : Machine) : m.Announced m := ⟨rfl, rfl, fun _ => rfl⟩

theorem trans {m₁ m₂ m₃ : Machine} (h : m₁.Announced m₂) (h' : m₂.Announced m₃) :
    m₁.Announced m₃ where
  scope := h'.scope.trans h.scope
  verbosity := h'.verbosity.trans h.verbosity
  silent hlow := (h'.silent (h.verbosity ▸ hlow)).trans (h.silent hlow)

theorem say (m : Machine) (text : String) : m.Announced (m.say 3 text) where
  scope := m.scope_say 3 text
  verbosity := verbosity_say 3 text m
  silent hlow := by rw [Machine.say, if_pos hlow]

end Announced

end Machine

namespace Exec

variable {α β : Type} {m m' : Machine}

/-- **A computation yields an outcome**: it ends with that and has announced nodes at most, unless
the announcement of one has no text. -/
def Yields (x : Nat → Exec α) (m : Machine) (outcome : Except Fault α) : Prop :=
  ∃ m', m.Announced m' ∧
    (Ends x m outcome m' ∨ 3 ≤ m.verbosity ∧ Ends x m (.error (.number .tooLongToWrite)) m')

namespace Yields

theorem of_ends {x : Nat → Exec α} {outcome : Except Fault α} (h : Ends x m outcome m) :
    Yields x m outcome := ⟨m, .refl m, .inl h⟩

/-- Where nothing is announced, the machine stays as it is. -/
theorem ends {x : Nat → Exec α} {outcome : Except Fault α} (h : Yields x m outcome)
    (hm : m.verbosity < 3) : Ends x m outcome m := by
  obtain ⟨m', hm', hends | ⟨hhigh, -⟩⟩ := h
  · exact hm'.silent hm ▸ hends
  · omega

theorem ofFault (x : Except Fault α) (m : Machine) : Yields (fun _ => Exec.ofFault x) m x :=
  .of_ends ⟨0, by cases x <;> rfl⟩

theorem lookup (name : String) (m : Machine) :
    Yields (fun _ => Exec.lookup name) m (m.scope.get name) := .of_ends ⟨0, run_lookup name m⟩

/-- **In sequence, outcomes are put together as they are without the machine.** -/
theorem bind {x : Nat → Exec α} {f : Nat → α → Exec β} {outcome : Except Fault α}
    {g : α → Except Fault β} (hx : Steady x) (hf : ∀ a, Steady (f · a)) (h : Yields x m outcome)
    (hg : ∀ a m', m.Announced m' → Yields (f · a) m' (g a)) :
    Yields (fun fuel => x fuel >>= f fuel) m (outcome >>= g) := by
  obtain ⟨m₁, hm₁, hends | ⟨hhigh, hends⟩⟩ := h
  · cases outcome with
    | error fault =>
      exact ⟨m₁, hm₁, .inl ((Ends.bind_iff hx hf).mpr (.inl ⟨fault, rfl, hends⟩))⟩
    | ok a =>
      obtain ⟨m₂, hm₂, hrest⟩ := hg a m₁ hm₁
      refine ⟨m₂, hm₁.trans hm₂, ?_⟩
      rw [hm₁.verbosity] at hrest
      exact hrest.imp (fun hends' => (Ends.bind_iff hx hf).mpr (.inr ⟨a, m₁, hends, hends'⟩))
        (And.imp_right fun hends' => (Ends.bind_iff hx hf).mpr (.inr ⟨a, m₁, hends, hends'⟩))
  · exact ⟨m₁, hm₁, .inr ⟨hhigh, (Ends.bind_iff hx hf).mpr (.inl ⟨_, rfl, hends⟩)⟩⟩

theorem announce (text : String) {n : Node}
    (hn : FailsOnly (· = .number .tooLongToWrite) n.label) (m : Machine) :
    Yields (fun _ => Exec.announce text n) m (.ok ()) := by
  cases hlabel : n.label with
  | ok label =>
    have htext : n.label.map (text ++ ·) = .ok (text ++ label) := by rw [hlabel]; rfl
    exact ⟨_, .say m _, .inl ⟨0, run_sayLazily_of_ok htext⟩⟩
  | error fault =>
    obtain rfl : fault = .number .tooLongToWrite := hn fault hlabel
    have htext : n.label.map (text ++ ·) = .error (.number .tooLongToWrite) := by rw [hlabel]; rfl
    rcases Int.lt_or_le m.verbosity 3 with hlow | hhigh
    · exact .of_ends ⟨0, run_sayLazily_of_lt hlow⟩
    · exact ⟨m, .refl m, .inr ⟨hhigh, 0, run_sayLazily_of_error htext hhigh⟩⟩

/-- What is evaluated is announced first. -/
theorem evaluate {e : Node} {x : Nat → Exec Value} {outcome : Except Fault Value}
    (heq : ∀ fuel, Exec.evaluate (fuel + 1) e = Exec.announce "Evaluating: " e >>= fun _ => x fuel)
    (hlabel : FailsOnly (· = .number .tooLongToWrite) e.label) (hx : Steady x)
    (h : ∀ m', m.Announced m' → Yields x m' outcome) : Yields (Exec.evaluate · e) m outcome := by
  have hsequence := Yields.bind (.const _) (fun _ => hx) (.announce "Evaluating: " hlabel m)
    fun _ => h
  obtain ⟨m', hm', hends⟩ := hsequence
  have hsucc {o : Except Fault Value} : Ends (Exec.evaluate · e) m o m' ↔ _ :=
    Ends.succ_iff (by rw [Exec.evaluate])
  simp only [heq] at hsucc
  exact ⟨m', hm', hends.imp hsucc.mpr (And.imp_right hsucc.mpr)⟩

end Yields

/-- **An expression without calls yields its value**, on every machine. -/
theorem yields_evaluate {e : Node} (he : e.CallFree) (m : Machine) :
    Yields (evaluate · e) m (m.scope.valueOf e) := by
  have hlabel := he.failsOnly_label
  induction he generalizing m with
  | literal v =>
    refine .evaluate (fun fuel => by rw [Node.literal, evaluate]) hlabel (.const _) fun m' _ => ?_
    exact .ofFault (.ok v) m'
  | reference name initializer =>
    refine .evaluate (fun fuel => by rw [evaluate]) hlabel (.const _) fun m' hm' => ?_
    have hyields := Yields.lookup name m'
    rwa [hm'.scope] at hyields
  | @unary operator operand h ih =>
    have happly (v : Value) : Steady fun _ => ofFault (Value.apply operator.kind v none) :=
      .const _
    refine .evaluate (fun fuel => by rw [evaluate]) hlabel
      (fun _ _ hle => (steady_evaluate operand hle).bind fun v => happly v hle) fun m' hm' => ?_
    have hoperand := ih m' h.failsOnly_label
    rw [hm'.scope] at hoperand
    exact hoperand.bind (steady_evaluate operand) happly fun v m'' _ => .ofFault _ m''
  | @binary operator left right hl hr ihl ihr =>
    have happly (v w : Value) : Steady fun _ => ofFault (Value.apply operator.kind v (some w)) :=
      .const _
    have hright (v : Value) : Steady fun fuel =>
        evaluate fuel right >>= fun w => ofFault (Value.apply operator.kind v (some w)) :=
      fun _ _ hle => (steady_evaluate right hle).bind fun w => happly v w hle
    refine .evaluate (fun fuel => by rw [evaluate]) hlabel
      (fun _ _ hle => (steady_evaluate left hle).bind fun v => hright v hle) fun m' hm' => ?_
    have hfirst := ihl m' hl.failsOnly_label
    rw [hm'.scope] at hfirst
    refine hfirst.bind (steady_evaluate left) hright fun v m'' hm'' => ?_
    have hsecond := ihr m'' hr.failsOnly_label
    rw [hm''.scope, hm'.scope] at hsecond
    exact hsecond.bind (steady_evaluate right) (happly v) fun w m₃ _ => .ofFault _ m₃

/-- …and where nothing is announced, it does so in one way only and leaves the machine alone. -/
theorem ends_evaluate_iff {e : Node} (he : e.CallFree) (hm : m.verbosity < 3)
    {outcome : Except Fault Value} :
    Ends (evaluate · e) m outcome m' ↔ outcome = m.scope.valueOf e ∧ m' = m := by
  have hends := (yields_evaluate he m).ends hm
  constructor
  · intro h
    exact h.unique (steady_evaluate e) hends
  · rintro ⟨rfl, rfl⟩
    exact hends

/-- **Expressions without calls are pure, and depend only on what they name.**  Take two machines,
neither of which announces nodes, on which every variable of the expression has the same value or
none at all; their frames, handles and shadowed variables may be as different as they like.  The
expression ends on both, with the same value or the same fault, and leaves each of them exactly as
it was: slots, frames, open calls and console. -/
theorem callFree_pure {e : Node} (he : e.CallFree) {m₁ m₂ : Machine} (hm₁ : m₁.verbosity < 3)
    (hm₂ : m₂.verbosity < 3)
    (hnames : ∀ x ∈ e.variableNames, m₁.scope.get x = m₂.scope.get x) :
    ∃ outcome, ∀ o m',
      (Ends (evaluate · e) m₁ o m' ↔ o = outcome ∧ m' = m₁) ∧
        (Ends (evaluate · e) m₂ o m' ↔ o = outcome ∧ m' = m₂) := by
  have hvalue : m₁.scope.valueOf e = m₂.scope.valueOf e := he.reckon_congr hnames
  refine ⟨m₁.scope.valueOf e, fun o m' => ⟨ends_evaluate_iff he hm₁, ?_⟩⟩
  rw [hvalue]
  exact ends_evaluate_iff he hm₂

/-- The expression looks as if it wrote twice, `x + (y = ++z)`; on the second machine its variables
are in three frames, above another `z`. -/
theorem callFree_pure_shadowed :
    let e := Node.binary ⟨.add, "+", .none⟩ (.reference "x")
      (.binary ⟨.assign, "=", .none⟩ (.reference "y")
        (.unary ⟨.increment, "++", .none⟩ (.reference "z")))
    let flat : List Request := [.declare "x" (.int 1), .declare "y" .void, .declare "z" (.int 3)]
    let nested : List Request := [.declare "z" (.string "a"), .declare "y" .void, .push,
      .declare "z" (.int 3), .push, .declare "x" (.int 1)]
    let m₁ : Machine := { Machine.start .usual 0 0 [] with scope := Scope.after flat }
    let m₂ : Machine := { Machine.start .usual 1 7 ["b"] with
      scope := Scope.after nested, callDepth := 1 }
    e.CallFree ∧ m₁.verbosity < 3 ∧ m₂.verbosity < 3 ∧
      (∀ x ∈ e.variableNames, m₁.scope.get x = m₂.scope.get x) ∧
      Ends (evaluate · e) m₁ (.ok (.int 5)) m₁ ∧ Ends (evaluate · e) m₂ (.ok (.int 5)) m₂ := by
  intro e flat nested m₁ m₂
  have he : e.CallFree :=
    .binary _ (.reference "x" _) (.binary _ (.reference "y" _) (.unary _ (.reference "z" _)))
  have hnames : ∀ x ∈ e.variableNames, m₁.scope.get x = m₂.scope.get x := by
    change ∀ x ∈ ["x", "y", "z"], _
    simp only [List.forall_mem_cons]
    exact ⟨rfl, rfl, rfl, List.forall_mem_nil _⟩
  obtain ⟨outcome, hpure⟩ := callFree_pure he (by decide) (by decide) hnames
  have hends : Ends (evaluate · e) m₁ (.ok (.int 5)) m₁ := ⟨5, rfl⟩
  obtain ⟨rfl, -⟩ := (hpure _ _).1.mp hends
  exact ⟨he, by decide, by decide, hnames, hends, (hpure _ _).2.mpr ⟨rfl, rfl⟩⟩

end Exec

end Scrawl
