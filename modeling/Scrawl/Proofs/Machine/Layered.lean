import Scrawl.Proofs.Machine.Unnamed
import Scrawl.Proofs.Scope.Folding

/-!
# Proofs/Machine/Layered — runs on machines with indistinct layers

Machines that differ in their layers only, and in layers that no operation tells apart, do the same
at every level that does not show the scope; and what they leave behind is again indistinct
(`Exec.pervasive_layered`).
-/

namespace Scrawl

open Layers (Indistinct)

namespace Machine

/-- **Two machines with layers in a relation**, and otherwise the same.  Neither shows its scope. -/
structure Layered (S : Layers → Layers → Prop) (m m' : Machine) : Prop where
  layers : ∃ a b, S a b ∧ m.scope = a.arena ∧ m' = { m with scope := b.arena }
  verbosity : m.verbosity < 3

namespace Layered

section Outside

variable {S : Layers → Layers → Prop} {m m' : Machine} (h : m.Layered S m')

include h

/-- The calls that are open, and how many may be, are no part of the layers. -/
theorem nesting_eq : (m'.callDepth, m'.limits) = (m.callDepth, m.limits) := by
  obtain ⟨⟨a, b, -, -, rfl⟩, -⟩ := h
  rfl

theorem verbosity_eq : m'.verbosity = m.verbosity := by
  obtain ⟨⟨a, b, -, -, rfl⟩, -⟩ := h
  rfl

/-- What is said stands in both traces alike. -/
theorem say (level : Int) (text : String) :
    (m.say level text).Layered S (m'.say level text) := by
  obtain ⟨⟨a, b, hab, ha, rfl⟩, hverbosity⟩ := h
  unfold Machine.say
  dsimp only
  split
  · exact ⟨⟨a, b, hab, ha, rfl⟩, hverbosity⟩
  · split
    · exact ⟨⟨a, b, hab, ha, rfl⟩, hverbosity⟩
    · exact ⟨⟨a, b, hab, ha, rfl⟩, hverbosity⟩

theorem callDepth (f : Nat → Nat) :
    ({ m with callDepth := f m.callDepth } : Machine).Layered S
      { m' with callDepth := f m'.callDepth } := by
  obtain ⟨⟨a, b, hab, ha, rfl⟩, hverbosity⟩ := h
  exact ⟨⟨a, b, hab, ha, rfl⟩, hverbosity⟩

end Outside

/-- The console is no part of the layers. -/
theorem sharesConsole (S : Layers → Layers → Prop) : SharesConsole (Layered S) where
  console_eq h := by
    obtain ⟨⟨a, b, -, -, rfl⟩, -⟩ := h
    rfl
  withConsole h c := by
    obtain ⟨⟨a, b, hab, ha, rfl⟩, hverbosity⟩ := h
    exact ⟨⟨a, b, hab, ha, rfl⟩, hverbosity⟩

section Inside

variable {S : Nat → Layers → Layers → Prop} (hS : Indistinct S) {k : Nat} {m m' : Machine}

include hS

/-- A new layer on both sides counts as one that comes and goes. -/
theorem push (h : m.Layered (S k) m') :
    ({ m with scope := m.scope.push } : Machine).Layered (S (k + 1))
      { m' with scope := m'.scope.push } := by
  obtain ⟨⟨a, b, hab, ha, rfl⟩, hverbosity⟩ := h
  refine ⟨⟨_, _, hS.push hab, (congrArg Scope.push ha).trans a.push_arena, ?_⟩, hverbosity⟩
  exact congrArg (fun s => { m with scope := s }) b.push_arena

/-- A layer that came goes again on both sides. -/
theorem drop (h : m.Layered (S (k + 1)) m') :
    ({ m with scope := m.scope.drop } : Machine).Layered (S k)
      { m' with scope := m'.scope.drop } := by
  obtain ⟨⟨a, b, hab, ha, rfl⟩, hverbosity⟩ := h
  obtain ⟨l, l', a, b, rfl, rfl, hdropped⟩ := hS.drop hab
  refine ⟨⟨a, b, hdropped, (congrArg Scope.drop ha).trans (Layers.drop_arena l a), ?_⟩, hverbosity⟩
  exact congrArg (fun s => { m with scope := s }) (Layers.drop_arena l' b)

variable (h : m.Layered (S k) m')

include h

/-- A name has the same value on both sides. -/
theorem get_eq (name : String) : m'.scope.get name = m.scope.get name := by
  obtain ⟨⟨a, b, hab, ha, rfl⟩, -⟩ := h
  rw [ha, Layers.get_arena, Layers.get_arena, Layers.get, Layers.get, hS.binding hab]

/-- A function is the same on both sides. -/
theorem getFunction?_eq (name : String) :
    m'.scope.getFunction? name = m.scope.getFunction? name := by
  obtain ⟨⟨a, b, hab, ha, rfl⟩, -⟩ := h
  rw [ha, Layers.getFunction?_arena, Layers.getFunction?_arena, hS.function hab]

/-- A name is bound in the top layer of both. -/
theorem declare (name : String) (v : Value) :
    ({ m with scope := (m.scope.declare name v).2 } : Machine).Layered (S k)
      { m' with scope := (m'.scope.declare name v).2 } := by
  obtain ⟨⟨a, b, hab, ha, rfl⟩, hverbosity⟩ := h
  refine ⟨⟨_, _, hS.bind hab name v, ?_, ?_⟩, hverbosity⟩
  · change (m.scope.declare name v).2 = _
    rw [ha, Layers.declare_arena]
  · rw [Layers.declare_arena]

theorem declareFunction (name : String) (d : Definition) :
    ({ m with scope := m.scope.declareFunction name d } : Machine).Layered (S k)
      { m' with scope := m'.scope.declareFunction name d } := by
  obtain ⟨⟨a, b, hab, ha, rfl⟩, hverbosity⟩ := h
  refine ⟨⟨_, _, hS.declareFunction hab name d, ?_, ?_⟩, hverbosity⟩
  · exact (congrArg (Scope.declareFunction name d) ha).trans (Layers.declareFunction_arena name d a)
  · rw [Layers.declareFunction_arena]

/-- **A new value** is set on both, or on neither. -/
theorem set (name : String) (v : Value) :
    (∃ f, m.scope.set name v = .error f ∧ m'.scope.set name v = .error f) ∨
      ∃ s s', m.scope.set name v = .ok s ∧ m'.scope.set name v = .ok s' ∧
        ({ m with scope := s } : Machine).Layered (S k) { m' with scope := s' } := by
  obtain ⟨⟨a, b, hab, ha, rfl⟩, hverbosity⟩ := h
  have hassign := hS.assign hab name v
  rw [ha, Layers.set_arena, Layers.set_arena, Layers.set, Layers.set]
  generalize a.assign? name v = x at hassign ⊢
  generalize b.assign? name v = y at hassign ⊢
  cases hassign with
  | none => exact .inl ⟨_, rfl, rfl⟩
  | some hab' => exact .inr ⟨_, _, rfl, rfl, ⟨_, _, hab', rfl, rfl⟩, hverbosity⟩

end Inside

end Layered

end Machine

namespace Exec

open Machine (Layered)

variable {α : Type}

section Steps

variable {S : Layers → Layers → Prop}

/-- A message that is not about the scope is the same on both sides. -/
theorem layered_report (level : Int) (text : Except Fault String) :
    Agrees (Layered S) (sayLazily level fun _ => text) := by
  intro m m' h
  by_cases hlt : m.verbosity < level
  · rw [run_sayLazily_of_lt hlt, run_sayLazily_of_lt (h.verbosity_eq ▸ hlt)]
    exact ⟨rfl, h⟩
  · have hle := Int.not_lt.mp hlt
    cases text with
    | error f =>
      rw [run_sayLazily_of_error rfl hle, run_sayLazily_of_error rfl (h.verbosity_eq ▸ hle)]
      exact ⟨rfl, h⟩
    | ok t =>
      rw [run_sayLazily_of_ok rfl, run_sayLazily_of_ok rfl]
      exact ⟨rfl, h.say level t⟩

/-- The scopes may differ, but neither machine shows its own. -/
theorem layered_dump :
    Agrees (Layered S) (sayLazily 3 fun m => m.scope.dump.map ("Scope:\n" ++ ·)) := by
  intro m m' h
  rw [run_sayLazily_of_lt h.verbosity, run_sayLazily_of_lt (h.verbosity_eq ▸ h.verbosity)]
  exact ⟨rfl, h⟩

end Steps

variable {S : Nat → Layers → Layers → Prop} (hS : Indistinct S)

include hS

/-- An assignment fails on both sides with the same fault, or lands on both. -/
theorem layered_assign (k : Nat) (name : String) (v : Value) :
    Agrees (Layered (S k)) (assign name v) := by
  intro m m' h
  rw [run_assign, run_assign]
  obtain ⟨f, hs, hs'⟩ | ⟨s, s', hs, hs', hset⟩ := h.set hS name v
  · rw [hs, hs']
    exact ⟨rfl, h⟩
  · rw [hs, hs']
    exact ⟨rfl, hset⟩

/-- A frame of its own is one layer more. -/
theorem layered_inFrame {x : Exec α} (h : ∀ k, Agrees (Layered (S k)) x) (k : Nat) :
    Agrees (Layered (S k)) (inFrame x) := by
  intro m m' hm
  obtain ⟨hresult, hafter⟩ := h (k + 1) (hm.push hS)
  exact ⟨hresult, hafter.drop hS⟩

/-- A call of its own is a frame of its own, counted on both sides. -/
theorem layered_inCall {x : Exec α} (h : ∀ k, Agrees (Layered (S k)) x) (k : Nat) :
    Agrees (Layered (S k)) (inCall x) := by
  intro m m' hm
  obtain ⟨hresult, hafter⟩ := layered_inFrame hS h k (hm.callDepth (· + 1))
  exact ⟨hresult, hafter.callDepth (· - 1)⟩

/-- **A run does the same on machines with indistinct layers**, however many more it has pushed. -/
theorem pervasive_layered :
    Pervasive (fun _ => True) fun _ x _ => ∀ k, Agrees (Layered (S k)) x where
  pure a _ := .pure a
  fail _ _ := .throw _
  exhausted _ _ := .throw _
  bind hx hf k := (hx k).bind fun a => hf a k
  nesting h k := .get_bind (fun hm => hm.nesting_eq) fun nesting => h nesting.1 nesting.2 k
  function name f _ hnone hsome k :=
    .get_bind (fun hm => hm.getFunction?_eq hS name) fun found => by
      cases found with
      | none => exact hnone k
      | some d => exact hsome d (d.names_of_forall fun _ => trivial) k
  say _ _ := .modify fun hm => hm.say _ _
  report _ _ := layered_report _ _
  dump _ := layered_dump
  lookup _ _ := .get_bind (fun hm => hm.get_eq hS _) .ofFault
  assign v _ k := layered_assign hS k _ v
  declare v _ _ := .modify fun hm => hm.declare hS _ v
  declareFunction name _ _ _ := .modify fun hm => hm.declareFunction hS name _
  inFrame := layered_inFrame hS
  inCall := layered_inCall hS
  builtin b arguments _ _ := fun _ _ hm =>
    (OnConsole.builtin _ b arguments).run_related (Layered.sharesConsole _) hm

/-- **A visit agrees** on machines with indistinct layers. -/
theorem layered_visit (fuel : Nat) (n : Node) (k : Nat) : Agrees (Layered (S k)) (visit fuel n) :=
  ((pervasive_layered hS).pervades (Nat.le_refl fuel)).visit (n.names_of_forall fun _ => trivial) k

theorem layered_loop (fuel : Nat) (condition update body : Node) (k : Nat) :
    Agrees (Layered (S k)) (loop fuel condition update body) :=
  have hnames (n : Node) : n.Names fun _ => True := n.names_of_forall fun _ => trivial
  ((pervasive_layered hS).pervades (Nat.le_refl fuel)).loop (hnames condition) (hnames update)
    (hnames body) k

end Exec

end Scrawl
