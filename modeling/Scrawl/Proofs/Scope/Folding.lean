import Scrawl.Proofs.Scope.Layers

/-!
# Proofs/Scope/Folding — layers that look the same from above

Layers are **indistinct** when no operation tells them apart.  A relation of that kind says what a
run has to keep, counted by the layers it has pushed (`Layers.Indistinct`).

    x: 1, y: 2          x: 1 │ y: 2
    ─────────     and   ────────────     with the same below
      below                below

Two layers, one on top of the other, may be **folded** into one: a name means what the upper one
says, or else the lower one.  Nothing is lost but which of the two it came from, and that is gone
once they are dropped.
-/

namespace Scrawl

namespace Layers

/-- **A relation of layers that no operation tells apart**, with a number of layers on top that
come and go on both sides. -/
structure Indistinct (S : Nat → Layers → Layers → Prop) : Prop where
  push : ∀ {k a b}, S k a b → S (k + 1) (.inner ⟨[], []⟩ a) (.inner ⟨[], []⟩ b)
  drop : ∀ {k a b}, S (k + 1) a b →
    ∃ l l' a' b', a = .inner l a' ∧ b = .inner l' b' ∧ S k a' b'
  bind : ∀ {k a b}, S k a b → ∀ name v,
    S k (a.modifyTop (.bind name v)) (b.modifyTop (.bind name v))
  declareFunction : ∀ {k a b}, S k a b → ∀ name d,
    S k (a.modifyTop fun l => { l with functions := putEntry name d l.functions })
      (b.modifyTop fun l => { l with functions := putEntry name d l.functions })
  binding : ∀ {k a b}, S k a b → ∀ name,
    b.search (·.bindings.lookup name) = a.search (·.bindings.lookup name)
  function : ∀ {k a b}, S k a b → ∀ name,
    b.search (·.functions.lookup name) = a.search (·.functions.lookup name)
  assign : ∀ {k a b}, S k a b → ∀ name v,
    Option.Rel (S k) (a.assign? name v) (b.assign? name v)

/-! ## The same layers -/

/-- How many layers there are above the global one. -/
def height : Layers → Nat
  | .global _ => 0
  | .inner _ below => below.height + 1

theorem height_modifyTop (f : Layer → Layer) (a : Layers) : (a.modifyTop f).height = a.height := by
  cases a <;> rfl

/-- An assignment adds no layer. -/
theorem height_assign? {name : String} {v : Value} {a b : Layers} (h : a.assign? name v = some b) :
    b.height = a.height := by
  induction a generalizing b with
  | global l =>
    rw [assign?] at h
    split at h
    · cases h
      rfl
    · cases h
  | inner l below ih =>
    rw [assign?] at h
    split at h
    · cases h
      rfl
    · obtain ⟨b', hb', rfl⟩ := Option.map_eq_some_iff.mp h
      rw [height, height, ih hb']

/-- **The same layers**, a number of them above the global one. -/
def SameAbove (k : Nat) (a b : Layers) : Prop := a = b ∧ k ≤ a.height

/-- **Nothing tells layers from themselves**, whatever comes and goes above them. -/
theorem indistinct_sameAbove : Indistinct SameAbove where
  push := by
    rintro k a _ ⟨rfl, h⟩
    exact ⟨rfl, Nat.succ_le_succ h⟩
  drop := by
    rintro k a _ ⟨rfl, h⟩
    cases a with
    | global l => cases h
    | inner l below => exact ⟨l, l, below, below, rfl, rfl, rfl, Nat.le_of_succ_le_succ h⟩
  bind := by
    rintro k a _ ⟨rfl, h⟩ name v
    exact ⟨rfl, (height_modifyTop _ a).symm ▸ h⟩
  declareFunction := by
    rintro k a _ ⟨rfl, h⟩ name d
    exact ⟨rfl, (height_modifyTop _ a).symm ▸ h⟩
  binding := by
    rintro k a _ ⟨rfl, -⟩ name
    rfl
  function := by
    rintro k a _ ⟨rfl, -⟩ name
    rfl
  assign := by
    rintro k a _ ⟨rfl, h⟩ name v
    cases hb : a.assign? name v with
    | none => exact .none
    | some b => exact .some ⟨rfl, (height_assign? hb).symm ▸ h⟩

end Layers

/-! ## Two layers folded into one -/

/-- Entries have what two other lists have, where the first of them comes first. -/
def Folds {α : Type} (entries upper lower : List (String × α)) : Prop :=
  ∀ name, entries.lookup name = (upper.lookup name).or (lower.lookup name)

namespace Folds

variable {α : Type} {entries upper lower : List (String × α)} (h : Folds entries upper lower)

include h

/-- An entry put on top is found first. -/
theorem putEntry (name : String) (a : α) :
    Folds (putEntry name a entries) (putEntry name a upper) lower := by
  intro other
  rw [lookup_putEntry, lookup_putEntry, h other]
  split <;> rfl

/-- An entry below is found where there is none of its name on top. -/
theorem putEntry_lower {name : String} (hnone : upper.lookup name = none) (a : α) :
    Folds (Scrawl.putEntry name a entries) upper (Scrawl.putEntry name a lower) := by
  intro other
  rw [lookup_putEntry, lookup_putEntry, h other]
  split
  · rw [‹other = name›, hnone, Option.none_or]
  · rfl

end Folds

namespace Layers

/-- **Layers with one where the others have two**, under a number of layers that are the same. -/
inductive Folded : Nat → Layers → Layers → Prop where
  | here {l upper lower : Layer} (below : Layers)
    (bindings : Folds l.bindings upper.bindings lower.bindings)
    (functions : Folds l.functions upper.functions lower.functions) :
    Folded 0 (.inner l below) (.inner upper (.inner lower below))
  | under {k : Nat} {a b : Layers} (l : Layer) : Folded k a b →
    Folded (k + 1) (.inner l a) (.inner l b)

namespace Folded

variable {k : Nat} {a b : Layers}

/-- A new layer on top of another is folded into it. -/
theorem fresh (l : Layer) (below : Layers) :
    Folded 0 (.inner l below) (.inner ⟨[], []⟩ (.inner l below)) :=
  .here below (fun _ => rfl) fun _ => rfl

/-- A name is found in the folded layer as it was in the two. -/
theorem search_bindings (h : Folded k a b) (name : String) :
    b.search (·.bindings.lookup name) = a.search (·.bindings.lookup name) := by
  induction h with
  | here below bindings =>
    simp only [search, bindings name, Option.or_assoc]
  | under l _ ih => exact congrArg (l.bindings.lookup name).or ih

theorem search_functions (h : Folded k a b) (name : String) :
    b.search (·.functions.lookup name) = a.search (·.functions.lookup name) := by
  induction h with
  | here below _ functions =>
    simp only [search, functions name, Option.or_assoc]
  | under l _ ih => exact congrArg (l.functions.lookup name).or ih

/-- **A new value reaches the same variable**, in whichever of the two layers it is. -/
theorem assign (h : Folded k a b) (name : String) (v : Value) :
    Option.Rel (Folded k) (a.assign? name v) (b.assign? name v) := by
  induction h with
  | @here l upper lower below bindings functions =>
    rw [assign?, assign?, assign?, bindings name]
    cases hupper : upper.bindings.lookup name with
    | some w => exact .some (.here below (bindings.putEntry name v) functions)
    | none =>
      cases lower.bindings.lookup name with
      | some w => exact .some (.here below (bindings.putEntry_lower hupper v) functions)
      | none =>
        cases below.assign? name v with
        | none => exact .none
        | some c => exact .some (.here c bindings functions)
  | @under k a b l h ih =>
    rw [assign?, assign?]
    split
    · exact .some (.under _ h)
    · generalize a.assign? name v = x at ih ⊢
      generalize b.assign? name v = y at ih ⊢
      cases ih with
      | none => exact .none
      | some hxy => exact .some (.under l hxy)

end Folded

/-- **Nothing tells two layers from the one they are folded into.** -/
theorem indistinct_folded : Indistinct Folded where
  push h := .under _ h
  drop := by
    rintro k _ _ (_ | ⟨l, h⟩)
    exact ⟨l, l, _, _, rfl, rfl, h⟩
  bind := by
    rintro k _ _ (⟨below, bindings, functions⟩ | ⟨l, h⟩) name v
    · exact .here below (bindings.putEntry name v) functions
    · exact .under _ h
  declareFunction := by
    rintro k _ _ (⟨below, bindings, functions⟩ | ⟨l, h⟩) name d
    · exact .here below bindings (functions.putEntry name d)
    · exact .under _ h
  binding h := h.search_bindings
  function h := h.search_functions
  assign h := h.assign

end Layers

end Scrawl
