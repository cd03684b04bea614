import Scrawl.Node.Outline
import Scrawl.Proofs.Node.Rendering

/-!
# Proofs/Node/Levels — how far down the drawing of a tree goes

The **levels** of a tree are its root and the levels of its children below (`levels_of_children`),
so they are the steps that its drawing goes down.  Within the limit a tree is drawn as it is without
one, and beyond it not at all (`drawWithin_of_le`, `drawWithin_of_lt`).  Places have no part in it.
-/

namespace Scrawl

namespace Node

/-! ## Levels -/

/-- Trees side by side are as high as the highest. -/
theorem levelsOf_append (ms ns : List Node) :
    levelsOf (ms ++ ns) = max (levelsOf ms) (levelsOf ns) := by
  induction ms with
  | nil => exact (Nat.zero_max _).symm
  | cons n ms ih => rw [List.cons_append, levelsOf, levelsOf, ih, Nat.max_assoc]

theorem levelsOf_singleton (n : Node) : levelsOf [n] = n.levels := Nat.max_zero _

/-- Something absent is no child and has no level. -/
theorem levelsOf_optional (n : Node) : levelsOf n.optional = n.levels := by
  cases n with
  | absent => rfl
  | _ => exact levelsOf_singleton _

/-- **A tree has one level more than its children.** -/
theorem levels_of_children {n : Node} {cs : List Node} (h : n.children = .ok cs) :
    n.levels = levelsOf cs + 1 := by
  cases n with
  | absent => cases h
  | value v => cases h
  | _ =>
    obtain rfl := Except.ok.inj h
    simp only [levels, levelsOf, levelsOf_append, levelsOf_optional, Nat.max_zero, Nat.max_assoc]

mutual

/-- **Places are on no level.** -/
theorem levels_unplaced : ∀ n : Node, n.unplaced.levels = n.levels
  | .absent => rfl
  | .value _ => rfl
  | .terminal _ => rfl
  | .block statements => by rw [unplaced, levels, levels, levelsOf_unplacedAll statements]
  | .variable _ initializer _ => by rw [unplaced, levels, levels, levels_unplaced initializer]
  | .function _ parameters body _ => by
      rw [unplaced, levels, levels, levelsOf_unplacedAll parameters, levels_unplaced body]
  | .unary _ operand => by rw [unplaced, levels, levels, levels_unplaced operand]
  | .binary _ left right => by
      rw [unplaced, levels, levels, levels_unplaced left, levels_unplaced right]
  | .choice condition whenTrue whenFalse => by
      rw [unplaced, levels, levels, levels_unplaced condition, levels_unplaced whenTrue,
        levels_unplaced whenFalse]
  | .whileLoop condition body => by
      rw [unplaced, levels, levels, levels_unplaced condition, levels_unplaced body]
  | .forLoop initialization condition update body => by
      rw [unplaced, levels, levels, levels_unplaced initialization, levels_unplaced condition,
        levels_unplaced update, levels_unplaced body]

theorem levelsOf_unplacedAll : ∀ ns : List Node, levelsOf (unplacedAll ns) = levelsOf ns
  | [] => rfl
  | n :: ns => by rw [unplacedAll, levelsOf, levelsOf, levels_unplaced n, levelsOf_unplacedAll ns]

end

/-! ## Drawing within a limit -/

variable {limit : Nat} {n : Node}

/-- Within the limit a tree is drawn as it would be without one. -/
theorem drawWithin_of_le (h : n.levels ≤ limit) : n.drawWithin limit = n.draw :=
  if_neg (Nat.not_lt.mpr h)

/-- Above it nothing is drawn. -/
theorem drawWithin_of_lt (h : limit < n.levels) : n.drawWithin limit = .error .tooManyLevels :=
  if_pos h

end Node

end Scrawl
