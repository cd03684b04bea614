import Mathlib.Data.List.Forall2
import Scrawl.Proofs.Expression.Failures
import Scrawl.Proofs.Expression.Items

/-!
# Proofs/Expression/Order — operands stay in order and operators are used once

An operand or a call among the tokens of an expression becomes a **leaf** of its tree, and an
operator becomes the operator of one of its nodes.  `Node.leaves` and `Node.operators` read them off
the tree.

Reordering moves operators behind operands and no operand behind another (`delays_of_toPostfix`),
and folding joins trees that are next to each other (`Grove.Grows`).  So the leaves of a tree, from
left to right, are what the operands stand for, and its operators are those of the tokens, each as
often as it occurs (`leaves_of_buildTree`).
-/

namespace Scrawl

/-- A token that becomes the operator of a node. -/
def Token.isOperator (t : Token) : Bool := t.kind.isOperator

namespace Token

variable {t : Token}

theorem isLeaf_of_isName (h : t.isName) : t.isLeaf := by
  revert h
  unfold isName isLeaf
  cases t.kind <;> decide

/-- The names of some tokens are among the leaves. -/
theorem filter_isName (l : List Token) :
    l.filter isName = (l.filter isLeaf).filter isName := by
  rw [List.filter_filter]
  refine List.filter_congr fun t _ => ?_
  cases hname : t.isName with
  | false => rfl
  | true => rw [isLeaf_of_isName hname]; rfl

/-- **Leaves and operators are different tokens.** -/
theorem isOperator_of_isLeaf (h : t.isLeaf) : t.isOperator = false := by
  revert h
  unfold isLeaf isOperator
  cases t.kind <;> decide

/-- An operator is no leaf. -/
theorem isLeaf_of_isOperator (h : t.isOperator) : t.isLeaf = false := by
  refine Bool.eq_false_iff.mpr fun hleaf => ?_
  rw [isOperator_of_isLeaf hleaf] at h
  cases h

theorem IsParen.not_isOperator (h : t.IsParen) : t.isOperator = false := by
  obtain h | h := h <;> · rw [isOperator, h]; rfl

/-- **What stands in an expression is a leaf or an operator**, parentheses apart. -/
theorem IsItem.isLeaf_or_isOperator (h : t.IsItem) : t.isLeaf ∨ t.isOperator := by
  revert h
  unfold IsItem isLeaf isOperator
  cases t.kind <;> decide

end Token

/-! ## One token more -/

section Filter

variable {p : Token → Bool} {t : Token} {l : List Token}

theorem filter_concat_of_pos (h : p t) : (l ++ [t]).filter p = l.filter p ++ [t] := by
  rw [List.filter_append, List.filter_cons_of_pos h, List.filter_nil]

theorem filter_concat_of_neg (h : p t = false) : (l ++ [t]).filter p = l.filter p := by
  rw [List.filter_append, List.filter_cons_of_neg (by simp [h]), List.filter_nil, List.append_nil]

end Filter

/-! ## Reordering -/

/-- **Reordering keeps the leaves in order and all operators.** -/
theorem order_of_toPostfix {tokens reordered : List Token} (h : toPostfix tokens = .ok reordered) :
    reordered.filter Token.isLeaf = tokens.filter Token.isLeaf ∧
      (reordered.filter Token.isOperator).Perm (tokens.filter Token.isOperator) := by
  have hdelays := delays_of_toPostfix h
  refine ⟨?_, ?_⟩
  · rw [← hdelays.filter_eq, filter_withoutParens Token.IsParen.not_isLeaf]
  · rw [← filter_withoutParens Token.IsParen.not_isOperator tokens]
    exact hdelays.perm.symm.filter _

/-! ## Folding -/

namespace Node

/-- **The leaves of the tree of an expression**, from left to right.  A call is one leaf, whatever
its arguments. -/
def leaves : Node → List Node
  | .absent => []
  | .unary _ operand => operand.leaves
  | .binary _ left right => left.leaves ++ right.leaves
  | n => [n]

/-- **The operators of the tree of an expression**, those within calls left out. -/
def operators : Node → List Token
  | .unary operator operand => operator :: operand.operators
  | .binary operator left right => operator :: (left.operators ++ right.operators)
  | _ => []

end Node

/-- **What a token stands for as a leaf**: a literal for its value, a name for the variable, and the
mark of a call for a call of the function of that name. -/
inductive Token.Denotes : Token → Node → Prop
  | literal {t : Token} {v : Value} (h : t.StandsFor v) : Denotes t (.literal v)
  | name {t : Token} (hk : t.kind = .identifier) : Denotes t (.reference t.lexeme)
  | call {t : Token} (hk : t.kind = .functionWord) (arguments : List Node) :
      Denotes t (.call t.lexeme arguments)

/-- An operand is its own only leaf. -/
theorem Token.Denotes.leaves {t : Token} {n : Node} (h : t.Denotes n) : n.leaves = [n] := by
  cases h <;> rfl

theorem Token.Denotes.operators {t : Token} {n : Node} (h : t.Denotes n) : n.operators = [] := by
  cases h <;> rfl

namespace Grove

variable {tokens rest : List Token} {g g' : Grove} {t : Token} {n l r : Node}
  {stack queue : List Node}

/-- **The trees of a grove hold its tokens**: the leaves in order, from the first tree to the last,
and each operator once. -/
structure Grows (tokens : List Token) (stack : List Node) : Prop where
  leaves : List.Forall₂ Token.Denotes (tokens.filter Token.isLeaf)
    (stack.reverse.flatMap Node.leaves)
  operators : (stack.flatMap Node.operators).Perm (tokens.filter Token.isOperator)

namespace Grows

theorem nil : Grows [] [] := ⟨.nil, .nil⟩

/-- A leaf on top. -/
theorem leaf (h : Grows tokens stack) (ht : t.isLeaf) (hn : t.Denotes n) :
    Grows (tokens ++ [t]) (n :: stack) where
  leaves := by
    rw [filter_concat_of_pos ht, List.reverse_cons, List.flatMap_append, List.flatMap_singleton,
      hn.leaves]
    exact List.rel_append h.leaves (.cons hn .nil)
  operators := by
    rw [filter_concat_of_neg (Token.isOperator_of_isLeaf ht), List.flatMap_cons, hn.operators]
    exact h.operators

/-- An operator on the last trees, which keeps them in order. -/
theorem operator {stack' : List Node} (h : Grows tokens stack) (ht : t.isOperator)
    (hleaves : stack'.reverse.flatMap Node.leaves = stack.reverse.flatMap Node.leaves)
    (hoperators : (stack'.flatMap Node.operators).Perm (t :: stack.flatMap Node.operators)) :
    Grows (tokens ++ [t]) stack' where
  leaves := by
    rw [filter_concat_of_neg (Token.isLeaf_of_isOperator ht), hleaves]
    exact h.leaves
  operators := by
    rw [filter_concat_of_pos ht]
    exact hoperators.trans ((h.operators.cons t).trans (List.perm_append_singleton t _).symm)

/-- A tree under an operator has the operator behind it. -/
theorem unary (h : Grows tokens (n :: stack)) (ht : t.isOperator) :
    Grows (tokens ++ [t]) (.unary t n :: stack) := by
  refine h.operator ht ?_ ?_
  · simp only [List.reverse_cons, List.flatMap_append, List.flatMap_singleton, Node.leaves]
  · exact .refl _

/-- Two trees under an operator have it behind them both. -/
theorem binary (h : Grows tokens (r :: l :: stack)) (ht : t.isOperator) :
    Grows (tokens ++ [t]) (.binary t l r :: stack) := by
  refine h.operator ht ?_ ?_
  · simp only [List.reverse_cons, List.flatMap_append, List.flatMap_singleton, Node.leaves,
      List.append_assoc]
  · simp only [List.flatMap_cons, Node.operators, ← List.append_assoc, List.cons_append]
    exact (List.perm_append_comm.append_right _).cons t

/-- **One token more**, with nodes in the queue for the names from there on. -/
theorem step (h : Grows tokens g.stack) (ht : t.isLeaf ∨ t.isOperator)
    (hq : List.Forall₂ Token.Denotes ((t :: rest).filter Token.isName) g.queue)
    (hs : g.step t = .ok g') :
    Grows (tokens ++ [t]) g'.stack ∧
      List.Forall₂ Token.Denotes (rest.filter Token.isName) g'.queue := by
  unfold Grove.step at hs
  split at hs
  case isTrue hname =>
    change t.isName at hname
    rw [List.filter_cons_of_pos hname] at hq
    split at hs
    case h_1 => cases hs
    case h_2 n queue hqueue =>
      cases hs
      rw [hqueue] at hq
      obtain ⟨hn, hq⟩ := List.forall₂_cons.mp hq
      exact ⟨h.leaf (Token.isLeaf_of_isName hname) hn, hq⟩
  case isFalse hname =>
    change ¬ t.isName at hname
    rw [List.filter_cons_of_neg hname] at hq
    split at hs
    case isTrue hoperand =>
      obtain ⟨v, hv, rfl⟩ := exists_of_map_eq_ok hs
      have hk : t.kind ≠ .identifier := fun hk => hname (by simp [Token.isName, hk])
      have hleaf : t.isLeaf := by rw [Token.isLeaf, hoperand]; rfl
      exact ⟨h.leaf hleaf (.literal ⟨Kind.isLiteral_of_isOperand hoperand hk, hv⟩), hq⟩
    case isFalse hoperand =>
      have hoperator : t.isOperator := by
        refine ht.resolve_left fun hleaf => ?_
        simp only [Token.isLeaf, Token.isName, Bool.or_eq_true, decide_eq_true_iff] at hleaf hname
        exact hleaf.elim hoperand fun hk => hname (.inr hk)
      split at hs
      case isTrue =>
        split at hs
        case h_1 => cases hs
        case h_2 n stack hstack =>
          cases hs
          rw [hstack] at h
          exact ⟨h.unary hoperator, hq⟩
      case isFalse =>
        split at hs
        case h_1 right left stack hstack =>
          cases hs
          rw [hstack] at h
          exact ⟨h.binary hoperator, hq⟩
        case h_2 => cases hs

/-- **Building trees keeps leaves and operators in order**, token by token. -/
theorem foldlM (h : Grows tokens g.stack) (hitems : ∀ t ∈ rest, t.isLeaf ∨ t.isOperator)
    (hq : List.Forall₂ Token.Denotes (rest.filter Token.isName) g.queue)
    (hf : rest.foldlM Grove.step g = .ok g') :
    Grows (tokens ++ rest) g'.stack ∧ g'.queue = [] := by
  induction rest generalizing g tokens with
  | nil =>
    cases hf
    rw [List.append_nil]
    exact ⟨h, List.forall₂_nil_left_iff.mp hq⟩
  | cons t rest ih =>
    rw [List.foldlM_cons] at hf
    obtain ⟨g₁, hs, hf⟩ := exists_of_bind_eq_ok hf
    obtain ⟨ht, hitems⟩ := List.forall_mem_cons.mp hitems
    obtain ⟨hgrows, hq⟩ := h.step ht hq hs
    rw [List.append_cons]
    exact ih hgrows hitems hq hf

end Grows

end Grove

/-- **The tree of reordered tokens holds them all**: its leaves are what the operands stand for, in
their order, its operators are those of the tokens, and no node is left over. -/
theorem leaves_of_buildTree {tokens : List Token} {queue left : List Node} {n : Node}
    (hitems : ∀ t ∈ tokens, t.isLeaf ∨ t.isOperator)
    (hq : List.Forall₂ Token.Denotes (tokens.filter Token.isName) queue)
    (h : buildTree tokens queue = .ok (n, left)) :
    List.Forall₂ Token.Denotes (tokens.filter Token.isLeaf) n.leaves ∧
      n.operators.Perm (tokens.filter Token.isOperator) ∧ left = [] := by
  obtain ⟨g, hg, h⟩ := exists_of_bind_eq_ok h
  obtain ⟨m, hfinish, h⟩ := exists_of_bind_eq_ok h
  obtain ⟨rfl, rfl⟩ := Prod.mk.inj (Except.ok.inj h)
  obtain ⟨hgrows, hqueue⟩ := Grove.Grows.nil.foldlM hitems hq hg
  rw [List.nil_append] at hgrows
  unfold Grove.finish at hfinish
  split at hfinish
  case h_1 hstack =>
    cases hfinish
    rw [hstack] at hgrows
    exact ⟨hgrows.leaves, hgrows.operators, hqueue⟩
  case h_2 n hstack =>
    cases hfinish
    rw [hstack] at hgrows
    have hleaves := hgrows.leaves
    have hoperators := hgrows.operators
    rw [List.reverse_singleton, List.flatMap_singleton] at hleaves
    rw [List.flatMap_singleton] at hoperators
    exact ⟨hleaves, hoperators, hqueue⟩
  case h_3 => cases hfinish

end Scrawl
