import Scrawl.Proofs.Expression.Order
import Scrawl.Proofs.Expression.Phrase

/-!
# Proofs/Expression/PostOrder — folding inverts the post-order listing

A **formula** is a tree with a token at each node: operands and calls at the leaves, and inside an
operator over as many formulas as it takes.  `Formula.postOrder` lists its tokens, operators behind
their operands, and no other formula has the same listing (`Formula.postOrder_inj`).  Where its
names take some nodes in order, it becomes a node (`Formula.Becomes`).

Folding some tokens gives a node exactly when they list a formula that becomes this node with the
nodes at the front of the queue (`buildTree_eq_ok_iff`).
-/

namespace Scrawl

/-- **How many operands a token takes**: none as an operand or a call, one as a unary operator, and
two whatever else it is. -/
def Token.arity (t : Token) : Nat := if t.isLeaf then 0 else if t.kind.isUnary then 1 else 2

/-- **A tree with a token at each node**, over as many trees as the token takes operands. -/
inductive Formula where
  | leaf (t : Token) (h : t.arity = 0)
  | unary (t : Token) (h : t.arity = 1) (operand : Formula)
  | binary (t : Token) (h : t.arity = 2) (left right : Formula)

namespace Formula

/-- **The tokens of a formula**, operators behind their operands. -/
def postOrder : Formula → List Token
  | leaf t _ => [t]
  | unary t _ operand => operand.postOrder ++ [t]
  | binary t _ left right => left.postOrder ++ right.postOrder ++ [t]

/-- **The node that a formula becomes** when its names take some nodes in order. -/
inductive Becomes : Formula → List Node → Node → Prop
  | name {t : Token} {h : t.arity = 0} (hname : t.isName) (n : Node) : Becomes (leaf t h) [n] n
  | literal {t : Token} {h : t.arity = 0} {v : Value} (hv : t.StandsFor v) :
      Becomes (leaf t h) [] (.literal v)
  | unary {t : Token} {h : t.arity = 1} {x : Formula} {used : List Node} {n : Node}
      (hx : Becomes x used n) : Becomes (unary t h x) used (.unary t n)
  | binary {t : Token} {h : t.arity = 2} {x y : Formula} {used used' : List Node} {l r : Node}
      (hx : Becomes x used l) (hy : Becomes y used' r) :
      Becomes (binary t h x y) (used ++ used') (.binary t l r)

/-! ## One formula for a listing -/

/-- The token on top of a formula, the last of its listing. -/
def token : Formula → Token
  | leaf t _ => t
  | unary t _ _ => t
  | binary t _ _ _ => t

/-- The tokens of the formulas that it stands over. -/
def inner : Formula → List Token
  | leaf _ _ => []
  | unary _ _ operand => operand.postOrder
  | binary _ _ left right => left.postOrder ++ right.postOrder

theorem postOrder_eq (x : Formula) : x.postOrder = x.inner ++ [x.token] := by
  cases x <;> rfl

theorem postOrder_ne_nil (x : Formula) : x.postOrder ≠ [] := by
  rw [postOrder_eq]
  exact List.append_ne_nil_of_right_ne_nil _ (List.cons_ne_nil _ _)

/-- **The last token of a listing is its root**, so two listings that end alike have it in common.
-/
theorem inner_append_inj {x y : Formula} {before before' : List Token}
    (h : before ++ x.postOrder = before' ++ y.postOrder) :
    before ++ x.inner = before' ++ y.inner ∧ x.token = y.token := by
  rw [postOrder_eq, postOrder_eq, ← List.append_assoc, ← List.append_assoc] at h
  obtain ⟨hinner, htoken⟩ := List.append_inj' h rfl
  exact ⟨hinner, List.singleton_inj.mp htoken⟩

/-- **Where a listing ends with that of a formula, no other formula fits there.**  The last token
tells over how many formulas it stands. -/
theorem postOrder_append_inj {x y : Formula} {before before' : List Token}
    (h : before ++ x.postOrder = before' ++ y.postOrder) : x = y ∧ before = before' := by
  induction x generalizing y before before' with
  | leaf t ht =>
    obtain ⟨hinner, htoken⟩ := inner_append_inj h
    obtain rfl : t = y.token := htoken
    cases y with
    | leaf u hu =>
      rw [inner, inner, List.append_nil, List.append_nil] at hinner
      exact ⟨rfl, hinner⟩
    | unary u hu | binary u hu =>
      rw [token, hu] at ht
      omega
  | unary t ht x ih =>
    obtain ⟨hinner, htoken⟩ := inner_append_inj h
    obtain rfl : t = y.token := htoken
    cases y with
    | unary u hu y =>
      obtain ⟨rfl, rfl⟩ := ih hinner
      exact ⟨rfl, rfl⟩
    | leaf u hu | binary u hu =>
      rw [token, hu] at ht
      omega
  | binary t ht x x' ih ih' =>
    obtain ⟨hinner, htoken⟩ := inner_append_inj h
    obtain rfl : t = y.token := htoken
    cases y with
    | binary u hu y y' =>
      rw [inner, inner, ← List.append_assoc, ← List.append_assoc] at hinner
      obtain ⟨rfl, hleft⟩ := ih' hinner
      obtain ⟨rfl, rfl⟩ := ih hleft
      exact ⟨rfl, rfl⟩
    | leaf u hu | unary u hu =>
      rw [token, hu] at ht
      omega

/-- **A listing is that of one formula.** -/
theorem postOrder_inj {x y : Formula} (h : x.postOrder = y.postOrder) : x = y :=
  (postOrder_append_inj (congrArg ([] ++ ·) h)).1

end Formula

/-! ## What a grove does with a token -/

namespace Token

variable {t : Token} {v : Value}

/-- A leaf takes no operands. -/
theorem arity_of_isLeaf (h : t.isLeaf) : t.arity = 0 := if_pos h

theorem arity_of_isUnary (h : ¬ t.isLeaf) (hu : t.kind.isUnary) : t.arity = 1 := by
  rw [arity, if_neg h, if_pos hu]

theorem arity_of_not_isUnary (h : ¬ t.isLeaf) (hu : ¬ t.kind.isUnary) : t.arity = 2 := by
  rw [arity, if_neg h, if_neg hu]

theorem of_arity_one (h : t.arity = 1) : ¬ t.isLeaf ∧ t.kind.isUnary := by
  unfold arity at h
  split at h
  · cases h
  · split at h
    · exact ⟨‹_›, ‹_›⟩
    · cases h

theorem of_arity_two (h : t.arity = 2) : ¬ t.isLeaf ∧ ¬ t.kind.isUnary := by
  unfold arity at h
  split at h
  · cases h
  · split at h
    · cases h
    · exact ⟨‹_›, ‹_›⟩

/-- What is no leaf is no name, and no operand. -/
theorem of_not_isLeaf (h : ¬ t.isLeaf) : ¬ t.isName ∧ ¬ t.kind.isOperand := by
  refine ⟨fun hname => h (isLeaf_of_isName hname), fun hoperand => h ?_⟩
  rw [isLeaf, hoperand]
  rfl

/-- A leaf that is no name is a literal. -/
theorem isLiteral_of_arity (h : t.arity = 0) (hname : ¬ t.isName) : t.kind.isLiteral := by
  have hleaf : t.isLeaf := by
    by_contra hleaf
    unfold arity at h
    rw [if_neg hleaf] at h
    split at h <;> cases h
  revert hleaf hname
  unfold isLeaf isName
  cases t.kind <;> decide

theorem isName_of_arity_pos (h : 0 < t.arity) : t.isName = false := by
  refine Bool.eq_false_iff.mpr fun hname => ?_
  rw [arity_of_isLeaf (isLeaf_of_isName hname)] at h
  cases h

/-- A token that stands for a value is a leaf. -/
theorem StandsFor.isLeaf (h : t.StandsFor v) : t.isLeaf := by
  rw [Token.isLeaf, Kind.isOperand_of_isLiteral h.kind]
  rfl

theorem StandsFor.isName (h : t.StandsFor v) : t.isName = false := by
  have hk := h.kind
  revert hk
  unfold Token.isName
  cases t.kind <;> decide

end Token

namespace Grove

variable {g : Grove} {t : Token} {stack queue : List Node} {n l r : Node}

/-- **What one token does to a grove**, where a literal stands for a value. -/
inductive Stepped (t : Token) : Grove → Except ParseError Grove → Prop
  | name {stack queue : List Node} {n : Node} (h : t.isName) :
      Stepped t ⟨stack, n :: queue⟩ (.ok ⟨n :: stack, queue⟩)
  | nameless {stack : List Node} (h : t.isName) : Stepped t ⟨stack, []⟩ (.error .noOperandLeft)
  | literal {stack queue : List Node} {v : Value} (h : t.StandsFor v) :
      Stepped t ⟨stack, queue⟩ (.ok ⟨.literal v :: stack, queue⟩)
  | unary {stack queue : List Node} {n : Node} (h : t.arity = 1) :
      Stepped t ⟨n :: stack, queue⟩ (.ok ⟨.unary t n :: stack, queue⟩)
  | binary {stack queue : List Node} {l r : Node} (h : t.arity = 2) :
      Stepped t ⟨r :: l :: stack, queue⟩ (.ok ⟨.binary t l r :: stack, queue⟩)
  | missing {stack queue : List Node} (h : stack.length < t.arity) :
      Stepped t ⟨stack, queue⟩ (.error (missingOperand t))

/-- A token takes as many trees as its arity says, or fails for want of one. -/
theorem stepped (g : Grove) (hvalue : t.kind.isLiteral → ∃ v, t.StandsFor v) :
    Stepped t g (g.step t) := by
  obtain ⟨stack, queue⟩ := g
  unfold step
  split
  case isTrue hname =>
    cases queue with
    | nil => exact .nameless hname
    | cons n queue => exact .name hname
  case isFalse hname =>
    change ¬ t.isName at hname
    split
    case isTrue hoperand =>
      have hk : t.kind ≠ .identifier := fun hk => hname (by simp [Token.isName, hk])
      obtain ⟨v, hv⟩ := hvalue (Kind.isLiteral_of_isOperand hoperand hk)
      rw [hv.literal]
      exact .literal hv
    case isFalse hoperand =>
      have hleaf : ¬ t.isLeaf := by
        simp only [Token.isLeaf, Token.isName, Bool.or_eq_true, decide_eq_true_iff] at hname ⊢
        exact fun h => h.elim hoperand fun hk => hname (.inr hk)
      split
      case isTrue hunary =>
        have harity := Token.arity_of_isUnary hleaf hunary
        cases stack with
        | nil => exact .missing (by rw [harity]; decide)
        | cons n stack => exact .unary harity
      case isFalse hunary =>
        have harity := Token.arity_of_not_isUnary hleaf hunary
        rcases stack with _ | ⟨r, _ | ⟨l, stack⟩⟩
        · exact .missing (by rw [harity]; exact Nat.zero_lt_two)
        · exact .missing (by rw [harity]; exact Nat.one_lt_two)
        · exact .binary harity

theorem step_of_arity_one (h : t.arity = 1) :
    step ⟨n :: stack, queue⟩ t = .ok ⟨.unary t n :: stack, queue⟩ := by
  obtain ⟨hleaf, hunary⟩ := Token.of_arity_one h
  obtain ⟨hname, hoperand⟩ := Token.of_not_isLeaf hleaf
  rw [step, if_neg (by exact hname), if_neg hoperand, if_pos hunary]

theorem step_of_arity_two (h : t.arity = 2) :
    step ⟨r :: l :: stack, queue⟩ t = .ok ⟨.binary t l r :: stack, queue⟩ := by
  obtain ⟨hleaf, hunary⟩ := Token.of_arity_two h
  obtain ⟨hname, hoperand⟩ := Token.of_not_isLeaf hleaf
  rw [step, if_neg (by exact hname), if_neg hoperand, if_neg hunary]

end Grove

/-! ## Folding a listing -/

namespace Formula

variable {x : Formula} {used operands : List Node} {n : Node}

/-- A formula uses a node for each name in its listing. -/
theorem Becomes.length_used (h : x.Becomes used n) :
    used.length = x.postOrder.countP Token.isName := by
  induction h with
  | name hname n => rw [postOrder, List.countP_singleton, if_pos hname]; rfl
  | literal hv => rw [postOrder, List.countP_singleton, hv.isName]; rfl
  | @unary t ht x used n hx ih =>
    have hname : t.isName = false := Token.isName_of_arity_pos (by omega)
    rw [postOrder, List.countP_append, List.countP_singleton, hname, ih]
    rfl
  | @binary t ht x y used used' l r hx hy ihx ihy =>
    have hname : t.isName = false := Token.isName_of_arity_pos (by omega)
    rw [postOrder, List.countP_append, List.countP_append, List.countP_singleton, hname,
      List.length_append, ihx, ihy]
    rfl

/-- Nodes that are there become nodes that are there. -/
theorem Becomes.ne_absent (h : x.Becomes used n) (hused : .absent ∉ used) : n ≠ .absent := by
  cases h with
  | name _ n =>
    rintro rfl
    exact hused List.mem_cons_self
  | literal | unary | binary => rintro ⟨⟩

/-- **Folding the listing of a formula puts its node on the stack**, whatever was there. -/
theorem Becomes.foldlM (h : x.Becomes used n) (stack rest : List Node) :
    x.postOrder.foldlM Grove.step ⟨stack, used ++ rest⟩ = .ok ⟨n :: stack, rest⟩ := by
  induction h generalizing stack rest with
  | name hname n =>
    have hk := by simpa [Token.isName] using hname
    exact foldlM_cons_ok (Grove.step_operand hk) []
  | literal hv => exact foldlM_cons_ok (Grove.step_literal hv) []
  | @unary t ht x used n hx ih =>
    rw [postOrder, foldlM_append_ok (ih stack rest)]
    exact foldlM_cons_ok (Grove.step_of_arity_one ht) []
  | @binary t ht x y used used' l r hx hy ihx ihy =>
    rw [postOrder, List.append_assoc, List.append_assoc, foldlM_append_ok (ihx stack _),
      foldlM_append_ok (ihy _ rest)]
    exact foldlM_cons_ok (Grove.step_of_arity_two ht) []

/-- **With a value for each literal and a node for each name, a formula becomes a node.** -/
theorem exists_becomes (hvalues : ∀ t ∈ x.postOrder, t.kind.isLiteral → ∃ v, t.StandsFor v)
    (h : x.postOrder.countP Token.isName ≤ operands.length) :
    ∃ used rest n, operands = used ++ rest ∧ x.Becomes used n := by
  induction x generalizing operands with
  | leaf t ht =>
    by_cases hname : t.isName
    · rw [postOrder, List.countP_singleton, if_pos hname] at h
      obtain ⟨n, rest, rfl⟩ := List.exists_cons_of_length_pos h
      exact ⟨[n], rest, n, rfl, .name hname n⟩
    · obtain ⟨v, hv⟩ := hvalues t List.mem_cons_self (Token.isLiteral_of_arity ht hname)
      exact ⟨[], operands, .literal v, rfl, .literal hv⟩
  | unary t ht x ih =>
    rw [postOrder] at hvalues h
    rw [List.countP_append] at h
    obtain ⟨used, rest, n, rfl, hx⟩ :=
      ih (List.forall_mem_append.mp hvalues).1 (Nat.le_of_add_right_le h)
    exact ⟨used, rest, _, rfl, .unary hx⟩
  | binary t ht x y ihx ihy =>
    rw [postOrder] at hvalues h
    rw [List.countP_append, List.countP_append] at h
    have hboth := Nat.le_of_add_right_le h
    obtain ⟨hvaluesx, hvaluesy⟩ := List.forall_mem_append.mp (List.forall_mem_append.mp hvalues).1
    obtain ⟨used, rest, l, rfl, hx⟩ := ihx hvaluesx (Nat.le_of_add_right_le hboth)
    rw [List.length_append, hx.length_used] at hboth
    obtain ⟨used', rest, r, rfl, hy⟩ := ihy hvaluesy (Nat.le_of_add_le_add_left hboth)
    exact ⟨used ++ used', rest, _, (List.append_assoc _ _ _).symm, .binary hx hy⟩

end Formula

/-! ## Listings behind a fold -/

namespace Grove

variable {tokens rest : List Token} {operands used stack : List Node} {g g' : Grove} {t : Token}

/-- **The trees on a stack are those that some tokens list**, one behind the other, with the nodes
that they used. -/
inductive Lists : List Token → List Node → List Node → Prop
  | nil : Lists [] [] []
  | cons {tokens : List Token} {used used' stack : List Node} {x : Formula} {n : Node}
      (h : Lists tokens used stack) (hx : x.Becomes used' n) :
      Lists (tokens ++ x.postOrder) (used ++ used') (n :: stack)

/-- **One token more**: it is a formula of its own, or joins the last ones. -/
theorem Lists.step (h : Lists tokens used g.stack)
    (hvalue : t.kind.isLiteral → ∃ v, t.StandsFor v) (hs : g.step t = .ok g') :
    ∃ used', Lists (tokens ++ [t]) (used ++ used') g'.stack ∧ g.queue = used' ++ g'.queue := by
  have hstepped := stepped g hvalue
  rw [hs] at hstepped
  cases hstepped with
  | @name stack queue n hname =>
    have harity := Token.arity_of_isLeaf (Token.isLeaf_of_isName hname)
    exact ⟨[n], .cons (x := .leaf t harity) h (.name hname n), rfl⟩
  | literal hv =>
    have harity := Token.arity_of_isLeaf hv.isLeaf
    exact ⟨[], .cons (x := .leaf t harity) h (.literal hv), rfl⟩
  | unary harity =>
    refine ⟨[], ?_, rfl⟩
    rw [List.append_nil]
    cases h with
    | cons h hx =>
      rw [List.append_assoc]
      exact .cons (x := .unary t harity _) h (.unary hx)
  | binary harity =>
    refine ⟨[], ?_, rfl⟩
    rw [List.append_nil]
    cases h with
    | cons h hy =>
      cases h with
      | @cons tokens used _ _ x _ h hx =>
        rw [List.append_assoc used, List.append_assoc, List.append_assoc,
          ← List.append_assoc x.postOrder]
        exact .cons (x := .binary t harity _ _) h (.binary hx hy)

/-- **The stack lists the tokens folded so far**, all along a fold. -/
theorem Lists.foldlM (h : Lists tokens used g.stack)
    (hvalues : ∀ t ∈ rest, t.kind.isLiteral → ∃ v, t.StandsFor v)
    (hf : rest.foldlM Grove.step g = .ok g') :
    ∃ used', Lists (tokens ++ rest) (used ++ used') g'.stack ∧ g.queue = used' ++ g'.queue := by
  induction rest generalizing tokens used g with
  | nil =>
    cases hf
    exact ⟨[], by simpa using h, rfl⟩
  | cons t rest ih =>
    rw [List.foldlM_cons] at hf
    obtain ⟨g₁, hs, hf⟩ := exists_of_bind_eq_ok hf
    obtain ⟨hvalue, hvalues⟩ := List.forall_mem_cons.mp hvalues
    obtain ⟨used₁, h₁, hqueue₁⟩ := h.step hvalue hs
    obtain ⟨used₂, h₂, hqueue₂⟩ := ih h₁ hvalues hf
    refine ⟨used₁ ++ used₂, ?_, ?_⟩
    · rwa [List.append_cons, ← List.append_assoc]
    · rw [hqueue₁, hqueue₂, List.append_assoc]

/-- **What stops a fold**: an operator with too few trees on the stack, or a name without a node. -/
theorem failsOnly_foldlM_of_values
    (hvalues : ∀ t ∈ tokens, t.kind.isLiteral → ∃ v, t.StandsFor v) :
    FailsOnly (fun e => (∃ t ∈ tokens, 0 < t.arity ∧ e = missingOperand t) ∨ e = .noOperandLeft)
      (tokens.foldlM step g) := by
  induction tokens generalizing g with
  | nil => exact .ok g
  | cons t tokens ih =>
    obtain ⟨hvalue, hvalues⟩ := List.forall_mem_cons.mp hvalues
    have hstepped := stepped g hvalue
    rw [List.foldlM_cons]
    generalize g.step t = outcome at hstepped
    cases hstepped with
    | nameless => exact .error (.inr rfl)
    | missing h => exact .error (.inl ⟨t, List.mem_cons_self, Nat.zero_lt_of_lt h, rfl⟩)
    | name | literal | unary | binary =>
      refine (ih hvalues).mono fun e he => he.imp_left ?_
      rintro ⟨u, hu, hcause⟩
      exact ⟨u, List.mem_cons_of_mem t hu, hcause⟩

end Grove

section BuildTree

variable {tokens : List Token} {operands rest : List Node} {n : Node}

/-- **Folding gives a node exactly for a listing**, with the nodes at the front of the queue; for no
tokens it gives none. -/
theorem buildTree_eq_ok_iff (hvalues : ∀ t ∈ tokens, t.kind.isLiteral → ∃ v, t.StandsFor v) :
    buildTree tokens operands = .ok (n, rest) ↔
      tokens = [] ∧ n = .absent ∧ rest = operands ∨
        ∃ x : Formula, x.postOrder = tokens ∧
          ∃ used, operands = used ++ rest ∧ x.Becomes used n := by
  constructor
  · intro h
    obtain ⟨g, hg, h⟩ := exists_of_bind_eq_ok h
    obtain ⟨m, hfinish, h⟩ := exists_of_bind_eq_ok h
    obtain ⟨rfl, rfl⟩ := Prod.mk.inj (Except.ok.inj h)
    obtain ⟨used, hlists, hqueue⟩ := Grove.Lists.nil.foldlM hvalues hg
    rw [List.nil_append, List.nil_append] at hlists
    rcases Grove.finish_cases hfinish with ⟨hstack, habsent⟩ | hstack
    · rw [hstack] at hlists
      cases hlists
      exact .inl ⟨rfl, habsent, hqueue.symm⟩
    · rw [hstack] at hlists
      cases hlists with
      | @cons _ _ used' _ x _ hnil hx =>
        cases hnil
        exact .inr ⟨x, rfl, used', hqueue, hx⟩
  · rintro (⟨rfl, rfl, rfl⟩ | ⟨x, rfl, used, rfl, hx⟩)
    · rfl
    · rw [buildTree, hx.foldlM]
      rfl

/-- **Why folding fails.** -/
theorem failsOnly_buildTree_of_values
    (hvalues : ∀ t ∈ tokens, t.kind.isLiteral → ∃ v, t.StandsFor v) :
    FailsOnly (fun e => (∃ t ∈ tokens, 0 < t.arity ∧ e = Grove.missingOperand t) ∨
        (∃ t ∈ tokens.head?, e = .misplaced "Missing operator in expression" t.position) ∨
        e = .noOperandLeft) (buildTree tokens operands) := by
  have hfold := Grove.failsOnly_foldlM_of_values (g := ⟨[], operands⟩) hvalues
  refine (hfold.mono fun e he => he.imp_right .inr).bind_of_ok fun g hg => ?_
  refine FailsOnly.bind ?_ fun _ => .ok _
  unfold Grove.finish
  split
  case h_1 => exact .ok _
  case h_2 => exact .ok _
  case h_3 hnil _ =>
    cases tokens with
    | nil =>
      cases hg
      exact absurd rfl hnil
    | cons t tokens => exact .error (.inr (.inl ⟨t, rfl, rfl⟩))

end BuildTree

/-- **Folding inverts post-order.**  Where each literal stands for a value, folding tokens gives a
node exactly when they are the listing of a formula, which is the only one, and the node is what the
formula becomes with the nodes at the front of the queue.  It does so for every listing with a node
for each name.  No tokens, and no others, give no node.  All else is refused: an operator with too
few operands, operands without an operator, or a name for which the queue has run out. -/
theorem buildTree_inverts_postOrder {tokens : List Token}
    (hvalues : ∀ t ∈ tokens, t.kind.isLiteral → ∃ v, t.StandsFor v) (operands : List Node) :
    (∀ n rest, buildTree tokens operands = .ok (n, rest) ↔
      tokens = [] ∧ n = .absent ∧ rest = operands ∨
        ∃ x : Formula, x.postOrder = tokens ∧
          ∃ used, operands = used ++ rest ∧ x.Becomes used n) ∧
    (∀ x y : Formula, x.postOrder = tokens → y.postOrder = tokens → x = y) ∧
    (∀ x : Formula, x.postOrder = tokens →
      ((∃ n rest, buildTree tokens operands = .ok (n, rest)) ↔
        tokens.countP Token.isName ≤ operands.length)) ∧
    (.absent ∉ operands → ∀ rest, buildTree tokens operands = .ok (.absent, rest) ↔
      tokens = [] ∧ rest = operands) ∧
    ∀ e, buildTree tokens operands = .error e →
      (∃ t ∈ tokens, 0 < t.arity ∧ e = Grove.missingOperand t) ∨
      (∃ t ∈ tokens.head?, e = .misplaced "Missing operator in expression" t.position) ∨
      e = .noOperandLeft ∧ operands.length < tokens.countP Token.isName := by
  refine ⟨fun n rest => buildTree_eq_ok_iff hvalues, fun x y hx hy => ?_, ?_, ?_, ?_⟩
  · exact Formula.postOrder_inj (hx.trans hy.symm)
  · rintro x rfl
    constructor
    · rintro ⟨n, rest, h⟩
      obtain ⟨hnil, -⟩ | ⟨y, hy, used, rfl, hbecomes⟩ := (buildTree_eq_ok_iff hvalues).mp h
      · exact absurd hnil x.postOrder_ne_nil
      · rw [← hy, ← hbecomes.length_used, List.length_append]
        exact Nat.le_add_right _ _
    · intro h
      obtain ⟨used, rest, n, hused, hbecomes⟩ := Formula.exists_becomes hvalues h
      exact ⟨n, rest, (buildTree_eq_ok_iff hvalues).mpr (.inr ⟨x, rfl, used, hused, hbecomes⟩)⟩
  · intro hpresent rest
    rw [buildTree_eq_ok_iff hvalues]
    constructor
    · rintro (⟨hnil, -, hrest⟩ | ⟨x, -, used, rfl, hbecomes⟩)
      · exact ⟨hnil, hrest⟩
      · have hused : .absent ∉ used := fun h => hpresent (List.mem_append_left rest h)
        exact absurd rfl (hbecomes.ne_absent hused)
    · rintro ⟨hnil, hrest⟩
      exact .inl ⟨hnil, rfl, hrest⟩
  · intro e herror
    refine (failsOnly_buildTree_of_values hvalues e herror).imp_right (Or.imp_right ?_)
    rintro rfl
    refine ⟨rfl, Nat.lt_of_not_le fun hle => ?_⟩
    exact failsOnly_buildTree_of_le hle _ herror

/-- A comma between a name and a number, and a negation over both: with two nodes in the queue one
is left, and with none the name finds no node. -/
theorem buildTree_inverts_postOrder_comma :
    let x : Token := ⟨.identifier, "x", ⟨1, 1⟩⟩
    let one : Token := ⟨.int, "1", ⟨1, 3⟩⟩
    let comma : Token := ⟨.comma, ",", ⟨1, 5⟩⟩
    let bang : Token := ⟨.not, "!", ⟨1, 7⟩⟩
    let tokens := [x, one, comma, bang]
    let formula : Formula := .unary bang rfl (.binary comma rfl (.leaf x rfl) (.leaf one rfl))
    let n : Node := .unary bang (.binary comma (.reference "x") (.literal (.int 1)))
    (∀ t ∈ tokens, t.kind.isLiteral → ∃ v, t.StandsFor v) ∧ formula.postOrder = tokens ∧
      buildTree tokens [.reference "x", .reference "y"] = .ok (n, [.reference "y"]) ∧
      formula.Becomes [.reference "x"] n ∧
      buildTree tokens [] = .error .noOperandLeft ∧ 0 < tokens.countP Token.isName := by
  intro x one comma bang tokens formula n
  have hread : Decimal.readInteger "1" = .ok 1 := by decide +kernel
  have hone : one.StandsFor (.int 1) :=
    ⟨rfl, congrArg (fun r => (ParseError.ofNumber r).map Value.int) hread⟩
  have hvalues : ∀ t ∈ tokens, t.kind.isLiteral → ∃ v, t.StandsFor v := by
    simp only [tokens, List.forall_mem_cons]
    exact ⟨by rintro ⟨⟩, fun _ => ⟨_, hone⟩, by rintro ⟨⟩, by rintro ⟨⟩, List.forall_mem_nil _⟩
  have hbecomes : formula.Becomes [.reference "x"] n := by
    exact .unary (.binary (.name rfl _) (.literal hone))
  have hbuild := ((buildTree_inverts_postOrder hvalues [.reference "x", .reference "y"]).1 n
    [.reference "y"]).mpr (.inr ⟨formula, rfl, [.reference "x"], rfl, hbecomes⟩)
  exact ⟨hvalues, rfl, hbuild, hbecomes, rfl, by decide⟩

end Scrawl
