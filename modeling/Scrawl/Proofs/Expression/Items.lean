import Scrawl.Expression.Scan
import Scrawl.Proofs.Expression.Reordering
import Scrawl.Proofs.Node.Formed

/-!
# Proofs/Expression/Items — what the tree of an expression is made of

The tokens of an expression are **items**, which are operands and operators, and parentheses.
Reordering keeps the items and drops the parentheses (`mem_toPostfix`), and folding items into a
tree gives the tree of an expression (`isExpression_of_buildTree`).
-/

namespace Scrawl

/-- An operand, a call or an operator of an expression. -/
def Token.IsItem (t : Token) : Prop :=
  t.kind.isOperand ∨ t.kind = .functionWord ∨ t.kind.isLeading ∨ t.kind.isInfix

namespace Kind

theorem isLiteral_of_isOperand {k : Kind} (h : k.isOperand) (hn : k ≠ .identifier) :
    k.isLiteral := by
  revert h hn
  cases k <;> decide

theorem isLeading_or_isInfix {k : Kind} (h : k.isOperator) (hr : k ≠ .returnWord) :
    k.isLeading ∨ k.isInfix := by
  revert h hr
  cases k <;> decide

/-- Only operators with one operand stand before it. -/
theorem isInfix_of_not_isLeading {k : Kind} (h : k.isLeading ∨ k.isInfix) (hu : ¬ k.isUnary) :
    k.isInfix := by
  revert h hu
  cases k <;> decide

theorem isLeading_of_isUnary {k : Kind} (h : k.isLeading ∨ k.isInfix) (hu : k.isUnary) :
    k.isLeading := by
  revert h hu
  cases k <;> decide

end Kind

/-- An item that is neither an operand nor a call is an operator. -/
theorem Token.IsItem.isLeading_or_isInfix {t : Token} (h : t.IsItem) (ho : ¬ t.kind.isOperand)
    (hf : t.kind ≠ .functionWord) : t.kind.isLeading ∨ t.kind.isInfix := by
  obtain h | h | h := h
  · exact absurd h ho
  · exact absurd h hf
  · exact h

/-! ## Folding -/

namespace Grove

/-- All trees of a grove are those of expressions. -/
structure Holds (g : Grove) : Prop where
  stack : ∀ n ∈ g.stack, n.IsExpression Value.IsLiteral
  queue : ∀ n ∈ g.queue, n.IsExpression Value.IsLiteral

variable {g g' : Grove} {t : Token}

/-- **What a token does to a grove.** -/
theorem step_cases (hs : g.step t = .ok g') :
    (∃ n queue, g.queue = n :: queue ∧ g' = ⟨n :: g.stack, queue⟩) ∨
    (∃ v, t.kind.isOperand ∧ t.kind ≠ .identifier ∧ t.literal = .ok v ∧
      g' = ⟨.literal v :: g.stack, g.queue⟩) ∨
    ¬ t.kind.isOperand ∧ t.kind ≠ .functionWord ∧
      ((∃ n stack, t.kind.isUnary ∧ g.stack = n :: stack ∧ g' = ⟨.unary t n :: stack, g.queue⟩) ∨
        ∃ left right stack, ¬ t.kind.isUnary ∧ g.stack = right :: left :: stack ∧
          g' = ⟨.binary t left right :: stack, g.queue⟩) := by
  unfold Grove.step at hs
  split at hs
  · split at hs
    · cases hs
    · exact .inl ⟨_, _, ‹_›, (Except.ok.inj hs).symm⟩
  rename_i hname
  rw [Bool.or_eq_true, not_or, decide_eq_true_iff, decide_eq_true_iff] at hname
  split at hs
  · obtain ⟨v, hv, rfl⟩ := exists_of_map_eq_ok hs
    exact .inr (.inl ⟨v, ‹_›, hname.1, hv, rfl⟩)
  refine .inr (.inr ⟨‹_›, hname.2, ?_⟩)
  split at hs
  · split at hs
    · cases hs
    · exact .inl ⟨_, _, ‹_›, ‹_›, (Except.ok.inj hs).symm⟩
  · split at hs
    · exact .inr ⟨_, _, _, ‹_›, ‹_›, (Except.ok.inj hs).symm⟩
    · cases hs

theorem Holds.step (h : g.Holds) (ht : t.IsItem) (hs : g.step t = .ok g') : g'.Holds := by
  rcases step_cases hs with ⟨n, queue, hq, rfl⟩ | ⟨v, ho, hname, hv, rfl⟩ | ⟨ho, hcall, hop⟩
  · obtain ⟨hn, hqueue⟩ := List.forall_mem_cons.mp (hq ▸ h.queue)
    exact ⟨List.forall_mem_cons.mpr ⟨hn, h.stack⟩, hqueue⟩
  · have hlit : Value.IsLiteral v := ⟨t, Kind.isLiteral_of_isOperand ho hname, hv⟩
    exact ⟨List.forall_mem_cons.mpr ⟨.literal hlit, h.stack⟩, h.queue⟩
  have hkind := ht.isLeading_or_isInfix ho hcall
  rcases hop with ⟨n, stack, hu, hstack, rfl⟩ | ⟨left, right, stack, hu, hstack, rfl⟩
  · obtain ⟨hn, hrest⟩ := List.forall_mem_cons.mp (hstack ▸ h.stack)
    have hunary := Node.IsExpression.unary (Kind.isLeading_of_isUnary hkind hu) hn
    exact ⟨List.forall_mem_cons.mpr ⟨hunary, hrest⟩, h.queue⟩
  · obtain ⟨hr, hrest⟩ := List.forall_mem_cons.mp (hstack ▸ h.stack)
    obtain ⟨hl, hrest⟩ := List.forall_mem_cons.mp hrest
    have hbinary := Node.IsExpression.binary (Kind.isInfix_of_not_isLeading hkind hu) hl hr
    exact ⟨List.forall_mem_cons.mpr ⟨hbinary, hrest⟩, h.queue⟩

theorem finish_cases {tokens : List Token} {n : Node} (h : finish tokens g = .ok n) :
    g.stack = [] ∧ n = .absent ∨ g.stack = [n] := by
  unfold Grove.finish at h
  split at h
  · exact .inl ⟨‹_›, (Except.ok.inj h).symm⟩
  · obtain rfl := Except.ok.inj h
    exact .inr ‹_›
  · cases h

end Grove

/-- **Items fold into the tree of an expression**, if they fold at all. -/
theorem isExpression_of_buildTree {tokens : List Token} {operands rest : List Node} {n : Node}
    (ht : ∀ t ∈ tokens, t.IsItem) (ho : ∀ a ∈ operands, a.IsExpression Value.IsLiteral)
    (h : buildTree tokens operands = .ok (n, rest)) :
    n = .absent ∨ n.IsExpression Value.IsLiteral := by
  obtain ⟨g, hg, h⟩ := exists_of_bind_eq_ok h
  obtain ⟨m, hfinish, h⟩ := exists_of_bind_eq_ok h
  obtain rfl : m = n := congrArg Prod.fst (Except.ok.inj h)
  have hholds : g.Holds :=
    foldlM_ok_induction (fun t htt _ _ hb hs => hb.step (ht t htt) hs) ⟨by simp, ho⟩ hg
  rcases Grove.finish_cases hfinish with ⟨-, habsent⟩ | hstack
  · exact .inl habsent
  · exact .inr (hholds.stack m (by simp [hstack]))

/-! ## Scanning -/

namespace Scan

/-- The tokens of a scan are items and parentheses, its nodes expressions. -/
structure Holds (s : Scan) : Prop where
  recent : ∀ t ∈ s.recent, t.IsItem ∨ t.IsParen
  nodes : ∀ n ∈ s.nodes, n.IsExpression Value.IsLiteral

variable {s s' : Scan} {t : Token}

theorem Holds.empty : Scan.empty.Holds := ⟨by simp [Scan.empty], by simp [Scan.empty]⟩

theorem Holds.operand (h : s.Holds) (ht : t.kind.isOperand ∨ t.kind = .functionWord) {n : Node}
    (hn : n.IsExpression Value.IsLiteral) : (s.operand t n).Holds where
  recent := List.forall_mem_cons.mpr ⟨.inl (ht.imp_right .inl), h.recent⟩
  nodes := List.forall_mem_cons.mpr ⟨hn, h.nodes⟩

/-- **What a token does to a scan**, other than a name. -/
structure Takes (s : Scan) (t : Token) (s' : Scan) : Prop where
  /-- A minus sign may become a negation. -/
  recent : ∃ u, s'.recent = u :: s.recent ∧ (t.kind ≠ .subtract → u = t)
  opening : t.kind = .leftParen → s'.depth = s.depth + 1
  /-- A closing parenthesis at depth zero is not taken. -/
  closing : t.kind = .rightParen → s.depth = s'.depth + 1
  plain : t.kind ≠ .leftParen → t.kind ≠ .rightParen → isForeign t.kind = false ∧ s'.depth = s.depth

/-- **Which tokens a scan takes**, and what it keeps of them. -/
theorem push_cases (hs : s.push t = .ok s') :
    t.kind = .leftParen ∧ s' = ⟨s.depth + 1, t :: s.recent, s.nodes⟩ ∨
    t.kind = .rightParen ∧ s' = ⟨s.depth - 1, t :: s.recent, s.nodes⟩ ∨
    t.kind ≠ .leftParen ∧ t.kind ≠ .rightParen ∧ isForeign t.kind = false ∧
      (t.kind = .subtract ∧ endsOperand s.recent = false ∧
          s' = ⟨s.depth, { t with kind := .negative } :: s.recent, s.nodes⟩ ∨
        (t.kind = .subtract → endsOperand s.recent) ∧
          s' = ⟨s.depth, t :: s.recent, s.nodes⟩) := by
  unfold Scan.push at hs
  split at hs
  · exact .inl ⟨‹_›, (Except.ok.inj hs).symm⟩
  split at hs
  · exact .inr (.inl ⟨‹_›, (Except.ok.inj hs).symm⟩)
  split at hs
  · rename_i hleft hright hminus
    rw [Bool.and_eq_true, decide_eq_true_iff, Bool.not_eq_true'] at hminus
    have hforeign : isForeign t.kind = false := by rw [hminus.1]; rfl
    exact .inr (.inr ⟨hleft, hright, hforeign, .inl ⟨hminus.1, hminus.2, (Except.ok.inj hs).symm⟩⟩)
  split at hs
  · cases hs
  · rename_i hleft hright hminus hforeign
    have hsign : t.kind = .subtract → endsOperand s.recent := fun hk => by simpa [hk] using hminus
    exact .inr (.inr ⟨hleft, hright, Bool.eq_false_iff.mpr hforeign,
      .inr ⟨hsign, (Except.ok.inj hs).symm⟩⟩)

theorem takes_of_push (hs : s.push t = .ok s') (hstop : ¬ stopsAt s.depth t.kind) :
    s.Takes t s' := by
  rcases push_cases hs with ⟨hk, rfl⟩ | ⟨hk, rfl⟩ | ⟨hleft, hright, hforeign, h⟩
  · exact ⟨⟨t, rfl, fun _ => rfl⟩, fun _ => rfl, by simp [hk], fun h => absurd hk h⟩
  · have hdepth : s.depth ≠ 0 := fun hzero => hstop (by rw [hk, hzero]; rfl)
    exact ⟨⟨t, rfl, fun _ => rfl⟩, by simp [hk], fun _ => (Nat.succ_pred hdepth).symm,
      fun _ h => absurd hk h⟩
  rcases h with ⟨hk, -, rfl⟩ | ⟨-, rfl⟩
  · exact ⟨⟨_, rfl, (absurd hk ·)⟩, (absurd · hleft), (absurd · hright), fun _ _ => ⟨hforeign, rfl⟩⟩
  · exact ⟨⟨t, rfl, fun _ => rfl⟩, (absurd · hleft), (absurd · hright),
      fun _ _ => ⟨hforeign, rfl⟩⟩

/-- **One token more**: only items and parentheses are taken. -/
theorem Holds.push (h : s.Holds) (hs : s.push t = .ok s') : s'.Holds := by
  have cons {u : Token} (hu : u.IsItem ∨ u.IsParen) :
      ∀ t ∈ u :: s.recent, t.IsItem ∨ t.IsParen := List.forall_mem_cons.mpr ⟨hu, h.recent⟩
  rcases push_cases hs with ⟨hk, rfl⟩ | ⟨hk, rfl⟩ | ⟨-, -, hforeign, ⟨-, -, rfl⟩ | ⟨-, rfl⟩⟩
  · exact ⟨cons (.inr (.inl hk)), h.nodes⟩
  · exact ⟨cons (.inr (.inr hk)), h.nodes⟩
  · exact ⟨cons (.inl (.inr (.inr (.inl rfl)))), h.nodes⟩
  · refine ⟨cons (.inl ?_), h.nodes⟩
    rw [← Bool.not_eq_true] at hforeign
    simp only [isForeign, Bool.or_eq_true, decide_eq_true_iff, Bool.not_eq_true', not_or,
      Bool.not_eq_false, Bool.or_eq_false_iff, not_and] at hforeign
    obtain ⟨hreturn, hkind⟩ := hforeign
    by_cases ho : t.kind.isOperand
    · exact .inl ho
    · refine .inr (.inr (Kind.isLeading_or_isInfix (hkind ?_) hreturn))
      simpa using ho

/-- **The tree of a scan** is that of an expression, unless nothing was scanned. -/
theorem Holds.tree (h : s.Holds) {n : Node} (hn : s.tree = .ok n) :
    n = .absent ∨ n.IsExpression Value.IsLiteral := by
  unfold Scan.tree at hn
  split at hn
  · exact .inl (Except.ok.inj hn).symm
  · obtain ⟨reordered, hpost, hn⟩ := exists_of_bind_eq_ok hn
    obtain ⟨⟨m, rest⟩, htree, hn⟩ := exists_of_bind_eq_ok hn
    obtain rfl : m = n := Except.ok.inj hn
    refine isExpression_of_buildTree (fun t ht => ?_) (by simpa using h.nodes) htree
    obtain ⟨hmem, hparen⟩ := (mem_toPostfix hpost).mp ht
    exact (h.recent t (List.mem_reverse.mp hmem)).resolve_right hparen

end Scan

end Scrawl
