import Mathlib.Data.List.TakeWhile
import Scrawl.Expression.Postfix
import Scrawl.Proofs.Outcome

/-!
# Proofs/Expression/Reordering — operators are put off, operands stay in order

A **leaf** is an operand or the mark of a call.  Reordering puts off operators: another token may
pass an operator, but nothing passes a leaf (`Delays`).  What is out, with the operators that wait
behind it, is at any time such a delay of the tokens read so far, less the parentheses
(`Yard.Orders`), so the reordered tokens are one of all tokens (`delays_of_toPostfix`).

What one token does to a yard is said once, in `Yard.Moves`.  Only parentheses can stop a yard, and
how many are open is its `Yard.depth`.
-/

namespace Scrawl

open Kind (leftParen rightParen)

/-! ## Delays -/

/-- **A list with some of its elements delayed**: an element that is not firm lets the next pass. -/
inductive Delays {α : Type} (firm : α → Bool) : List α → List α → Prop
  | refl (l : List α) : Delays firm l l
  | cons (a : α) {l m : List α} (h : Delays firm l m) : Delays firm (a :: l) (a :: m)
  | pass {a : α} (h : firm a = false) (b : α) (l : List α) :
      Delays firm (a :: b :: l) (b :: a :: l)
  | trans {l m n : List α} (h : Delays firm l m) (h' : Delays firm m n) : Delays firm l n

namespace Delays

variable {α : Type} {firm : α → Bool} {l m : List α}

theorem perm (h : Delays firm l m) : l.Perm m := by
  induction h with
  | refl l => exact .refl l
  | cons a _ ih => exact ih.cons a
  | pass _ b l => exact .swap b _ l
  | trans _ _ ih ih' => exact ih.trans ih'

/-- **What is firm stays in order.** -/
theorem filter_eq (h : Delays firm l m) : l.filter firm = m.filter firm := by
  induction h with
  | refl => rfl
  | cons a _ ih => rw [List.filter_cons, List.filter_cons, ih]
  | pass ha b l =>
    have hneg : ¬ firm _ = true := Bool.eq_false_iff.mp ha
    rw [List.filter_cons_of_neg hneg, List.filter_cons, List.filter_cons,
      List.filter_cons_of_neg hneg]
  | trans _ _ ih ih' => exact ih.trans ih'

theorem append_left (h : Delays firm l m) (k : List α) : Delays firm (k ++ l) (k ++ m) := by
  induction k with
  | nil => exact h
  | cons a k ih => exact .cons a ih

theorem append_right (h : Delays firm l m) (k : List α) : Delays firm (l ++ k) (m ++ k) := by
  induction h with
  | refl => exact .refl _
  | cons a _ ih => exact .cons a ih
  | pass ha b l => exact .pass ha b (l ++ k)
  | trans _ _ ih ih' => exact .trans ih ih'

/-- An element passes all those in front of it, none of them firm. -/
theorem pass_all (h : ∀ a ∈ l, firm a = false) (b : α) : Delays firm (l ++ [b]) (b :: l) := by
  induction l with
  | nil => exact .refl _
  | cons a l ih =>
    obtain ⟨ha, hl⟩ := List.forall_mem_cons.mp h
    exact .trans (.cons a (ih hl)) (.pass ha b l)

/-- **One more element**, in front of some at the end that are not firm. -/
theorem insert {front last : List α} (h : Delays firm l (front ++ last))
    (hlast : ∀ a ∈ last, firm a = false) (b : α) :
    Delays firm (l ++ [b]) (front ++ b :: last) := by
  refine .trans (h.append_right [b]) ?_
  rw [List.append_assoc]
  exact (pass_all hlast b).append_left front

end Delays

/-! ## Parentheses and leaves -/

/-- A parenthesis. -/
def Token.IsParen (t : Token) : Prop := t.kind = .leftParen ∨ t.kind = .rightParen

instance instDecidableIsParen (t : Token) : Decidable t.IsParen :=
  inferInstanceAs (Decidable (t.kind = .leftParen ∨ t.kind = .rightParen))

/-- A token that becomes a leaf: an operand, or the mark of a call. -/
def Token.isLeaf (t : Token) : Bool := t.kind.isOperand || t.kind = .functionWord

theorem Token.IsParen.not_isLeaf {t : Token} (h : t.IsParen) : t.isLeaf = false := by
  obtain h | h := h <;> · rw [isLeaf, h]; rfl

/-- **The tokens without the parentheses.** -/
def withoutParens (tokens : List Token) : List Token := tokens.filter fun t => ¬ t.IsParen

theorem mem_withoutParens {t : Token} {tokens : List Token} :
    t ∈ withoutParens tokens ↔ t ∈ tokens ∧ ¬ t.IsParen := by
  rw [withoutParens, List.mem_filter, decide_eq_true_iff]

theorem withoutParens_append (l m : List Token) :
    withoutParens (l ++ m) = withoutParens l ++ withoutParens m :=
  List.filter_append l m

theorem withoutParens_cons_of_isParen {t : Token} (h : t.IsParen) (l : List Token) :
    withoutParens (t :: l) = withoutParens l :=
  List.filter_cons_of_neg (by simpa using h)

theorem withoutParens_cons {t : Token} (h : ¬ t.IsParen) (l : List Token) :
    withoutParens (t :: l) = t :: withoutParens l :=
  List.filter_cons_of_pos (by simpa using h)

/-- Tokens of a sort that no parenthesis is of are all there. -/
theorem filter_withoutParens {p : Token → Bool} (hp : ∀ {t : Token}, t.IsParen → p t = false)
    (tokens : List Token) : (withoutParens tokens).filter p = tokens.filter p := by
  rw [withoutParens, List.filter_filter]
  refine List.filter_congr fun t _ => ?_
  by_cases ht : t.IsParen
  · rw [hp ht, Bool.false_and]
  · rw [decide_eq_true ht, Bool.and_true]

/-! ## What one token does -/

namespace Yard

variable {tokens : List Token} {y z : Yard} {t : Token}

theorem not_leftParen_of_isInside (h : isInside t) : t.kind ≠ .leftParen := by
  simpa [isInside] using h

theorem not_leftParen_of_bindsBefore {kind : Kind} (h : bindsBefore kind t) :
    t.kind ≠ .leftParen :=
  not_leftParen_of_isInside (Bool.and_eq_true_iff.mp h).1

/-- **What one token does to a yard.**  A closing parenthesis drops its partner; any other token
goes out or waits, behind some operators that go out. -/
inductive Moves (y : Yard) (t : Token) : Yard → Prop
  | opening (hk : t.kind = leftParen) : Moves y t ⟨y.out, t :: y.waiting, false⟩
  | closing {opening : Token} {waiting : List Token} (hk : t.kind = rightParen)
      (ho : opening.kind = leftParen) (hw : (y.release isInside).waiting = opening :: waiting) :
      Moves y t ⟨(y.release isInside).out, waiting, true⟩
  | out (hp : ¬ t.IsParen) (h : t.isLeaf ∨ t.kind.isStep ∧ y.afterOperand) :
      Moves y t ⟨t :: y.out, y.waiting, true⟩
  | waits {goes : Token → Bool} (hp : ¬ t.IsParen) (hleaf : t.isLeaf = false)
      (hstep : t.kind.isStep → y.afterOperand = false)
      (hgoes : ∀ {u}, goes u → u.kind ≠ leftParen) :
      Moves y t ⟨(y.release goes).out, t :: (y.release goes).waiting, false⟩

/-- **A step is one of the moves.** -/
theorem moves_of_step (h : y.step t = .ok z) : y.Moves t z := by
  -- An operator before its operand lets nothing out, which is a release too.
  have hkeep : y.release (fun _ => false) = y := by
    obtain ⟨out, waiting, after⟩ := y
    cases waiting <;> rfl
  unfold step at h
  split at h
  case isTrue hleaf =>
    cases h
    exact .out (fun hp => absurd hleaf (Bool.eq_false_iff.mp hp.not_isLeaf)) (.inl hleaf)
  case isFalse hleaf =>
    split at h
    case isTrue hk =>
      cases h
      exact .opening hk
    case isFalse hleft =>
      split at h
      case isTrue hk =>
        dsimp only at h
        split at h
        case h_1 => cases h
        case h_2 opening waiting hw =>
          cases h
          have hstop : ¬ isInside opening :=
            not_of_mem_head?_dropWhile (l := y.waiting) opening
              (by rw [show List.dropWhile _ _ = _ from hw]; rfl)
          exact .closing hk (by simpa [isInside] using hstop) hw
      case isFalse hright =>
        have hparen : ¬ t.IsParen := fun hp => hp.elim hleft hright
        split at h
        case isTrue hbehind =>
          cases h
          rw [Bool.and_eq_true] at hbehind
          rw [hbehind.2]
          exact .out hparen (.inr hbehind)
        case isFalse hbehind =>
          have hstep : t.kind.isStep → y.afterOperand = false := by
            intro hs
            simpa [hs] using hbehind
          have hother : t.isLeaf = false := Bool.eq_false_iff.mpr hleaf
          split at h
          case isTrue =>
            cases h
            have hwaits : y.Moves t ⟨(y.release fun _ => false).out,
                t :: (y.release fun _ => false).waiting, false⟩ :=
              .waits hparen hother hstep (by rintro _ ⟨⟩)
            rwa [hkeep] at hwaits
          case isFalse =>
            cases h
            exact .waits hparen hother hstep not_leftParen_of_bindsBefore

/-! ## The order -/

/-- The tokens that are out, and behind them the operators that wait. -/
def order (y : Yard) : List Token := y.out.reverse ++ withoutParens y.waiting

/-- **A yard keeps its tokens in order**: they are out or wait, put off at most, and no leaf
waits. -/
structure Orders (tokens : List Token) (y : Yard) : Prop where
  delays : Delays Token.isLeaf (withoutParens tokens) y.order
  waiting : ∀ t ∈ y.waiting, t.isLeaf = false ∧ t.kind ≠ rightParen

namespace Orders

theorem empty : Yard.empty.Orders [] := ⟨.refl _, by rintro _ ⟨⟩⟩

/-- Tokens let out that are no open parentheses stay where they are in the order. -/
theorem release (h : y.Orders tokens) {goes : Token → Bool}
    (hgoes : ∀ {u}, goes u → u.kind ≠ leftParen) : (y.release goes).Orders tokens where
  delays := by
    have htaken : withoutParens (y.waiting.takeWhile goes) = y.waiting.takeWhile goes := by
      refine List.filter_eq_self.mpr fun u hu => decide_eq_true fun hp => ?_
      exact hp.elim (hgoes (List.mem_takeWhile_imp hu))
        (h.waiting u (List.takeWhile_subset goes hu)).2
    -- What goes out stood in front of what still waits, so the order is the same.
    have hwaiting := congrArg withoutParens
      (List.takeWhile_append_dropWhile (p := goes) (l := y.waiting))
    rw [withoutParens_append, htaken] at hwaiting
    have hdelays := h.delays
    rw [order, ← hwaiting, ← List.append_assoc] at hdelays
    rwa [order, Yard.release, List.reverse_append, List.reverse_reverse]
  waiting u hu := h.waiting u (List.dropWhile_subset goes hu)

/-- What waits, less the parentheses, may be passed. -/
theorem isLeaf_waiting (h : y.Orders tokens) : ∀ u ∈ withoutParens y.waiting, u.isLeaf = false :=
  fun u hu => (h.waiting u (mem_withoutParens.mp hu).1).1

/-- **One token more.** -/
theorem step (h : y.Orders tokens) (hs : y.step t = .ok z) : z.Orders (tokens ++ [t]) := by
  have hitem (hp : ¬ t.IsParen) : withoutParens (tokens ++ [t]) = withoutParens tokens ++ [t] := by
    rw [withoutParens_append, withoutParens_cons hp]
    rfl
  have hparen (hp : t.IsParen) : withoutParens (tokens ++ [t]) = withoutParens tokens := by
    rw [withoutParens_append, withoutParens_cons_of_isParen hp]
    exact List.append_nil _
  cases moves_of_step hs with
  | opening hk =>
    refine ⟨?_, List.forall_mem_cons.mpr ⟨⟨Token.IsParen.not_isLeaf (.inl hk), ?_⟩, h.waiting⟩⟩
    · rw [hparen (.inl hk), order, withoutParens_cons_of_isParen (.inl hk)]
      exact h.delays
    · rw [hk]
      decide
  | closing hk ho hw =>
    have hreleased := h.release not_leftParen_of_isInside
    refine ⟨?_, fun u hu => hreleased.waiting u (hw ▸ List.mem_cons_of_mem _ hu)⟩
    have hdelays := hreleased.delays
    rw [order, hw, withoutParens_cons_of_isParen (.inl ho)] at hdelays
    rw [hparen (.inr hk)]
    exact hdelays
  | out hp _ =>
    refine ⟨?_, h.waiting⟩
    rw [hitem hp, order, List.reverse_cons, List.append_assoc]
    exact h.delays.insert h.isLeaf_waiting t
  | waits hp hleaf _ hgoes =>
    have hreleased := h.release hgoes
    have hright : t.kind ≠ rightParen := fun hk => hp (.inr hk)
    refine ⟨?_, List.forall_mem_cons.mpr ⟨⟨hleaf, hright⟩, hreleased.waiting⟩⟩
    rw [hitem hp, order, withoutParens_cons hp]
    exact hreleased.delays.insert hreleased.isLeaf_waiting t

theorem of_foldlM (h : tokens.foldlM Yard.step .empty = .ok y) : y.Orders tokens :=
  foldlM_append_induction step empty h

end Orders

/-- At the end nothing waits, and the tokens are those that are out. -/
theorem of_finish {reordered : List Token} (h : y.finish = .ok reordered) :
    (y.release isInside).waiting = [] ∧ reordered = (y.release isInside).out.reverse := by
  unfold finish at h
  dsimp only at h
  split at h
  case h_1 hw => exact ⟨hw, (Except.ok.inj h).symm⟩
  case h_2 => cases h

/-! ## Open parentheses -/

/-- How many parentheses are open. -/
def depth (y : Yard) : Nat := y.waiting.countP (·.kind = leftParen)

theorem depth_release {goes : Token → Bool} (hgoes : ∀ {u}, goes u → u.kind ≠ leftParen) :
    (y.release goes).depth = y.depth := by
  have hnone : (y.waiting.takeWhile goes).countP (·.kind = leftParen) = 0 :=
    List.countP_eq_zero.mpr fun u hu => by simpa using hgoes (List.mem_takeWhile_imp hu)
  have hsplit := congrArg (List.countP (·.kind = leftParen))
    (List.takeWhile_append_dropWhile (p := goes) (l := y.waiting))
  rw [List.countP_append, hnone, Nat.zero_add] at hsplit
  exact hsplit

/-- **One token opens or closes a parenthesis, or neither.** -/
theorem depth_step (h : y.step t = .ok z) :
    (t.kind = leftParen → z.depth = y.depth + 1) ∧ (t.kind = rightParen → y.depth = z.depth + 1) ∧
      (¬ t.IsParen → z.depth = y.depth) := by
  cases moves_of_step h with
  | opening hk =>
    refine ⟨fun _ => ?_, fun hr => ?_, fun hp => absurd (.inl hk) hp⟩
    · exact List.countP_cons_of_pos (by simp [hk])
    · rw [hk] at hr
      cases hr
  | closing hk ho hw =>
    refine ⟨fun hl => ?_, fun _ => ?_, fun hp => absurd (.inr hk) hp⟩
    · rw [hk] at hl
      cases hl
    · rw [← depth_release not_leftParen_of_isInside, depth, hw]
      exact List.countP_cons_of_pos (by simp [ho])
  | out hp _ =>
    exact ⟨fun hl => absurd (.inl hl) hp, fun hr => absurd (.inr hr) hp, fun _ => rfl⟩
  | waits hp _ _ hgoes =>
    refine ⟨fun hl => absurd (.inl hl) hp, fun hr => absurd (.inr hr) hp, fun _ => ?_⟩
    have hne : t.kind ≠ leftParen := fun hl => hp (.inl hl)
    refine Eq.trans ?_ (depth_release (y := y) hgoes)
    exact List.countP_cons_of_neg (p := fun u : Token => u.kind = leftParen) (by simpa using hne)

/-- **Only a closing parenthesis without a partner stops a yard.** -/
theorem exists_step (h : t.kind = rightParen → 0 < y.depth) : ∃ z, y.step t = .ok z := by
  unfold step
  dsimp only
  split
  · exact ⟨_, rfl⟩
  split
  · exact ⟨_, rfl⟩
  split
  · rename_i hk
    split
    · rename_i hw
      have hdepth : (y.release isInside).depth = 0 := by rw [depth, hw]; rfl
      rw [depth_release not_leftParen_of_isInside] at hdepth
      have hpos := h hk
      omega
    · exact ⟨_, rfl⟩
  split
  · exact ⟨_, rfl⟩
  split
  · exact ⟨_, rfl⟩
  · exact ⟨_, rfl⟩

/-- At the end everything that waits goes out, unless a parenthesis is open. -/
theorem exists_finish (h : y.depth = 0) : ∃ reordered, y.finish = .ok reordered := by
  have hinside : ∀ u ∈ y.waiting, isInside u := by
    intro u hu
    simpa [isInside] using List.countP_eq_zero.mp h u hu
  have hw : (y.release isInside).waiting = [] := List.dropWhile_eq_nil_iff.mpr hinside
  refine ⟨(y.release isInside).out.reverse, ?_⟩
  unfold finish
  dsimp only
  rw [hw]

end Yard

/-! ## All tokens -/

section ToPostfix

variable {tokens reordered : List Token} (h : toPostfix tokens = .ok reordered)

include h

/-- **Reordered tokens are the tokens without the parentheses, with operators put off.** -/
theorem delays_of_toPostfix : Delays Token.isLeaf (withoutParens tokens) reordered := by
  obtain ⟨y, hy, hfinish⟩ := exists_of_bind_eq_ok h
  obtain ⟨hw, rfl⟩ := Yard.of_finish hfinish
  have hdelays := ((Yard.Orders.of_foldlM hy).release Yard.not_leftParen_of_isInside).delays
  rw [Yard.order, hw] at hdelays
  exact List.append_nil (Yard.release _ y).out.reverse ▸ hdelays

/-- **Reordering drops the parentheses, and nothing else.** -/
theorem mem_toPostfix {t : Token} : t ∈ reordered ↔ t ∈ tokens ∧ ¬ t.IsParen := by
  rw [← (delays_of_toPostfix h).perm.mem_iff, mem_withoutParens]

/-- **Reordering adds no tokens** of any sort. -/
theorem countP_toPostfix (p : Token → Bool) : reordered.countP p ≤ tokens.countP p := by
  rw [← (delays_of_toPostfix h).perm.countP_eq]
  exact List.filter_sublist.countP_le

end ToPostfix

end Scrawl
