import Mathlib.Data.List.NodupEquivFin
import Mathlib.Data.List.Pairwise
import Scrawl.Proofs.Expression.Account

/-!
# Proofs/Expression/Postfix — what reordering does with any tokens

Reordering takes every list of tokens, also those of no expression.  It succeeds exactly if the
parentheses are balanced, since a yard opens and closes them as a bracket word does
(`Yard.exists_foldlM_iff`).  Where a token goes is a matter of places and not of what it looks like,
as equal tokens may occur more than once; `Delays.exists_place` gives the places that a delay moves
its elements to.

Whether a step stands behind an operand is decided twice.  A yard carries a flag from token to
token; a scan looks back over the steps at the end of its tokens.  Both decide alike
(`endsOperand_eq_afterOperand`).
-/

namespace Scrawl

open Kind (leftParen rightParen)

/-! ## The places of delayed elements -/

namespace Delays

variable {α β : Type} {firm : α → Bool} {l m : List α}

/-- A delay of the images of some elements is one of the elements themselves. -/
theorem exists_map_eq {f : β → α} {xs : List β} (h : Delays firm l m) (hxs : xs.map f = l) :
    ∃ ys, Delays (firm ∘ f) xs ys ∧ ys.map f = m := by
  induction h generalizing xs with
  | refl => exact ⟨xs, .refl xs, hxs⟩
  | cons a _ ih =>
    obtain ⟨x, xs', rfl, rfl, hxs'⟩ := List.map_eq_cons_iff.mp hxs
    obtain ⟨ys, hdelays, rfl⟩ := ih hxs'
    exact ⟨x :: ys, .cons x hdelays, rfl⟩
  | pass ha b l =>
    obtain ⟨x, xs₁, rfl, rfl, hxs₁⟩ := List.map_eq_cons_iff.mp hxs
    obtain ⟨x', xs₂, rfl, rfl, rfl⟩ := List.map_eq_cons_iff.mp hxs₁
    have hx : (firm ∘ f) x = false := ha
    exact ⟨x' :: x :: xs₂, .pass hx x' xs₂, rfl⟩
  | trans _ _ ih ih' =>
    obtain ⟨ys, hdelays, hys⟩ := ih hxs
    obtain ⟨zs, hdelays', hzs⟩ := ih' hys
    exact ⟨zs, hdelays.trans hdelays', hzs⟩

/-- An order that elements which are not firm cannot break is kept. -/
theorem pairwise {R : α → α → Prop} (h : Delays firm l m) (hR : ∀ a b, firm b = false → R a b)
    (hl : l.Pairwise R) : m.Pairwise R := by
  induction h with
  | refl => exact hl
  | cons a h ih =>
    obtain ⟨ha, hl⟩ := List.pairwise_cons.mp hl
    exact List.pairwise_cons.mpr ⟨fun b hb => ha b (h.perm.mem_iff.mpr hb), ih hl⟩
  | pass ha b l =>
    obtain ⟨hfirst, hl⟩ := List.pairwise_cons.mp hl
    obtain ⟨hsecond, hl⟩ := List.pairwise_cons.mp hl
    refine List.pairwise_cons.mpr ⟨List.forall_mem_cons.mpr ⟨hR _ _ ha, hsecond⟩, ?_⟩
    exact List.pairwise_cons.mpr ⟨fun c hc => hfirst c (List.mem_cons_of_mem b hc), hl⟩
  | trans _ _ ih ih' => exact ih' (ih hl)

/-- **The elements of a delay have their places in it**, and a firm one stays in front of all that
stood behind it. -/
theorem exists_place (h : Delays firm l m) : ∃ place : Fin l.length ≃ Fin m.length,
    (∀ i, m.get (place i) = l.get i) ∧ ∀ i j, i < j → firm (l.get i) → place i < place j := by
  -- The old places in their new order are a delay of all places.
  obtain ⟨order, hdelays, rfl⟩ := h.exists_map_eq (List.map_get_finRange l)
  have hnodup : order.Nodup := hdelays.perm.nodup_iff.mp (List.nodup_finRange _)
  have hmem (i : Fin l.length) : i ∈ order := hdelays.perm.mem_iff.mp (List.mem_finRange i)
  have hsorted : order.Pairwise fun i j => firm (l.get j) → i < j := by
    refine hdelays.pairwise (fun i j hj hfirm => absurd hfirm (Bool.eq_false_iff.mp hj)) ?_
    refine List.Pairwise.imp ?_ (List.pairwise_lt_finRange l.length)
    exact fun hlt _ => hlt
  obtain ⟨numbering, hget⟩ : ∃ numbering : Fin order.length ≃ Fin l.length,
      ∀ i, order.get (numbering.symm i) = i :=
    ⟨hnodup.getEquivOfForallMemList order hmem,
      (hnodup.getEquivOfForallMemList order hmem).apply_symm_apply⟩
  refine ⟨numbering.symm.trans (finCongr (List.length_map l.get).symm), fun i => ?_, ?_⟩
  · rw [List.get_eq_getElem, List.getElem_map]
    exact congrArg l.get (hget i)
  · intro i j hij hfirm
    change numbering.symm i < numbering.symm j
    refine lt_of_not_ge fun hle => ?_
    have hne : numbering.symm j ≠ numbering.symm i := numbering.symm.injective.ne hij.ne'
    have hrel := hsorted.rel_get_of_lt (lt_of_le_of_ne hle hne)
    rw [hget, hget] at hrel
    exact absurd (hrel hfirm) hij.asymm

end Delays

/-! ## Balanced parentheses -/

/-- **The parentheses among some tokens**, as a bracket word. -/
def parenWord (tokens : List Token) : List Kind := (tokens.filter (·.IsParen)).map Token.kind

theorem parenWord_cons_of_isParen {t : Token} (h : t.IsParen) (tokens : List Token) :
    parenWord (t :: tokens) = t.kind :: parenWord tokens := by
  rw [parenWord, List.filter_cons_of_pos (by simpa using h)]
  rfl

theorem parenWord_cons {t : Token} (h : ¬ t.IsParen) (tokens : List Token) :
    parenWord (t :: tokens) = parenWord tokens := by
  rw [parenWord, List.filter_cons_of_neg (by simpa using h)]
  rfl

namespace Yard

variable {tokens : List Token} {y z : Yard} {t : Token}

/-- **A yard opens and closes parentheses as a bracket word does.** -/
theorem openBehind_of_step (h : y.step t = .ok z) (tokens : List Token) :
    openBehind (Parser.parens y.depth) (parenWord (t :: tokens)) =
      openBehind (Parser.parens z.depth) (parenWord tokens) := by
  obtain ⟨hopen, hclose, hkeep⟩ := depth_step h
  by_cases hp : t.IsParen
  · rw [parenWord_cons_of_isParen hp]
    refine openBehind_cons ?_ _
    obtain hk | hk := hp
    · rw [hk, hopen hk]
      rfl
    · rw [hk, hclose hk]
      rfl
  · rw [parenWord_cons hp, hkeep hp]

/-- A yard stops at a closing parenthesis that has none to close, as a bracket word does. -/
theorem openBehind_of_step_error {e : ParseError} (h : y.step t = .error e)
    (tokens : List Token) :
    openBehind (Parser.parens y.depth) (parenWord (t :: tokens)) = none := by
  have hstops : t.kind = rightParen ∧ y.depth = 0 := by
    by_contra hgoes
    obtain ⟨z, hz⟩ := exists_step (y := y) (t := t) fun hk =>
      Nat.pos_of_ne_zero fun hdepth => hgoes ⟨hk, hdepth⟩
    rw [hz] at h
    cases h
  rw [parenWord_cons_of_isParen (.inr hstops.1), hstops.1, hstops.2]
  rfl

/-- **A yard takes some tokens exactly if the parentheses among them can be read**, and the same are
open behind them. -/
theorem exists_foldlM_iff (opened : List Kind) :
    (∃ z, tokens.foldlM step y = .ok z ∧ Parser.parens z.depth = opened) ↔
      openBehind (Parser.parens y.depth) (parenWord tokens) = some opened := by
  induction tokens generalizing y with
  | nil =>
    refine ⟨?_, fun h => ⟨y, rfl, Option.some.inj h⟩⟩
    rintro ⟨z, hz, rfl⟩
    cases hz
    rfl
  | cons t tokens ih =>
    cases hstep : y.step t with
    | ok z => rw [foldlM_cons_ok hstep, openBehind_of_step hstep, ih]
    | error e =>
      rw [openBehind_of_step_error hstep, List.foldlM_cons, hstep]
      refine ⟨?_, by rintro ⟨⟩⟩
      rintro ⟨z, hz, -⟩
      cases hz

theorem depth_of_finish {reordered : List Token} (h : y.finish = .ok reordered) : y.depth = 0 := by
  rw [← depth_release not_leftParen_of_isInside, depth, (of_finish h).1]
  rfl

end Yard

/-- **Reordering succeeds exactly on balanced parentheses.** -/
theorem exists_toPostfix_iff (tokens : List Token) :
    (∃ reordered, toPostfix tokens = .ok reordered) ↔ WellBracketed (parenWord tokens) := by
  have htaken : WellBracketed (parenWord tokens) ↔
      ∃ y, tokens.foldlM Yard.step .empty = .ok y ∧ Parser.parens y.depth = [] :=
    (Yard.exists_foldlM_iff (y := .empty) []).symm
  rw [htaken]
  constructor
  · rintro ⟨reordered, h⟩
    obtain ⟨y, hy, hfinish⟩ := exists_of_bind_eq_ok h
    refine ⟨y, hy, ?_⟩
    rw [Yard.depth_of_finish hfinish]
    rfl
  · rintro ⟨y, hy, hdepth⟩
    obtain ⟨reordered, hfinish⟩ := Yard.exists_finish ((List.replicate_eq_nil_iff _).mp hdepth)
    refine ⟨reordered, ?_⟩
    rw [toPostfix, hy]
    exact hfinish

/-- **Reordering is a permutation that succeeds exactly on balanced parentheses.**  For any tokens
at all it succeeds if and only if the parentheses among them are balanced.  Then every other token
has its place among the reordered ones, and there are no more.  An operand, or the mark of a call,
stays in front of all tokens that stood behind it: so operands keep their order, and an operator
comes behind every operand that stood in front of it. -/
theorem toPostfix_permutes (tokens : List Token) :
    ((∃ reordered, toPostfix tokens = .ok reordered) ↔ WellBracketed (parenWord tokens)) ∧
    ∀ reordered, toPostfix tokens = .ok reordered →
      ∃ place : Fin (withoutParens tokens).length ≃ Fin reordered.length,
        (∀ i, reordered.get (place i) = (withoutParens tokens).get i) ∧
        ∀ i j, i < j → ((withoutParens tokens).get i).isLeaf → place i < place j :=
  ⟨exists_toPostfix_iff tokens, fun _ h => (delays_of_toPostfix h).exists_place⟩

/-- Tokens of no expression, with one of them twice: `* a (, a)`. -/
theorem toPostfix_permutes_repeated :
    let times : Token := ⟨.multiply, "*", .none⟩
    let a : Token := ⟨.identifier, "a", .none⟩
    let comma : Token := ⟨.comma, ",", .none⟩
    let tokens : List Token :=
      [times, a, ⟨leftParen, "(", .none⟩, comma, a, ⟨rightParen, ")", .none⟩]
    WellBracketed (parenWord tokens) ∧
      toPostfix tokens = .ok [a, a, comma, times] ∧
      ∃ place : Fin 4 ≃ Fin 4,
        (∀ i, [a, a, comma, times].get (place i) = [times, a, comma, a].get i) ∧
        place 1 < place 2 ∧ place 1 < place 3 := by
  intro times a comma tokens
  have hpost : toPostfix tokens = .ok [a, a, comma, times] := rfl
  obtain ⟨hiff, hplaces⟩ := toPostfix_permutes tokens
  obtain ⟨place, hget, hfirm⟩ := hplaces _ hpost
  refine ⟨hiff.mp ⟨_, hpost⟩, hpost, place, hget, ?_, ?_⟩
  · exact hfirm (1 : Fin 4) (2 : Fin 4) (by decide) rfl
  · exact hfirm (1 : Fin 4) (3 : Fin 4) (by decide) rfl

/-! ## Behind an operand -/

namespace Yard

variable {tokens : List Token} {y z : Yard} {t : Token}

/-- **The flag of a yard behind one more token.** -/
theorem afterOperand_of_step (h : y.step t = .ok z) : z.afterOperand = t.ends y.afterOperand := by
  unfold Token.ends
  cases moves_of_step h with
  | opening hk =>
    rw [hk, Token.IsParen.not_isLeaf (.inl hk)]
    rfl
  | closing hk _ _ =>
    rw [hk]
    simp [Kind.isStep]
  | out _ hended =>
    split
    case isTrue hstep =>
      have hleaf : t.isLeaf = false := by
        revert hstep
        unfold Token.isLeaf
        cases t.kind <;> decide
      exact (hended.resolve_left (Bool.eq_false_iff.mp hleaf)).2.symm
    case isFalse hstep => rw [hended.resolve_right fun hbehind => hstep hbehind.1, Bool.true_or]
  | waits hp hleaf hstep _ =>
    split
    case isTrue hs => exact (hstep hs).symm
    case isFalse =>
      have hright : t.kind ≠ rightParen := fun hk => hp (.inr hk)
      rw [hleaf, decide_eq_false hright]
      rfl

/-- **The flag that goes from token to token is what a look back finds.** -/
theorem endsOperand_of_foldlM (h : tokens.foldlM step .empty = .ok y) :
    endsOperand tokens.reverse = y.afterOperand := by
  refine foldlM_append_induction (I := fun l y => endsOperand l.reverse = y.afterOperand)
    (l := []) (fun hl hs => ?_) rfl h
  rw [List.reverse_concat, endsOperand_cons, hl, afterOperand_of_step hs]

/-- A step waits for an operand, or goes out behind the one that has ended. -/
theorem step_of_isStep (h : t.kind.isStep) :
    y.step t = .ok (if y.afterOperand then ⟨t :: y.out, y.waiting, true⟩
      else ⟨y.out, t :: y.waiting, false⟩) := by
  obtain ⟨out, waiting, after⟩ := y
  cases after with
  | true => exact step_behind h
  | false => exact step_leading (Kind.isLeading_of_isStep h)

end Yard

/-- A minus sign is a negation, unless an operand has ended. -/
theorem Scan.push_minus {s : Scan} {t : Token} (h : t.kind = .subtract) :
    s.push t = .ok ⟨s.depth,
      (if endsOperand s.recent then t else { t with kind := .negative }) :: s.recent, s.nodes⟩ := by
  unfold push
  rw [h]
  cases endsOperand s.recent <;> rfl

/-- **Scanning and reordering agree on what ends an operand.**  Behind any tokens that a yard has
taken, a look back over the steps at their end finds an operand exactly if the yard is behind one.
So a minus sign is scanned as a negation exactly where a step would be taken to stand before its
operand: it waits, and does not go out. -/
theorem endsOperand_eq_afterOperand {tokens : List Token} {y : Yard}
    (h : tokens.foldlM Yard.step .empty = .ok y) :
    endsOperand tokens.reverse = y.afterOperand ∧
      ∀ (depth : Nat) (nodes : List Node) (minus step : Token), minus.kind = .subtract →
        step.kind.isStep →
          (Scan.push ⟨depth, tokens.reverse, nodes⟩ minus =
              .ok ⟨depth, { minus with kind := .negative } :: tokens.reverse, nodes⟩ ↔
            y.step step = .ok ⟨y.out, step :: y.waiting, false⟩) := by
  have hagree := Yard.endsOperand_of_foldlM h
  refine ⟨hagree, fun depth nodes minus step hminus hstep => ?_⟩
  rw [Scan.push_minus hminus, Yard.step_of_isStep hstep, hagree]
  cases hafter : y.afterOperand with
  | false => exact ⟨fun _ => rfl, fun _ => rfl⟩
  | true =>
    refine ⟨fun hsigned => ?_, fun hwaits => ?_⟩
    · have hrecent := congrArg Scan.recent (Except.ok.inj hsigned)
      have hkind : minus.kind = .negative := congrArg Token.kind (List.cons.inj hrecent).1
      cases hminus.symm.trans hkind
    · cases congrArg Yard.afterOperand (Except.ok.inj hwaits)

/-- Two steps behind a group and two behind an operator: `(a) ++ --` and `a * ++ --`. -/
theorem endsOperand_eq_afterOperand_steps :
    let a : Token := ⟨.identifier, "a", .none⟩
    let times : Token := ⟨.multiply, "*", .none⟩
    let up : Token := ⟨.increment, "++", .none⟩
    let down : Token := ⟨.decrement, "--", .none⟩
    let minus : Token := ⟨.subtract, "-", .none⟩
    let negation : Token := ⟨.negative, "-", .none⟩
    let ended : List Token := [down, up, ⟨rightParen, ")", .none⟩, a, ⟨leftParen, "(", .none⟩]
    let wanting : List Token := [down, up, times, a]
    endsOperand ended = true ∧
      Scan.push ⟨0, ended, []⟩ minus ≠ .ok ⟨0, negation :: ended, []⟩ ∧
      endsOperand wanting = false ∧
      Scan.push ⟨0, wanting, []⟩ minus = .ok ⟨0, negation :: wanting, []⟩ := by
  intro a times up down minus negation ended wanting
  have hended : ended.reverse.foldlM Yard.step .empty = .ok ⟨[down, up, a], [], true⟩ := rfl
  have hwanting : wanting.reverse.foldlM Yard.step .empty =
      .ok ⟨[a], [down, up, times], false⟩ := rfl
  obtain ⟨hends, hsign⟩ := endsOperand_eq_afterOperand hended
  obtain ⟨hends', hsign'⟩ := endsOperand_eq_afterOperand hwanting
  refine ⟨hends, fun hpush => ?_, hends', ?_⟩
  · have hwaits := (hsign 0 [] minus up rfl rfl).mp hpush
    rw [Yard.step_of_isStep rfl] at hwaits
    cases congrArg Yard.afterOperand (Except.ok.inj hwaits)
  · exact (hsign' 0 [] minus up rfl rfl).mpr rfl

end Scrawl
