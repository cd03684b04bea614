import Scrawl.Proofs.Expression.Grammar
import Scrawl.Proofs.Expression.Order
import Scrawl.Proofs.Parser.Brackets
import Scrawl.Proofs.Parser.Trees

/-!
# Proofs/Expression/Account — every token of an expression is in its tree

The **skeleton** of an expression is what is left of its tokens when the arguments of calls are
taken out: calls are marked at their names, and a minus sign where no operand has ended is a
negation.  It is read off the tokens alone (`skeleton`), and a scan of the tokens leaves it with a
node for each name and call (`Parser.scanWith_gains`).

The parentheses of a scan are paired as far as they are not counted as open (`Scan.Paired`), so a
scan with none open can be reordered.  With `Proofs/Expression/Order` the operands of the skeleton
are the leaves of the tree and its operators those of the tree (`expression_accounts`).
-/

namespace Scrawl

open Kind (leftParen rightParen identifier)

/-! ## Skeletons -/

/-- How many parentheses are open behind a token. -/
def Kind.deepen (depth : Nat) : Kind → Nat
  | .leftParen => depth + 1
  | .rightParen => depth - 1
  | _ => depth

/-- The mark of a call, which stands where its name stood. -/
def Token.asCall (t : Token) : Token := { t with kind := .functionWord }

/-- **The tokens outside of the arguments of calls**, with so many parentheses open since the last
call started.  A name with a parenthesis behind it starts a call and is marked. -/
def outsideCalls : Nat → List Token → List Token
  | _, [] => []
  | 0, [t] => [t]
  | 0, t :: u :: ts =>
    if t.kind = identifier ∧ u.kind = leftParen then t.asCall :: outsideCalls 1 ts
    else t :: outsideCalls 0 (u :: ts)
  | depth + 1, t :: ts => outsideCalls (t.kind.deepen (depth + 1)) ts

namespace Token

/-- The operator that a token stands for where an operand has ended or has not. -/
def signedAfter (ended : Bool) (t : Token) : Token := if ended then t else t.asSign

/-- An operand has ended behind a token, if one has or has not before it. -/
def ends (ended : Bool) (t : Token) : Bool :=
  if t.kind.isStep then ended else t.isLeaf || t.kind = rightParen

end Token

/-- **Some tokens with their negations marked**, behind an operand that has ended or has not. -/
def markSigns : Bool → List Token → List Token
  | _, [] => []
  | ended, t :: ts => t.signedAfter ended :: markSigns (t.ends ended) ts

/-- **The skeleton of an expression.** -/
def skeleton (ts : List Token) : List Token := markSigns false (outsideCalls 0 ts)

/-- The skeleton of `-f(1)`. -/
example : (skeleton [⟨.subtract, "-", .none⟩, ⟨identifier, "f", .none⟩, ⟨leftParen, "(", .none⟩,
    ⟨.int, "1", .none⟩, ⟨rightParen, ")", .none⟩]).map Token.kind = [.negative, .functionWord] := by
  decide

/-! ### Calls and their arguments -/

theorem outsideCalls_cons {t : Token} {ts : List Token}
    (h : t.kind = identifier → ∀ u ∈ ts.head?, u.kind ≠ leftParen) :
    outsideCalls 0 (t :: ts) = t :: outsideCalls 0 ts := by
  cases ts with
  | nil => rfl
  | cons u ts => rw [outsideCalls, if_neg fun ⟨hk, hu⟩ => h hk u rfl hu]

theorem Kind.deepen_count_of_nest {k : Kind} {opened opened' : List Kind}
    (h : k.nest opened = some opened') :
    k.deepen (opened.count leftParen + 1) = opened'.count leftParen + 1 := by
  unfold nest at h
  split at h
  case h_1 =>
    cases h
    rw [List.count_cons_self]
    rfl
  case h_2 =>
    cases h
    rw [List.count_cons_of_ne (by decide)]
    rfl
  case h_3 =>
    cases h
    rw [List.count_cons_self]
    rfl
  case h_4 =>
    cases h
    rw [List.count_cons_of_ne (by decide)]
    rfl
  case h_5 => cases h
  case h_6 => cases h
  case h_7 =>
    cases h
    unfold deepen
    split
    · contradiction
    · contradiction
    · rfl

/-- **What is bracketed properly within a call is left out.** -/
theorem outsideCalls_append {opened opened' : List Kind} {xs : List Token}
    (h : openBehind opened (xs.map Token.kind) = some opened') (ts : List Token) :
    outsideCalls (opened.count leftParen + 1) (xs ++ ts) =
      outsideCalls (opened'.count leftParen + 1) ts := by
  induction xs generalizing opened with
  | nil =>
    obtain rfl : opened = opened' := Option.some.inj h
    rfl
  | cons t xs ih =>
    rw [List.map_cons, openBehind, List.foldlM_cons] at h
    obtain ⟨opened₁, hnest, h⟩ := Option.bind_eq_some_iff.mp h
    rw [List.cons_append, outsideCalls, Kind.deepen_count_of_nest hnest]
    exact ih h

theorem outsideCalls_call {name opening closing : Token} {xs : List Token}
    (hk : name.kind = identifier) (ho : opening.kind = leftParen) (hc : closing.kind = rightParen)
    (h : openBehind [] (xs.map Token.kind) = some []) (ts : List Token) :
    outsideCalls 0 (name :: opening :: (xs ++ [closing]) ++ ts) =
      name.asCall :: outsideCalls 0 ts := by
  have hskip := outsideCalls_append h ([closing] ++ ts)
  rw [List.count_nil] at hskip
  rw [List.cons_append, List.cons_append, outsideCalls, if_pos ⟨hk, ho⟩, List.append_assoc, hskip,
    List.singleton_append, outsideCalls, hc]
  rfl

/-! ### Signs -/

theorem endsOperand_cons (t : Token) (recent : List Token) :
    endsOperand (t :: recent) = t.ends (endsOperand recent) := by
  unfold Token.ends
  split
  case isTrue hstep => exact endsOperand_cons_isStep hstep recent
  case isFalse hstep => simp [endsOperand, hstep, Token.isLeaf]

namespace Token

variable {t : Token}

theorem signedAfter_of_ne (h : t.kind ≠ .subtract) (ended : Bool) : t.signedAfter ended = t := by
  rw [signedAfter, asSign, if_neg h, ite_self]

/-- Only a minus sign changes its kind. -/
theorem kind_signedAfter (t : Token) (ended : Bool) :
    (t.signedAfter ended).kind = t.kind ∨
      t.kind = .subtract ∧ (t.signedAfter ended).kind = .negative := by
  by_cases hk : t.kind = .subtract
  · cases ended with
    | true => exact .inl rfl
    | false =>
      refine .inr ⟨hk, ?_⟩
      change t.asSign.kind = .negative
      rw [asSign, if_pos hk]
  · rw [signedAfter_of_ne hk]
    exact .inl rfl

theorem ends_signedAfter (t : Token) (ended : Bool) :
    (t.signedAfter ended).ends ended = t.ends ended := by
  unfold ends isLeaf
  obtain hk | ⟨hk, hsigned⟩ := t.kind_signedAfter ended
  · rw [hk]
  · rw [hk, hsigned]
    rfl

end Token

/-! ## Scans -/

namespace Scan

variable {s s₁ s' : Scan} {t u : Token} {n : Node} {xs ys : List Token}

/-- **The parentheses of a scan are paired**, except for those that it counts as open: a yard takes
all of its tokens. -/
def Paired (s : Scan) : Prop :=
  ∃ y, s.recent.reverse.foldlM Yard.step .empty = .ok y ∧ y.depth = s.depth

theorem paired_empty : Scan.empty.Paired := ⟨_, rfl, rfl⟩

/-- One more token that is counted if it is a parenthesis. -/
theorem Paired.cons (h : s.Paired) (hrecent : s'.recent = u :: s.recent)
    (hopening : u.kind = leftParen → s'.depth = s.depth + 1)
    (hclosing : u.kind = rightParen → s.depth = s'.depth + 1)
    (hplain : ¬ u.IsParen → s'.depth = s.depth) : s'.Paired := by
  obtain ⟨y, hy, hdepth⟩ := h
  obtain ⟨z, hz⟩ := Yard.exists_step (y := y) (t := u) fun hk => by rw [hdepth, hclosing hk]; omega
  obtain ⟨hopen, hclose, hkeep⟩ := Yard.depth_step hz
  refine ⟨z, ?_, ?_⟩
  · rw [hrecent, List.reverse_cons, foldlM_append_ok hy, foldlM_cons_ok hz]
    rfl
  · by_cases hleft : u.kind = leftParen
    · rw [hopen hleft, hopening hleft, hdepth]
    by_cases hright : u.kind = rightParen
    · have := hclose hright
      have := hclosing hright
      omega
    · have hparen : ¬ u.IsParen := fun hp => hp.elim hleft hright
      rw [hkeep hparen, hplain hparen, hdepth]

/-- **A scan with no parenthesis open can be reordered.** -/
theorem Paired.exists_toPostfix (h : s.Paired) (hdepth : s.depth = 0) :
    ∃ reordered, toPostfix s.recent.reverse = .ok reordered := by
  obtain ⟨y, hy, hy'⟩ := h
  obtain ⟨reordered, hfinish⟩ := Yard.exists_finish (hy'.trans hdepth)
  refine ⟨reordered, ?_⟩
  rw [toPostfix, hy]
  exact hfinish

/-- What a token leaves in a scan. -/
theorem recent_of_push (hs : s.push t = .ok s') :
    s'.recent = t.signedAfter (endsOperand s.recent) :: s.recent ∧ s'.nodes = s.nodes := by
  rcases push_cases hs with ⟨hk, rfl⟩ | ⟨hk, rfl⟩ | ⟨-, -, -, ⟨hk, hended, rfl⟩ | ⟨hsign, rfl⟩⟩
  · rw [Token.signedAfter_of_ne (by rw [hk]; decide)]
    exact ⟨rfl, rfl⟩
  · rw [Token.signedAfter_of_ne (by rw [hk]; decide)]
    exact ⟨rfl, rfl⟩
  · rw [Token.signedAfter, hended, Token.asSign, if_pos hk]
    exact ⟨rfl, rfl⟩
  · have hsame : t.signedAfter (endsOperand s.recent) = t := by
      by_cases hk : t.kind = .subtract
      · rw [hsign hk]
        rfl
      · exact Token.signedAfter_of_ne hk _
    rw [hsame]
    exact ⟨rfl, rfl⟩

theorem Paired.push (h : s.Paired) (hs : s.push t = .ok s') (hstop : ¬ stopsAt s.depth t.kind) :
    s'.Paired := by
  have htakes := takes_of_push hs hstop
  have hrecent := (recent_of_push hs).1
  obtain hk | ⟨hk, hu⟩ := t.kind_signedAfter (endsOperand s.recent)
  · refine h.cons hrecent (by rw [hk]; exact htakes.opening) (by rw [hk]; exact htakes.closing) ?_
    intro hparen
    rw [Token.IsParen, hk, not_or] at hparen
    exact (htakes.plain hparen.1 hparen.2).2
  · refine h.cons hrecent (by rw [hu]; rintro ⟨⟩) (by rw [hu]; rintro ⟨⟩) fun _ => ?_
    exact (htakes.plain (by rw [hk]; decide) (by rw [hk]; decide)).2

/-- No name is pushed: the word that starts a definition cannot stand in an expression. -/
theorem isName_of_push (hs : s.push t = .ok s') (hstop : ¬ stopsAt s.depth t.kind)
    (hname : t.kind ≠ identifier) : (t.signedAfter (endsOperand s.recent)).isName = false := by
  obtain hk | ⟨-, hk⟩ := t.kind_signedAfter (endsOperand s.recent)
  · have hword : t.kind ≠ .functionWord := by
      intro hword
      have hplain := (takes_of_push hs hstop).plain (by rw [hword]; decide) (by rw [hword]; decide)
      rw [hword] at hplain
      cases hplain.1
    simp [Token.isName, hk, hname, hword]
  · rw [Token.isName, hk]
    rfl

/-- **A scan gains some tokens**, with a node for each name and call among them. -/
structure Gains (s : Scan) (xs : List Token) (s' : Scan) : Prop where
  recent : s'.recent = xs.reverse ++ s.recent
  nodes : ∃ qs, s'.nodes = qs.reverse ++ s.nodes ∧
    List.Forall₂ Token.Denotes (xs.filter Token.isName) qs
  paired : s.Paired → s'.Paired

namespace Gains

theorem refl (s : Scan) : s.Gains [] s := ⟨rfl, ⟨[], rfl, .nil⟩, id⟩

theorem trans (h : s.Gains xs s₁) (h' : s₁.Gains ys s') : s.Gains (xs ++ ys) s' where
  recent := by rw [h'.recent, h.recent, List.reverse_append, List.append_assoc]
  nodes := by
    obtain ⟨qs, hqs, hnames⟩ := h.nodes
    obtain ⟨rs, hrs, hnames'⟩ := h'.nodes
    refine ⟨qs ++ rs, ?_, ?_⟩
    · rw [hrs, hqs, List.reverse_append, List.append_assoc]
    · rw [List.filter_append]
      exact List.rel_append hnames hnames'
  paired hs := h'.paired (h.paired hs)

/-- A name or a call. -/
theorem operand (s : Scan) (ht : t.isName) (hn : t.Denotes n) : s.Gains [t] (s.operand t n) where
  recent := rfl
  nodes := by
    refine ⟨[n], rfl, ?_⟩
    rw [List.filter_cons_of_pos ht]
    exact .cons hn .nil
  paired hs := by
    have hparen : ¬ t.IsParen := fun hp => by
      have := hp.not_isLeaf
      rw [Token.isLeaf_of_isName ht] at this
      cases this
    exact hs.cons rfl (fun hk => absurd (.inl hk) hparen) (fun hk => absurd (.inr hk) hparen)
      fun _ => rfl

/-- Any other token. -/
theorem push (hs : s.push t = .ok s') (hstop : ¬ stopsAt s.depth t.kind)
    (hname : t.kind ≠ identifier) : s.Gains [t.signedAfter (endsOperand s.recent)] s' where
  recent := (recent_of_push hs).1
  nodes := by
    refine ⟨[], (recent_of_push hs).2, ?_⟩
    rw [List.filter_cons_of_neg (by simp [isName_of_push hs hstop hname])]
    exact .nil
  paired hpaired := hpaired.push hs hstop

/-- One token of a skeleton, and then the others. -/
theorem signed (h : s.Gains [t.signedAfter (endsOperand s.recent)] s₁)
    (h' : s₁.Gains (markSigns (endsOperand s₁.recent) xs) s') :
    s.Gains (markSigns (endsOperand s.recent) (t :: xs)) s' := by
  have hrecent : s₁.recent = t.signedAfter (endsOperand s.recent) :: s.recent := h.recent
  rw [hrecent, endsOperand_cons, Token.ends_signedAfter] at h'
  exact h.trans h'

end Gains

/-- All tokens of a scan that started with none. -/
theorem Gains.reverse_recent (h : Scan.empty.Gains xs s) : s.recent.reverse = xs := by
  rw [h.recent, List.reverse_append, List.reverse_reverse]
  rfl

/-- **The tree of a scan holds all that it gained**, with a node for each name and none over. -/
theorem Gains.of_toPostfix (h : Scan.empty.Gains xs s) (hs : s.Holds) {reordered : List Token}
    (hpost : toPostfix s.recent.reverse = .ok reordered) :
    FailsOnly ParseError.IsComplaint (buildTree reordered s.nodes.reverse) ∧
      ∀ n left, buildTree reordered s.nodes.reverse = .ok (n, left) →
        List.Forall₂ Token.Denotes (xs.filter Token.isLeaf) n.leaves ∧
          n.operators.Perm (xs.filter Token.isOperator) ∧ left = [] := by
  obtain ⟨qs, hqs, hnames⟩ := h.nodes
  have hnodes : s.nodes.reverse = qs := by
    rw [hqs, List.reverse_append, List.reverse_reverse]
    rfl
  have hitems : ∀ t ∈ reordered, t.isLeaf ∨ t.isOperator := by
    intro t ht
    obtain ⟨hmem, hparen⟩ := (mem_toPostfix hpost).mp ht
    have hitem := (hs.recent t (List.mem_reverse.mp hmem)).resolve_right hparen
    exact hitem.isLeaf_or_isOperator
  rw [h.reverse_recent] at hpost
  obtain ⟨hleaves, hoperators⟩ := order_of_toPostfix hpost
  have hqueue : List.Forall₂ Token.Denotes (reordered.filter Token.isName) qs := by
    rwa [Token.filter_isName, hleaves, ← Token.filter_isName]
  rw [hnodes]
  refine ⟨failsOnly_buildTree_of_le ?_, fun n left hbuild => ?_⟩
  · rw [List.countP_eq_length_filter, hqueue.length_eq]
  · obtain ⟨hn, hn', hleft⟩ := leaves_of_buildTree hitems hqueue hbuild
    exact ⟨hleaves ▸ hn, hn'.trans hoperators, hleft⟩

/-- The tree of a scan is folded from its tokens, also if there are none. -/
theorem exists_of_tree (h : s.tree = .ok n) :
    ∃ reordered left, toPostfix s.recent.reverse = .ok reordered ∧
      buildTree reordered s.nodes.reverse = .ok (n, left) := by
  unfold tree at h
  split at h
  case isTrue hnil =>
    cases h
    rw [List.isEmpty_iff.mp hnil]
    exact ⟨[], s.nodes.reverse, rfl, rfl⟩
  case isFalse =>
    obtain ⟨reordered, hpost, h⟩ := exists_of_bind_eq_ok h
    obtain ⟨⟨m, left⟩, hbuild, h⟩ := exists_of_bind_eq_ok h
    obtain rfl : m = n := Except.ok.inj h
    exact ⟨reordered, left, hpost, hbuild⟩

end Scan

/-- The first token read is the next one. -/
theorem Cursor.Reads.peek_eq {c d : Cursor} {ts : List Token} {u : Token} (h : c.Reads ts d)
    (hu : u ∈ ts.head?) : c.peek = u := by
  cases ts with
  | nil => cases hu
  | cons t ts =>
    obtain rfl : t = u := Option.some.inj hu
    exact Cursor.peek_eq h.1

namespace Parser

/-- **A call is one token of a skeleton**, the mark at its name. -/
theorem functionWith_spans_call (fuel : Nat) (c : Cursor) (hc : c.Closed) :
    Spans (functionWith fuel false) c fun n xs _ => c.peek.asCall.Denotes n ∧
      ∀ ts, outsideCalls 0 (xs ++ ts) = c.peek.asCall :: outsideCalls 0 ts := by
  cases fuel with
  | zero => exact .throw _
  | succ fuel =>
    have hcall : Spans (functionWith (fuel + 1) false) c fun n xs _ => ∃ name ts,
        xs = name :: ts ∧ name.asCall.Denotes n ∧
          ∀ us, outsideCalls 0 (xs ++ us) = name.asCall :: outsideCalls 0 us := by
      rw [functionWith]
      refine .take hc (by decide) fun name c₁ h₁ hk => ?_
      refine .take h₁ (by decide) fun opening c₂ h₂ ho => ?_
      refine .bind h₂ ((balanced fuel).parameters name false [] c₂ h₂) ?_
      intro arguments args c₃ h₃ hargs
      refine .take h₃ (by decide) fun closing c₄ _ hclosing => .pure ?_
      exact ⟨name, _, rfl, .call rfl arguments, outsideCalls_call hk ho hclosing hargs⟩
    refine hcall.mono ?_
    rintro n _ d hreads ⟨name, ts, rfl, hn, hcalls⟩
    rw [Cursor.peek_eq hreads.1]
    exact ⟨hn, hcalls⟩

/-- **A scan gains the skeleton of the tokens that it takes.** -/
theorem scanWith_gains (fuel : Nat) (s : Scan) (c : Cursor) (hc : c.Closed) :
    Spans (scanWith fuel s) c fun s' ts _ =>
      s.Gains (markSigns (endsOperand s.recent) (outsideCalls 0 ts)) s' := by
  induction fuel generalizing s c with
  | zero => exact .throw _
  | succ fuel ih =>
    rw [scanWith]
    refine .look (run_peek c) (.ite (fun _ => .pure (.refl s)) fun hstop => ?_)
    have hend : c.peek.kind ≠ .endFile := fun he => hstop (by rw [he]; rfl)
    refine .ite (fun hname => .look (run_ahead 1 c) (.ite (fun _ => ?_) fun hcalled => ?_))
      fun hname => ?_
    · refine .bind hc (functionWith_spans_call fuel c hc) fun n xs d hd hxs => ?_
      obtain ⟨hn, hxs⟩ := hxs
      refine (ih _ d hd).mono fun s' ts e _ hrest => ?_
      rw [hxs]
      refine Scan.Gains.signed ?_ hrest
      rw [Token.signedAfter_of_ne (show Kind.functionWord ≠ .subtract by decide)]
      exact .operand s rfl hn
    · refine .bind hc
        (P := fun n xs d => n = .reference c.peek.lexeme ∧ d = c.next ∧ xs = [c.peek]) ?_ ?_
      · intro n d hr
        rw [reference, run_bind, run_consume, if_pos hname] at hr
        cases hr
        exact ⟨[c.peek], ⟨Cursor.head?_rest hc hend, rfl⟩, rfl, rfl, rfl⟩
      · rintro _ _ d hd ⟨rfl, rfl, rfl⟩
        refine (ih _ c.next hd).mono fun s' ts e hreads hrest => ?_
        have hhead : ∀ u ∈ ts.head?, u.kind ≠ leftParen := by
          intro u hu
          rw [← hreads.peek_eq hu, ← Cursor.ahead_one]
          exact hcalled
        rw [List.singleton_append, outsideCalls_cons fun _ => hhead]
        refine Scan.Gains.signed ?_ hrest
        rw [Token.signedAfter_of_ne (by rw [hname]; decide)]
        exact .operand s (by simp [Token.isName, hname]) (.name hname)
    · cases hpush : s.push c.peek with
      | error e => exact .advance hc hend (.throw_bind e _)
      | ok s₁ =>
        have hgains := Scan.Gains.push hpush hstop hname
        refine .advance hc hend ((ih s₁ c.next hc).mono fun s' ts e _ hrest => ?_)
        rw [outsideCalls_cons fun hk => absurd hk hname]
        exact hgains.signed hrest

/-- **The tokens of an expression are scanned from a place on**, with some amount of fuel. -/
def ScansTo (c : Cursor) (s : Scan) (d : Cursor) : Prop :=
  ∃ fuel, (scanWith fuel .empty).run c = (.ok s, d)

theorem ScansTo.gains {c d : Cursor} {s : Scan} (h : ScansTo c s d) (hc : c.Closed) :
    ∃ ts, c.Reads ts d ∧ Scan.empty.Gains (skeleton ts) s ∧ s.Holds := by
  obtain ⟨fuel, hrun⟩ := h
  obtain ⟨ts, hreads, hgains⟩ := scanWith_gains fuel .empty c hc s d hrun
  exact ⟨ts, hreads, hgains, holds_of_scanWith hrun⟩

/-- An expression is the tree of what it scans. -/
theorem exists_scansTo {c d : Cursor} {n : Node} (h : expression.run c = (.ok n, d)) :
    ∃ s, ScansTo c s d ∧ s.depth = 0 ∧ s.tree = .ok n := by
  rw [expression, run_fuelled] at h
  generalize fuelFor c = fuel at h
  cases fuel with
  | zero => cases h
  | succ fuel =>
    rw [expressionWith, run_bind] at h
    generalize hscan : (scanWith fuel .empty).run c = r at h
    obtain ⟨_ | s, e⟩ := r
    · cases h
    dsimp only at h
    split at h
    case isTrue hdepth =>
      obtain ⟨htree, rfl⟩ := Prod.mk.inj ((run_ofExcept s.tree e).symm.trans h)
      exact ⟨s, ⟨fuel, hscan⟩, hdepth, htree⟩
    case isFalse => cases h

end Parser

/-- **Parsing an expression loses, duplicates and reorders nothing.**  What is scanned with no
parenthesis open can be reordered, and no name finds the queue of nodes empty.  Where a tree is
returned, its leaves from left to right are what the operands of the skeleton stand for, in the
order of the tokens; its operators are those of the skeleton, each as often as there; and no node is
left in the queue. -/
theorem expression_accounts (before tokens : List Token) :
    (∀ s d, Parser.ScansTo (.behind before tokens) s d → s.depth = 0 →
      ∃ reordered, toPostfix s.recent.reverse = .ok reordered ∧
        buildTree reordered s.nodes.reverse ≠ .error .noOperandLeft) ∧
    ∀ n d, Parser.expression.run (.behind before tokens) = (.ok n, d) →
      ∃ ts rest, tokens = ts ++ rest ∧ d = .behind (before ++ ts) rest ∧
        List.Forall₂ Token.Denotes ((skeleton ts).filter Token.isLeaf) n.leaves ∧
        n.operators.Perm ((skeleton ts).filter Token.isOperator) ∧
        ∃ s reordered, Parser.ScansTo (.behind before tokens) s d ∧
          s.recent.reverse = skeleton ts ∧ toPostfix (skeleton ts) = .ok reordered ∧
            buildTree reordered s.nodes.reverse = .ok (n, []) := by
  have hc := Cursor.closed_behind before tokens
  refine ⟨fun s d hscans hdepth => ?_, fun n d hrun => ?_⟩
  · obtain ⟨ts, -, hgains, hholds⟩ := hscans.gains hc
    obtain ⟨reordered, hpost⟩ := (hgains.paired Scan.paired_empty).exists_toPostfix hdepth
    refine ⟨reordered, hpost, fun herror => ?_⟩
    exact (hgains.of_toPostfix hholds hpost).1 _ herror
  · obtain ⟨s, hscans, -, htree⟩ := Parser.exists_scansTo hrun
    obtain ⟨ts, hreads, hgains, hholds⟩ := hscans.gains hc
    obtain ⟨rest, rfl, rfl⟩ := Cursor.exists_behind_of_reads hreads
    obtain ⟨reordered, left, hpost, hbuild⟩ := Scan.exists_of_tree htree
    obtain ⟨hleaves, hoperators, rfl⟩ := (hgains.of_toPostfix hholds hpost).2 n left hbuild
    refine ⟨ts, rest, rfl, rfl, hleaves, hoperators, s, reordered, hscans, ?_, ?_, hbuild⟩
    · exact hgains.reverse_recent
    · rwa [← hgains.reverse_recent]

/-- A negated call with a group among its arguments, and a step: `-f(1, (2)) * x++`. -/
theorem expression_accounts_call :
    let minus : Token := ⟨.subtract, "-", ⟨1, 1⟩⟩
    let f : Token := ⟨identifier, "f", ⟨1, 2⟩⟩
    let times : Token := ⟨.multiply, "*", ⟨1, 12⟩⟩
    let x : Token := ⟨identifier, "x", ⟨1, 14⟩⟩
    let step : Token := ⟨.increment, "++", ⟨1, 15⟩⟩
    let ts : List Token := [minus, f, ⟨leftParen, "(", ⟨1, 3⟩⟩, ⟨.int, "1", ⟨1, 4⟩⟩,
      ⟨.comma, ",", ⟨1, 5⟩⟩, ⟨leftParen, "(", ⟨1, 7⟩⟩, ⟨.int, "2", ⟨1, 8⟩⟩,
      ⟨rightParen, ")", ⟨1, 9⟩⟩, ⟨rightParen, ")", ⟨1, 10⟩⟩, times, x, step]
    let semicolon : Token := ⟨.endStatement, ";", ⟨1, 17⟩⟩
    let n : Node := .binary times
      (.unary minus.asSign (.call "f" [.literal (.int 1), .literal (.int 2)]))
      (.unary step (.reference "x"))
    Parser.expression.run (.behind [] (ts ++ [semicolon])) = (.ok n, .behind ts [semicolon]) ∧
      List.Forall₂ Token.Denotes [f.asCall, x] n.leaves ∧
      n.operators.Perm [minus.asSign, times, step] := by
  intro minus f times x step ts semicolon n
  have hrun : Parser.expression.run (.behind [] (ts ++ [semicolon])) =
      (.ok n, .behind ts [semicolon]) := by
    dsimp only [minus, f, times, x, step, ts, semicolon, n]
    rfl
  obtain ⟨us, rest, htokens, hd, hleaves, hoperators, -⟩ :=
    (expression_accounts [] (ts ++ [semicolon])).2 n _ hrun
  obtain rfl : [semicolon] = rest := congrArg Cursor.rest hd
  obtain rfl : ts = us := (List.append_left_inj [semicolon]).mp htokens
  exact ⟨hrun, hleaves, hoperators⟩

end Scrawl
