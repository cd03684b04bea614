import Scrawl.Proofs.Expression.Phrase
import Scrawl.Proofs.Parser.Reading
import Scrawl.Proofs.Token.Literal

/-!
# Proofs/Expression/Grammar — expressions are parsed by the precedence grammar

`Derives L k ts n` is the grammar of expressions: the tokens `ts` are a sentence of level `k` whose
tree is `n`.  Level eight is that of whole expressions, each level below binds tighter, and level
zero holds the operands with the steps behind them.  `L` says which tokens are literals and of what
value.

The scan of a sentence is a phrase with the same tree (`Parser.scans_of_derives`), and so the parser
returns the tree of every sentence and stops at its end (`expression_of_derives`).
-/

namespace Scrawl

/-! ## The grammar -/

namespace Kind

/-- The operators before an operand. -/
def signs : List Kind := [not, subtract, increment, decrement]

/-- The operators behind an operand. -/
def steps : List Kind := [increment, decrement]

/-- **The operators between operands of each level.** -/
def operators : Nat → List Kind
  | 2 => [multiply, divide, modulo]
  | 3 => [add, subtract]
  | 4 => [less, greater, lessEqual, greaterEqual]
  | 5 => [equal, notEqual]
  | 6 => [and]
  | 7 => [or]
  | 8 => [assign, assignAdd, assignSubtract, assignMultiply, assignDivide, assignModulo]
  | _ => []

end Kind

/-- The operator that a sign stands for: a minus sign before an operand is a negation. -/
def Token.asSign (t : Token) : Token :=
  if t.kind = .subtract then { t with kind := .negative } else t

/-- A token of a kind that is always spelled alike. -/
def Kind.token (k : Kind) : Token := ⟨k, k.spelling?.getD "", .none⟩

/-- The token of a name. -/
def Token.ofName (name : String) : Token := ⟨.identifier, name, .none⟩

section

variable (L : Token → Value → Prop)

mutual

/-- **The sentences of a level**, with their trees. -/
inductive Derives : Nat → List Token → Node → Prop
  | literal {t : Token} {v : Value} (h : L t v) : Derives 0 [t] (.literal v)
  | name {t : Token} (hk : t.kind = .identifier) : Derives 0 [t] (.reference t.lexeme)
  | call {t opening closing : Token} {ts : List Token} {arguments : List Node}
      (hk : t.kind = .identifier) (ho : opening.kind = .leftParen)
      (hc : closing.kind = .rightParen) (h : DerivesAll ts arguments) :
      Derives 0 (t :: opening :: (ts ++ [closing])) (.call t.lexeme arguments)
  | group {opening closing : Token} {ts : List Token} {n : Node} (ho : opening.kind = .leftParen)
      (hc : closing.kind = .rightParen) (h : Derives 8 ts n) :
      Derives 0 (opening :: (ts ++ [closing])) n
  | stepped {operator : Token} {ts : List Token} {n : Node} (hk : operator.kind ∈ Kind.steps)
      (h : Derives 0 ts n) : Derives 0 (ts ++ [operator]) (.unary operator n)
  | signed {operator : Token} {ts : List Token} {n : Node} (hk : operator.kind ∈ Kind.signs)
      (h : Derives 1 ts n) : Derives 1 (operator :: ts) (.unary operator.asSign n)
  | joined {k : Nat} {operator : Token} {ts us : List Token} {l r : Node}
      (hk : operator.kind ∈ Kind.operators (k + 1)) (hl : Derives (k + 1) ts l)
      (hr : Derives k us r) : Derives (k + 1) (ts ++ operator :: us) (.binary operator l r)
  | lift {k : Nat} {ts : List Token} {n : Node} (h : Derives k ts n) : Derives (k + 1) ts n

/-- **Arguments**: whole expressions with commas between them, and perhaps one behind the last. -/
inductive DerivesAll : List Token → List Node → Prop
  | none : DerivesAll [] []
  | last {ts : List Token} {n : Node} (h : Derives 8 ts n) : DerivesAll ts [n]
  | more {separator : Token} {ts us : List Token} {n : Node} {ns : List Node}
      (hk : separator.kind = .comma) (h : Derives 8 ts n) (hs : DerivesAll us ns) :
      DerivesAll (ts ++ separator :: us) (n :: ns)

end

end

namespace Kind

variable {k : Kind} {level : Nat}

/-- The levels of the grammar are those of the ladder. -/
theorem precedence?_of_mem_operators (h : k ∈ operators level) :
    k.isInfix ∧ k.precedence? = some level := by
  unfold operators at h
  split at h
  case h_8 => cases h
  all_goals
    revert h
    cases k <;> decide

/-- …and every operator between operands has one. -/
theorem exists_mem_operators (h : k.isInfix) : ∃ level < 8, k ∈ operators (level + 1) := by
  revert h
  cases k <;> decide

theorem isStep_of_mem_steps (h : k ∈ steps) : k.isStep := by
  revert h
  cases k <;> decide

/-- A token at which an expression may start. -/
def opens (k : Kind) : Bool := k.isOperand || k = leftParen || signs.contains k

end Kind

/-- A sign leads, once it is told from the operator that it is spelled like. -/
theorem Token.isLeading_asSign {t : Token} (h : t.kind ∈ Kind.signs) : t.asSign.kind.isLeading := by
  unfold asSign
  split
  · rfl
  · revert h
    cases hk : t.kind <;> simp_all [Kind.signs, Kind.isLeading]

/-! ## The steps of a scan -/

namespace Scan

variable {s : Scan} {t : Token}

/-- A scan after some more tokens and nodes. -/
def extend (s : Scan) (xs : List Token) (qs : List Node) : Scan :=
  ⟨s.depth, xs.reverse ++ s.recent, qs.reverse ++ s.nodes⟩

theorem extend_extend (s : Scan) (xs ys : List Token) (qs rs : List Node) :
    (s.extend xs qs).extend ys rs = s.extend (xs ++ ys) (qs ++ rs) := by
  simp [extend]

theorem push_leftParen (hk : t.kind = .leftParen) :
    s.push t = .ok { s with depth := s.depth + 1, recent := t :: s.recent } := by
  rw [push, if_pos hk]

theorem push_rightParen (hk : t.kind = .rightParen) :
    s.push t = .ok { s with depth := s.depth - 1, recent := t :: s.recent } := by
  rw [push, if_neg (by rw [hk]; decide), if_pos hk]

/-- Where no operand has ended, a sign is a sign. -/
theorem push_sign (hk : t.kind ∈ Kind.signs) (hs : endsOperand s.recent = false) :
    s.push t = .ok (s.extend [t.asSign] []) := by
  simp only [Kind.signs, List.mem_cons, List.not_mem_nil, or_false] at hk
  rcases hk with hk | hk | hk | hk <;>
    simp [push, hk, hs, extend, Token.asSign, isForeign, Kind.isOperator, Kind.precedence?]

/-- A literal, or an operator where an operand has ended. -/
theorem push_plain (hk : t.kind.isLiteral ∨ t.kind.isInfix ∨ t.kind.isStep)
    (hs : t.kind = .subtract → endsOperand s.recent) : s.push t = .ok (s.extend [t] []) := by
  have hkind : t.kind ≠ .leftParen ∧ t.kind ≠ .rightParen ∧ isForeign t.kind = false := by
    revert hk
    cases t.kind <;> decide
  obtain ⟨hleft, hright, hforeign⟩ := hkind
  have hminus : (t.kind = .subtract && !endsOperand s.recent) = false := by
    by_cases h : t.kind = .subtract
    · simp [hs h]
    · simp [h]
  rw [push, if_neg hleft, if_neg hright, hminus, hforeign]
  rfl

/-- Only parentheses and commas stop a scan at some depths and not at others. -/
theorem not_stopsAt {k : Kind} (hk : k.opens ∨ k.isInfix ∨ k.isStep) (depth : Nat) :
    ¬ stopsAt depth k := by
  revert hk
  cases k <;> simp [stopsAt, Kind.opens, Kind.isOperand, Kind.isInfix, Kind.isOperator,
    Kind.precedence?, Kind.isStep, Kind.signs]

end Scan

namespace Parser

namespace Settles

variable {s s' : Scan} {t : Token} {c d : Cursor} {r : Except ParseError Scan × Cursor}

/-- A scan stops at the end of its expression. -/
theorem scan_stop (h : Scan.stopsAt s.depth c.peek.kind) :
    Settles (scanWith · s) c (.ok s, c) := by
  refine .succ ?_
  simp only [scanWith]
  exact .look (run_peek c) (.ite_pos h (.pure s c))

/-- A name with no parenthesis behind it is a reference. -/
theorem scan_reference (hc : c.rest.head? = some t) (hk : t.kind = .identifier)
    (hnext : c.next.peek.kind ≠ .leftParen)
    (h : Settles (scanWith · (s.operand t (.reference t.lexeme))) c.next r) :
    Settles (scanWith · s) c r := by
  refine .succ ?_
  simp only [scanWith]
  have hpeek := Cursor.peek_eq hc
  refine .look (run_peek c) (.ite_neg ?_ (.ite_pos ?_ (.look (run_ahead 1 c) (.ite_neg ?_ ?_))))
  · exact Scan.not_stopsAt (.inl (by rw [hpeek, hk]; rfl)) _
  · rw [hpeek, hk]
  · rwa [Cursor.ahead_one]
  · rw [hpeek]
    refine .look ?_ h
    rw [reference, run_bind, run_consume, hpeek, if_pos hk]
    rfl

/-- A name with one is a call, which is parsed by itself and stands for one operand. -/
theorem scan_call {n : Node} (hc : c.rest.head? = some t) (hk : t.kind = .identifier)
    (hnext : c.next.peek.kind = .leftParen) (hf : Settles (functionWith · false) c (.ok n, d))
    (h : Settles (scanWith · (s.operand { t with kind := .functionWord } n)) d r) :
    Settles (scanWith · s) c r := by
  refine .succ ?_
  simp only [scanWith]
  have hpeek := Cursor.peek_eq hc
  refine .look (run_peek c) (.ite_neg ?_ (.ite_pos ?_ (.look (run_ahead 1 c) (.ite_pos ?_ ?_))))
  · exact Scan.not_stopsAt (.inl (by rw [hpeek, hk]; rfl)) _
  · rw [hpeek, hk]
  · rwa [Cursor.ahead_one]
  · rw [hpeek]
    exact hf.bind h

/-- Any other token is taken in, unless the expression ends at it. -/
theorem scan_push (hc : c.rest.head? = some t) (hk : t.kind ≠ .identifier)
    (hstop : ¬ Scan.stopsAt s.depth t.kind) (hs : s.push t = .ok s')
    (h : Settles (scanWith · s') c.next r) : Settles (scanWith · s) c r := by
  refine .succ ?_
  simp only [scanWith]
  rw [← Cursor.peek_eq hc] at hk hstop hs
  refine .look (run_peek c) (.ite_neg hstop (.ite_neg hk (.advance hc ?_)))
  exact .look (by rw [hs, run_ofExcept]) h

end Settles

/-! ## Sentences are scanned as phrases -/

/-- **Some tokens are scanned as a phrase**: wherever an operand may start, a scan takes them in and
goes on behind them, unless they are called there. -/
def Scans (k : Nat) (ts : List Token) (n : Node) : Prop :=
  ∃ xs qs, Phrase k xs qs n ∧
    ∀ {s : Scan} {c d : Cursor} {r : Except ParseError Scan × Cursor},
      endsOperand s.recent = false → c.Reads ts d → d.peek.kind ≠ .leftParen →
        Settles (scanWith · (s.extend xs qs)) d r → Settles (scanWith · s) c r

namespace Scans

variable {k : Nat} {t operator opening closing : Token} {ts us : List Token} {n l r : Node}

/-- A literal is scanned as one operand. -/
theorem literal {v : Value} (h : t.StandsFor v) : Scans 0 [t] (.literal v) := by
  refine ⟨[t], [], .literal h, ?_⟩
  rintro s c _ r - ⟨hc, rfl⟩ - hr
  have hkind : t.kind ≠ .identifier ∧ t.kind.opens ∧ t.kind ≠ .subtract := by
    have := h.kind
    revert this
    cases t.kind <;> decide
  obtain ⟨hname, hopens, hminus⟩ := hkind
  have hpush : s.push t = .ok (s.extend [t] []) :=
    Scan.push_plain (.inl h.kind) fun hk => absurd hk hminus
  exact .scan_push hc hname (Scan.not_stopsAt (.inl hopens) _) hpush hr

theorem name (hk : t.kind = .identifier) : Scans 0 [t] (.reference t.lexeme) := by
  refine ⟨[t], [.reference t.lexeme], .operand (.inl hk) _, ?_⟩
  rintro s c _ r - ⟨hc, rfl⟩ hd hr
  exact .scan_reference hc hk hd hr

/-- A call is scanned as one token if it is parsed as a call. -/
theorem call {arguments : List Node} (hk : t.kind = .identifier) (ho : opening.kind = .leftParen)
    (h : ∀ {c d : Cursor}, c.Reads (t :: opening :: ts) d →
      Settles (functionWith · false) c (.ok (.call t.lexeme arguments), d)) :
    Scans 0 (t :: opening :: ts) (.call t.lexeme arguments) := by
  refine ⟨[{ t with kind := .functionWord }], [.call t.lexeme arguments], .operand (.inr rfl) _, ?_⟩
  rintro s c d r - hreads - hr
  have hopening : c.next.peek.kind = .leftParen := by
    rw [Cursor.peek_eq hreads.2.1, ho]
  exact .scan_call hreads.1 hk hopening (h hreads) hr

/-- A sentence in parentheses is scanned one level deeper. -/
theorem group (ho : opening.kind = .leftParen) (hc : closing.kind = .rightParen)
    (h : Scans 8 ts n) : Scans 0 (opening :: (ts ++ [closing])) n := by
  obtain ⟨xs, qs, hphrase, hscan⟩ := h
  refine ⟨_, qs, .group ho hc hphrase, ?_⟩
  rintro s c d r - ⟨hopening, hreads⟩ - hr
  obtain ⟨m, hinner, hclosing, rfl⟩ := Cursor.reads_append.mp hreads
  have hopens : opening.kind.opens := by rw [ho]; rfl
  refine .scan_push hopening (by rw [ho]; decide) (Scan.not_stopsAt (.inl hopens) _)
    (Scan.push_leftParen ho) (hscan (endsOperand_opening (.inl ho) _) hinner ?_ ?_)
  · rw [Cursor.peek_eq hclosing, hc]
    decide
  · refine .scan_push hclosing (by rw [hc]; decide) (by simp [hc, Scan.stopsAt, Scan.extend])
      (Scan.push_rightParen hc) ?_
    simpa [Scan.extend] using hr

/-- A step behind an operand is scanned as part of it. -/
theorem stepped (hk : operator.kind.isStep) (h : Scans 0 ts n) :
    Scans 0 (ts ++ [operator]) (.unary operator n) := by
  obtain ⟨xs, qs, hphrase, hscan⟩ := h
  refine ⟨_, qs, .stepped hk hphrase, ?_⟩
  rintro s c d r hs hreads - hr
  obtain ⟨m, hinner, hoperator, rfl⟩ := Cursor.reads_append.mp hreads
  have hleading := Kind.isLeading_of_isStep hk
  obtain ⟨-, hname, -, hparen, -⟩ := Kind.ne_of_isLeading_or_isInfix (.inl hleading)
  refine hscan hs hinner (by rwa [Cursor.peek_eq hoperator]) ?_
  refine .scan_push hoperator hname (Scan.not_stopsAt (.inr (.inr hk)) _)
    (Scan.push_plain (.inr (.inr hk)) fun _ => hphrase.endsOperand s.recent) ?_
  rwa [Scan.extend_extend, List.append_nil]

/-- A sign is scanned where no operand has ended. -/
theorem signed (hk : operator.kind ∈ Kind.signs) (h : Scans 1 ts n) :
    Scans 1 (operator :: ts) (.unary operator.asSign n) := by
  obtain ⟨xs, qs, hphrase, hscan⟩ := h
  have hleading := Token.isLeading_asSign hk
  refine ⟨_, qs, .leading hleading hphrase, ?_⟩
  rintro s c d r hs ⟨hoperator, hreads⟩ hd hr
  have hkind : operator.kind ≠ .identifier ∧ operator.kind.opens := by
    revert hk
    cases operator.kind <;> decide
  refine .scan_push hoperator hkind.1 (Scan.not_stopsAt (.inl hkind.2) _) (Scan.push_sign hk hs)
    (hscan (endsOperand_leading hleading hs) hreads hd ?_)
  rwa [Scan.extend_extend]

/-- **Two sentences with an operator between them are scanned in turn.** -/
theorem joined (hk : operator.kind ∈ Kind.operators (k + 1)) (hl : Scans (k + 1) ts l)
    (hr : Scans k us r) : Scans (k + 1) (ts ++ operator :: us) (.binary operator l r) := by
  obtain ⟨xs, qs, hphrase, hscan⟩ := hl
  obtain ⟨ys, rs, hphrase', hscan'⟩ := hr
  obtain ⟨hjoin, hlevel⟩ := Kind.precedence?_of_mem_operators hk
  refine ⟨_, _, .joined hjoin hlevel hphrase hphrase', ?_⟩
  rintro s c d result hs hreads hd hresult
  obtain ⟨m, hleft, hoperator, hright⟩ := Cursor.reads_append.mp hreads
  obtain ⟨-, hname, -, hparen, -⟩ := Kind.ne_of_isLeading_or_isInfix (.inr hjoin)
  refine hscan hs hleft (by rwa [Cursor.peek_eq hoperator]) ?_
  refine .scan_push hoperator hname (Scan.not_stopsAt (.inr (.inl hjoin)) _)
    (Scan.push_plain (.inr (.inl hjoin)) fun _ => hphrase.endsOperand s.recent) ?_
  refine hscan' (endsOperand_opening (.inr hjoin) _) hright hd ?_
  rw [Scan.extend_extend, Scan.extend_extend]
  simpa using hresult

theorem lift (h : Scans k ts n) : Scans (k + 1) ts n := by
  obtain ⟨xs, qs, hphrase, hscan⟩ := h
  exact ⟨xs, qs, hphrase.lift, hscan⟩

/-- **What is scanned as a phrase is parsed as its tree**, where an expression may end behind it. -/
theorem settles (h : Scans k ts n) {c d : Cursor} (hreads : c.Reads ts d)
    (hstop : Scan.stopsAt 0 d.peek.kind) : Settles expressionWith c (.ok n, d) := by
  obtain ⟨xs, qs, hphrase, hscan⟩ := h
  have hparen : d.peek.kind ≠ .leftParen := by
    intro hk
    rw [hk] at hstop
    cases hstop
  have hscanned : Settles (scanWith · .empty) c (.ok (Scan.empty.extend xs qs), d) :=
    hscan rfl hreads hparen (.scan_stop hstop)
  have htree : (Scan.empty.extend xs qs).tree = .ok n := by
    have htree := hphrase.tree 0
    rwa [← List.append_nil xs.reverse, ← List.append_nil qs.reverse] at htree
  refine .succ ?_
  simp only [expressionWith]
  refine hscanned.bind (.ite_pos rfl ?_)
  exact .of_forall fun _ => by rw [htree, run_ofExcept]

end Scans

/-! ## The steps of a call -/

namespace Settles

variable {c d e : Cursor} {n : Node} {ns : List Node} {name t : Token} {isDefinition : Bool}

/-- An expression that is there meets the requirement. -/
theorem require {p : ℕ → Parser Node} (h : Settles p c (.ok n, d)) (hn : n.isPresent)
    (text : String) : Settles (fun fuel => requireFrom (p fuel) text) c (.ok n, d) := by
  simp only [requireFrom]
  exact h.bind (.ite_pos hn (.pure n d))

theorem parameters_nil (hc : c.peek.kind = .rightParen) :
    Settles (parametersWith · name isDefinition) c (.ok [], c) := by
  refine .succ ?_
  simp only [parametersWith]
  exact .look (run_check _ c) (.ite_pos (decide_eq_true hc) (.pure [] c))

/-- One parameter, and what `rest` says of the token behind it. -/
theorem parameters_cons (hc : c.peek.kind ≠ .rightParen) (hn : n.isPresent)
    (href : isDefinition → n.referenced?.isSome) (hexp : Settles expressionWith c (.ok n, d))
    (hrest : (∃ t, d.rest.head? = some t ∧ t.kind = .comma ∧
        Settles (parametersWith · name isDefinition) d.next (.ok ns, e)) ∨
      d.peek.kind = .rightParen ∧ Settles (parametersWith · name isDefinition) d (.ok ns, e)) :
    Settles (parametersWith · name isDefinition) c (.ok (n :: ns), e) := by
  refine .succ ?_
  simp only [parametersWith]
  refine .look (run_check _ c) (.ite_neg (by simpa using hc) ((hexp.require hn _).bind ?_))
  refine .ite_neg ?_ (.look (run_check _ d) ?_)
  · rw [Bool.and_eq_true, not_and, Option.isNone_iff_eq_none]
    exact fun h => Option.isSome_iff_ne_none.mp (href h)
  rcases hrest with ⟨t, ht, hcomma, hrest⟩ | ⟨hclosing, hrest⟩
  · refine .ite_pos (by simpa [Cursor.peek_eq ht] using hcomma) (.advance ht ?_)
    exact hrest.bind (.pure _ e)
  · refine .ite_neg (by simp [hclosing]) (.look (run_check _ d) ?_)
    refine .ite_pos (by simpa using hclosing) ?_
    exact hrest.bind (.pure _ e)

theorem call {opening closing : Token} {ts : List Token} (hk : t.kind = .identifier)
    (ho : opening.kind = .leftParen) (hclosing : closing.kind = .rightParen)
    (h : ∀ {c d : Cursor}, c.Reads ts d → d.peek.kind = .rightParen →
      Settles (parametersWith · t false) c (.ok ns, d))
    (hreads : c.Reads (t :: opening :: (ts ++ [closing])) d) :
    Settles (functionWith · false) c (.ok (.call t.lexeme ns), d) := by
  obtain ⟨hname, hopening, hreads⟩ := hreads
  obtain ⟨m, hparameters, hend, rfl⟩ := Cursor.reads_append.mp hreads
  refine .succ ?_
  simp only [functionWith]
  refine .take hname hk (.take hopening ho ((h hparameters ?_).bind ?_))
  · rw [Cursor.peek_eq hend, hclosing]
  · exact .take hend hclosing (.pure _ _)

end Settles

end Parser

/-! ## Sentences -/

variable {L : Token → Value → Prop} {k : Nat} {ts : List Token} {n : Node} {ns : List Node}

namespace Derives

/-- A sentence starts with a token at which an expression may start. -/
theorem opens (hL : ∀ {t v}, L t v → t.StandsFor v) :
    ∀ {k : Nat} {ts : List Token} {n : Node}, Derives L k ts n → ∃ t us, ts = t :: us ∧ t.kind.opens
  | _, _, _, .literal h => by
      refine ⟨_, [], rfl, ?_⟩
      rw [Kind.opens, Kind.isOperand_of_isLiteral (hL h).kind]
      rfl
  | _, _, _, .name hk => ⟨_, [], rfl, by rw [hk]; rfl⟩
  | _, _, _, .call hk _ _ _ => ⟨_, _, rfl, by rw [hk]; rfl⟩
  | _, _, _, .group ho _ _ => ⟨_, _, rfl, by rw [ho]; rfl⟩
  | _, _, _, .stepped _ h => by
      obtain ⟨t, us, rfl, ht⟩ := h.opens hL
      exact ⟨t, _, rfl, ht⟩
  | _, _, _, .signed hk _ => by
      refine ⟨_, _, rfl, ?_⟩
      rw [Kind.opens, List.contains_iff_mem.mpr hk, Bool.or_true]
  | _, _, _, .joined _ hl _ => by
      obtain ⟨t, us, rfl, ht⟩ := hl.opens hL
      exact ⟨t, _, rfl, ht⟩
  | _, _, _, .lift h => h.opens hL

/-- A sentence does not start by closing a parenthesis. -/
theorem peek_ne (h : Derives L k ts n) (hL : ∀ {t v}, L t v → t.StandsFor v) {c d : Cursor}
    (hreads : c.Reads ts d) : c.peek.kind ≠ .rightParen := by
  obtain ⟨t, us, rfl, ht⟩ := h.opens hL
  rw [Cursor.peek_eq hreads.1]
  rintro hk
  rw [hk] at ht
  cases ht

/-- A sentence of a level is one of every level above. -/
theorem of_le {j : Nat} (h : Derives L j ts n) (hjk : j ≤ k) : Derives L k ts n := by
  induction hjk with
  | refl => exact h
  | step _ ih => exact ih.lift

theorem isPresent : ∀ {k : Nat} {ts : List Token} {n : Node}, Derives L k ts n → n.isPresent
  | _, _, _, .literal _ | _, _, _, .name _ | _, _, _, .call .. | _, _, _, .stepped ..
  | _, _, _, .signed .. | _, _, _, .joined .. => rfl
  | _, _, _, .group _ _ h | _, _, _, .lift h => h.isPresent

end Derives

namespace Parser

mutual

/-- **A sentence is scanned as a phrase with its tree.** -/
theorem scans_of_derives (hL : ∀ {t v}, L t v → t.StandsFor v) :
    ∀ {k : Nat} {ts : List Token} {n : Node}, Derives L k ts n → Scans k ts n
  | _, _, _, .literal h => .literal (hL h)
  | _, _, _, .name hk => .name hk
  | _, _, _, .call hk ho hc h =>
      .call hk ho (.call hk ho hc (settles_of_derivesAll hL h _ false (by nofun)))
  | _, _, _, .group ho hc h => (scans_of_derives hL h).group ho hc
  | _, _, _, .stepped hk h => (scans_of_derives hL h).stepped (Kind.isStep_of_mem_steps hk)
  | _, _, _, .signed hk h => (scans_of_derives hL h).signed hk
  | _, _, _, .joined hk hl hr => (scans_of_derives hL hl).joined hk (scans_of_derives hL hr)
  | _, _, _, .lift h => (scans_of_derives hL h).lift

/-- **Arguments are parsed as their trees**, and parameters too if they are names. -/
theorem settles_of_derivesAll (hL : ∀ {t v}, L t v → t.StandsFor v) :
    ∀ {ts : List Token} {ns : List Node}, DerivesAll L ts ns → ∀ (name : Token)
      (isDefinition : Bool), (isDefinition → ∀ n ∈ ns, n.referenced?.isSome) →
        ∀ {c d : Cursor}, c.Reads ts d → d.peek.kind = .rightParen →
          Settles (parametersWith · name isDefinition) c (.ok ns, d)
  | _, _, .none, _, _, _, c, d, hreads, hd => by
      obtain rfl : c = d := hreads
      exact .parameters_nil hd
  | _, _, .last h, _, _, href, c, d, hreads, hd => by
      have hexp := (scans_of_derives hL h).settles hreads (by rw [hd]; rfl)
      exact .parameters_cons (h.peek_ne hL hreads) h.isPresent
        (fun hdef => href hdef _ List.mem_cons_self) hexp (.inr ⟨hd, .parameters_nil hd⟩)
  | _, _, .more hk h hs, name, isDefinition, href, c, d, hreads, hd => by
      obtain ⟨m, hfirst, hcomma, hrest⟩ := Cursor.reads_append.mp hreads
      have hstop : Scan.stopsAt 0 m.peek.kind := by
        rw [Cursor.peek_eq hcomma, hk]
        rfl
      have hexp := (scans_of_derives hL h).settles hfirst hstop
      have hmore := settles_of_derivesAll hL hs name isDefinition
        (fun hdef n hn => href hdef n (List.mem_cons_of_mem _ hn)) hrest hd
      exact .parameters_cons (h.peek_ne hL hfirst) h.isPresent
        (fun hdef => href hdef _ List.mem_cons_self) hexp (.inl ⟨_, hcomma, hk, hmore⟩)

end

end Parser

/-- **Expressions are parsed by the grammar.**  Started at the first token of a sentence, wherever
it stands, the parser returns the tree of the sentence and stops behind its last token, if the
tokens end there or go on with a semicolon, a comma, a closing parenthesis or a brace. -/
theorem expression_of_derives {before rest : List Token} (h : Derives Token.Writes 8 ts n)
    (hrest : ∀ t ∈ rest.head?,
      t.kind ∈ [Kind.endStatement, .comma, .rightParen, .leftBrace, .rightBrace]) :
    Parser.expression.run (.behind before (ts ++ rest)) = (.ok n, .behind (before ++ ts) rest) := by
  have hstop : Scan.stopsAt 0 (Cursor.behind (before ++ ts) rest).peek.kind := by
    cases rest with
    | nil => rfl
    | cons t _ =>
      have ht := hrest t rfl
      revert ht
      change t.kind ∈ _ → Scan.stopsAt 0 t.kind
      cases t.kind <;> decide
  have hscans := Parser.scans_of_derives Token.Writes.standsFor h
  have hsettles := hscans.settles (Cursor.reads_behind before ts rest) hstop
  exact hsettles.run_expression (Cursor.closed_behind before (ts ++ rest))

/-- The initializer in `var x = -f(2,)++ * y;`. -/
theorem expression_of_derives_initializer :
    Parser.expression.run (.behind [Kind.varWord.token]
      ([.ofName "x", Kind.assign.token, Kind.subtract.token, .ofName "f", Kind.leftParen.token,
        ⟨.int, "2", .none⟩, Kind.comma.token, Kind.rightParen.token, Kind.increment.token,
        Kind.multiply.token, .ofName "y"] ++ [Kind.endStatement.token])) =
    (.ok (.binary Kind.assign.token (.reference "x")
      (.binary Kind.multiply.token
        (.unary Kind.negative.token
          (.unary Kind.increment.token (.call "f" [.literal (.int 2)])))
        (.reference "y"))),
    .behind [Kind.varWord.token, .ofName "x", Kind.assign.token, Kind.subtract.token, .ofName "f",
        Kind.leftParen.token, ⟨.int, "2", .none⟩, Kind.comma.token, Kind.rightParen.token,
        Kind.increment.token, Kind.multiply.token, .ofName "y"] [Kind.endStatement.token]) := by
  have htwo : Token.Writes ⟨.int, "2", .none⟩ (.int 2) := by
    refine ⟨⟨"2", [⟨.int, "2", .start⟩], by cbv, _, List.mem_cons_self, rfl⟩, rfl, ?_, by cbv⟩
    decide
  have harguments : DerivesAll Token.Writes ([⟨.int, "2", .none⟩] ++ Kind.comma.token :: [])
      [.literal (.int 2)] := .more rfl (.of_le (.literal htwo) (by decide)) .none
  have hcall : Derives Token.Writes 0 (.ofName "f" :: Kind.leftParen.token ::
      (_ ++ [Kind.rightParen.token])) _ := .call rfl rfl rfl harguments
  have hsigned : Derives Token.Writes 1 (Kind.subtract.token :: (_ ++ [Kind.increment.token])) _ :=
    .signed (by decide) (.lift (.stepped (by decide) hcall))
  have hproduct : Derives Token.Writes 2 (_ ++ Kind.multiply.token :: [.ofName "y"]) _ :=
    .joined (by decide) hsigned.lift (.lift (.name rfl))
  have hwhole : Derives Token.Writes 8 ([.ofName "x"] ++ Kind.assign.token :: _) _ :=
    .joined (by decide) (.of_le (.name rfl) (by decide)) (hproduct.of_le (by decide))
  exact expression_of_derives hwhole (by decide)

end Scrawl
