import Mathlib.Data.List.Permutation
import Scrawl.Proofs.Node.Rendering
import Scrawl.Proofs.Parser.Statements

/-!
# Proofs/Parser/RoundTrip — the tokens of a tree are parsed as the tree

The tokens that write a tree may stand anywhere in a source text, so a cursor reads tokens **like**
them, which differ in their places alone.  An expression that is read like this has a derivation in
the grammar (`Node.derivable`), and a statement is parsed by the rules of this file, one for each
part of the parser.  So parsing undoes writing, up to places (`parse_programTokens`).
-/

namespace Scrawl

/-! ## Tokens wherever they stand -/

namespace Cursor

/-- **Between two places stand tokens like some others**, which differ in their places alone. -/
def ReadsLike (c : Cursor) (us : List Token) (d : Cursor) : Prop :=
  ∃ ts : List Token, ts.map Token.unplaced = us.map Token.unplaced ∧ c.Reads ts d

variable {c d : Cursor} {u : Token} {us vs : List Token}

theorem readsLike_nil : c.ReadsLike [] d ↔ c = d := by
  simp [ReadsLike, Reads]

/-- The first token is like the first, wherever it stands. -/
theorem readsLike_cons : c.ReadsLike (u :: us) d ↔
    ∃ t, c.rest.head? = some t ∧ t.unplaced = u.unplaced ∧ c.next.ReadsLike us d := by
  constructor
  · rintro ⟨ts, hts, hreads⟩
    obtain ⟨t, ts, rfl, ht, hts⟩ := List.map_eq_cons_iff.mp hts
    exact ⟨t, hreads.1, ht, ts, hts, hreads.2⟩
  · rintro ⟨t, hc, ht, ts, hts, hreads⟩
    exact ⟨t :: ts, by rw [List.map_cons, List.map_cons, ht, hts], hc, hreads⟩

theorem readsLike_append : c.ReadsLike (us ++ vs) d ↔
    ∃ m, c.ReadsLike us m ∧ m.ReadsLike vs d := by
  constructor
  · rintro ⟨ts, hts, hreads⟩
    rw [List.map_append] at hts
    obtain ⟨ts, ts', rfl, hts, hts'⟩ := List.map_eq_append_iff.mp hts
    obtain ⟨m, hm, hd⟩ := reads_append.mp hreads
    exact ⟨m, ⟨ts, hts, hm⟩, ⟨ts', hts', hd⟩⟩
  · rintro ⟨m, ⟨ts, hts, hm⟩, ⟨ts', hts', hd⟩⟩
    exact ⟨ts ++ ts', by rw [List.map_append, List.map_append, hts, hts'],
      reads_append.mpr ⟨m, hm, hd⟩⟩

/-- A token of a fixed spelling is taken by its kind. -/
theorem ReadsLike.takes {kind : Kind} (h : c.ReadsLike (kind.token :: us) d) :
    ∃ m, c.Takes kind m ∧ m.ReadsLike us d := by
  obtain ⟨t, hc, ht, hus⟩ := readsLike_cons.mp h
  exact ⟨c.next, ⟨t, hc, congrArg Token.kind ht, rfl⟩, hus⟩

end Cursor

namespace Token

variable {t u : Token} {v : Value}

theorem kind_eq (h : t.unplaced = u.unplaced) : t.kind = u.kind :=
  (Token.mk.inj h).1

theorem lexeme_eq (h : t.unplaced = u.unplaced) : t.lexeme = u.lexeme :=
  (Token.mk.inj h).2.1

/-- The value of a literal does not depend on its place. -/
theorem StandsFor.of_unplaced (h : u.StandsFor v) (ht : t.unplaced = u.unplaced) :
    t.StandsFor v := by
  obtain ⟨kind, lexeme, position⟩ := t
  obtain ⟨kind', lexeme', position'⟩ := u
  obtain rfl : kind = kind' := kind_eq ht
  obtain rfl : lexeme = lexeme' := lexeme_eq ht
  refine ⟨h.kind, ?_⟩
  have hk : kind.isLiteral := h.kind
  have hl := h.literal
  cases kind <;> first | exact hl | cases hk

theorem unplaced_eq (hk : t.kind = u.kind) (hl : t.lexeme = u.lexeme) :
    t.unplaced = u.unplaced := by
  rw [unplaced, unplaced, hk, hl]

/-- An operator before its operand comes back from the sign that writes it. -/
theorem unplaced_asSign (hk : u.kind.isLeading) (ht : t.unplaced = u.asWritten.unplaced) :
    t.kind ∈ Kind.signs ∧ t.asSign.unplaced = u.unplaced := by
  have hkind := kind_eq ht
  have hlexeme := lexeme_eq ht
  by_cases hn : u.kind = .negative
  · rw [asWritten, if_pos hn] at hkind hlexeme
    refine ⟨hkind ▸ (by decide : Kind.subtract ∈ Kind.signs), ?_⟩
    rw [asSign, if_pos hkind]
    exact unplaced_eq hn.symm hlexeme
  · rw [asWritten, if_neg hn] at hkind hlexeme
    have hsign : u.kind ∈ Kind.signs ∧ u.kind ≠ .subtract := by
      revert hk hn
      cases u.kind <;> decide
    rw [← hkind] at hsign
    refine ⟨hsign.1, ?_⟩
    rw [asSign, if_neg hsign.2]
    exact unplaced_eq hkind hlexeme

end Token

/-! ## Expressions -/

section

variable {spell : Value → Token} {e : Node} {c d : Cursor}

/-- **The tokens of an expression are a sentence**, wherever they stand, and its tree is the
expression up to places. -/
def Node.Derivable (spell : Value → Token) (e : Node) : Prop :=
  ∀ {c d : Cursor}, c.ReadsLike (e.expressionTokens spell) d →
    ∃ ts e', Derives Token.StandsFor 0 ts e' ∧ e'.unplaced = e.unplaced ∧ c.Reads ts d

/-- Arguments are read back between their commas. -/
theorem exists_derivesAll : ∀ {arguments : List Node}, (∀ a ∈ arguments, a.Derivable spell) →
    ∀ {c d : Cursor}, c.ReadsLike (Node.argumentTokens spell arguments) d →
      ∃ ts arguments', DerivesAll Token.StandsFor ts arguments' ∧
        arguments'.map Node.unplaced = arguments.map Node.unplaced ∧ c.Reads ts d
  | [], _, c, d, hreads => ⟨[], [], .none, rfl, Cursor.readsLike_nil.mp hreads⟩
  | [a], h, c, d, hreads => by
      obtain ⟨ts, a', hderives, ha', hts⟩ := h a List.mem_cons_self hreads
      exact ⟨ts, [a'], .last (hderives.of_le (by decide)), congrArg ([·]) ha', hts⟩
  | a :: b :: rest, h, c, d, hreads => by
      rw [Node.argumentTokens] at hreads
      obtain ⟨m, hfirst, hreads⟩ := Cursor.readsLike_append.mp hreads
      obtain ⟨comma, hcomma, hkind, hreads⟩ := Cursor.readsLike_cons.mp hreads
      obtain ⟨ts, a', hderives, ha', hts⟩ := h a List.mem_cons_self hfirst
      obtain ⟨us, rest', hall, hrest', hus⟩ :=
        exists_derivesAll (fun n hn => h n (List.mem_cons_of_mem a hn)) hreads
      refine ⟨ts ++ comma :: us, a' :: rest', ?_, ?_, ?_⟩
      · exact .more (Token.kind_eq hkind) (hderives.of_le (by decide)) hall
      · rw [List.map_cons, ha', hrest', ← List.map_cons]
      · exact Cursor.reads_append.mpr ⟨m, hts, hcomma, hus⟩

/-- **Every expression is read back from its tokens.** -/
theorem derivable (h : e.IsExpression fun v => (spell v).StandsFor v) : e.Derivable spell := by
  induction h with
  | literal h =>
    intro c d hreads
    obtain ⟨t, hc, ht, hd⟩ := Cursor.readsLike_cons.mp hreads
    exact ⟨[t], _, .literal (h.of_unplaced ht), rfl, hc, Cursor.readsLike_nil.mp hd⟩
  | reference name =>
    intro c d hreads
    obtain ⟨t, hc, ht, hd⟩ := Cursor.readsLike_cons.mp hreads
    refine ⟨[t], _, .name (Token.kind_eq ht), ?_, hc, Cursor.readsLike_nil.mp hd⟩
    rw [Token.lexeme_eq ht]
    rfl
  | @call name arguments _ ih =>
    intro c d hreads
    obtain ⟨t, hc, ht, hreads⟩ := Cursor.readsLike_cons.mp hreads
    obtain ⟨opening, hopening, ho, hreads⟩ := Cursor.readsLike_cons.mp hreads
    obtain ⟨m, harguments, hreads⟩ := Cursor.readsLike_append.mp hreads
    obtain ⟨closing, hclosing, hk, hd⟩ := Cursor.readsLike_cons.mp hreads
    obtain ⟨ts, arguments', hall, hunplaced, hts⟩ := exists_derivesAll ih harguments
    refine ⟨_, _, .call (Token.kind_eq ht) (Token.kind_eq ho) (Token.kind_eq hk) hall, ?_,
      hc, hopening, Cursor.reads_append.mpr ⟨m, hts, hclosing, Cursor.readsLike_nil.mp hd⟩⟩
    simp only [Node.unplaced, Node.unplacedAll_eq_map, hunplaced, Token.lexeme_eq ht]
    rfl
  | @unary operator operand hk _ ih =>
    intro c d hreads
    obtain ⟨opening, hopening, ho, hreads⟩ := Cursor.readsLike_cons.mp hreads
    obtain ⟨sign, hsign, hs, hreads⟩ := Cursor.readsLike_cons.mp hreads
    obtain ⟨m, hoperand, hreads⟩ := Cursor.readsLike_append.mp hreads
    obtain ⟨closing, hclosing, hc, hd⟩ := Cursor.readsLike_cons.mp hreads
    obtain ⟨ts, n, hderives, hn, hts⟩ := ih hoperand
    obtain ⟨hmem, hunplaced⟩ := Token.unplaced_asSign hk hs
    have hsigned := Derives.signed hmem hderives.lift
    refine ⟨_, _, .group (Token.kind_eq ho) (Token.kind_eq hc) (hsigned.of_le (by decide)), ?_,
      hopening, hsign, Cursor.reads_append.mpr ⟨m, hts, hclosing, Cursor.readsLike_nil.mp hd⟩⟩
    rw [Node.unplaced, Node.unplaced, hunplaced, hn]
  | @binary operator left right hk _ _ ihl ihr =>
    intro c d hreads
    obtain ⟨opening, hopening, ho, hreads⟩ := Cursor.readsLike_cons.mp hreads
    obtain ⟨m, hleft, hreads⟩ := Cursor.readsLike_append.mp hreads
    obtain ⟨sign, hsign, hs, hreads⟩ := Cursor.readsLike_cons.mp hreads
    obtain ⟨m', hright, hreads⟩ := Cursor.readsLike_append.mp hreads
    obtain ⟨closing, hclosing, hc, hd⟩ := Cursor.readsLike_cons.mp hreads
    obtain ⟨ts, l, hl, hln, hts⟩ := ihl hleft
    obtain ⟨us, r, hr, hrn, hus⟩ := ihr hright
    obtain ⟨level, hlevel, hmem⟩ := Kind.exists_mem_operators hk
    have hjoined := Derives.joined (Token.kind_eq hs ▸ hmem) (hl.of_le (Nat.zero_le _))
      (hr.of_le (Nat.zero_le level))
    refine ⟨_, _, .group (Token.kind_eq ho) (Token.kind_eq hc) (hjoined.of_le hlevel), ?_,
      hopening, Cursor.reads_append.mpr ⟨m', Cursor.reads_append.mpr ⟨m, hts, hsign, hus⟩,
        hclosing, Cursor.readsLike_nil.mp hd⟩⟩
    rw [Node.unplaced, Node.unplaced, hs, hln, hrn]

/-- The first token of an expression opens one. -/
theorem exists_opens (h : e.IsExpression fun v => (spell v).StandsFor v)
    (hreads : c.ReadsLike (e.expressionTokens spell) d) :
    ∃ t, c.rest.head? = some t ∧ t.kind.opens := by
  obtain ⟨ts, e', hderives, -, hts⟩ := derivable h hreads
  obtain ⟨t, us, rfl, ht⟩ := hderives.opens id
  exact ⟨t, hts.1, ht⟩

namespace Parser

/-- **The tokens of an expression are parsed as the expression**, up to places. -/
theorem exists_settles_expression (h : e.IsExpression fun v => (spell v).StandsFor v)
    (hreads : c.ReadsLike (e.expressionTokens spell) d) (hstop : Scan.stopsAt 0 d.peek.kind) :
    ∃ e', e'.unplaced = e.unplaced ∧ e'.isPresent ∧ Settles expressionWith c (.ok e', d) := by
  obtain ⟨ts, e', hderives, he', hts⟩ := derivable h hreads
  exact ⟨e', he', hderives.isPresent, (scans_of_derives id hderives).settles hts hstop⟩

/-- …and an absent one as nothing. -/
theorem exists_settles_optional (h : e ≠ .absent → e.IsExpression fun v => (spell v).StandsFor v)
    (hreads : c.ReadsLike (e.expressionTokens spell) d) (hstop : Scan.stopsAt 0 d.peek.kind) :
    c.peek.kind ≠ .elseWord ∧
      ∃ e', e'.unplaced = e.unplaced ∧ Settles expressionWith c (.ok e', d) := by
  by_cases he : e = .absent
  · subst he
    obtain rfl := Cursor.readsLike_nil.mp hreads
    refine ⟨?_, .absent, rfl, .expression_nothing hstop⟩
    intro hk
    rw [hk] at hstop
    cases hstop
  · obtain ⟨e', he', -, hsettles⟩ := exists_settles_expression (h he) hreads hstop
    obtain ⟨t, hc, ht⟩ := exists_opens (h he) hreads
    refine ⟨?_, e', he', hsettles⟩
    intro hk
    rw [← Cursor.peek_eq hc, hk] at ht
    cases ht

end Parser

end

/-! ## Statements -/

namespace Parser

/-- **A statement is read back from its tokens**, up to places, wherever they stand. -/
structure ReadBack (spell : Value → Token) (n : Node) : Prop where
  isPresent : n.isPresent
  starts : ∀ {c d : Cursor}, c.ReadsLike (n.statementTokens spell) d →
    ∃ t, c.rest.head? = some t ∧ t.kind.starts
  settles : ∀ {c d : Cursor}, c.ReadsLike (n.statementTokens spell) d →
    d.peek.kind ≠ .elseWord → ∃ n', n'.unplaced = n.unplaced ∧ Settles statementWith c (.ok n', d)

variable {spell : Value → Token} {c d : Cursor} {ns : List Node}

/-- **Statements are read back one after the other**, by a parser of statements that ends at some
places and otherwise starts with a statement. -/
theorem exists_settles_all {p : ℕ → Parser (List Node)} (Stop : Cursor → Prop)
    (hnil : ∀ {c : Cursor}, Stop c → Settles p c (.ok [], c))
    (hcons : ∀ {c m d : Cursor} {t : Token} {n : Node} {ns : List Node}, c.rest.head? = some t →
      t.kind.starts → Settles statementWith c (.ok n, m) → n.isPresent →
        Settles p m (.ok ns, d) → Settles p c (.ok (n :: ns), d))
    (helse : ∀ {c : Cursor}, Stop c → c.peek.kind ≠ .elseWord) :
    ∀ {ns : List Node}, (∀ n ∈ ns, ReadBack spell n) → ∀ {c d : Cursor},
      c.ReadsLike (Node.statementsTokens spell ns) d → Stop d → c.peek.kind ≠ .elseWord ∧
        ∃ ns', ns'.map Node.unplaced = ns.map Node.unplaced ∧ Settles p c (.ok ns', d)
  | [], _, c, d, hreads, hd => by
      obtain rfl := Cursor.readsLike_nil.mp hreads
      exact ⟨helse hd, [], rfl, hnil hd⟩
  | n :: ns, h, c, d, hreads, hd => by
      have hn := h n List.mem_cons_self
      rw [Node.statementsTokens] at hreads
      obtain ⟨m, hfirst, hrest⟩ := Cursor.readsLike_append.mp hreads
      obtain ⟨hm, ns', hns', hsettles'⟩ := exists_settles_all Stop hnil hcons helse
        (fun k hk => h k (List.mem_cons_of_mem n hk)) hrest hd
      obtain ⟨n', hn', hsettles⟩ := hn.settles hfirst hm
      obtain ⟨t, hc, ht⟩ := hn.starts hfirst
      have hpresent : n'.isPresent := by
        rw [← Node.isPresent_unplaced, hn', Node.isPresent_unplaced, hn.isPresent]
      refine ⟨?_, n' :: ns', ?_, hcons hc ht hsettles hpresent hsettles'⟩
      · rw [Cursor.peek_eq hc]
        exact Settles.ne_of_starts ht (by decide)
      · rw [List.map_cons, List.map_cons, hn', hns']

/-- **A block is read back** where its statements are. -/
theorem exists_settles_block (h : ∀ n ∈ ns, ReadBack spell n)
    (hreads : c.ReadsLike ((Node.block ns).statementTokens spell) d) :
    c.peek.kind = .leftBrace ∧
      ∃ b, b.unplaced = (Node.block ns).unplaced ∧ Settles blockWith c (.ok b, d) := by
  rw [Node.statementTokens] at hreads
  obtain ⟨c₁, hopening, hreads⟩ := hreads.takes
  obtain ⟨c₂, hstatements, hreads⟩ := Cursor.readsLike_append.mp hreads
  obtain ⟨c₃, hclosing, hd⟩ := hreads.takes
  obtain rfl := Cursor.readsLike_nil.mp hd
  obtain ⟨-, ns', hns', hsettles⟩ := exists_settles_all (fun c => c.peek.kind = .rightBrace)
    .statements_nil .statements_cons (fun hk => by rw [hk]; decide) h hstatements hclosing.peek_kind
  refine ⟨hopening.peek_kind, .block ns', ?_, .block hopening hsettles hclosing⟩
  rw [Node.unplaced, Node.unplaced, Node.unplacedAll_eq_map, hns', ← Node.unplacedAll_eq_map]

/-- The first part of a `for` is a statement, or its semicolon alone. -/
theorem exists_settles_initialization {n : Node} (h : n ≠ .absent → ReadBack spell n)
    (hreads : c.ReadsLike (n.statementTokens spell) d) (hd : d.peek.kind ≠ .elseWord) :
    ∃ n', n'.unplaced = n.unplaced ∧ Settles statementWith c (.ok n', d) := by
  by_cases hn : n = .absent
  · subst hn
    obtain ⟨m, hend, hnil⟩ := Cursor.ReadsLike.takes hreads
    obtain rfl := Cursor.readsLike_nil.mp hnil
    have hnothing : Settles expressionWith c (.ok .absent, c) :=
      .expression_nothing (by rw [hend.peek_kind]; rfl)
    exact ⟨.absent, rfl, .statement_expression (.inr hend.peek_kind) hnothing hend⟩
  · exact (h hn).settles hreads hd

namespace ReadBack

variable {e condition : Node} {body whenTrue whenFalse : List Node} {operator : Token}

/-- An expression is read back as a statement, by the semicolon behind it. -/
theorem expression (h : e.IsExpression fun v => (spell v).StandsFor v) : ReadBack spell e := by
  have htokens :
      e.statementTokens spell = e.expressionTokens spell ++ [Kind.endStatement.token] := by
    rcases h with h | name | ⟨name, h⟩ | ⟨hk, h⟩ | ⟨hk, hl, hr⟩
    case unary =>
      rw [Node.statementTokens, if_neg]
      rintro hreturn
      rw [hreturn] at hk
      cases hk
    all_goals rfl
  have hpresent : e.isPresent := by
    rcases h with h | name | ⟨name, h⟩ | ⟨hk, h⟩ | ⟨hk, hl, hr⟩ <;> rfl
  refine ⟨hpresent, fun {c d} hreads => ?_, fun {c d} hreads hd => ?_⟩
  · rw [htokens] at hreads
    obtain ⟨m, hexpression, -⟩ := Cursor.readsLike_append.mp hreads
    obtain ⟨t, hc, ht⟩ := exists_opens h hexpression
    exact ⟨t, hc, by rw [Kind.starts, ht, Bool.true_or]⟩
  · rw [htokens] at hreads
    obtain ⟨m, hexpression, hend⟩ := Cursor.readsLike_append.mp hreads
    obtain ⟨m', hsemicolon, hnil⟩ := hend.takes
    obtain rfl := Cursor.readsLike_nil.mp hnil
    obtain ⟨t, hc, ht⟩ := exists_opens h hexpression
    obtain ⟨e', he', -, hsettles⟩ :=
      exists_settles_expression h hexpression (by rw [hsemicolon.peek_kind]; rfl)
    exact ⟨e', he', .statement_expression (.inl (by rwa [Cursor.peek_eq hc])) hsettles hsemicolon⟩

/-- A statement that starts with a word of its own. -/
theorem of_word {word : Token} {n : Node} {us : List Token} (hword : word.kind.starts)
    (hn : n.isPresent) (htokens : n.statementTokens spell = word :: us)
    (h : ∀ {c d : Cursor} {t : Token}, c.rest.head? = some t → t.unplaced = word.unplaced →
      c.next.ReadsLike us d → d.peek.kind ≠ .elseWord →
        ∃ n', n'.unplaced = n.unplaced ∧ Settles statementWith c (.ok n', d)) :
    ReadBack spell n := by
  refine ⟨hn, fun {c d} hreads => ?_, fun {c d} hreads hd => ?_⟩
  · rw [htokens] at hreads
    obtain ⟨t, hc, ht, -⟩ := Cursor.readsLike_cons.mp hreads
    exact ⟨t, hc, by rwa [Token.kind_eq ht]⟩
  · rw [htokens] at hreads
    obtain ⟨t, hc, ht, hus⟩ := Cursor.readsLike_cons.mp hreads
    exact h hc ht hus hd

/-- A statement with a keyword is read back where the parser for the keyword does so behind it. -/
theorem of_keyword (kind : Kind) {n : Node} {us : List Token} (hkind : kind.starts)
    (hn : n.isPresent) (htokens : n.statementTokens spell = kind.token :: us)
    (h : ∀ {c c₁ d : Cursor}, c.Takes kind c₁ → c₁.ReadsLike us d → d.peek.kind ≠ .elseWord →
      ∃ n', n'.unplaced = n.unplaced ∧ Settles statementWith c (.ok n', d)) :
    ReadBack spell n :=
  of_word hkind hn htokens fun hc ht => h ⟨_, hc, Token.kind_eq ht, rfl⟩

/-- A declaration without a value reads its name as the whole expression. -/
theorem declaration (name : String) :
    ReadBack spell (.variable name (.reference name) true) := by
  refine of_keyword .varWord rfl rfl rfl fun {c c₁ d} h₁ hreads _ => ?_
  obtain ⟨t, hname, ht, hreads⟩ := Cursor.readsLike_cons.mp hreads
  obtain ⟨m, hend, hnil⟩ := hreads.takes
  obtain rfl := Cursor.readsLike_nil.mp hnil
  have hexp : Settles expressionWith c₁ (.ok (.reference t.lexeme), c₁.next) :=
    (Scans.name (Token.kind_eq ht)).settles ⟨hname, rfl⟩ (by rw [hend.peek_kind]; rfl)
  have hdefines : (Node.reference t.lexeme).defines t.lexeme := by
    simp [Node.defines, Node.referenced?]
  refine ⟨_, ?_, .statement_keyword (.inr (.inr (.inr (.inl ⟨h₁.peek_kind,
    .definition h₁ hname (Token.kind_eq ht) hexp hdefines hend⟩))))⟩
  rw [Token.lexeme_eq ht]
  rfl

/-- A definition reads its name as the left side of the assignment. -/
theorem definition (name : String) (hk : operator.kind = .assign)
    (h : e.IsExpression fun v => (spell v).StandsFor v) :
    ReadBack spell (.variable name (.binary operator (.reference name) e) true) := by
  refine of_keyword .varWord rfl rfl rfl fun {c c₁ d} h₁ hreads _ => ?_
  obtain ⟨t, hname, ht, hreads⟩ := Cursor.readsLike_cons.mp hreads
  obtain ⟨sign, hsign, hs, hreads⟩ := Cursor.readsLike_cons.mp hreads
  obtain ⟨m, hvalue, hreads⟩ := Cursor.readsLike_append.mp hreads
  obtain ⟨m', hend, hnil⟩ := hreads.takes
  obtain rfl := Cursor.readsLike_nil.mp hnil
  obtain ⟨ts, e', hderives, he', hts⟩ := derivable h hvalue
  have hassign : sign.kind = .assign := (Token.kind_eq hs).trans hk
  have hmem : sign.kind ∈ Kind.operators (7 + 1) := by
    rw [hassign]
    decide
  have hwhole : Derives Token.StandsFor 8 ([t] ++ sign :: ts) _ :=
    .joined hmem (.of_le (.name (Token.kind_eq ht)) (by decide)) (hderives.of_le (by decide))
  have hexp := (scans_of_derives id hwhole).settles ⟨hname, hsign, hts⟩
    (by rw [hend.peek_kind]; rfl)
  have hdefines : (Node.binary sign (.reference t.lexeme) e').defines t.lexeme := by
    simp [Node.defines, Node.referenced?, hassign]
  refine ⟨_, ?_, .statement_keyword (.inr (.inr (.inr (.inl ⟨h₁.peek_kind,
    .definition h₁ hname (Token.kind_eq ht) hexp hdefines hend⟩))))⟩
  rw [Token.lexeme_eq ht]
  simp only [Node.unplaced, hs, he']
  rfl

/-- A function is read back with references for parameters, and its body. -/
theorem function (name : String) {parameters : List Node}
    (hp : ∀ p ∈ parameters, ∃ x, p = .reference x) (h : ∀ n ∈ body, ReadBack spell n) :
    ReadBack spell (.function name parameters (.block body) true) := by
  refine of_keyword .functionWord rfl rfl rfl fun {c c₁ d} h₁ hreads _ => ?_
  obtain ⟨t, hname, ht, hreads⟩ := Cursor.readsLike_cons.mp hreads
  obtain ⟨c₂, h₂, hreads⟩ := hreads.takes
  obtain ⟨c₃, hparameters, hreads⟩ := Cursor.readsLike_append.mp hreads
  obtain ⟨c₄, h₃, hbody⟩ := hreads.takes
  have hderivable : ∀ p ∈ parameters, p.Derivable spell := by
    intro p hmem
    obtain ⟨x, rfl⟩ := hp p hmem
    exact derivable (.reference x)
  obtain ⟨ts, parameters', hall, hunplaced, hts⟩ := exists_derivesAll hderivable hparameters
  have hnames : ∀ n ∈ parameters', n.referenced?.isSome := by
    intro n hn
    have hmem : n.unplaced ∈ parameters.map Node.unplaced :=
      hunplaced ▸ List.mem_map.mpr ⟨n, hn, rfl⟩
    obtain ⟨p, hpmem, hpn⟩ := List.mem_map.mp hmem
    obtain ⟨x, rfl⟩ := hp p hpmem
    rw [← Node.referenced?_unplaced, ← hpn]
    rfl
  have hlist := settles_of_derivesAll id hall t true (fun _ => hnames) hts h₃.peek_kind
  obtain ⟨-, b, hb, hblock⟩ := exists_settles_block h hbody
  refine ⟨_, ?_, .statement_keyword (.inr (.inr (.inr (.inr (.inl ⟨h₁.peek_kind,
    .function h₁ hname (Token.kind_eq ht) h₂ hlist h₃ hblock⟩)))))⟩
  rw [Token.lexeme_eq ht, Node.unplaced, Node.unplaced, Node.unplacedAll_eq_map, hunplaced, hb,
    ← Node.unplacedAll_eq_map]
  rfl

/-- A return of nothing. -/
theorem returnVoid (hk : operator.kind = .returnWord) :
    ReadBack spell (.unary operator (.literal .void)) := by
  have htokens : (Node.unary operator (.literal .void)).statementTokens spell =
      [operator, Kind.endStatement.token] := by
    rw [Node.statementTokens, if_pos hk]
    rfl
  refine of_word (by rw [hk]; rfl) rfl htokens fun {c d t} hc ht hreads _ => ?_
  obtain ⟨m, hend, hnil⟩ := hreads.takes
  obtain rfl := Cursor.readsLike_nil.mp hnil
  have hkind : t.kind = .returnWord := (Token.kind_eq ht).trans hk
  have hnothing : Settles expressionWith c.next (.ok .absent, c.next) :=
    .expression_nothing (by rw [hend.peek_kind]; rfl)
  refine ⟨_, ?_, .statement_keyword (.inr (.inr (.inr (.inr (.inr ⟨?_,
    .returned hc hkind hnothing hend⟩)))))⟩
  · simp [Node.unplaced, ht, Node.isPresent]
  · rw [Cursor.peek_eq hc, hkind]

theorem returnValue (hk : operator.kind = .returnWord)
    (h : e.IsExpression fun v => (spell v).StandsFor v) : ReadBack spell (.unary operator e) := by
  by_cases hvoid : e = .literal .void
  · rw [hvoid]
    exact returnVoid hk
  have htokens : (Node.unary operator e).statementTokens spell =
      operator :: (e.expressionTokens spell ++ [Kind.endStatement.token]) := by
    rw [Node.statementTokens, if_pos hk, Node.returnedTokens]
    exact hvoid
  refine of_word (by rw [hk]; rfl) rfl htokens fun {c d t} hc ht hreads _ => ?_
  obtain ⟨m, hexpression, hreads⟩ := Cursor.readsLike_append.mp hreads
  obtain ⟨m', hend, hnil⟩ := hreads.takes
  obtain rfl := Cursor.readsLike_nil.mp hnil
  have hkind : t.kind = .returnWord := (Token.kind_eq ht).trans hk
  obtain ⟨e', he', hpresent, hsettles⟩ :=
    exists_settles_expression h hexpression (by rw [hend.peek_kind]; rfl)
  refine ⟨_, ?_, .statement_keyword (.inr (.inr (.inr (.inr (.inr ⟨?_,
    .returned hc hkind hsettles hend⟩)))))⟩
  · rw [if_pos hpresent, Node.unplaced, Node.unplaced, ht, he']
  · rw [Cursor.peek_eq hc, hkind]

/-- A choice is read back with no `else`, with a block there, or with another choice. -/
theorem choice (hc : condition.IsExpression fun v => (spell v).StandsFor v)
    (h : ∀ n ∈ whenTrue, ReadBack spell n) {other : Node}
    (hother : other = .absent ∨ (∃ ns, other = .block ns ∧ ∀ n ∈ ns, ReadBack spell n) ∨
      ∃ c t f, other = .choice c t f ∧ ReadBack spell other) :
    ReadBack spell (.choice condition (.block whenTrue) other) := by
  refine of_keyword .ifWord rfl rfl rfl fun {c c₁ d} h₁ hreads hd => ?_
  obtain ⟨c₂, h₂, hreads⟩ := hreads.takes
  obtain ⟨c₃, hcondition, hreads⟩ := Cursor.readsLike_append.mp hreads
  obtain ⟨c₄, h₃, hreads⟩ := hreads.takes
  obtain ⟨c₅, hbody, helse⟩ := Cursor.readsLike_append.mp hreads
  obtain ⟨n, hn, hpresent, hexp⟩ :=
    exists_settles_expression hc hcondition (by rw [h₃.peek_kind]; rfl)
  obtain ⟨-, b, hb, hblock⟩ := exists_settles_block h hbody
  have hchoice {whenFalse : Node} (hw : whenFalse.unplaced = other.unplaced)
      (hf : whenFalse = .absent ∧ c₅.peek.kind ≠ .elseWord ∧ c₅ = d ∨
        ∃ c₆, c₅.Takes .elseWord c₆ ∧
          (c₆.peek.kind = .ifWord ∧ Settles choiceWith c₆ (.ok whenFalse, d) ∨
            c₆.peek.kind ≠ .ifWord ∧ Settles blockWith c₆ (.ok whenFalse, d))) :
      ∃ n', n'.unplaced = (Node.choice condition (.block whenTrue) other).unplaced ∧
        Settles statementWith c (.ok n', d) := by
    refine ⟨.choice n b whenFalse, ?_, .statement_keyword (.inl ⟨h₁.peek_kind,
      .choice h₁ h₂ hexp hpresent h₃ hblock hf⟩)⟩
    simp only [Node.unplaced, hn, hb, hw]
  rcases hother with rfl | ⟨ns, rfl, hns⟩ | ⟨c', t', f', rfl, hother⟩
  · obtain rfl := Cursor.readsLike_nil.mp helse
    exact hchoice rfl (.inl ⟨rfl, hd, rfl⟩)
  · obtain ⟨c₆, h₆, helse⟩ := helse.takes
    obtain ⟨hbrace, b', hb', hblock'⟩ := exists_settles_block hns helse
    exact hchoice hb' (.inr ⟨c₆, h₆, .inr ⟨by rw [hbrace]; decide, hblock'⟩⟩)
  · obtain ⟨c₆, h₆, helse⟩ := helse.takes
    obtain ⟨n', hn', hsettles⟩ := hother.settles helse hd
    have hif : c₆.peek.kind = .ifWord := by
      have hword : c₆.ReadsLike (Kind.ifWord.token :: _) d := helse
      obtain ⟨m, htakes, -⟩ := hword.takes
      exact htakes.peek_kind
    exact hchoice hn' (.inr ⟨c₆, h₆, .inl ⟨hif, .choice_of_statement hif hsettles⟩⟩)

theorem whileLoop (hc : condition.IsExpression fun v => (spell v).StandsFor v)
    (h : ∀ n ∈ body, ReadBack spell n) :
    ReadBack spell (.whileLoop condition (.block body)) := by
  refine of_keyword .whileWord rfl rfl rfl fun {c c₁ d} h₁ hreads _ => ?_
  obtain ⟨c₂, h₂, hreads⟩ := hreads.takes
  obtain ⟨c₃, hcondition, hreads⟩ := Cursor.readsLike_append.mp hreads
  obtain ⟨c₄, h₃, hbody⟩ := hreads.takes
  obtain ⟨n, hn, hpresent, hexp⟩ :=
    exists_settles_expression hc hcondition (by rw [h₃.peek_kind]; rfl)
  obtain ⟨-, b, hb, hblock⟩ := exists_settles_block h hbody
  refine ⟨_, ?_, .statement_keyword (.inr (.inl ⟨h₁.peek_kind,
    .whileLoop h₁ h₂ hexp hpresent h₃ hblock⟩))⟩
  rw [Node.unplaced, Node.unplaced, hn, hb]

/-- A `for` is read back, any of its three parts being there or not. -/
theorem forLoop {initialization update : Node}
    (hi : initialization ≠ .absent → ReadBack spell initialization)
    (hc : condition ≠ .absent → condition.IsExpression fun v => (spell v).StandsFor v)
    (hu : update ≠ .absent → update.IsExpression fun v => (spell v).StandsFor v)
    (h : ∀ n ∈ body, ReadBack spell n) :
    ReadBack spell (.forLoop initialization condition update (.block body)) := by
  refine of_keyword .forWord rfl rfl rfl fun {c c₁ d} h₁ hreads _ => ?_
  obtain ⟨c₂, h₂, hreads⟩ := hreads.takes
  obtain ⟨c₃, hfirst, hreads⟩ := Cursor.readsLike_append.mp hreads
  obtain ⟨c₄, hcondition, hreads⟩ := Cursor.readsLike_append.mp hreads
  obtain ⟨c₅, h₃, hreads⟩ := hreads.takes
  obtain ⟨c₆, hupdate, hreads⟩ := Cursor.readsLike_append.mp hreads
  obtain ⟨c₇, h₄, hbody⟩ := hreads.takes
  obtain ⟨helse, n, hn, hexp⟩ :=
    exists_settles_optional hc hcondition (by rw [h₃.peek_kind]; rfl)
  obtain ⟨-, u, hu', hexp'⟩ := exists_settles_optional hu hupdate (by rw [h₄.peek_kind]; rfl)
  obtain ⟨i, hi', hsettles⟩ := exists_settles_initialization hi hfirst helse
  obtain ⟨-, b, hb, hblock⟩ := exists_settles_block h hbody
  refine ⟨_, ?_, .statement_keyword (.inr (.inr (.inl ⟨h₁.peek_kind,
    .forLoop h₁ h₂ hsettles hexp h₃ hexp' h₄ hblock⟩)))⟩
  rw [Node.unplaced, Node.unplaced, hi', hn, hu', hb]

end ReadBack

/-- **Every statement is read back from its tokens.** -/
theorem readBack {n : Node} (h : n.IsStatement fun v => (spell v).StandsFor v) :
    ReadBack spell n := by
  induction h with
  | expression h => exact .expression h
  | declaration name => exact .declaration name
  | definition name hk h => exact .definition name hk h
  | function name hp _ ih => exact .function name hp ih
  | returnVoid hk => exact .returnVoid hk
  | returnValue hk h => exact .returnValue hk h
  | choice hc _ ih => exact .choice hc ih (.inl rfl)
  | choiceElse hc _ _ iht ihf => exact .choice hc iht (.inr (.inl ⟨_, rfl, ihf⟩))
  | choiceChain hc _ _ iht ihf => exact .choice hc iht (.inr (.inr ⟨_, _, _, rfl, ihf⟩))
  | whileLoop hc _ ih => exact .whileLoop hc ih
  | forLoop _ hc hu _ ihi ih => exact .forLoop ihi hc hu ih

end Parser

/-- **Parsing undoes writing.**  The tokens that write the tree of a program are parsed as that tree
up to places, wherever the tokens stand, if the token that `spell` gives for each literal of the
tree stands for its value. -/
theorem parse_programTokens (spell : Value → Token) {n : Node}
    (h : n.IsProgram fun v => (spell v).StandsFor v) {ts : List Token}
    (hts : ts.map Token.unplaced = (n.programTokens spell).map Token.unplaced) :
    ∃ n', parse ts = .ok n' ∧ n'.unplaced = n.unplaced := by
  obtain @⟨ns, hstatements⟩ := h
  have hreads :
      (Cursor.ofTokens ts).ReadsLike (Node.statementsTokens spell ns) (.behind ts []) := by
    refine ⟨ts, hts, ?_⟩
    simpa [Cursor.behind, Cursor.ofTokens] using Cursor.reads_behind [] ts []
  have helse {c : Cursor} (hc : c.rest = [] ∧ c.Closed) : c.peek.kind ≠ .elseWord := by
    rw [Cursor.peek, Cursor.ahead, hc.1]
    change c.finish.kind ≠ .elseWord
    rw [hc.2]
    decide
  obtain ⟨-, ns', hns', hsettles⟩ := Parser.exists_settles_all (fun c => c.rest = [] ∧ c.Closed)
    (fun hc => .program_nil hc.1) .program_cons helse
    (fun n hn => Parser.readBack (hstatements n hn)) hreads ⟨rfl, rfl⟩
  have hrun := hsettles.run_program rfl
  refine ⟨.block ns', ?_, ?_⟩
  · rw [parse, Parser.program, Parser.run_bind, hrun]
    rfl
  · rw [Node.unplaced, Node.unplaced, Node.unplacedAll_eq_map, hns', ← Node.unplacedAll_eq_map]

/-- The tokens of `function f(a) { if ((-a)) { return (a - 2); } }`. -/
theorem parse_programTokens_function : ∃ n',
    parse [Kind.functionWord.token, .ofName "f", Kind.leftParen.token, .ofName "a",
      Kind.rightParen.token, Kind.leftBrace.token, Kind.ifWord.token, Kind.leftParen.token,
      Kind.leftParen.token, Kind.subtract.token, .ofName "a", Kind.rightParen.token,
      Kind.rightParen.token, Kind.leftBrace.token, Kind.returnWord.token, Kind.leftParen.token,
      .ofName "a", Kind.subtract.token, ⟨.int, "2", .none⟩, Kind.rightParen.token,
      Kind.endStatement.token, Kind.rightBrace.token, Kind.rightBrace.token] = .ok n' ∧
    n'.unplaced = .block [.function "f" [.reference "a"]
      (.block [.choice (.unary Kind.negative.token (.reference "a"))
        (.block [.unary Kind.returnWord.token
          (.binary Kind.subtract.token (.reference "a") (.literal (.int 2)))]) .absent]) true] := by
  have htwo : Token.StandsFor ⟨.int, "2", .none⟩ (.int 2) := ⟨rfl, by cbv⟩
  have hreturn : Node.IsStatement (fun v => Token.StandsFor ⟨.int, "2", .none⟩ v)
      (.unary Kind.returnWord.token
        (.binary Kind.subtract.token (.reference "a") (.literal (.int 2)))) :=
    .returnValue rfl (.binary rfl (.reference "a") (.literal htwo))
  have hchoice : Node.IsStatement (fun v => Token.StandsFor ⟨.int, "2", .none⟩ v)
      (.choice (.unary Kind.negative.token (.reference "a")) _ .absent) :=
    .choice (.unary rfl (.reference "a")) (List.forall_mem_singleton.mpr hreturn)
  have hfunction := Node.IsStatement.function "f"
    (List.forall_mem_singleton.mpr ⟨"a", rfl⟩) (List.forall_mem_singleton.mpr hchoice)
  exact parse_programTokens (fun _ => ⟨.int, "2", .none⟩)
    (.intro (List.forall_mem_singleton.mpr hfunction)) rfl

end Scrawl
