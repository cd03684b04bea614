import Scrawl.Proofs.Expression.Grammar

/-!
# Proofs/Parser/Statements — how statements are parsed

One rule for each part of the parser of statements: what it settles in where its keywords and
punctuation stand and its own parts settle.  `c.Takes kind d` says that one token of a kind stands
between two places.
-/

namespace Scrawl

/-- A token at which a statement that is not empty may start. -/
def Kind.starts (k : Kind) : Bool :=
  k.opens || [ifWord, whileWord, forWord, varWord, functionWord, returnWord].contains k

/-- **A token of a kind stands between two places.** -/
def Cursor.Takes (c : Cursor) (kind : Kind) (d : Cursor) : Prop :=
  ∃ t, c.rest.head? = some t ∧ t.kind = kind ∧ c.next = d

theorem Cursor.Takes.peek_kind {c d : Cursor} {kind : Kind} (h : c.Takes kind d) :
    c.peek.kind = kind := by
  obtain ⟨t, hc, hk, -⟩ := h
  rw [Cursor.peek_eq hc, hk]

namespace Parser.Settles

variable {β : Type} {c c₁ c₂ c₃ c₄ c₅ c₆ c₇ d : Cursor} {n m : Node} {ns : List Node}
  {r : Except ParseError β × Cursor}

/-- A token that is there is taken, and what settles behind it settles. -/
theorem skip {kind : Kind} {expectation : String} {p : ℕ → Parser β} (h : c.Takes kind d)
    (hp : Settles p d r) :
    Settles (fun fuel => consume kind expectation >>= fun _ => p fuel) c r := by
  obtain ⟨t, hc, hk, rfl⟩ := h
  exact .take hc hk hp

/-- Where an expression may end, nothing is parsed as one. -/
theorem expression_nothing (h : Scan.stopsAt 0 c.peek.kind) :
    Settles expressionWith c (.ok .absent, c) := by
  refine .succ ?_
  simp only [expressionWith]
  have hscan : Settles (scanWith · .empty) c (.ok .empty, c) := .scan_stop h
  exact hscan.bind (.ite_pos rfl (.of_forall fun _ => rfl))

/-! ## Statements by their first token -/

/-- **A keyword decides the statement**, and the parser of that statement goes on from there. -/
theorem statement_keyword {r : Except ParseError Node × Cursor}
    (h : c.peek.kind = .ifWord ∧ Settles choiceWith c r ∨
      c.peek.kind = .whileWord ∧ Settles whileWith c r ∨
      c.peek.kind = .forWord ∧ Settles forWith c r ∨
      c.peek.kind = .varWord ∧ Settles definitionWith c r ∨
      c.peek.kind = .functionWord ∧ Settles (functionWith · true) c r ∨
      c.peek.kind = .returnWord ∧ Settles returnWith c r) : Settles statementWith c r := by
  refine .succ ?_
  simp only [statementWith]
  refine .look (run_peek c) ?_
  rcases h with ⟨hk, h⟩ | ⟨hk, h⟩ | ⟨hk, h⟩ | ⟨hk, h⟩ | ⟨hk, h⟩ | ⟨hk, h⟩ <;>
    simpa only [hk] using h

/-- A choice that is parsed as a statement is parsed as a choice. -/
theorem choice_of_statement {r : Except ParseError Node × Cursor} (hk : c.peek.kind = .ifWord)
    (h : Settles statementWith c r) : Settles choiceWith c r := by
  have hsucc := (Filter.tendsto_add_atTop_nat 1).eventually h
  filter_upwards [hsucc] with fuel hfuel
  rw [statementWith, run_bind, run_peek] at hfuel
  simpa only [hk] using hfuel

/-- An expression statement, or an empty one. -/
theorem statement_expression (hc : c.peek.kind.opens ∨ c.peek.kind = .endStatement)
    (h : Settles expressionWith c (.ok n, c₁)) (hend : c₁.Takes .endStatement d) :
    Settles statementWith c (.ok n, d) := by
  refine .succ ?_
  simp only [statementWith]
  refine .look (run_peek c) ?_
  have hrest : Settles (fun fuel => do
      let n ← expressionWith fuel
      let _ ← consume .endStatement "Expected ';' after expression"
      return n) c (.ok n, d) := h.bind (.skip hend (.pure n d))
  generalize c.peek.kind = kind at hc
  split
  case h_7 => exact hrest
  all_goals exact absurd hc (by decide)

/-! ## Blocks -/

/-- What starts a statement is no kind that starts none. -/
theorem ne_of_starts {k k' : Kind} (h : k.starts) (hk : ¬ k'.starts) : k ≠ k' := by
  rintro rfl
  exact hk h

/-- At a closing brace there are no more statements. -/
theorem statements_nil (hc : c.peek.kind = .rightBrace) :
    Settles statementsWith c (.ok [], c) := by
  refine .succ ?_
  simp only [statementsWith]
  exact .look (run_check _ c) (.ite_pos (decide_eq_true hc) (.pure [] c))

/-- A statement that is there stands before those that follow. -/
theorem statements_cons {t : Token} (hc : c.rest.head? = some t) (ht : t.kind.starts)
    (h : Settles statementWith c (.ok n, c₁)) (hn : n.isPresent)
    (hs : Settles statementsWith c₁ (.ok ns, d)) : Settles statementsWith c (.ok (n :: ns), d) := by
  have hpeek := Cursor.peek_eq hc
  refine .succ ?_
  simp only [statementsWith]
  refine .look (run_check _ c) (.ite_neg ?_ (.look (run_atEnd c) (.ite_neg ?_
    (.look (run_check _ c) (.ite_neg ?_ (h.bind (hs.bind ?_)))))))
  · rw [hpeek, decide_eq_true_iff]
    exact ne_of_starts ht (by decide)
  · rw [Cursor.isEmpty_rest hc]
    decide
  · rw [hpeek, decide_eq_true_iff]
    exact ne_of_starts ht (by decide)
  · rw [if_pos hn]
    exact .pure _ d

/-- Statements between braces are a block. -/
theorem block (h₁ : c.Takes .leftBrace c₁) (hs : Settles statementsWith c₁ (.ok ns, c₂))
    (h₂ : c₂.Takes .rightBrace d) : Settles blockWith c (.ok (.block ns), d) := by
  refine .succ ?_
  simp only [blockWith]
  exact .skip h₁ (hs.bind (.skip h₂ (.pure _ d)))

/-! ## Programs -/

/-- At the end of the tokens the program ends. -/
theorem program_nil (hc : c.rest = []) : Settles programWith c (.ok [], c) := by
  refine .succ ?_
  simp only [programWith]
  exact .look (run_atEnd c) (.ite_pos (List.isEmpty_iff.mpr hc) (.pure [] c))

/-- A program goes on as long as a token starts a statement. -/
theorem program_cons {t : Token} (hc : c.rest.head? = some t) (ht : t.kind.starts)
    (h : Settles statementWith c (.ok n, c₁)) (hn : n.isPresent)
    (hs : Settles programWith c₁ (.ok ns, d)) : Settles programWith c (.ok (n :: ns), d) := by
  refine .succ ?_
  simp only [programWith]
  refine .look (run_atEnd c) (.ite_neg ?_
    (.look (run_check _ c) (.ite_neg ?_ (h.bind (hs.bind ?_)))))
  · rw [Cursor.isEmpty_rest hc]
    decide
  · rw [Cursor.peek_eq hc, decide_eq_true_iff]
    exact ne_of_starts ht (by decide)
  · rw [if_pos hn]
    exact .pure _ d

/-! ## Compound statements -/

/-- An `if` with its condition, its block and whatever its `else` comes to. -/
theorem choice {whenTrue whenFalse : Node} (h₁ : c.Takes .ifWord c₁) (h₂ : c₁.Takes .leftParen c₂)
    (hc : Settles expressionWith c₂ (.ok n, c₃)) (hn : n.isPresent)
    (h₃ : c₃.Takes .rightParen c₄) (ht : Settles blockWith c₄ (.ok whenTrue, c₅))
    (hf : whenFalse = .absent ∧ c₅.peek.kind ≠ .elseWord ∧ c₅ = d ∨
      ∃ c₆, c₅.Takes .elseWord c₆ ∧
        (c₆.peek.kind = .ifWord ∧ Settles choiceWith c₆ (.ok whenFalse, d) ∨
          c₆.peek.kind ≠ .ifWord ∧ Settles blockWith c₆ (.ok whenFalse, d))) :
    Settles choiceWith c (.ok (.choice n whenTrue whenFalse), d) := by
  refine .succ ?_
  simp only [choiceWith]
  refine .skip h₁ (.skip h₂ ((hc.require hn _).bind (.skip h₃ (ht.bind ?_))))
  refine .look (run_check _ c₅) ?_
  rcases hf with ⟨rfl, helse, rfl⟩ | ⟨c₆, helse, hf⟩
  · exact .ite_neg (by simpa using helse) (.pure _ c₅)
  · refine .ite_pos (by simp [helse.peek_kind]) ?_
    obtain ⟨t, ht, -, rfl⟩ := helse
    refine .advance ht (.look (run_check _ _) ?_)
    rcases hf with ⟨hif, hf⟩ | ⟨hif, hf⟩
    · exact .ite_pos (by simpa using hif) (hf.bind (.pure _ d))
    · exact .ite_neg (by simpa using hif) (hf.bind (.pure _ d))

/-- A `while` has a condition that must be there, and a block. -/
theorem whileLoop (h₁ : c.Takes .whileWord c₁) (h₂ : c₁.Takes .leftParen c₂)
    (hc : Settles expressionWith c₂ (.ok n, c₃)) (hn : n.isPresent)
    (h₃ : c₃.Takes .rightParen c₄) (hb : Settles blockWith c₄ (.ok m, d)) :
    Settles whileWith c (.ok (.whileLoop n m), d) := by
  refine .succ ?_
  simp only [whileWith]
  exact .skip h₁ (.skip h₂ ((hc.require hn _).bind (.skip h₃ (hb.bind (.pure _ d)))))

/-- A `for` has its three parts in one pair of parentheses; the first ends as a statement does. -/
theorem forLoop {initialization condition update body : Node} (h₁ : c.Takes .forWord c₁)
    (h₂ : c₁.Takes .leftParen c₂) (hi : Settles statementWith c₂ (.ok initialization, c₃))
    (hc : Settles expressionWith c₃ (.ok condition, c₄)) (h₃ : c₄.Takes .endStatement c₅)
    (hu : Settles expressionWith c₅ (.ok update, c₆)) (h₄ : c₆.Takes .rightParen c₇)
    (hb : Settles blockWith c₇ (.ok body, d)) :
    Settles forWith c (.ok (.forLoop initialization condition update body), d) := by
  refine .succ ?_
  simp only [forWith]
  exact .skip h₁ (.skip h₂ (hi.bind (hc.bind (.skip h₃ (hu.bind (.skip h₄
    (hb.bind (.pure _ d))))))))

/-! ## Definitions and returns -/

/-- A `var` reads its name as the start of the expression, and looks at the name again afterwards.
-/
theorem definition {name : Token} (h₁ : c.Takes .varWord c₁) (hname : c₁.rest.head? = some name)
    (hk : name.kind = .identifier) (hi : Settles expressionWith c₁ (.ok n, c₂))
    (hn : n.defines name.lexeme) (h₂ : c₂.Takes .endStatement d) :
    Settles definitionWith c (.ok (.variable name.lexeme n true), d) := by
  refine .succ ?_
  simp only [definitionWith]
  have hpeek := Cursor.peek_eq hname
  refine .skip h₁ (.look (run_peek c₁) ?_)
  rw [hpeek]
  exact .ite_pos hk (hi.bind (.ite_pos hn (.skip h₂ (.pure _ d))))

/-- A function takes its name, its parameters and a block. -/
theorem function {name : Token} {body : Node} (h₁ : c.Takes .functionWord c₁)
    (hname : c₁.rest.head? = some name) (hk : name.kind = .identifier)
    (h₂ : c₁.next.Takes .leftParen c₂) (hp : Settles (parametersWith · name true) c₂ (.ok ns, c₃))
    (h₃ : c₃.Takes .rightParen c₄) (hb : Settles blockWith c₄ (.ok body, d)) :
    Settles (functionWith · true) c (.ok (.function name.lexeme ns body true), d) := by
  refine .succ ?_
  simp only [functionWith]
  exact .skip h₁ (.take hname hk (.skip h₂ (hp.bind (.skip h₃ (hb.bind (.pure _ d))))))

/-- A `return` without an expression returns the void literal. -/
theorem returned {t : Token} (ht : c.rest.head? = some t) (hk : t.kind = .returnWord)
    (h : Settles expressionWith c.next (.ok n, c₁)) (h₁ : c₁.Takes .endStatement d) :
    Settles returnWith c (.ok (.unary t (if n.isPresent then n else .literal .void)), d) := by
  refine .succ ?_
  simp only [returnWith]
  exact .take ht hk (h.bind (.skip h₁ (.pure _ d)))

end Parser.Settles

end Scrawl
