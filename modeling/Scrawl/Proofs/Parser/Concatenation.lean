import Scrawl.Proofs.Parser.Statements

/-!
# Proofs/Parser/Concatenation — programs one after the other

What is parsed does not change when more tokens follow (`carried`).  A part of the parser that ends
with a token of its own never looks behind it; one that stops in front of a token looks at that one,
so it must be there.  Only a choice may end with a look behind its last token, for an `else`, and no
program starts with that.
-/

namespace Scrawl

/-- **More tokens behind those of a cursor.** -/
structure Cursor.Prolongs (more : List Token) (c c' : Cursor) : Prop where
  rest : c'.rest = c.rest ++ more
  closed : c.Closed
  closed' : c'.Closed

namespace Cursor.Prolongs

variable {more : List Token} {c c' : Cursor}

/-- While tokens are left, the next one is the same. -/
theorem peek (h : c.Prolongs more c') (hc : c.rest ≠ []) : c'.peek = c.peek := by
  obtain ⟨t, rest, hrest⟩ := List.exists_cons_of_ne_nil hc
  rw [Cursor.peek, Cursor.peek, Cursor.ahead, Cursor.ahead, h.rest, hrest]
  rfl

theorem next (h : c.Prolongs more c') (hc : c.rest ≠ []) : c.next.Prolongs more c'.next := by
  refine ⟨?_, h.closed, h.closed'⟩
  obtain ⟨t, rest, hrest⟩ := List.exists_cons_of_ne_nil hc
  rw [Cursor.next, Cursor.next, h.rest, hrest]
  rfl

theorem isEmpty_rest (h : c.Prolongs more c') (hc : c.rest ≠ []) :
    c'.rest.isEmpty = c.rest.isEmpty := by
  rw [h.rest, List.isEmpty_eq_false_iff.mpr hc, List.isEmpty_eq_false_iff]
  exact List.append_ne_nil_of_left_ne_nil hc more

end Cursor.Prolongs

namespace Parser

variable {α β : Type} {more : List Token} {P Q R : Prop}

/-- **A parser does the same with more tokens behind**, where it succeeds and tokens are left at its
end or `Q` makes up for them.  Then tokens are left at its start or `P` makes up for them, so that
the parsers of a sequence are joined from its end. -/
structure Carries (more : List Token) (P Q : Prop) (p : Parser α) : Prop where
  closed : ∀ {c d : Cursor} {a : α}, c.Closed → p.run c = (.ok a, d) → d.Closed
  back : ∀ {c d : Cursor} {a : α}, c.Closed → p.run c = (.ok a, d) → d.rest ≠ [] ∨ Q →
    c.rest ≠ [] ∨ P
  carry : ∀ {c c' d : Cursor} {a : α}, c.Prolongs more c' → p.run c = (.ok a, d) →
    d.rest ≠ [] ∨ Q → ∃ d', p.run c' = (.ok a, d') ∧ d.Prolongs more d'

/-- A success of a sequence is one of its parts, one after the other. -/
theorem exists_of_run_bind {p : Parser α} {f : α → Parser β} {c e : Cursor} {b : β}
    (h : (p >>= f).run c = (.ok b, e)) :
    ∃ a d, p.run c = (.ok a, d) ∧ (f a).run d = (.ok b, e) := by
  rw [run_bind] at h
  generalize p.run c = r at h ⊢
  obtain ⟨_ | a, d⟩ := r
  · cases h
  · exact ⟨a, d, rfl, h⟩

namespace Carries

theorem mono {P' Q' : Prop} {p : Parser α} (h : Carries more P Q p) (hP : P → P') (hQ : Q' → Q) :
    Carries more P' Q' p where
  closed := h.closed
  back hc hr hd := (h.back hc hr (hd.imp_right hQ)).imp_right hP
  carry hc hr hd := h.carry hc hr (hd.imp_right hQ)

/-- **Parsers in turn carry in turn**: what the second may assume is what the first ended with. -/
theorem bind {p : Parser α} {f : α → Parser β} (hp : Carries more P Q p)
    (hf : ∀ a, Carries more Q R (f a)) : Carries more P R (p >>= f) where
  closed hc hr := by
    obtain ⟨a, d, hd, he⟩ := exists_of_run_bind hr
    exact (hf a).closed (hp.closed hc hd) he
  back hc hr hend := by
    obtain ⟨a, d, hd, he⟩ := exists_of_run_bind hr
    exact hp.back hc hd ((hf a).back (hp.closed hc hd) he hend)
  carry hc hr hend := by
    obtain ⟨a, d, hd, he⟩ := exists_of_run_bind hr
    obtain ⟨d', hd', hprolongs⟩ :=
      hp.carry hc hd ((hf a).back (hp.closed hc.closed hd) he hend)
    obtain ⟨e', he', hprolongs'⟩ := (hf a).carry hprolongs he hend
    refine ⟨e', ?_, hprolongs'⟩
    rw [run_bind, hd']
    exact he'

theorem pure (a : α) : Carries more Q Q (Pure.pure a : Parser α) where
  closed hc hr := by
    obtain ⟨-, rfl⟩ := Prod.mk.inj hr
    exact hc
  back hc hr hend := by
    obtain ⟨-, rfl⟩ := Prod.mk.inj hr
    exact hend
  carry {c c' d b} hc hr hend := by
    obtain ⟨hb, rfl⟩ := Prod.mk.inj hr
    obtain rfl := Except.ok.inj hb
    exact ⟨c', rfl, hc⟩

/-- A parser that never succeeds carries over. -/
theorem of_fails {p : Parser α} (h : ∀ c d a, p.run c ≠ (.ok a, d)) : Carries more P Q p where
  closed _ hr := absurd hr (h _ _ _)
  back _ hr := absurd hr (h _ _ _)
  carry _ hr := absurd hr (h _ _ _)

theorem throw (e : ParseError) : Carries more P Q (throw e : Parser α) :=
  .of_fails fun c d a hr => by cases hr

theorem throw_bind (e : ParseError) (f : α → Parser β) :
    Carries more P Q (MonadExcept.throw e >>= f) := .of_fails fun c d a hr => by cases hr

theorem complain (text : String) : Carries more P Q (complain text : Parser α) :=
  .of_fails fun c d a hr => by cases hr

theorem complain_bind (text : String) (f : α → Parser β) :
    Carries more P Q (Parser.complain text >>= f) := .of_fails fun c d a hr => by cases hr

/-- A result computed elsewhere does not depend on the tokens. -/
theorem ofExcept : ∀ x : Except ParseError α, Carries more Q Q (ofExcept x)
  | .ok a => .pure a
  | .error _ => .of_fails fun c d a hr => by cases hr

theorem ite {b : Prop} [Decidable b] {p q : Parser α} (hp : Carries more P Q p)
    (hq : Carries more P Q q) : Carries more P Q (if b then p else q) := by
  split
  · exact hp
  · exact hq

/-- A look at tokens that are there. -/
theorem look {p : Parser α} {f : Cursor → α} (hp : ∀ c, p.run c = (.ok (f c), c))
    (hf : ∀ {c c' : Cursor}, c.Prolongs more c' → c.rest ≠ [] ∨ Q → f c' = f c) :
    Carries more Q Q p where
  closed {c d a} hc hr := by
    obtain ⟨-, rfl⟩ := Prod.mk.inj ((hp c).symm.trans hr)
    exact hc
  back {c d a} hc hr hend := by
    obtain ⟨-, rfl⟩ := Prod.mk.inj ((hp c).symm.trans hr)
    exact hend
  carry {c c' d a} hc hr hend := by
    obtain ⟨ha, rfl⟩ := Prod.mk.inj ((hp c).symm.trans hr)
    obtain rfl := Except.ok.inj ha
    exact ⟨c', by rw [hp, hf hc hend], hc⟩

theorem peek : Carries more False False peek :=
  .look run_peek fun hc h => hc.peek (h.resolve_right not_false)

theorem check (kind : Kind) : Carries more False False (check kind) :=
  .look (run_check kind) fun hc h => by rw [hc.peek (h.resolve_right not_false)]

theorem atEnd : Carries more False False atEnd :=
  .look run_atEnd fun hc h => hc.isEmpty_rest (h.resolve_right not_false)

theorem advance : Carries more False False advance := by
  have hfound {c d : Cursor} {t : Token} (hr : Parser.advance.run c = (.ok t, d))
      (hend : d.rest ≠ [] ∨ False) : c.rest ≠ [] ∧ c.peek = t ∧ c.next = d := by
    rw [run_advance] at hr
    obtain ⟨ht, rfl⟩ := Prod.mk.inj hr
    have hrest : c.rest ≠ [] := fun hnil => by
      rw [hnil] at hend
      exact hend.elim (fun hrest => hrest hnil) id
    exact ⟨hrest, Except.ok.inj ht, by rw [if_neg (by simpa using hrest)]⟩
  constructor
  · intro c d t hc hr
    rw [run_advance] at hr
    obtain ⟨-, rfl⟩ := Prod.mk.inj hr
    split <;> exact hc
  · exact fun _ hr hend => .inl (hfound hr hend).1
  · intro c c' d t hc hr hend
    obtain ⟨hrest, rfl, rfl⟩ := hfound hr hend
    refine ⟨c'.next, ?_, hc.next hrest⟩
    rw [run_advance, hc.isEmpty_rest hrest, if_neg (by simpa using hrest), hc.peek hrest]

/-- A token that is taken is there. -/
theorem consume {kind : Kind} (hk : kind ≠ .endFile) (expectation : String) :
    Carries more False Q (consume kind expectation) := by
  have hfound {c d : Cursor} {t : Token} (hc : c.Closed)
      (hr : (Parser.consume kind expectation).run c = (.ok t, d)) :
      c.peek.kind = kind ∧ c.rest ≠ [] ∧ c.peek = t ∧ c.next = d := by
    rw [run_consume] at hr
    split at hr
    · rename_i hkind
      obtain ⟨ht, rfl⟩ := Prod.mk.inj hr
      exact ⟨hkind, Cursor.rest_ne_nil hc (hkind ▸ hk), Except.ok.inj ht, rfl⟩
    · cases hr
  constructor
  · intro c d t hc hr
    obtain ⟨-, -, -, rfl⟩ := hfound hc hr
    exact hc
  · exact fun hc hr _ => .inl (hfound hc hr).2.1
  · intro c c' d t hc hr _
    obtain ⟨hkind, hrest, rfl, rfl⟩ := hfound hc.closed hr
    refine ⟨c'.next, ?_, hc.next hrest⟩
    rw [run_consume, hc.peek hrest, if_pos hkind]

/-- A token asked for is there before the end, so more behind it changes nothing. -/
theorem consume_bind {kind : Kind} (hk : kind ≠ .endFile) {expectation : String}
    {f : Token → Parser β} (hf : ∀ t, Carries more False Q (f t)) :
    Carries more False Q (Parser.consume kind expectation >>= f) :=
  (consume hk expectation).bind hf

/-- A look at the token behind the next, where that one is there. -/
theorem ahead_one_bind {f : Token → Parser α} (hf : ∀ t, Carries more False False (f t))
    (hnext : ∀ {c d : Cursor} {a : α}, c.Closed → (f c.next.peek).run c = (.ok a, d) →
      d.rest ≠ [] → c.next.rest ≠ []) : Carries more False False (ahead 1 >>= f) := by
  have hrun (c : Cursor) : (ahead 1 >>= f).run c = (f c.next.peek).run c := by
    rw [run_bind, run_ahead, Cursor.ahead_one]
  constructor
  · intro c d a hc hr
    exact (hf _).closed hc (hrun c ▸ hr)
  · intro c d a hc hr
    exact (hf _).back hc (hrun c ▸ hr)
  · intro c c' d a hc hr hend
    rw [hrun] at hr ⊢
    have hrest := ((hf _).back hc.closed hr hend).resolve_right not_false
    have hthere := hnext hc.closed hr (hend.resolve_right not_false)
    rw [(hc.next hrest).peek hthere]
    exact (hf _).carry hc hr hend

theorem requireFrom {p : Parser Node} (h : Carries more False False p) (text : String) :
    Carries more False False (requireFrom p text) :=
  h.bind fun _ => .ite (.pure _) (.complain_bind _ _)

end Carries

/-- No `else` follows. -/
def NoElse (more : List Token) : Prop := ∀ t ∈ more.head?, t.kind ≠ .elseWord

/-- Behind the last token, no `else` is found where none follows. -/
theorem Carries.check_else :
    Carries more (NoElse more) (NoElse more) (Parser.check .elseWord) := by
  refine .look (run_check .elseWord) fun {c c'} hc h => ?_
  by_cases hrest : c.rest = []
  · have hmore := h.resolve_left (not_not.mpr hrest)
    have hfinish {c : Cursor} (hc : c.Closed) (hrest : c.rest = []) : c.peek.kind = .endFile := by
      rw [Cursor.peek, Cursor.ahead, hrest]
      exact hc
    have hpeek : c'.peek.kind ≠ .elseWord := by
      cases hhead : more.head? with
      | none =>
        rw [List.head?_eq_none_iff] at hhead
        rw [hfinish hc.closed' (by rw [hc.rest, hrest, hhead]; rfl)]
        decide
      | some t =>
        rw [Cursor.peek_eq (t := t) (by rw [hc.rest, hrest, List.nil_append, hhead])]
        exact hmore t hhead
    rw [hfinish hc.closed hrest, decide_eq_false hpeek]
    rfl
  · rw [hc.peek hrest]

/-! ## The parts of the parser -/

/-- **The parts of the parser carry over**, for an amount of fuel. -/
structure Carried (more : List Token) (fuel : Nat) : Prop where
  statement : Carries more False (NoElse more) (statementWith fuel)
  statements : Carries more False False (statementsWith fuel)
  block : Carries more False True (blockWith fuel)
  choice : Carries more False (NoElse more) (choiceWith fuel)
  whileLoop : Carries more False True (whileWith fuel)
  forLoop : Carries more False True (forWith fuel)
  definition : Carries more False True (definitionWith fuel)
  function : ∀ isDefinition, Carries more False True (functionWith fuel isDefinition)
  parameters : ∀ name isDefinition,
    Carries more False False (parametersWith fuel name isDefinition)
  returned : Carries more False True (returnWith fuel)
  expression : Carries more False False (expressionWith fuel)
  scan : ∀ s, Carries more False False (scanWith fuel s)

namespace Carried

/-- Without fuel nothing succeeds. -/
theorem zero : Carried more 0 where
  statement := by rw [statementWith]; exact .throw _
  statements := by rw [statementsWith]; exact .throw _
  block := by rw [blockWith]; exact .throw _
  choice := by rw [choiceWith]; exact .throw _
  whileLoop := by rw [whileWith]; exact .throw _
  forLoop := by rw [forWith]; exact .throw _
  definition := by rw [definitionWith]; exact .throw _
  function _ := by rw [functionWith]; exact .throw _
  parameters _ _ := by rw [parametersWith]; exact .throw _
  returned := by rw [returnWith]; exact .throw _
  expression := by rw [expressionWith]; exact .throw _
  scan _ := by rw [scanWith]; exact .throw _

variable {fuel : Nat} (h : Carried more fuel)

include h

/-- **A statement ends at its own end**, unless an `else` could go on with it. -/
theorem statement_succ : Carries more False (NoElse more) (statementWith (fuel + 1)) := by
  have hany {p : Parser Node} (hp : Carries more False True p) :
      Carries more False (NoElse more) p := hp.mono id fun _ => trivial
  rw [statementWith]
  refine .bind .peek fun t => ?_
  split
  · exact h.choice
  · exact hany h.whileLoop
  · exact hany h.forLoop
  · exact hany h.definition
  · exact hany (h.function true)
  · exact hany h.returned
  · exact h.expression.bind fun n => .bind (.consume (by decide) _) fun _ => .pure n

theorem statements_succ : Carries more False False (statementsWith (fuel + 1)) := by
  rw [statementsWith]
  refine .bind (.check _) fun closed => .ite (.pure _) (.bind .atEnd fun ended => ?_)
  refine .ite (.complain _) (.bind (.check _) fun stray => .ite ?_ ?_)
  · exact .bind .advance fun _ => h.statements
  · refine .bind (h.statement.mono id False.elim) fun n => h.statements.bind fun ns => ?_
    exact .pure _

/-- A block ends at its brace, whatever is behind it. -/
theorem block_succ : Carries more False True (blockWith (fuel + 1)) := by
  rw [blockWith]
  refine .consume_bind (by decide) fun _ => h.statements.bind fun ns => ?_
  exact .bind (.consume (by decide) _) fun _ => .pure _

/-- Only an `else` behind a choice goes on with it. -/
theorem choice_succ : Carries more False (NoElse more) (choiceWith (fuel + 1)) := by
  have hblock : Carries more False (NoElse more) (blockWith fuel) :=
    h.block.mono id fun _ => trivial
  rw [choiceWith]
  refine .consume_bind (by decide) fun _ => .consume_bind (by decide) fun _ => ?_
  refine .bind (h.expression.requireFrom _) fun condition => ?_
  refine .consume_bind (by decide) fun _ => ?_
  refine hblock.bind fun whenTrue => .bind .check_else fun hasElse => ?_
  refine .ite (.mono (P := False) (.bind .advance fun _ => ?_) False.elim id) (.pure _)
  refine .bind (.check _) fun isChain => .ite (h.choice.bind fun _ => .pure _) ?_
  exact hblock.bind fun _ => .pure _

theorem whileLoop_succ : Carries more False True (whileWith (fuel + 1)) := by
  rw [whileWith]
  refine .consume_bind (by decide) fun _ => .consume_bind (by decide) fun _ => ?_
  refine .bind (h.expression.requireFrom _) fun condition => ?_
  exact .consume_bind (by decide) fun _ => h.block.bind fun _ => .pure _

theorem forLoop_succ : Carries more False True (forWith (fuel + 1)) := by
  rw [forWith]
  refine .consume_bind (by decide) fun _ => .consume_bind (by decide) fun _ => ?_
  refine .bind (h.statement.mono id False.elim) fun initialization => ?_
  refine h.expression.bind fun condition => .consume_bind (by decide) fun _ => ?_
  refine h.expression.bind fun update => .consume_bind (by decide) fun _ => ?_
  exact h.block.bind fun _ => .pure _

theorem definition_succ : Carries more False True (definitionWith (fuel + 1)) := by
  rw [definitionWith]
  refine .consume_bind (by decide) fun _ => .bind .peek fun name => ?_
  refine .ite (h.expression.bind fun initializer => ?_) (.complain_bind _ _)
  refine .ite ?_ (.throw_bind _ _)
  exact .bind (.consume (by decide) _) fun _ => .pure _

theorem function_succ (isDefinition : Bool) :
    Carries more False True (functionWith (fuel + 1) isDefinition) := by
  rw [functionWith]
  cases isDefinition
  · refine .consume_bind (by decide) fun name => .consume_bind (by decide) fun _ => ?_
    refine (h.parameters name false).bind fun parameters => ?_
    exact .bind (.consume (by decide) _) fun _ => .pure _
  · refine .consume_bind (by decide) fun _ => .consume_bind (by decide) fun name => ?_
    refine .consume_bind (by decide) fun _ => ?_
    refine (h.parameters name true).bind fun parameters => ?_
    exact .consume_bind (by decide) fun _ => h.block.bind fun _ => .pure _

theorem parameters_succ (name : Token) (isDefinition : Bool) :
    Carries more False False (parametersWith (fuel + 1) name isDefinition) := by
  have hcons (n : Node) : Carries more False False
      (do return n :: (← parametersWith fuel name isDefinition)) :=
    (h.parameters name isDefinition).bind fun _ => .pure _
  rw [parametersWith]
  refine .bind (.check _) fun closed => .ite (.pure _) ?_
  refine .bind (h.expression.requireFrom _) fun n => .ite (.throw_bind _ _) ?_
  refine .bind (.check _) fun comma => .ite (.bind .advance fun _ => hcons n) ?_
  exact .bind (.check _) fun closing => .ite (hcons n) (.complain_bind _ _)

theorem returned_succ : Carries more False True (returnWith (fuel + 1)) := by
  rw [returnWith]
  refine .consume_bind (by decide) fun token => h.expression.bind fun n => ?_
  exact .bind (.consume (by decide) _) fun _ => .pure _

/-- An expression has to have a token behind it that ends it. -/
theorem expression_succ : Carries more False False (expressionWith (fuel + 1)) := by
  rw [expressionWith]
  exact (h.scan .empty).bind fun s => .ite (.ofExcept _) (.complain_bind _ _)

/-- A name is a call if a parenthesis follows it; where tokens are left at the end, the token behind
the name is there. -/
theorem name_succ (s : Scan) (token : Token) : Carries more False False (do
    if (← ahead 1).kind = .leftParen then
      let n ← functionWith fuel false
      scanWith fuel (s.operand { token with kind := .functionWord } n)
    else
      let n ← reference
      scanWith fuel (s.operand token n)) := by
  have hname : Carries more False False reference :=
    .bind (.consume (by decide) _) fun _ => .pure _
  refine .ahead_one_bind (fun t => .ite ?_ (hname.bind fun n => h.scan _)) ?_
  · exact .bind ((h.function false).mono id False.elim) fun n => h.scan _
  · intro c d a hc hr hend
    split at hr
    · rename_i hparen
      exact Cursor.rest_ne_nil hc (by rw [hparen]; decide)
    · obtain ⟨n, d', hd', hscan⟩ := exists_of_run_bind hr
      obtain ⟨t, e, he, hpure⟩ := exists_of_run_bind hd'
      obtain ⟨-, rfl⟩ := Prod.mk.inj hpure
      rw [run_consume] at he
      split at he
      · obtain ⟨-, rfl⟩ := Prod.mk.inj he
        exact ((h.scan _).back (c := c.next) hc hscan (.inl hend)).resolve_right not_false
      · cases he

/-- So has a scan. -/
theorem scan_succ (s : Scan) : Carries more False False (scanWith (fuel + 1) s) := by
  rw [scanWith]
  refine .bind .peek fun token => .ite (.pure _) (.ite (h.name_succ s token) ?_)
  exact .bind .advance fun _ => .bind (.ofExcept _) fun s' => h.scan s'

/-- One unit of fuel more, for each part of the parser by its own lemma. -/
theorem succ : Carried more (fuel + 1) where
  statement := h.statement_succ
  statements := h.statements_succ
  block := h.block_succ
  choice := h.choice_succ
  whileLoop := h.whileLoop_succ
  forLoop := h.forLoop_succ
  definition := h.definition_succ
  function := h.function_succ
  parameters := h.parameters_succ
  returned := h.returned_succ
  expression := h.expression_succ
  scan := h.scan_succ

end Carried

/-- **Every part of the parser carries over.** -/
theorem carried (more : List Token) : ∀ fuel : Nat, Carried more fuel
  | 0 => .zero
  | fuel + 1 => (carried more fuel).succ

/-! ## Whole programs -/

/-- No expression starts with an `else`. -/
theorem expression_ne_else {fuel : Nat} {c d : Cursor} {n : Node}
    (hc : c.peek.kind = .elseWord) : (expressionWith fuel).run c ≠ (.ok n, d) := by
  intro hr
  obtain _ | fuel := fuel
  · rw [expressionWith] at hr
    cases hr
  rw [expressionWith] at hr
  obtain ⟨s, e, hs, -⟩ := exists_of_run_bind hr
  obtain _ | fuel := fuel
  · rw [scanWith] at hs
    cases hs
  rw [scanWith, run_bind, run_peek] at hs
  have hstops : ¬ Scan.stopsAt Scan.empty.depth c.peek.kind := by rw [hc]; decide
  have hname : c.peek.kind ≠ .identifier := by rw [hc]; decide
  obtain ⟨e', he'⟩ : ∃ e, Scan.empty.push c.peek = .error e := by
    rw [Scan.push, hc]
    exact ⟨_, rfl⟩
  simp only [if_neg hstops, if_neg hname] at hs
  obtain ⟨_, _, -, hs⟩ := exists_of_run_bind hs
  obtain ⟨_, _, hs, -⟩ := exists_of_run_bind hs
  rw [he'] at hs
  cases hs

/-- **How a program goes on**: it ends, or drops a semicolon, or takes a statement. -/
theorem program_cases {fuel : Nat} {c d : Cursor} {ns : List Node}
    (hr : (programWith (fuel + 1)).run c = (.ok ns, d)) :
    (c.rest = [] ∧ ns = []) ∨
    (c.rest ≠ [] ∧ c.peek.kind = .endStatement ∧ (programWith fuel).run c.next = (.ok ns, d)) ∨
    (c.rest ≠ [] ∧ c.peek.kind ≠ .endStatement ∧ ∃ n e ms,
      (statementWith fuel).run c = (.ok n, e) ∧ (programWith fuel).run e = (.ok ms, d) ∧
      ns = (if n.isPresent then [n] else []) ++ ms) := by
  rw [programWith, run_bind, run_atEnd] at hr
  by_cases hrest : c.rest = []
  · rw [hrest] at hr
    obtain ⟨hns, -⟩ := Prod.mk.inj hr
    exact .inl ⟨hrest, (Except.ok.inj hns).symm⟩
  have hempty : c.rest.isEmpty = false := List.isEmpty_eq_false_iff.mpr hrest
  simp only [hempty, Bool.false_eq_true, if_false] at hr
  rw [run_bind, run_check] at hr
  by_cases hk : c.peek.kind = .endStatement
  · simp only [hk, decide_true, if_true] at hr
    rw [run_bind, run_advance, hempty] at hr
    exact .inr (.inl ⟨hrest, hk, hr⟩)
  · simp only [hk, decide_false, Bool.false_eq_true, if_false] at hr
    obtain ⟨n, e, hn, hr⟩ := exists_of_run_bind hr
    obtain ⟨ms, e', hms, hr⟩ := exists_of_run_bind hr
    obtain ⟨hns, rfl⟩ := Prod.mk.inj hr
    exact .inr (.inr ⟨hrest, hk, n, e, ms, hn, hms, (Except.ok.inj hns).symm⟩)

/-- **No program starts with an `else`.** -/
theorem noElse_of_program : ∀ {fuel : Nat} {c d : Cursor} {ns : List Node},
    (programWith fuel).run c = (.ok ns, d) → NoElse c.rest
  | 0, c, d, ns, hr => by
      rw [programWith] at hr
      cases hr
  | fuel + 1, c, d, ns, hr => by
      intro t ht hk
      have hpeek := Cursor.peek_eq ht
      obtain ⟨hrest, -⟩ | ⟨-, hstray, -⟩ | ⟨-, -, n, e, ms, hn, -⟩ := program_cases hr
      · rw [hrest] at ht
        cases ht
      · rw [hpeek, hk] at hstray
        cases hstray
      obtain _ | fuel := fuel
      · rw [statementWith] at hn
        cases hn
      rw [statementWith, run_bind, run_peek] at hn
      simp only [hpeek, hk] at hn
      obtain ⟨_, _, hexpression, -⟩ := exists_of_run_bind hn
      exact expression_ne_else (hpeek ▸ hk) hexpression

/-- **The statements of a program stay what they are when those of another one follow.** -/
theorem Settles.program_append {ns' : List Node} (helse : NoElse more)
    (hmore : ∀ c : Cursor, c.Closed → c.rest = more → ∃ e, Settles programWith c (.ok ns', e)) :
    ∀ {fuel : Nat} {c c' d : Cursor} {ns : List Node}, c.Prolongs more c' →
      (programWith fuel).run c = (.ok ns, d) →
      ∃ e, Settles programWith c' (.ok (ns ++ ns'), e)
  | 0, c, c', d, ns, hc, hr => by
      rw [programWith] at hr
      cases hr
  | fuel + 1, c, c', d, ns, hc, hr => by
      obtain ⟨hrest, rfl⟩ | ⟨hrest, hk, hr⟩ | ⟨hrest, hk, n, e, ms, hn, hms, rfl⟩ :=
        program_cases hr
      · exact hmore c' hc.closed' (by rw [hc.rest, hrest, List.nil_append])
      · obtain ⟨e, he⟩ := program_append helse hmore (hc.next hrest) hr
        refine ⟨e, .succ ?_⟩
        simp only [programWith]
        refine .look (run_atEnd c') (.ite_neg ?_ (.look (run_check _ c') (.ite_pos ?_
          (.look (run_advance c') ?_))))
        · rw [hc.isEmpty_rest hrest]
          simpa using hrest
        · rw [hc.peek hrest]
          exact decide_eq_true hk
        · rw [hc.isEmpty_rest hrest, if_neg (by simpa using hrest)]
          exact he
      · obtain ⟨e', hn', he⟩ := ((carried more fuel).statement).carry hc hn (.inr helse)
        obtain ⟨d', hd'⟩ := program_append helse hmore he hms
        have hstatement : Settles statementWith c' (.ok n, e') := by
          rw [← hn']
          refine .of_run (fun fuel => .of_tracks (steady fuel).statement fun _ _ => id) ?_
          rw [hn']
          rintro ⟨⟩
        refine ⟨d', .succ ?_⟩
        simp only [programWith]
        refine .look (run_atEnd c') (.ite_neg ?_ (.look (run_check _ c') (.ite_neg ?_
          (hstatement.bind (hd'.bind ?_)))))
        · rw [hc.isEmpty_rest hrest]
          simpa using hrest
        · rw [hc.peek hrest, decide_eq_true_iff]
          exact hk
        · rw [List.append_assoc]
          exact .pure _ d'

end Parser

/-- A list of tokens is a program where all its statements are parsed. -/
theorem parse_eq_ok_iff {tokens : List Token} {ns : List Node} :
    parse tokens = .ok (.block ns) ↔
      ∃ d, Parser.Settles Parser.programWith (.ofTokens tokens) (.ok ns, d) := by
  rw [parse, Parser.program, Parser.run_bind]
  constructor
  · intro h
    have hsettles := Parser.settles_program (c := .ofTokens tokens) rfl
    generalize (Parser.fuelled Parser.programWith).run (.ofTokens tokens) = r at h hsettles
    obtain ⟨_ | ms, d⟩ := r
    · cases h
    · obtain rfl := (Node.block.inj (Except.ok.inj h))
      exact ⟨d, hsettles⟩
  · rintro ⟨d, h⟩
    rw [h.run_program rfl]
    rfl

/-- The tree of a list of tokens is a block. -/
theorem exists_block_of_parse {tokens : List Token} {n : Node} (h : parse tokens = .ok n) :
    ∃ ns, n = .block ns := by
  rw [parse, Parser.program, Parser.run_bind] at h
  generalize (Parser.fuelled Parser.programWith).run (.ofTokens tokens) = r at h
  obtain ⟨_ | ns, d⟩ := r
  · cases h
  · exact ⟨ns, (Except.ok.inj h).symm⟩

/-- Tokens of one program and then those of another settle in the statements of both. -/
theorem exists_settles_append {above below : List Token} {ns ms : List Node}
    (habove : ∃ d, Parser.Settles Parser.programWith (.ofTokens above) (.ok ns, d))
    (hbelow : ∃ d, Parser.Settles Parser.programWith (.ofTokens below) (.ok ms, d)) :
    ∃ d, Parser.Settles Parser.programWith (.ofTokens (above ++ below)) (.ok (ns ++ ms), d) := by
  obtain ⟨d, hd⟩ := habove
  obtain ⟨e, he⟩ := hbelow
  obtain ⟨fuel, hrun⟩ := hd.exists
  obtain ⟨fuel', hrun'⟩ := he.exists
  -- The second program may start anywhere: it is one that nothing follows.
  have hbelow (c : Cursor) (hc : c.Closed) (hrest : c.rest = below) :
      ∃ e, Parser.Settles Parser.programWith c (.ok ms, e) := by
    have hnothing (c : Cursor) (_ : c.Closed) (hrest : c.rest = []) :
        ∃ e, Parser.Settles Parser.programWith c (.ok [], e) := ⟨c, .program_nil hrest⟩
    have hprolongs : (Cursor.ofTokens below).Prolongs [] c :=
      ⟨hrest.trans (List.append_nil below).symm, rfl, hc⟩
    simpa using Parser.Settles.program_append (by rintro t ⟨⟩) hnothing hprolongs hrun'
  have hprolongs : (Cursor.ofTokens above).Prolongs below (.ofTokens (above ++ below)) :=
    ⟨rfl, rfl, rfl⟩
  exact Parser.Settles.program_append (Parser.noElse_of_program hrun') hbelow hprolongs hrun

/-- **The statements of two programs, one after the other, are those of the program made of their
tokens.** -/
theorem parse_append {above below : List Token} {ns ms : List Node}
    (habove : parse above = .ok (.block ns)) (hbelow : parse below = .ok (.block ms)) :
    parse (above ++ below) = .ok (.block (ns ++ ms)) := by
  rw [parse_eq_ok_iff] at habove hbelow ⊢
  exact exists_settles_append habove hbelow

/-- A choice that an `else` might follow, and then a stray semicolon and a call. -/
theorem parse_append_choice :
    let above : List Token := [⟨.ifWord, "if", .none⟩, ⟨.leftParen, "(", .none⟩,
      ⟨.identifier, "a", .none⟩, ⟨.rightParen, ")", .none⟩, ⟨.leftBrace, "\x7b", .none⟩,
      ⟨.rightBrace, "\x7d", .none⟩]
    let below : List Token := [⟨.endStatement, ";", .none⟩, ⟨.identifier, "f", .none⟩,
      ⟨.leftParen, "(", .none⟩, ⟨.rightParen, ")", .none⟩, ⟨.endStatement, ";", .none⟩]
    parse above = .ok (.block [.choice (.reference "a") (.block []) .absent]) ∧
      parse below = .ok (.block [.function "f" [] .absent false]) ∧
      parse (above ++ below) = .ok (.block [.choice (.reference "a") (.block []) .absent,
        .function "f" [] .absent false]) := by
  intro above below
  have habove : parse above = .ok (.block [.choice (.reference "a") (.block []) .absent]) :=
    rfl
  have hbelow : parse below = .ok (.block [.function "f" [] .absent false]) := rfl
  exact ⟨habove, hbelow, parse_append habove hbelow⟩

end Scrawl
