import Scrawl.Proofs.Expression.Failures
import Scrawl.Proofs.Parser.Fuel

/-!
# Proofs/Parser/Progress — the parser moves on and ends

From a cursor with `n` tokens left, each part of the parser needs at most `8 * n + 5` units of fuel
(`enough`).  The induction is on the fuel: a part passes its cursor on to another part in a fixed
order before it takes a token, and after a token there is fuel to spare for a whole round of
them.  So `fuelFor` never runs out, and what a parser settles in is what it does.
-/

namespace Scrawl

namespace Cursor

/-- A cursor with an end-of-input token behind its tokens. -/
def Closed (c : Cursor) : Prop := c.finish.kind = .endFile

/-- **One cursor lies behind another**, some tokens further on. -/
structure Reaches (c d : Cursor) : Prop where
  rest : ∃ tokens, c.rest = tokens ++ d.rest ∧ d.taken = c.taken + tokens.length
  finish : d.finish = c.finish

namespace Reaches

theorem refl (c : Cursor) : c.Reaches c := ⟨⟨[], rfl, rfl⟩, rfl⟩

theorem trans {c d e : Cursor} (hcd : c.Reaches d) (hde : d.Reaches e) : c.Reaches e := by
  obtain ⟨xs, hx, hxt⟩ := hcd.rest
  obtain ⟨ys, hy, hyt⟩ := hde.rest
  refine ⟨⟨xs ++ ys, ?_, ?_⟩, hde.finish.trans hcd.finish⟩
  · rw [hx, hy, List.append_assoc]
  · rw [hyt, hxt, List.length_append, Nat.add_assoc]

/-- The token that marks the end is never passed, so it stays behind the cursor. -/
theorem closed {c d : Cursor} (h : c.Reaches d) (hc : c.Closed) : d.Closed := by
  rw [Closed, h.finish]
  exact hc

/-- A cursor moves on only, and leaves no more tokens than there were. -/
theorem length_le {c d : Cursor} (h : c.Reaches d) : d.rest.length ≤ c.rest.length := by
  obtain ⟨xs, hx, -⟩ := h.rest
  rw [hx, List.length_append]
  omega

end Reaches

/-- A token of another kind than end-of-input is one of the tokens. -/
theorem rest_ne_nil {c : Cursor} (hc : c.Closed) (h : c.peek.kind ≠ .endFile) : c.rest ≠ [] := by
  intro hnil
  refine h ?_
  rw [peek, ahead, hnil]
  exact hc

/-- One token further, one token fewer. -/
theorem reaches_next {c : Cursor} (h : c.rest ≠ []) :
    c.Reaches c.next ∧ c.next.rest.length + 1 = c.rest.length := by
  obtain ⟨rest, taken, finish⟩ := c
  obtain _ | ⟨t, rest⟩ := rest
  · exact absurd rfl h
  · exact ⟨⟨⟨[t], rfl, rfl⟩, rfl⟩, rfl⟩

end Cursor

namespace Parser

variable {α β : Type}

/-- **A parser moves on and does not run out of fuel**, and its result and where it ends lie in a
class. -/
def Ends (p : Parser α) (c : Cursor) (Q : α → Cursor → Prop) : Prop :=
  c.Reaches (p.run c).2 ∧ match (p.run c).1 with
    | .ok a => Q a (p.run c).2
    | .error e => e ≠ .exhausted

namespace Ends

variable {c : Cursor} {P : α → Cursor → Prop} {Q : β → Cursor → Prop}

theorem pure {a : α} (h : P a c) : Ends (Pure.pure a) c P := ⟨.refl c, h⟩

theorem throw {e : ParseError} (h : e ≠ .exhausted) : Ends (throw e) c P := ⟨.refl c, h⟩

theorem complain (text : String) : Ends (complain text) c P := ⟨.refl c, nofun⟩

/-- A class may be widened, and may use that the cursor moved on. -/
theorem mono {P' : α → Cursor → Prop} {p : Parser α} (hp : Ends p c P)
    (h : ∀ a d, c.Reaches d → P a d → P' a d) : Ends p c P' := by
  refine ⟨hp.1, ?_⟩
  have hr := hp.1
  have hq := hp.2
  generalize p.run c = r at hr hq ⊢
  obtain ⟨e | a, d⟩ := r
  · exact hq
  · exact h a d hr hq

/-- **Parsers in turn**: the second starts where the first got to. -/
theorem bind {p : Parser α} {f : α → Parser β} (hp : Ends p c P)
    (hf : ∀ a d, c.Reaches d → P a d → Ends (f a) d Q) : Ends (p >>= f) c Q := by
  have hr := hp.1
  have hq := hp.2
  unfold Ends
  rw [run_bind]
  generalize p.run c = r at hr hq ⊢
  obtain ⟨e | a, d⟩ := r
  · exact ⟨hr, hq⟩
  · obtain ⟨hr', hq'⟩ := hf a d hr hq
    exact ⟨hr.trans hr', hq'⟩

theorem ite {b : Prop} [Decidable b] {p q : Parser α} (hp : b → Ends p c P)
    (hq : ¬ b → Ends q c P) : Ends (if b then p else q) c P := by
  split
  · exact hp ‹b›
  · exact hq ‹¬ b›

theorem throw_bind {e : ParseError} (h : e ≠ .exhausted) (f : α → Parser β) :
    Ends (MonadExcept.throw e >>= f) c Q :=
  bind (throw (P := fun _ _ => False) h) fun _ _ _ h => h.elim

theorem complain_bind (text : String) (f : α → Parser β) :
    Ends (Parser.complain text >>= f) c Q :=
  bind (complain (P := fun _ _ => False) text) fun _ _ _ h => h.elim

/-- Looking at the tokens leaves the cursor where it is. -/
theorem look {p : Parser α} {a : α} (hp : p.run c = (.ok a, c)) {f : α → Parser β}
    (hf : Ends (f a) c Q) : Ends (p >>= f) c Q := by
  unfold Ends at hf ⊢
  rw [run_bind, hp]
  exact hf

/-- A token taken is one fewer. -/
theorem consume (hc : c.Closed) {kind : Kind} (hk : kind ≠ .endFile) (expectation : String) :
    Ends (consume kind expectation) c fun _ d => d.rest.length + 1 = c.rest.length := by
  unfold Ends
  rw [run_consume]
  split
  · have hrest := Cursor.rest_ne_nil hc (by rw [‹c.peek.kind = kind›]; exact hk)
    exact Cursor.reaches_next hrest
  · exact ⟨.refl c, nofun⟩

/-- A part of a sequence, seen from how many tokens it leaves. -/
theorem andThen {p : Parser α} {f : α → Parser β} (hc : c.Closed) (hp : Ends p c P)
    (hf : ∀ a d, d.Closed → d.rest.length ≤ c.rest.length → P a d → Ends (f a) d Q) :
    Ends (p >>= f) c Q :=
  hp.bind fun a d hd ha => hf a d (hd.closed hc) hd.length_le ha

/-- A token taken in front of the rest. -/
theorem take (hc : c.Closed) {kind : Kind} (hk : kind ≠ .endFile) {expectation : String}
    {f : Token → Parser β}
    (hf : ∀ t d, d.Closed → d.rest.length + 1 = c.rest.length → Ends (f t) d Q) :
    Ends (Parser.consume kind expectation >>= f) c Q :=
  (consume hc hk expectation).andThen hc fun t d hd _ hlen => hf t d hd hlen

/-- A token is taken anywhere but at the end. -/
theorem advance (hc : c.Closed) (h : c.peek.kind ≠ .endFile) :
    Ends advance c fun _ d => d.rest.length + 1 = c.rest.length := by
  have hrest := Cursor.rest_ne_nil hc h
  unfold Ends
  rw [run_advance, if_neg (by simpa using hrest)]
  exact Cursor.reaches_next hrest

/-- A result computed elsewhere ends where it stands. -/
theorem ofExcept {x : Except ParseError α} (hok : ∀ a, x = .ok a → P a c)
    (herr : x ≠ .error .exhausted) : Ends (ofExcept x) c P := by
  unfold Ends
  rw [run_ofExcept]
  obtain e | a := x
  · exact ⟨.refl c, fun he => herr (he ▸ rfl)⟩
  · exact ⟨.refl c, hok a rfl⟩

end Ends

/-! ## Expressions fail for other reasons -/

/-- Building a tree takes no fuel. -/
theorem tree_ne_exhausted (s : Scan) : s.tree ≠ .error .exhausted := by
  intro h
  obtain h | h := s.failsOnly_tree _ h
  · exact h
  · cases h

/-- Scanning a token takes no fuel. -/
theorem push_ne_exhausted (s : Scan) (t : Token) : s.push t ≠ .error .exhausted :=
  fun h => s.failsOnly_push t _ h

/-! ## Enough fuel -/

/-- A parser takes at least one token when it succeeds. -/
def Advances (p : Parser α) (c : Cursor) : Prop :=
  Ends p c fun _ d => d.rest.length < c.rest.length

/-- A parser with a given need of fuel. -/
def Suffices (fuel need : Nat) (run : Cursor → Prop) : Prop :=
  ∀ c : Cursor, c.Closed → 8 * c.rest.length + need ≤ fuel → run c

/-- **What the parts of the parser need**, each in the order in which one passes its cursor on to
another before it takes a token. -/
structure Enough (fuel : Nat) : Prop where
  function : ∀ isDefinition, Suffices fuel 1 (Advances (functionWith fuel isDefinition))
  choice : Suffices fuel 1 (Advances (choiceWith fuel))
  whileLoop : Suffices fuel 1 (Advances (whileWith fuel))
  forLoop : Suffices fuel 1 (Advances (forWith fuel))
  definition : Suffices fuel 1 (Advances (definitionWith fuel))
  returned : Suffices fuel 1 (Advances (returnWith fuel))
  block : Suffices fuel 1 (Advances (blockWith fuel))
  scan : ∀ s, Suffices fuel 2 fun c =>
    Ends (scanWith fuel s) c fun s' d => s' = s ∨ d.rest.length < c.rest.length
  expression : Suffices fuel 3 fun c =>
    Ends (expressionWith fuel) c fun n d => n = .absent ∨ d.rest.length < c.rest.length
  parameters : ∀ name isDefinition, Suffices fuel 4 fun c =>
    Ends (parametersWith fuel name isDefinition) c fun _ _ => True
  statement : Suffices fuel 4 (Advances (statementWith fuel))
  statements : Suffices fuel 5 fun c => Ends (statementsWith fuel) c fun _ _ => True

namespace Enough

/-- Without fuel nothing suffices. -/
theorem zero : Enough 0 where
  function _ _ _ h := by omega
  choice _ _ h := by omega
  whileLoop _ _ h := by omega
  forLoop _ _ h := by omega
  definition _ _ h := by omega
  returned _ _ h := by omega
  block _ _ h := by omega
  scan _ _ _ h := by omega
  expression _ _ h := by omega
  parameters _ _ _ _ h := by omega
  statement _ _ h := by omega
  statements _ _ h := by omega

variable {fuel : Nat} (h : Enough fuel)

include h

/-- An expression that must be there takes a token. -/
theorem require (text : String) :
    Suffices fuel 3 (Advances (requireFrom (expressionWith fuel) text)) := by
  intro c hc hfuel
  refine (h.expression c hc hfuel).bind fun n d hd hn => .ite (fun hpresent => ?_) fun _ => ?_
  · refine .pure (hn.resolve_left ?_)
    rintro rfl
    cases hpresent
  · exact .complain_bind _ _

/-- A scan stops where it stood, or takes a token. -/
theorem scan_succ (s : Scan) : Suffices (fuel + 1) 2 fun c =>
    Ends (scanWith (fuel + 1) s) c fun s' d => s' = s ∨ d.rest.length < c.rest.length := by
  intro c hc hfuel
  -- What follows a token is scanned with a token less.
  have hgo {s' : Scan} {d : Cursor} (hd : d.Closed) (hlt : d.rest.length < c.rest.length) :
      Ends (scanWith fuel s') d fun s'' e => s'' = s ∨ e.rest.length < c.rest.length :=
    (h.scan s' d hd (by omega)).mono fun _ _ he _ => .inr (he.length_le.trans_lt hlt)
  rw [scanWith]
  refine .look (run_peek c) (.ite (fun _ => .pure (.inl rfl)) fun hstop => ?_)
  have hend : c.peek.kind ≠ .endFile := fun he => hstop (by rw [he]; rfl)
  refine .ite (fun _ => .look (run_ahead 1 c) (.ite (fun _ => ?_) fun _ => ?_)) fun _ => ?_
  · exact (h.function false c hc (by omega)).andThen hc fun n d hd _ hlt => hgo hd hlt
  · refine .andThen hc (P := fun _ d => d.rest.length < c.rest.length) ?_ fun n d hd _ hlt =>
      hgo hd hlt
    exact .take hc (by decide) fun t d hd hlen => .pure (by omega)
  · refine (Ends.advance hc hend).andThen hc fun _ d hd _ hlen => ?_
    refine .bind (.ofExcept (P := fun _ e => e = d) (fun _ _ => rfl) (push_ne_exhausted _ _))
      fun s' e _ he => ?_
    subst he
    exact hgo hd (by omega)

/-- An expression is absent, or takes a token. -/
theorem expression_succ : Suffices (fuel + 1) 3 fun c =>
    Ends (expressionWith (fuel + 1)) c fun n d => n = .absent ∨ d.rest.length < c.rest.length := by
  intro c hc hfuel
  rw [expressionWith]
  refine (h.scan .empty c hc (by omega)).bind fun s d hd hs => ?_
  refine .ite (fun _ => ?_) fun _ => .complain_bind _ _
  refine .ofExcept (fun n hn => hs.imp_left ?_) (tree_ne_exhausted s)
  rintro rfl
  exact (Except.ok.inj hn).symm

/-- Parameters go on by a comma, so each of them takes a token. -/
theorem parameters_succ (name : Token) (isDefinition : Bool) : Suffices (fuel + 1) 4 fun c =>
    Ends (parametersWith (fuel + 1) name isDefinition) c fun _ _ => True := by
  intro c hc hfuel
  rw [parametersWith]
  refine .look (run_check _ c) (.ite (fun _ => .pure trivial) fun _ => ?_)
  refine (h.require _ c hc (by omega)).andThen hc fun n d hd _ hlt => ?_
  have hrest {e : Cursor} (he : e.Closed) (hle : e.rest.length ≤ d.rest.length) :
      Ends (do return n :: (← parametersWith fuel name isDefinition)) e fun _ _ => True :=
    (h.parameters name isDefinition e he (by omega)).bind fun _ _ _ _ => .pure trivial
  refine .ite (fun _ => .throw_bind (by rintro ⟨⟩) _) fun _ => .look (run_check _ d) ?_
  refine .ite (fun hcomma => ?_) fun _ => .look (run_check _ d) ?_
  · refine (Ends.advance hd ?_).andThen hd fun _ e he _ hlen => hrest he (by omega)
    rw [of_decide_eq_true hcomma]
    decide
  · exact .ite (fun _ => hrest hd le_rfl) fun _ => .complain_bind _ _

theorem block_succ : Suffices (fuel + 1) 1 (Advances (blockWith (fuel + 1))) := by
  intro c hc hfuel
  rw [blockWith]
  refine .take hc (by decide) fun _ d hd hlen => ?_
  refine (h.statements d hd (by omega)).andThen hd fun _ e he hle _ => ?_
  exact .take he (by decide) fun _ f _ hlen' => .pure (by omega)

/-- An `else` follows one token further on, with a block or another choice. -/
theorem choice_succ : Suffices (fuel + 1) 1 (Advances (choiceWith (fuel + 1))) := by
  intro c hc hfuel
  rw [choiceWith]
  refine .take hc (by decide) fun _ c₁ h₁ _ => .take h₁ (by decide) fun _ c₂ h₂ _ => ?_
  refine (h.require _ c₂ h₂ (by omega)).andThen h₂ fun condition c₃ h₃ _ _ => ?_
  refine .take h₃ (by decide) fun _ c₄ h₄ _ => ?_
  refine (h.block c₄ h₄ (by omega)).andThen h₄ fun whenTrue c₅ h₅ _ _ => ?_
  refine .look (run_check _ c₅) (.ite (fun helse => ?_) fun _ => .pure (by omega))
  have hend : c₅.peek.kind ≠ .endFile := by
    rw [of_decide_eq_true helse]
    decide
  refine (Ends.advance h₅ hend).andThen h₅ fun _ c₆ h₆ _ _ => .look (run_check _ c₆) ?_
  refine .ite (fun _ => ?_) fun _ => ?_
  · exact (h.choice c₆ h₆ (by omega)).andThen h₆ fun _ _ _ _ _ => .pure (by omega)
  · exact (h.block c₆ h₆ (by omega)).andThen h₆ fun _ _ _ _ _ => .pure (by omega)

theorem whileLoop_succ : Suffices (fuel + 1) 1 (Advances (whileWith (fuel + 1))) := by
  intro c hc hfuel
  rw [whileWith]
  refine .take hc (by decide) fun _ c₁ h₁ _ => .take h₁ (by decide) fun _ c₂ h₂ _ => ?_
  refine (h.require _ c₂ h₂ (by omega)).andThen h₂ fun condition c₃ h₃ _ _ => ?_
  refine .take h₃ (by decide) fun _ c₄ h₄ _ => ?_
  exact (h.block c₄ h₄ (by omega)).andThen h₄ fun _ _ _ _ _ => .pure (by omega)

theorem forLoop_succ : Suffices (fuel + 1) 1 (Advances (forWith (fuel + 1))) := by
  intro c hc hfuel
  rw [forWith]
  refine .take hc (by decide) fun _ c₁ h₁ _ => .take h₁ (by decide) fun _ c₂ h₂ _ => ?_
  refine (h.statement c₂ h₂ (by omega)).andThen h₂ fun initialization c₃ h₃ _ _ => ?_
  refine (h.expression c₃ h₃ (by omega)).andThen h₃ fun condition c₄ h₄ _ _ => ?_
  refine .take h₄ (by decide) fun _ c₅ h₅ _ => ?_
  refine (h.expression c₅ h₅ (by omega)).andThen h₅ fun update c₆ h₆ _ _ => ?_
  refine .take h₆ (by decide) fun _ c₇ h₇ _ => ?_
  exact (h.block c₇ h₇ (by omega)).andThen h₇ fun _ _ _ _ _ => .pure (by omega)

theorem definition_succ : Suffices (fuel + 1) 1 (Advances (definitionWith (fuel + 1))) := by
  intro c hc hfuel
  rw [definitionWith]
  refine .take hc (by decide) fun _ c₁ h₁ _ => .look (run_peek c₁) ?_
  refine .ite (fun _ => ?_) fun _ => .complain_bind _ _
  refine (h.expression c₁ h₁ (by omega)).andThen h₁ fun initializer c₂ h₂ _ _ => ?_
  refine .ite (fun _ => ?_) fun _ => .throw_bind (by rintro ⟨⟩) _
  exact .take h₂ (by decide) fun _ _ _ _ => .pure (by omega)

theorem function_succ (isDefinition : Bool) :
    Suffices (fuel + 1) 1 (Advances (functionWith (fuel + 1) isDefinition)) := by
  intro c hc hfuel
  rw [functionWith]
  cases isDefinition
  · refine .take hc (by decide) fun name c₁ h₁ _ => .take h₁ (by decide) fun _ c₂ h₂ _ => ?_
    refine (h.parameters name false c₂ h₂ (by omega)).andThen h₂ fun _ c₃ h₃ _ _ => ?_
    refine .take h₃ (by decide) fun _ c₄ h₄ _ => ?_
    exact .pure (by omega)
  · refine .take hc (by decide) fun _ c₁ h₁ _ => .take h₁ (by decide) fun name c₂ h₂ _ => ?_
    refine .take h₂ (by decide) fun _ c₃ h₃ _ => ?_
    refine (h.parameters name true c₃ h₃ (by omega)).andThen h₃ fun _ c₄ h₄ _ _ => ?_
    refine .take h₄ (by decide) fun _ c₅ h₅ _ => ?_
    exact (h.block c₅ h₅ (by omega)).andThen h₅ fun _ _ _ _ _ => .pure (by omega)

theorem returned_succ : Suffices (fuel + 1) 1 (Advances (returnWith (fuel + 1))) := by
  intro c hc hfuel
  rw [returnWith]
  refine .take hc (by decide) fun token c₁ h₁ _ => ?_
  refine (h.expression c₁ h₁ (by omega)).andThen h₁ fun n c₂ h₂ _ _ => ?_
  exact .take h₂ (by decide) fun _ _ _ _ => .pure (by omega)

/-- **A statement takes a token**, whichever of the parsers it goes to. -/
theorem statement_succ : Suffices (fuel + 1) 4 (Advances (statementWith (fuel + 1))) := by
  intro c hc hfuel
  rw [statementWith]
  refine .look (run_peek c) ?_
  split
  · exact h.choice c hc (by omega)
  · exact h.whileLoop c hc (by omega)
  · exact h.forLoop c hc (by omega)
  · exact h.definition c hc (by omega)
  · exact h.function true c hc (by omega)
  · exact h.returned c hc (by omega)
  · refine (h.expression c hc (by omega)).andThen hc fun n c₁ h₁ _ _ => ?_
    exact .take h₁ (by decide) fun _ _ _ _ => .pure (by omega)

/-- Statements go on only behind one that took a token. -/
theorem statements_succ :
    Suffices (fuel + 1) 5 fun c => Ends (statementsWith (fuel + 1)) c fun _ _ => True := by
  intro c hc hfuel
  rw [statementsWith]
  refine .look (run_check _ c) (.ite (fun _ => .pure trivial) fun _ => ?_)
  refine .look (run_atEnd c) (.ite (fun _ => .complain _) fun _ => ?_)
  refine .look (run_check _ c) (.ite (fun hstray => ?_) fun _ => ?_)
  · have hend : c.peek.kind ≠ .endFile := by
      rw [of_decide_eq_true hstray]
      decide
    exact (Ends.advance hc hend).andThen hc fun _ d hd _ _ => h.statements d hd (by omega)
  · refine (h.statement c hc (by omega)).andThen hc fun n d hd _ _ => ?_
    exact (h.statements d hd (by omega)).andThen hd fun _ _ _ _ _ => .pure trivial

/-- One unit of fuel more, for each part of the parser by its own lemma. -/
theorem succ : Enough (fuel + 1) where
  function := h.function_succ
  choice := h.choice_succ
  whileLoop := h.whileLoop_succ
  forLoop := h.forLoop_succ
  definition := h.definition_succ
  returned := h.returned_succ
  block := h.block_succ
  scan := h.scan_succ
  expression := h.expression_succ
  parameters := h.parameters_succ
  statement := h.statement_succ
  statements := h.statements_succ

end Enough

/-- **Every part of the parser ends with the fuel it needs.** -/
theorem enough : ∀ fuel : Nat, Enough fuel
  | 0 => .zero
  | fuel + 1 => (enough fuel).succ

/-- **A program has enough fuel** in eight units a token and five more. -/
theorem programWith_ends :
    ∀ fuel : Nat, Suffices fuel 5 fun c => Ends (programWith fuel) c fun _ _ => True
  | 0 => fun _ _ hfuel => by omega
  | fuel + 1 => by
      intro c hc hfuel
      rw [programWith]
      refine .look (run_atEnd c) (.ite (fun _ => .pure trivial) fun _ => ?_)
      refine .look (run_check _ c) (.ite (fun hstray => ?_) fun _ => ?_)
      · have hend : c.peek.kind ≠ .endFile := by
          rw [of_decide_eq_true hstray]
          decide
        exact (Ends.advance hc hend).andThen hc fun _ d hd _ _ =>
          programWith_ends fuel d hd (by omega)
      · refine ((enough fuel).statement c hc (by omega)).andThen hc fun n d hd _ _ => ?_
        exact (programWith_ends fuel d hd (by omega)).andThen hd fun _ _ _ _ _ => .pure trivial

/-! ## What a parser settles in is what it does -/

/-- A parser that ends as it should is not out of fuel. -/
theorem Ends.ne_exhausted {p : Parser α} {c : Cursor} {P : α → Cursor → Prop} (h : Ends p c P) :
    (p.run c).1 ≠ .error .exhausted := by
  intro he
  have h' := h.2
  rw [he] at h'
  exact h' rfl

/-- What an expression settles in is what it comes to with the fuel that it is given. -/
theorem Settles.run_expression {c : Cursor} {r : Except ParseError Node × Cursor}
    (h : Settles expressionWith c r) (hc : c.Closed) : expression.run c = r := by
  rw [Parser.expression, run_fuelled]
  have hends := (enough (fuelFor c)).expression c hc (by rw [fuelFor]; omega)
  have hsteady (fuel : ℕ) : Extends (expressionWith (fuel + 1)) (expressionWith fuel) :=
    .of_tracks (steady fuel).expression fun _ _ => id
  exact h.run_eq hsteady hends.ne_exhausted

/-- A program always settles. -/
theorem settles_program {c : Cursor} (hc : c.Closed) :
    Settles programWith c ((fuelled programWith).run c) := by
  rw [run_fuelled]
  have hends := programWith_ends (fuelFor c) c hc (by rw [fuelFor]; omega)
  exact .of_run programWith_extends hends.ne_exhausted

/-- What a program settles in is what it comes to with the fuel that it is given. -/
theorem Settles.run_program {c : Cursor} {r : Except ParseError (List Node) × Cursor}
    (h : Settles programWith c r) (hc : c.Closed) : (fuelled programWith).run c = r := by
  obtain ⟨fuel, hrun, hr⟩ := ((settles_program hc).and h).exists
  exact hrun.symm.trans hr

end Parser

end Scrawl
