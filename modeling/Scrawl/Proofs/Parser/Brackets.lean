import Scrawl.Proofs.Expression.Items
import Scrawl.Proofs.Parser.Spans

/-!
# Proofs/Parser/Brackets — programs are well bracketed

The brackets of a list of tokens are read from left to right, with those still open kept in a list,
innermost first.  `Nests opened p c after` says how the tokens that a parser takes change that list.

Parentheses are taken one by one in some places and counted by a scan in others, so the invariant of
a scan is that its depth is the number of parentheses it has opened itself (`Balanced.scan`).  With
it every part of the parser leaves the open brackets as they were, and a program has none open.
-/

namespace Scrawl

open Kind (leftParen rightParen leftBrace rightBrace)

/-! ## Bracket words -/

/-- **The brackets open behind one more token**, innermost first.  A closing bracket closes the
innermost one, which must be of its own kind; a token that is no bracket changes nothing. -/
def Kind.nest : List Kind → Kind → Option (List Kind)
  | opened, .leftParen => some (leftParen :: opened)
  | opened, .leftBrace => some (leftBrace :: opened)
  | .leftParen :: opened, .rightParen => some opened
  | .leftBrace :: opened, .rightBrace => some opened
  | _, .rightParen | _, .rightBrace => none
  | opened, _ => some opened

/-- The brackets open behind some tokens, if each closing bracket among them finds its own. -/
def openBehind (opened : List Kind) (word : List Kind) : Option (List Kind) :=
  word.foldlM Kind.nest opened

/-- **Properly nested brackets**: each closing bracket finds its own, and none is left open. -/
def WellBracketed (word : List Kind) : Prop := openBehind [] word = some []

instance instDecidableWellBracketed (word : List Kind) : Decidable (WellBracketed word) :=
  inferInstanceAs (Decidable (openBehind [] word = some []))

example : WellBracketed [leftParen, leftBrace, .identifier, rightBrace, rightParen] := by decide

/-- Brackets of two kinds must not cross. -/
example : ¬ WellBracketed [leftParen, leftBrace, rightParen, rightBrace] := by decide

/-- Words one after the other open and close one after the other. -/
theorem openBehind_append (opened v w : List Kind) :
    openBehind opened (v ++ w) = (openBehind opened v).bind (openBehind · w) :=
  List.foldlM_append

theorem openBehind_cons {opened opened' : List Kind} {k : Kind} (h : k.nest opened = some opened')
    (w : List Kind) : openBehind opened (k :: w) = openBehind opened' w := by
  rw [openBehind, List.foldlM_cons, h]
  rfl

/-- Behind an operand or an operator the same brackets are open. -/
theorem Kind.nest_of_not_isForeign {k : Kind} (hleft : k ≠ leftParen) (hright : k ≠ rightParen)
    (h : Scan.isForeign k = false) (opened : List Kind) : k.nest opened = some opened := by
  cases k <;> first | rfl | contradiction

namespace Parser

variable {α β : Type}

/-! ## Parsers and open brackets -/

/-- **Every success of a parser at a place takes tokens that change the open brackets as told.** -/
def Nests (opened : List Kind) (p : Parser α) (c : Cursor) (after : α → List Kind) : Prop :=
  Spans p c fun a ts _ => openBehind opened (ts.map Token.kind) = some (after a)

namespace Nests

variable {opened opened' : List Kind} {c : Cursor} {mid : α → List Kind} {after : β → List Kind}

theorem pure {b : β} (h : opened = after b) : Nests opened (Pure.pure b) c after :=
  Spans.pure (by rw [h]; rfl)

theorem throw (e : ParseError) : Nests opened (throw e) c after := Spans.throw e

theorem complain (text : String) : Nests opened (complain text) c after := Spans.complain text

theorem throw_bind (e : ParseError) (f : α → Parser β) :
    Nests opened (MonadExcept.throw e >>= f) c after := Spans.throw_bind e f

theorem complain_bind (text : String) (f : α → Parser β) :
    Nests opened (Parser.complain text >>= f) c after := Spans.complain_bind text f

/-- A choice of parsers nests where the one that is chosen does. -/
theorem ite {b : Prop} [Decidable b] {p q : Parser β} (hp : b → Nests opened p c after)
    (hq : ¬ b → Nests opened q c after) : Nests opened (if b then p else q) c after :=
  Spans.ite hp hq

theorem look {p : Parser α} {a : α} (hp : p.run c = (.ok a, c)) {f : α → Parser β}
    (hf : Nests opened (f a) c after) : Nests opened (p >>= f) c after := Spans.look hp hf

/-- **Parsers in turn nest in turn**: the second starts with what the first left open. -/
theorem bind {p : Parser α} {f : α → Parser β} (hc : c.Closed) (hp : Nests opened p c mid)
    (hf : ∀ a d, d.Closed → Nests (mid a) (f a) d after) : Nests opened (p >>= f) c after := by
  refine Spans.bind hc hp fun a ts d hd hts => (hf a d hd).mono fun b us e _ hus => ?_
  rw [List.map_append, openBehind_append, hts]
  exact hus

/-- A token taken in front of the rest. -/
theorem take {kind : Kind} {expectation : String} {f : Token → Parser β} (hc : c.Closed)
    (hk : kind ≠ .endFile) (hnest : kind.nest opened = some opened')
    (hf : ∀ t d, d.Closed → Nests opened' (f t) d after) :
    Nests opened (consume kind expectation >>= f) c after := by
  refine Spans.take hc hk fun t d hd ht => (hf t d hd).mono fun b us e _ hus => ?_
  rw [List.map_cons, ht, openBehind_cons hnest]
  exact hus

/-- A token taken opens or closes what its kind does. -/
theorem advance {f : Token → Parser β} (hc : c.Closed) (hend : c.peek.kind ≠ .endFile)
    (hnest : c.peek.kind.nest opened = some opened')
    (hf : Nests opened' (f c.peek) c.next after) :
    Nests opened (Parser.advance >>= f) c after := by
  refine Spans.advance hc hend (hf.mono fun b us e _ hus => ?_)
  rw [List.map_cons, openBehind_cons hnest]
  exact hus

/-- A token that was looked at is taken in front of the rest. -/
theorem advance_checked {kind : Kind} {f : Token → Parser β} (hc : c.Closed)
    (hcheck : decide (c.peek.kind = kind) = true) (hk : kind ≠ .endFile)
    (hnest : kind.nest opened = some opened) (hf : Nests opened (f c.peek) c.next after) :
    Nests opened (Parser.advance >>= f) c after := by
  have hkind := of_decide_eq_true hcheck
  exact advance hc (hkind ▸ hk) (hkind ▸ hnest) hf

end Nests

/-- **A parser leaves the open brackets as they were.** -/
def Balances (p : Parser α) : Prop :=
  ∀ (opened : List Kind) (c : Cursor), c.Closed → Nests opened p c fun _ => opened

/-- An expression that must be there balances if it does when it may be missing. -/
theorem Balances.require {p : Parser Node} (h : Balances p) (text : String) :
    Balances (requireFrom p text) := by
  intro opened c hc
  exact Spans.require (h opened c hc) hc text

theorem balances_reference : Balances reference := by
  intro opened c hc
  exact .take hc (by decide) rfl fun _ _ _ => .pure rfl

/-- Some open parentheses. -/
def parens (depth : Nat) : List Kind := List.replicate depth leftParen

/-- **How each part of the parser leaves the open brackets.**  A scan opens and closes parentheses
of its own and counts them. -/
structure Balanced (fuel : Nat) : Prop where
  statement : Balances (statementWith fuel)
  statements : Balances (statementsWith fuel)
  block : Balances (blockWith fuel)
  choice : Balances (choiceWith fuel)
  whileLoop : Balances (whileWith fuel)
  forLoop : Balances (forWith fuel)
  definition : Balances (definitionWith fuel)
  function : ∀ isDefinition, Balances (functionWith fuel isDefinition)
  parameters : ∀ name isDefinition, Balances (parametersWith fuel name isDefinition)
  returned : Balances (returnWith fuel)
  expression : Balances (expressionWith fuel)
  scan : ∀ (s : Scan) (opened : List Kind) (c : Cursor), c.Closed →
    Nests (parens s.depth ++ opened) (scanWith fuel s) c fun s' => parens s'.depth ++ opened

namespace Balanced

/-- Without fuel nothing succeeds. -/
theorem zero : Balanced 0 where
  statement _ _ _ := .throw _
  statements _ _ _ := .throw _
  block _ _ _ := .throw _
  choice _ _ _ := .throw _
  whileLoop _ _ _ := .throw _
  forLoop _ _ _ := .throw _
  definition _ _ _ := .throw _
  function _ _ _ _ := .throw _
  parameters _ _ _ _ _ := .throw _
  returned _ _ _ := .throw _
  expression _ _ _ := .throw _
  scan _ _ _ _ := .throw _

/-- The depth of a scan changes with the parentheses it takes. -/
theorem nest_of_push {s s' : Scan} {t : Token} (hstop : ¬ Scan.stopsAt s.depth t.kind)
    (hpush : s.push t = .ok s') (opened : List Kind) :
    t.kind.nest (parens s.depth ++ opened) = some (parens s'.depth ++ opened) := by
  have htakes := Scan.takes_of_push hpush hstop
  by_cases hleft : t.kind = leftParen
  · rw [hleft, htakes.opening hleft]
    rfl
  by_cases hright : t.kind = rightParen
  · rw [hright, htakes.closing hright]
    rfl
  obtain ⟨hforeign, hdepth⟩ := htakes.plain hleft hright
  rw [hdepth]
  exact Kind.nest_of_not_isForeign hleft hright hforeign _

variable {fuel : Nat} (h : Balanced fuel)

include h

/-- **A scan keeps count of the parentheses it is in**, on top of the brackets around it. -/
theorem scan_succ (s : Scan) (opened : List Kind) (c : Cursor) (hc : c.Closed) :
    Nests (parens s.depth ++ opened) (scanWith (fuel + 1) s) c
      fun s' => parens s'.depth ++ opened := by
  rw [scanWith]
  refine .look (run_peek c) (.ite (fun _ => .pure rfl) fun hstop => ?_)
  have hend : c.peek.kind ≠ .endFile := fun he => hstop (by rw [he]; rfl)
  refine .ite (fun _ => .look (run_ahead 1 c) (.ite (fun _ => ?_) fun _ => ?_)) fun _ => ?_
  · exact .bind hc (h.function false _ c hc) fun n d hd => h.scan _ opened d hd
  · exact .bind hc (balances_reference _ c hc) fun n d hd => h.scan _ opened d hd
  · cases hpush : s.push c.peek with
    | error e => exact Spans.advance hc hend (.throw_bind e _)
    | ok s' => exact .advance hc hend (nest_of_push hstop hpush opened) (h.scan s' opened _ hc)

/-- An expression starts and ends in no parentheses of its own. -/
theorem expression_succ : Balances (expressionWith (fuel + 1)) := by
  intro opened c hc
  rw [expressionWith]
  refine .bind hc (h.scan .empty opened c hc) fun s d _ => ?_
  refine .ite (fun hdepth => ?_) fun _ => .complain_bind _ _
  exact Spans.ofExcept fun n _ => by rw [hdepth]; rfl

/-- Each parameter balances, and the commas between them are no brackets. -/
theorem parameters_succ (name : Token) (isDefinition : Bool) :
    Balances (parametersWith (fuel + 1) name isDefinition) := by
  intro opened c hc
  rw [parametersWith]
  refine .look (run_check _ c) (.ite (fun _ => .pure rfl) fun _ => ?_)
  refine .bind hc (h.expression.require _ opened c hc) fun n d hd => ?_
  have hrest {e : Cursor} (he : e.Closed) :
      Nests opened (do return n :: (← parametersWith fuel name isDefinition)) e fun _ => opened :=
    .bind he (h.parameters name isDefinition opened e he) fun _ _ _ => .pure rfl
  refine .ite (fun _ => .throw_bind _ _) fun _ => .look (run_check _ d) ?_
  refine .ite (fun hcomma => ?_) fun _ => .look (run_check _ d) ?_
  · exact .advance_checked hd hcomma (by decide) rfl (hrest hd)
  · exact .ite (fun _ => hrest hd) fun _ => .complain_bind _ _

/-- A block closes the brace that it opens. -/
theorem block_succ : Balances (blockWith (fuel + 1)) := by
  intro opened c hc
  rw [blockWith]
  refine .take hc (by decide) rfl fun _ d hd => ?_
  refine .bind hd (h.statements _ d hd) fun _ e he => ?_
  exact .take he (by decide) rfl fun _ _ _ => .pure rfl

/-- A choice closes the parentheses around its condition before its blocks. -/
theorem choice_succ : Balances (choiceWith (fuel + 1)) := by
  intro opened c hc
  rw [choiceWith]
  refine .take hc (by decide) rfl fun _ c₁ h₁ => .take h₁ (by decide) rfl fun _ c₂ h₂ => ?_
  refine .bind h₂ (h.expression.require _ _ c₂ h₂) fun condition c₃ h₃ => ?_
  refine .take h₃ (by decide) rfl fun _ c₄ h₄ => ?_
  refine .bind h₄ (h.block opened c₄ h₄) fun whenTrue c₅ h₅ => ?_
  refine .look (run_check _ c₅) (.ite (fun helse => ?_) fun _ => .pure rfl)
  refine .advance_checked h₅ helse (by decide) rfl (.look (run_check _ _) ?_)
  refine .ite (fun _ => ?_) fun _ => ?_
  · exact .bind h₅ (h.choice opened _ h₅) fun _ _ _ => .pure rfl
  · exact .bind h₅ (h.block opened _ h₅) fun _ _ _ => .pure rfl

theorem whileLoop_succ : Balances (whileWith (fuel + 1)) := by
  intro opened c hc
  rw [whileWith]
  refine .take hc (by decide) rfl fun _ c₁ h₁ => .take h₁ (by decide) rfl fun _ c₂ h₂ => ?_
  refine .bind h₂ (h.expression.require _ _ c₂ h₂) fun condition c₃ h₃ => ?_
  refine .take h₃ (by decide) rfl fun _ c₄ h₄ => ?_
  exact .bind h₄ (h.block opened c₄ h₄) fun _ _ _ => .pure rfl

theorem forLoop_succ : Balances (forWith (fuel + 1)) := by
  intro opened c hc
  rw [forWith]
  refine .take hc (by decide) rfl fun _ c₁ h₁ => .take h₁ (by decide) rfl fun _ c₂ h₂ => ?_
  refine .bind h₂ (h.statement _ c₂ h₂) fun initialization c₃ h₃ => ?_
  refine .bind h₃ (h.expression _ c₃ h₃) fun condition c₄ h₄ => ?_
  refine .take h₄ (by decide) rfl fun _ c₅ h₅ => ?_
  refine .bind h₅ (h.expression _ c₅ h₅) fun update c₆ h₆ => ?_
  refine .take h₆ (by decide) rfl fun _ c₇ h₇ => ?_
  exact .bind h₇ (h.block opened c₇ h₇) fun _ _ _ => .pure rfl

theorem definition_succ : Balances (definitionWith (fuel + 1)) := by
  intro opened c hc
  rw [definitionWith]
  refine .take hc (by decide) rfl fun _ c₁ h₁ => .look (run_peek c₁) ?_
  refine .ite (fun _ => ?_) fun _ => .complain_bind _ _
  refine .bind h₁ (h.expression opened c₁ h₁) fun initializer c₂ h₂ => ?_
  refine .ite (fun _ => ?_) fun _ => .throw_bind _ _
  exact .take h₂ (by decide) rfl fun _ _ _ => .pure rfl

theorem function_succ (isDefinition : Bool) :
    Balances (functionWith (fuel + 1) isDefinition) := by
  intro opened c hc
  rw [functionWith]
  cases isDefinition with
  | false =>
    refine .take hc (by decide) rfl fun name c₁ h₁ => .take h₁ (by decide) rfl fun _ c₂ h₂ => ?_
    refine .bind h₂ (h.parameters name false _ c₂ h₂) fun _ c₃ h₃ => ?_
    exact .take h₃ (by decide) rfl fun _ _ _ => .pure rfl
  | true =>
    refine .take hc (by decide) rfl fun _ c₁ h₁ => .take h₁ (by decide) rfl fun name c₂ h₂ => ?_
    refine .take h₂ (by decide) rfl fun _ c₃ h₃ => ?_
    refine .bind h₃ (h.parameters name true _ c₃ h₃) fun _ c₄ h₄ => ?_
    refine .take h₄ (by decide) rfl fun _ c₅ h₅ => ?_
    exact .bind h₅ (h.block opened c₅ h₅) fun _ _ _ => .pure rfl

theorem returned_succ : Balances (returnWith (fuel + 1)) := by
  intro opened c hc
  rw [returnWith]
  refine .take hc (by decide) rfl fun token c₁ h₁ => ?_
  refine .bind h₁ (h.expression opened c₁ h₁) fun n c₂ h₂ => ?_
  exact .take h₂ (by decide) rfl fun _ _ _ => .pure rfl

/-- A statement balances whichever parser it goes to. -/
theorem statement_succ : Balances (statementWith (fuel + 1)) := by
  intro opened c hc
  rw [statementWith]
  refine .look (run_peek c) ?_
  split
  · exact h.choice opened c hc
  · exact h.whileLoop opened c hc
  · exact h.forLoop opened c hc
  · exact h.definition opened c hc
  · exact h.function true opened c hc
  · exact h.returned opened c hc
  · refine .bind hc (h.expression opened c hc) fun n c₁ h₁ => ?_
    exact .take h₁ (by decide) rfl fun _ _ _ => .pure rfl

theorem statements_succ : Balances (statementsWith (fuel + 1)) := by
  intro opened c hc
  rw [statementsWith]
  refine .look (run_check _ c) (.ite (fun _ => .pure rfl) fun _ => ?_)
  refine .look (run_atEnd c) (.ite (fun _ => .complain _) fun _ => ?_)
  refine .look (run_check _ c) (.ite (fun hstray => ?_) fun _ => ?_)
  · exact .advance_checked hc hstray (by decide) rfl (h.statements opened _ hc)
  · refine .bind hc (h.statement opened c hc) fun n d hd => ?_
    exact .bind hd (h.statements opened d hd) fun _ _ _ => .pure rfl

theorem succ : Balanced (fuel + 1) where
  statement := h.statement_succ
  statements := h.statements_succ
  block := h.block_succ
  choice := h.choice_succ
  whileLoop := h.whileLoop_succ
  forLoop := h.forLoop_succ
  definition := h.definition_succ
  function := h.function_succ
  parameters := h.parameters_succ
  returned := h.returned_succ
  expression := h.expression_succ
  scan := h.scan_succ

end Balanced

/-- **Every part of the parser balances**, with any amount of fuel. -/
theorem balanced (fuel : Nat) : Balanced fuel := by
  induction fuel with
  | zero => exact .zero
  | succ fuel ih => exact ih.succ

/-- **A program takes all tokens**, and no bracket is open behind them. -/
theorem programWith_spans (fuel : Nat) (c : Cursor) (hc : c.Closed) :
    Spans (programWith fuel) c fun _ ts d => d.rest = [] ∧ WellBracketed (ts.map Token.kind) := by
  induction fuel generalizing c with
  | zero => exact .throw _
  | succ fuel ih =>
    rw [programWith]
    refine .look (run_atEnd c) (.ite (fun hnil => .pure ?_) fun _ => ?_)
    · exact ⟨List.isEmpty_iff.mp hnil, rfl⟩
    refine .look (run_check _ c) (.ite (fun hstray => ?_) fun _ => ?_)
    · have hkind : c.peek.kind = .endStatement := of_decide_eq_true hstray
      refine .advance hc (by rw [hkind]; decide) ((ih c.next hc).mono ?_)
      rintro _ ts d - ⟨hd, hts⟩
      rw [List.map_cons, hkind]
      exact ⟨hd, hts⟩
    · refine .bind hc ((balanced fuel).statement [] c hc) fun n ts d hd hts => ?_
      refine .bind hd (ih d hd) fun ns us e _ hus => .pure ⟨hus.1, ?_⟩
      rw [List.append_nil, List.map_append, WellBracketed, openBehind_append, hts]
      exact hus.2

end Parser

/-- **Programs are well bracketed.**  In every list of tokens that has a tree, each closing
parenthesis or brace closes the innermost open bracket, which is of its own kind, and no bracket is
left open. -/
theorem wellBracketed_of_parse {tokens : List Token} {n : Node} (h : parse tokens = .ok n) :
    WellBracketed (tokens.map Token.kind) := by
  rw [parse, Parser.program, Parser.run_bind] at h
  generalize hrun : (Parser.fuelled Parser.programWith).run (.ofTokens tokens) = r at h
  obtain ⟨_ | ns, d⟩ := r
  · cases h
  rw [Parser.run_fuelled] at hrun
  obtain ⟨ts, hreads, hrest, hts⟩ := Parser.programWith_spans _ (.ofTokens tokens) rfl ns d hrun
  rw [Cursor.ofTokens_eq_behind] at hreads
  obtain ⟨rest, rfl, rfl⟩ := Cursor.exists_behind_of_reads hreads
  obtain rfl : rest = [] := hrest
  rwa [List.append_nil]

/-- A loop over a call with a group among its arguments: `for (;;) { f((1)); }`. -/
theorem wellBracketed_of_parse_forLoop :
    let tokens : List Token := [⟨.forWord, "for", .none⟩, ⟨leftParen, "(", .none⟩,
      ⟨.endStatement, ";", .none⟩, ⟨.endStatement, ";", .none⟩, ⟨rightParen, ")", .none⟩,
      ⟨leftBrace, "\x7b", .none⟩, ⟨.identifier, "f", .none⟩, ⟨leftParen, "(", .none⟩,
      ⟨leftParen, "(", .none⟩, ⟨.int, "1", .none⟩, ⟨rightParen, ")", .none⟩,
      ⟨rightParen, ")", .none⟩, ⟨.endStatement, ";", .none⟩, ⟨rightBrace, "\x7d", .none⟩]
    parse tokens = .ok (.block [.forLoop .absent .absent .absent
        (.block [.function "f" [.literal (.int 1)] .absent false])]) ∧
      WellBracketed (tokens.map Token.kind) := by
  intro tokens
  have hparse : parse tokens = .ok (.block [.forLoop .absent .absent .absent
      (.block [.function "f" [.literal (.int 1)] .absent false])]) := by
    dsimp only [tokens]
    rfl
  exact ⟨hparse, wellBracketed_of_parse hparse⟩

end Scrawl
