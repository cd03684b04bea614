import Scrawl.Proofs.Parser.Brackets

/-!
# Proofs/Parser/Totality — every part of the parser ends, further on

A part of the parser is started at a position of a list of tokens.  It ends there or further on,
never behind the last token, and the tokens alone decide how: from the fuel that the parser takes
on, more fuel changes nothing.  What a success has taken depends on the part (`Production.Took`).
-/

namespace Scrawl

namespace Cursor

/-- **A position in a list of tokens.** -/
def place (tokens : List Token) (position : Nat) : Cursor :=
  ⟨tokens.drop position, position, finishOf tokens⟩

theorem closed_place (tokens : List Token) (position : Nat) : (place tokens position).Closed := rfl

variable {tokens : List Token} {position : Nat} {d : Cursor}

theorem length_rest_place : (place tokens position).rest.length = tokens.length - position :=
  List.length_drop

/-- **A cursor that a position reaches is a position of the same tokens**, no smaller than it. -/
theorem Reaches.eq_place (h : (place tokens position).Reaches d) :
    d = place tokens d.taken ∧ position ≤ d.taken := by
  obtain ⟨ts, hrest, htaken⟩ := h.rest
  have hfinish := h.finish
  obtain ⟨rest, taken, finish⟩ := d
  replace hrest : tokens.drop position = ts ++ rest := hrest
  replace htaken : taken = position + ts.length := htaken
  subst htaken
  have hdrop : rest = tokens.drop (position + ts.length) := by
    rw [← List.drop_drop, hrest, List.drop_left]
  refine ⟨?_, Nat.le_add_right position ts.length⟩
  rw [place, ← hdrop]
  exact congrArg (Cursor.mk rest _) hfinish

/-- No token is taken that is not there. -/
theorem Reaches.taken_le (h : (place tokens position).Reaches d) (hle : position ≤ tokens.length) :
    d.taken ≤ tokens.length := by
  obtain ⟨ts, hrest, htaken⟩ := h.rest
  have hlen := congrArg List.length hrest
  rw [length_rest_place, List.length_append] at hlen
  replace htaken : d.taken = position + ts.length := htaken
  omega

/-- Fewer tokens are left where more are taken. -/
theorem Reaches.taken_lt (h : (place tokens position).Reaches d)
    (hlt : d.rest.length < (place tokens position).rest.length) : position < d.taken := by
  obtain ⟨ts, hrest, htaken⟩ := h.rest
  rw [hrest, List.length_append] at hlt
  replace htaken : d.taken = position + ts.length := htaken
  omega

end Cursor

namespace Parser

variable {α : Type} {c : Cursor}

/-- What a success spans is known of every end. -/
theorem Ends.and_spans {p : Parser α} {P : α → Cursor → Prop} {Q : α → List Token → Cursor → Prop}
    (h : Ends p c P) (hspans : Spans p c Q) : Ends p c fun a d => P a d ∧ ∃ ts, Q a ts d := by
  refine ⟨h.1, ?_⟩
  have hP := h.2
  generalize hrun : p.run c = r at hP ⊢
  obtain ⟨e | a, d⟩ := r
  · exact hP
  · obtain ⟨ts, -, hQ⟩ := hspans a d hrun
    exact ⟨hP, ts, hQ⟩

/-! ## The parts -/

/-- **The parts of the parser.**  A variable or a function is defined or used. -/
inductive Production where
  | program | statement | block | choice | whileLoop | forLoop
  | variable (isDefinition : Bool)
  | function (isDefinition : Bool)
  | returned | expression
deriving DecidableEq, Repr

namespace Production

/-- The parser of a part. -/
def parser : Production → Parser Node
  | .program => Parser.program
  | .statement => Parser.statement
  | .block => Parser.block
  | .choice => Parser.choice
  | .whileLoop => Parser.whileLoop
  | .forLoop => Parser.forLoop
  | .variable true => Parser.definition
  | .variable false => Parser.reference
  | .function isDefinition => Parser.function isDefinition
  | .returned => Parser.returnStatement
  | .expression => Parser.expression

/-- The parser of a part with any amount of fuel. -/
def withFuel : Production → Nat → Parser Node
  | .program, fuel => do return .block (← programWith fuel)
  | .statement, fuel => statementWith fuel
  | .block, fuel => blockWith fuel
  | .choice, fuel => choiceWith fuel
  | .whileLoop, fuel => whileWith fuel
  | .forLoop, fuel => forWith fuel
  | .variable true, fuel => definitionWith fuel
  | .variable false, _ => reference
  | .function isDefinition, fuel => functionWith fuel isDefinition
  | .returned, fuel => returnWith fuel
  | .expression, fuel => expressionWith fuel

theorem run_eq_withFuel (part : Production) (c : Cursor) :
    part.parser.run c = (part.withFuel (fuelFor c)).run c := by
  cases part with
  | program =>
    rw [parser, withFuel, Parser.program, run_bind, run_bind, run_fuelled]
  | «variable» isDefinition =>
    cases isDefinition with
    | true => exact run_fuelled definitionWith c
    | false => rfl
  | statement => exact run_fuelled statementWith c
  | block => exact run_fuelled blockWith c
  | choice => exact run_fuelled choiceWith c
  | whileLoop => exact run_fuelled whileWith c
  | forLoop => exact run_fuelled forWith c
  | function isDefinition => exact run_fuelled (functionWith · isDefinition) c
  | returned => exact run_fuelled returnWith c
  | expression => exact run_fuelled expressionWith c

/-- **What a success of a part has taken**, between the positions where it starts and stops: a
program all tokens, an expression at least one unless it is empty, the others at least one. -/
def Took (part : Production) (n : Node) (start stop total : Nat) : Prop :=
  match part with
  | .program => stop = total
  | .expression => n.isPresent → start < stop
  | _ => start < stop

theorem extends_succ (part : Production) (fuel : Nat) :
    Extends (part.withFuel (fuel + 1)) (part.withFuel fuel) := by
  have h := steady fuel
  have hsame {p q : Parser Node} (hpq : Correspondence.equal.Tracks Eq p q) : Extends q p :=
    .of_tracks hpq fun _ _ => id
  cases part with
  | program => exact (programWith_extends fuel).bind fun _ => .refl _
  | statement => exact hsame h.statement
  | block => exact hsame h.block
  | choice => exact hsame h.choice
  | whileLoop => exact hsame h.whileLoop
  | forLoop => exact hsame h.forLoop
  | «variable» isDefinition =>
    cases isDefinition with
    | true => exact hsame h.definition
    | false => exact .refl _
  | function isDefinition =>
    cases isDefinition with
    | true => exact hsame h.function
    | false => exact hsame (h.call.mono fun _ _ hn => hn.1)
  | returned => exact hsame h.returned
  | expression => exact hsame h.expression

/-- **A part ends with the fuel it takes**, and its success has taken what it must. -/
theorem ends_withFuel (part : Production) (tokens : List Token) (position fuel : Nat)
    (hfuel : fuelFor (.place tokens position) ≤ fuel) (hle : position ≤ tokens.length) :
    Ends (part.withFuel fuel) (.place tokens position) fun n d =>
      part.Took n position d.taken tokens.length := by
  have hc := Cursor.closed_place tokens position
  have h := enough fuel
  rw [fuelFor] at hfuel
  -- All parts but two take a token when they succeed.
  have hlt {p : Parser Node} (hp : Advances p (.place tokens position)) :
      Ends p (.place tokens position) fun _ d => position < d.taken :=
    hp.mono fun _ d hd hlen => hd.taken_lt hlen
  cases part with
  | program =>
    refine ((programWith_ends fuel _ hc (by omega)).and_spans (programWith_spans fuel _ hc)).bind ?_
    rintro ns d hd ⟨-, ts, hnil, -⟩
    refine .pure ?_
    have hd' := congrArg (List.length ∘ Cursor.rest) hd.eq_place.1
    simp only [Function.comp_apply, hnil, Cursor.length_rest_place, List.length_nil] at hd'
    have := hd.taken_le hle
    change d.taken = tokens.length
    omega
  | expression =>
    refine (h.expression _ hc (by omega)).mono fun n d hd hn hpresent => ?_
    refine hd.taken_lt (hn.resolve_left ?_)
    rintro rfl
    cases hpresent
  | «variable» isDefinition =>
    cases isDefinition with
    | true => exact hlt (h.definition _ hc (by omega))
    | false => exact hlt (.take hc (by decide) fun _ _ _ _ => .pure (by omega))
  | statement => exact hlt (h.statement _ hc (by omega))
  | block => exact hlt (h.block _ hc (by omega))
  | choice => exact hlt (h.choice _ hc (by omega))
  | whileLoop => exact hlt (h.whileLoop _ hc (by omega))
  | forLoop => exact hlt (h.forLoop _ hc (by omega))
  | function isDefinition => exact hlt (h.function isDefinition _ hc (by omega))
  | returned => exact hlt (h.returned _ hc (by omega))

/-- With more fuel than it takes, a part does the same. -/
theorem run_withFuel (part : Production) (tokens : List Token) (position fuel : Nat)
    (hfuel : fuelFor (.place tokens position) ≤ fuel) (hle : position ≤ tokens.length) :
    (part.withFuel fuel).run (.place tokens position)
      = part.parser.run (.place tokens position) := by
  rw [run_eq_withFuel]
  have hends := part.ends_withFuel tokens position _ le_rfl hle
  have hsettles := Settles.of_run part.extends_succ hends.ne_exhausted
  exact hsettles.run_eq part.extends_succ (part.ends_withFuel _ _ _ hfuel hle).ne_exhausted

/-- **The parser always ends and always makes progress.**  Started at a position of any list of
tokens, each part ends in a result or an error of its own, at a position between its start and the
end of the tokens.  It does so with every amount of fuel from the one it takes on, and never because
fuel ran out.  A program that succeeds has taken all tokens, an expression that is not empty and
every other part at least one. -/
theorem ends_further (part : Production) (tokens : List Token) (position : Nat)
    (hle : position ≤ tokens.length) :
    ∃ outcome stop, position ≤ stop ∧ stop ≤ tokens.length ∧ outcome ≠ .error .exhausted ∧
      part.parser.run (.place tokens position) = (outcome, .place tokens stop) ∧
      (∀ fuel, fuelFor (.place tokens position) ≤ fuel →
        (part.withFuel fuel).run (.place tokens position) = (outcome, .place tokens stop)) ∧
      ∀ n, outcome = .ok n → part.Took n position stop tokens.length := by
  have hends := part.ends_withFuel tokens position _ le_rfl hle
  rw [Ends, ← run_eq_withFuel] at hends
  have hfuel := part.run_withFuel tokens position
  generalize part.parser.run (.place tokens position) = r at hends hfuel ⊢
  obtain ⟨outcome, d⟩ := r
  obtain ⟨hreach, hends⟩ := hends
  obtain ⟨hd, hge⟩ := hreach.eq_place
  refine ⟨outcome, d.taken, hge, hreach.taken_le hle, ?_, congrArg _ hd, ?_, ?_⟩
  · rintro rfl
    exact hends rfl
  · intro fuel hf
    rw [hfuel fuel hf hle, ← hd]
  · rintro n rfl
    exact hends

/-- An end-of-input token in the middle is no end: `; x ; <end> x` from its second token on. -/
theorem ends_further_endFile :
    let tokens : List Token := [⟨.endStatement, ";", .none⟩, ⟨.identifier, "x", .none⟩,
      ⟨.endStatement, ";", .none⟩, ⟨.endFile, "", .none⟩, ⟨.identifier, "x", .none⟩]
    1 ≤ tokens.length ∧
      program.parser.run (.place tokens 1) =
        (.error (.unmet "Expected ';' after expression" ⟨.endFile, "", .none⟩), .place tokens 3) ∧
      ∃ outcome stop, 1 ≤ stop ∧ stop ≤ tokens.length ∧ outcome ≠ .error .exhausted ∧
        program.parser.run (.place tokens 1) = (outcome, .place tokens stop) ∧
        (∀ fuel, fuelFor (.place tokens 1) ≤ fuel →
          (program.withFuel fuel).run (.place tokens 1) = (outcome, .place tokens stop)) ∧
        ∀ n, outcome = .ok n → program.Took n 1 stop tokens.length := by
  intro tokens
  refine ⟨by decide, ?_, ends_further program tokens 1 (by decide)⟩
  dsimp only [tokens]
  rfl

end Production

end Parser

end Scrawl
