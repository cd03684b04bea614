import Mathlib.Data.List.Forall2
import Scrawl.Proofs.Machine.Session
import Scrawl.Proofs.Node.Levels

/-!
# Proofs/Machine/Relaid — programs laid out in another way

Parsing and running both take no notice of places (`Parser.program_unplaced`,
`Exec.runProgram_unplaced`).  Here the two meet: tokens that agree in kind and lexeme are parsed
alike, down to the token at which the parser stops, and the trees run alike on every machine, the
messages of every level included.  So a text may be laid out with other white space and comments.
-/

namespace Scrawl

open ParseError (forget)

/-! ## Drawings -/

namespace Outline

mutual

/-- **An outline shows no places.** -/
theorem ofNode_unplaced : ∀ n : Node, ofNode n.unplaced = ofNode n
  | .absent => rfl
  | .value _ => rfl
  | .block statements => by
      rw [Node.unplaced, ofNode, ofNode, ofNodes_unplaced statements]
      rfl
  | .variable name initializer isDefinition => by
      rw [Node.unplaced, ofNode, ofNode, ofNode_unplaced initializer, ofOptional, ofOptional,
        Node.isPresent_unplaced]
      rfl
  | .function name parameters body isDefinition => by
      rw [Node.unplaced, ofNode, ofNode, ofNodes_unplaced parameters, ofNode_unplaced body,
        ofOptional, ofOptional, Node.isPresent_unplaced]
      rfl
  | .terminal content => by
      rw [ofNode, ← Node.label_unplaced]
      rfl
  | .unary operator operand => by
      rw [Node.unplaced, ofNode, ofNode, ofNode_unplaced operand]
      rfl
  | .binary operator left right => by
      rw [Node.unplaced, ofNode, ofNode, ofNode_unplaced left, ofNode_unplaced right]
      rfl
  | .choice condition whenTrue whenFalse => by
      rw [Node.unplaced, ofNode, ofNode, ofNode_unplaced condition, ofNode_unplaced whenTrue,
        ofNode_unplaced whenFalse, ofOptional, ofOptional, Node.isPresent_unplaced]
      rfl
  | .whileLoop condition body => by
      rw [Node.unplaced, ofNode, ofNode, ofNode_unplaced condition, ofNode_unplaced body]
      rfl
  | .forLoop initialization condition update body => by
      simp only [Node.unplaced, ofNode, ofNode_unplaced initialization, ofNode_unplaced condition,
        ofNode_unplaced update, ofNode_unplaced body, ofOptional, Node.isPresent_unplaced]
      rfl

theorem ofNodes_unplaced : ∀ ns : List Node, ofNodes (Node.unplacedAll ns) = ofNodes ns
  | [] => rfl
  | n :: ns => by rw [Node.unplacedAll, ofNodes, ofNodes, ofNode_unplaced n, ofNodes_unplaced ns]

end

end Outline

theorem Node.draw_unplaced (n : Node) : n.unplaced.draw = n.draw := by
  rw [draw, draw, Outline.ofNode_unplaced]

theorem Node.drawWithin_unplaced (limit : Nat) (n : Node) :
    n.unplaced.drawWithin limit = n.drawWithin limit := by
  rw [drawWithin, drawWithin, levels_unplaced, draw_unplaced]

/-! ## Running -/

/-- **Two ends of a run that differ only in places**, namely those of operators in the functions
that the machine holds: the outcome is the same, and so are the console, the trace, the slots, the
frames and the open calls. -/
def SameEnd (r r' : Except Stop Unit × Machine) : Prop :=
  r.1 = r'.1 ∧ r.2.unplaced = r'.2.unplaced

namespace Exec

/-- What mirrors the same computation ends in the same way. -/
theorem Mirrors.sameEnd {x y z : Exec Unit} (hx : Mirrors Machine.unplaced x z)
    (hy : Mirrors Machine.unplaced y z) (m : Machine) : SameEnd (x.run m) (y.run m) :=
  Prod.mk.inj ((hx m).symm.trans (hy m))

/-- **A program runs with its tokens as it does without places**, the first messages included. -/
theorem runTokens_unplaced (fuel : Nat) (tokens : List Token) (program : Node) :
    Mirrors Machine.unplaced (runTokens fuel tokens program)
      (runTokens fuel (tokens.map Token.unplaced) program.unplaced) := by
  have hlexemes : (tokens.map Token.unplaced).map Token.lexeme = tokens.map Token.lexeme :=
    List.map_map
  refine .bind (.sayLazily 1 fun _ => ?_) fun _ => .bind (.sayLazily 1 fun _ => ?_) fun _ => ?_
  · rw [hlexemes]
  · exact congrArg (Except.map _) (Node.drawWithin_unplaced _ program)
  · exact runProgram_unplaced fuel program

end Exec

/-! ## Texts -/

/-- An error of a source text without the place that the parser stopped at. -/
def SourceError.unplaced : SourceError → SourceError
  | .lexer error => .lexer error
  | .parser error => .parser error.unplaced

/-- **How a run of a text ended, without places.** -/
def sourceEnd {ε : Type} (r : Except SourceError (Except ε (Except Stop Unit × Machine))) :
    Except SourceError (Except ε (Except Stop Unit × Machine)) :=
  (r.map (Except.map (Prod.map id Machine.unplaced))).mapError SourceError.unplaced

theorem runSource_eq {source : String} {tokens : List Token} (h : tokenize source = .ok tokens)
    (fuel : Nat) {ε : Type} (machine : Except ε Machine) :
    runSource fuel source machine = ((parse tokens).mapError .parser).map fun program =>
      machine.map (Exec.runTokens fuel tokens program).run := by
  rw [runSource, parseSource, h]
  dsimp only
  cases parse tokens <;> rfl

/-- Tokens that agree in kind and lexeme are the same without places. -/
theorem agree_iff_map_unplaced_eq {A B : List Token} :
    List.Forall₂ (fun s t => s.kind = t.kind ∧ s.lexeme = t.lexeme) A B ↔
      A.map Token.unplaced = B.map Token.unplaced := by
  have htoken (s t : Token) : s.unplaced = t.unplaced ↔ s.kind = t.kind ∧ s.lexeme = t.lexeme := by
    simp [Token.unplaced]
  rw [← List.forall₂_eq_eq_eq, List.forall₂_map_left_iff, List.forall₂_map_right_iff]
  simp only [htoken]

/-- **Places are informational only.**  Of two lists of tokens that agree in kind and lexeme, either
both are parsed, into trees that differ only in places, or both fail, with errors that differ only
in places, and the parser stops at the same token.  From the same state of a machine, whatever
messages it shows, the two trees then end in the same way, by themselves, as programs and as
programs with their tokens.  So do two texts that differ only in the white space and the comments
between these tokens. -/
theorem places_informational {A B : List Token}
    (h : List.Forall₂ (fun s t => s.kind = t.kind ∧ s.lexeme = t.lexeme) A B) :
    (forget Node.unplaced (parse A) = forget Node.unplaced (parse B) ∧
      (Parser.program.run (.ofTokens A)).2.taken = (Parser.program.run (.ofTokens B)).2.taken) ∧
    (∀ p q, parse A = .ok p → parse B = .ok q → ∀ fuel m,
      SameEnd ((Exec.visit fuel p).run m) ((Exec.visit fuel q).run m) ∧
      SameEnd ((Exec.runProgram fuel p).run m) ((Exec.runProgram fuel q).run m) ∧
      SameEnd ((Exec.runTokens fuel A p).run m) ((Exec.runTokens fuel B q).run m)) ∧
    ∀ s s', tokenize s = .ok A → tokenize s' = .ok B →
      ∀ fuel (ε : Type) (machine : Except ε Machine),
        sourceEnd (runSource fuel s machine) = sourceEnd (runSource fuel s' machine) := by
  have hplaces := agree_iff_map_unplaced_eq.mp h
  have hparse := parse_unplaced hplaces
  have hruns {p q : Node} (hpq : p.unplaced = q.unplaced) (fuel : Nat) (m : Machine) :
      SameEnd ((Exec.visit fuel p).run m) ((Exec.visit fuel q).run m) ∧
      SameEnd ((Exec.runProgram fuel p).run m) ((Exec.runProgram fuel q).run m) ∧
      SameEnd ((Exec.runTokens fuel A p).run m) ((Exec.runTokens fuel B q).run m) := by
    have hvisit := (Exec.mirrored fuel).visit p
    have hprogram := Exec.runProgram_unplaced fuel p
    have htokens := Exec.runTokens_unplaced fuel A p
    rw [hpq] at hvisit hprogram htokens
    rw [hplaces] at htokens
    exact ⟨hvisit.sameEnd ((Exec.mirrored fuel).visit q) m,
      hprogram.sameEnd (Exec.runProgram_unplaced fuel q) m,
      htokens.sameEnd (Exec.runTokens_unplaced fuel B q) m⟩
  refine ⟨⟨hparse, ?_⟩, fun p q hp hq => ?_, fun s s' hs hs' fuel ε machine => ?_⟩
  · have hcursor : (Cursor.ofTokens A).unplaced = (Cursor.ofTokens B).unplaced := by
      rw [Cursor.ofTokens_unplaced, Cursor.ofTokens_unplaced, hplaces]
    have hrun := Parser.program_unplaced (.ofTokens A)
    rw [hcursor, Parser.program_unplaced] at hrun
    exact congrArg (fun r => r.2.taken) hrun.symm
  · rw [hp, hq] at hparse
    exact hruns (Except.ok.inj hparse)
  · rw [runSource_eq hs, runSource_eq hs']
    rcases hA : parse A with e | p <;> rcases hB : parse B with e' | q <;> rw [hA, hB] at hparse
    · exact congrArg (fun e => Except.error (SourceError.parser e)) (Except.error.inj hparse)
    · cases hparse
    · cases hparse
    · obtain e | m := machine
      · rfl
      · obtain ⟨-, -, houtcome, hm⟩ := hruns (Except.ok.inj hparse) fuel m
        exact congrArg (fun r => Except.ok (Except.ok r)) (Prod.ext houtcome hm)

/-- A sum broken in two by a comment, with every message shown. -/
theorem places_informational_comment :
    let source := "output(\"x\"+a);"
    let relaid := "output(\"x\" // y\n+a);"
    let p : Node := .block [.call "output" [.binary ⟨.add, "+", ⟨1, 11⟩⟩
      (.literal (.string "x")) (.reference "a")]]
    let q : Node := .block [.call "output" [.binary ⟨.add, "+", ⟨2, 1⟩⟩
      (.literal (.string "x")) (.reference "a")]]
    parseProgram source = .ok p ∧ parseProgram relaid = .ok q ∧
      SameEnd ((Exec.runProgram 20 p).run (.start .usual 3 0 []))
        ((Exec.runProgram 20 q).run (.start .usual 3 0 [])) ∧
      sourceEnd (runSource 20 source (.ok (.start .usual 3 0 []) : Except Empty Machine)) =
        sourceEnd (runSource 20 relaid (.ok (.start .usual 3 0 []))) := by
  intro source relaid p q
  let A : List Token := [⟨.identifier, "output", ⟨1, 1⟩⟩, ⟨.leftParen, "(", ⟨1, 7⟩⟩,
    ⟨.string, "x", ⟨1, 8⟩⟩, ⟨.add, "+", ⟨1, 11⟩⟩, ⟨.identifier, "a", ⟨1, 12⟩⟩,
    ⟨.rightParen, ")", ⟨1, 13⟩⟩, ⟨.endStatement, ";", ⟨1, 14⟩⟩]
  let B : List Token := [⟨.identifier, "output", ⟨1, 1⟩⟩, ⟨.leftParen, "(", ⟨1, 7⟩⟩,
    ⟨.string, "x", ⟨1, 8⟩⟩, ⟨.add, "+", ⟨2, 1⟩⟩, ⟨.identifier, "a", ⟨2, 2⟩⟩,
    ⟨.rightParen, ")", ⟨2, 3⟩⟩, ⟨.endStatement, ";", ⟨2, 4⟩⟩]
  have hs : tokenize source = .ok A := by decide +kernel
  have hs' : tokenize relaid = .ok B := by decide +kernel
  have hp : parse A = .ok p := rfl
  have hq : parse B = .ok q := rfl
  have h : List.Forall₂ (fun s t : Token => s.kind = t.kind ∧ s.lexeme = t.lexeme) A B := by
    simp [A, B]
  obtain ⟨-, hruns, htexts⟩ := places_informational h
  exact ⟨parseProgram_eq_ok_iff.mpr ⟨A, hs, hp⟩, parseProgram_eq_ok_iff.mpr ⟨B, hs', hq⟩,
    (hruns p q hp hq 20 _).2.1, htexts source relaid hs hs' 20 Empty _⟩

end Scrawl
