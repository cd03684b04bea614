import Scrawl.Proofs.Expression.Items
import Scrawl.Proofs.Parser.Correspondence

/-!
# Proofs/Parser/Trees — the parser returns the trees of programs
-/

namespace Scrawl

namespace Node

/-- The only expression that refers to a variable is the reference itself. -/
theorem IsExpression.eq_reference {L : Value → Prop} {n : Node} {name : String}
    (h : n.IsExpression L) (hn : n.referenced? = some name) : n = .reference name := by
  cases h with
  | reference x =>
    obtain rfl : x = name := Option.some.inj hn
    rfl
  | literal _ => cases hn
  | call _ _ => cases hn
  | unary _ _ => cases hn
  | binary _ _ _ => cases hn

theorem isStatement_of_defines {L : Value → Prop} {n : Node} {name : String}
    (h : n.IsExpression L) (hn : n.defines name) : (Node.variable name n true).IsStatement L := by
  by_cases hb : ∃ operator left right, n = .binary operator left right
  · obtain ⟨operator, left, right, rfl⟩ := hb
    rw [defines, Bool.and_eq_true, decide_eq_true_iff, decide_eq_true_iff] at hn
    cases h with
    | binary _ hl hr =>
      obtain rfl := hl.eq_reference hn.2
      exact .definition name hn.1 hr
  · have href : n.referenced? = some name := by
      unfold defines at hn
      split at hn
      · exact absurd ⟨_, _, _, rfl⟩ hb
      · exact of_decide_eq_true hn
    obtain rfl := h.eq_reference href
    exact .declaration name

end Node

namespace Parser

open Node (IsProgram)

/-- An expression with literals that tokens write. -/
abbrev IsExpression : Node → Prop := Node.IsExpression Value.IsLiteral

/-- A statement with literals that tokens write. -/
abbrev IsStatement : Node → Prop := Node.IsStatement Value.IsLiteral

/-- A tree that is there, where it might not be. -/
theorem of_isPresent {n : Node} {Q : Prop} (h : n = .absent ∨ Q) (hn : n.isPresent) : Q := by
  refine h.resolve_left ?_
  rintro rfl
  cases hn

/-- **Trees correspond to themselves** if they are made as those of programs. -/
def Correspondence.formed : Correspondence :=
  { equal with
    scan := fun s s' => s = s' ∧ s.Holds
    expression := fun n n' => n = n' ∧ (n = .absent ∨ IsExpression n)
    statement := fun n n' => n = n' ∧ (n = .absent ∨ IsStatement n)
    block := fun n n' => n = n' ∧ IsProgram Value.IsLiteral n
    choice := fun n n' => n = n' ∧ ∃ c t f, n = .choice c t f ∧ IsStatement n
    empty := ⟨rfl, .empty⟩
    depth_eq := by rintro _ _ ⟨rfl, -⟩; rfl
    operand := by
      rintro s _ t _ n _ ⟨rfl, hs⟩ rfl hk ⟨rfl, hn⟩ hpresent
      have hn := of_isPresent hn hpresent
      exact ⟨⟨rfl, hs.operand (.inl (by rw [hk]; rfl)) hn⟩, rfl, hs.operand (.inr rfl) hn⟩
    push := by
      rintro s _ t _ ⟨rfl, hs⟩ rfl -
      exact .refl (fun _ _ => rfl) fun _ hpush => ⟨rfl, hs.push hpush⟩
    tree := by
      rintro s _ ⟨rfl, hs⟩
      exact .refl (fun _ _ => rfl) fun _ hn => ⟨rfl, hs.tree hn⟩
    isPresent_expression := by rintro _ _ ⟨rfl, -⟩; rfl
    isPresent_statement := by rintro _ _ ⟨rfl, -⟩; rfl
    referenced?_eq := by rintro _ _ ⟨rfl, -⟩; rfl
    defines_eq := by rintro _ _ ⟨rfl, -⟩ _; rfl
    reference := fun {t _} _ _ => ⟨rfl, .inr (.reference t.lexeme)⟩
    call := by
      intro t _ ns ns' _ _ hns
      obtain ⟨rfl, hall⟩ := eq_of_forall₂ (fun _ _ h => h.1.1) hns
      refine ⟨rfl, .inr (.call t.lexeme fun n hn => ?_)⟩
      exact of_isPresent (hall n hn).1.2 (hall n hn).2
    of_expression := fun h => ⟨h.1, h.2.imp_right .expression⟩
    of_choice := by
      rintro _ _ ⟨rfl, _, _, _, -, hn⟩
      exact ⟨rfl, .inr hn⟩
    blockOf := by
      intro ns ns' hns
      obtain ⟨rfl, hall⟩ := eq_of_forall₂ (fun _ _ h => h.1.1) hns
      exact ⟨rfl, .intro fun n hn => of_isPresent (hall n hn).1.2 (hall n hn).2⟩
    choiceOf := by
      rintro c _ _ _ f _ ⟨rfl, hc⟩ hpresent ⟨rfl, ⟨ht⟩⟩ hf
      have hc := of_isPresent hc hpresent
      rcases hf with ⟨rfl, rfl⟩ | ⟨rfl, _, _, _, rfl, hf⟩ | ⟨rfl, ⟨hf⟩⟩
      · exact ⟨rfl, _, _, _, rfl, .choice hc ht⟩
      · exact ⟨rfl, _, _, _, rfl, .choiceChain hc ht hf⟩
      · exact ⟨rfl, _, _, _, rfl, .choiceElse hc ht hf⟩
    whileLoop := by
      rintro c _ _ _ ⟨rfl, hc⟩ hpresent ⟨rfl, ⟨hbody⟩⟩
      exact ⟨rfl, .inr (.whileLoop (of_isPresent hc hpresent) hbody)⟩
    forLoop := by
      rintro _ _ _ _ _ _ _ _ ⟨rfl, hi⟩ ⟨rfl, hc⟩ ⟨rfl, hu⟩ ⟨rfl, ⟨hbody⟩⟩
      exact ⟨rfl, .inr (.forLoop hi.resolve_left hc.resolve_left hu.resolve_left hbody)⟩
    definition := by
      rintro t _ n _ - - ⟨rfl, hn⟩ hdefines
      refine ⟨rfl, .inr (Node.isStatement_of_defines (hn.resolve_left ?_) hdefines)⟩
      rintro rfl
      simp [Node.defines, Node.referenced?] at hdefines
    function := by
      rintro t _ ns ns' _ _ - - hns ⟨rfl, ⟨hbody⟩⟩
      obtain ⟨rfl, hall⟩ := eq_of_forall₂ (fun _ _ h => h.1.1) hns
      refine ⟨rfl, .inr (.function t.lexeme (fun n hn => ?_) hbody)⟩
      obtain ⟨⟨-, hexpression⟩, href⟩ := hall n hn
      obtain ⟨x, hx⟩ := Option.isSome_iff_exists.mp href
      refine ⟨x, Node.IsExpression.eq_reference (hexpression.resolve_left ?_) hx⟩
      rintro rfl
      cases hx
    returned := by
      rintro t _ n _ rfl hk ⟨rfl, hn⟩
      refine ⟨rfl, .inr ?_⟩
      split
      · exact .returnValue hk (of_isPresent hn ‹_›)
      · exact .returnVoid hk }

theorem holds_of_scanWith {fuel : Nat} {c d : Cursor} {s : Scan}
    (h : (scanWith fuel .empty).run c = (.ok s, d)) : s.Holds := by
  have hparts : Correspondence.formed.Parts fuel fuel := Correspondence.formed.parts (.inl rfl)
  obtain ⟨_, _, -, ⟨-, hs⟩, -⟩ := (hparts.scan Correspondence.formed.empty).exists_of_ok rfl h
  exact hs

end Parser

/-- **A list of tokens parses to the tree of a program**, if it parses. -/
theorem isProgram_of_parse {tokens : List Token} {n : Node} (h : parse tokens = .ok n) :
    n.IsProgram Value.IsLiteral :=
  (Parser.Correspondence.formed.block_of_parse rfl h).2

theorem parseSource_eq_ok_iff {source : String} {tokens : List Token} {n : Node} :
    parseSource source = .ok (tokens, n) ↔ tokenize source = .ok tokens ∧ parse tokens = .ok n := by
  constructor
  · intro h
    unfold parseSource at h
    split at h
    · cases h
    · split at h
      · cases h
      · cases h
        exact ⟨‹_›, ‹_›⟩
  · rintro ⟨htokens, hparse⟩
    rw [parseSource, htokens]
    dsimp only
    rw [hparse]

theorem parseProgram_eq_ok_iff {source : String} {program : Node} :
    parseProgram source = .ok program ↔
      ∃ tokens, tokenize source = .ok tokens ∧ parse tokens = .ok program := by
  constructor
  · intro h
    obtain ⟨⟨tokens, _⟩, hsource, rfl⟩ := exists_of_map_eq_ok h
    exact ⟨tokens, parseSource_eq_ok_iff.mp hsource⟩
  · rintro ⟨tokens, h⟩
    rw [parseProgram, parseSource_eq_ok_iff.mpr h]
    rfl

/-- …and so does a source text. -/
theorem isProgram_of_parseSource {source : String} {tokens : List Token} {n : Node}
    (h : parseSource source = .ok (tokens, n)) : n.IsProgram Value.IsLiteral :=
  isProgram_of_parse (parseSource_eq_ok_iff.mp h).2

end Scrawl
