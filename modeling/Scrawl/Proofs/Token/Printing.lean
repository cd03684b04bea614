import Scrawl.Proofs.Token.Layout

/-!
# Proofs/Token/Printing — printed tokens are read back

`Token.printed` writes tokens one after the other with a space between them.  The space keeps every
pair of neighbours apart, whatever they are, so lexable tokens are read back; and all tokens of a
source text are lexable.
-/

namespace Scrawl

open Lexer

namespace Token

/-- **Tokens as a text**, with a space between them. -/
def printed (tokens : List Token) : String :=
  " ".intercalate (tokens.map fun t => String.ofList t.spelling)

theorem toList_printed (tokens : List Token) :
    (printed tokens).toList = [' '].intercalate (tokens.map spelling) := by
  rw [printed, String.toList_intercalate, List.map_map]
  congr 2
  funext t
  exact String.toList_ofList

/-- **Printed tokens are laid out as they are**, at places of their own. -/
theorem exists_layout_printed : ∀ {tokens : List Token}, (∀ t ∈ tokens, t.IsLexable) →
    ∀ before : List Char, ∃ placed : List Token, placed.map unplaced = tokens.map unplaced ∧
      Layout before ([' '].intercalate (tokens.map spelling)) [] placed
  | [], _, _ => ⟨[], rfl, .nil⟩
  | [t], h, before => by
      have ht := h t List.mem_cons_self
      let t' : Token := { t with position := .behind before }
      have hlayout : Layout before (t'.spelling ++ []) [] [t'] :=
        .token (t := t') ht (isMaximal_nil ht) rfl .nil
      rw [List.append_nil] at hlayout
      refine ⟨[t'], rfl, ?_⟩
      rw [List.map_singleton, List.intercalate_singleton]
      exact hlayout
  | t :: u :: tokens, h, before => by
      obtain ⟨ht, hrest⟩ := List.forall_mem_cons.mp h
      obtain ⟨placed, hsame, hlayout⟩ := exists_layout_printed hrest (before ++ t.spelling ++ [' '])
      let t' : Token := { t with position := .behind before }
      have hmax : t'.IsMaximal (' ' :: [' '].intercalate ((u :: tokens).map spelling) ++ []) := by
        refine isMaximal_of_head? (t := t') ht (isMaximal_nil ht) ?_
        rintro _ ⟨⟩
        exact .inr (by decide)
      refine ⟨t' :: placed, congrArg (t.unplaced :: ·) hsame, ?_⟩
      have hspaced :
          Layout before (t'.spelling ++ ' ' :: [' '].intercalate ((u :: tokens).map spelling)) []
            (t' :: placed) := .token ht hmax rfl (.space (by decide) hlayout)
      rw [List.map_cons, List.map_cons, List.intercalate_cons_cons, List.append_assoc]
      exact hspaced

theorem exists_tokenize_printed {tokens : List Token} (h : ∀ t ∈ tokens, t.IsLexable) :
    ∃ placed, tokenize (printed tokens) = .ok placed ∧
      placed.map unplaced = tokens.map unplaced := by
  obtain ⟨placed, hsame, hlayout⟩ := exists_layout_printed h []
  rw [← toList_printed] at hlayout
  exact ⟨placed, hlayout.tokenize_eq_ok, hsame⟩

end Token

open Token

/-- **Reading tokens undoes printing them.**  A text of lexable tokens with a space between them is
read as the same kinds and lexemes.  The tokens of every source text are lexable, so printing them
and reading the print gives the same kinds and lexemes again. -/
theorem tokenize_printed :
    (∀ tokens : List Token, (∀ t ∈ tokens, t.IsLexable) →
      ∃ placed, tokenize (printed tokens) = .ok placed ∧
        placed.map unplaced = tokens.map unplaced) ∧
    (∀ source tokens, tokenize source = .ok tokens → (∀ t ∈ tokens, t.IsLexable) ∧
      ∃ placed, tokenize (printed tokens) = .ok placed ∧
        placed.map unplaced = tokens.map unplaced) := by
  refine ⟨fun tokens h => exists_tokenize_printed h, fun source tokens h => ?_⟩
  have hlexable := (tokenize_eq_ok_iff.mp h).isLexable
  exact ⟨hlexable, exists_tokenize_printed hlexable⟩

/-- Neighbours that would run together without the space, and a string literal with a comment in
it; then a float that a comment ends. -/
theorem tokenize_printed_neighbours :
    let tokens : List Token := [⟨.add, "+", .none⟩, ⟨.increment, "++", .none⟩,
      ⟨.divide, "/", .none⟩, ⟨.divide, "/", .none⟩, ⟨.int, "1", .none⟩, ⟨.ifWord, "if", .none⟩,
      ⟨.identifier, "x", .none⟩, ⟨.string, "a\n//", .none⟩]
    let float : Token := ⟨.float, "1.", ⟨1, 1⟩⟩
    ((∀ t ∈ tokens, t.IsLexable) ∧ printed tokens = "+ ++ / / 1 if x \"a\n//\"" ∧
      ∃ placed, tokenize (printed tokens) = .ok placed ∧
        placed.map unplaced = tokens.map unplaced) ∧
    tokenize "1.//\n" = .ok [float] ∧ float.IsLexable := by
  intro tokens float
  have hstring : '"' ∉ "a\n//".toList := by decide
  have hlexable : ∀ t ∈ tokens, t.IsLexable := by
    simp only [tokens, List.forall_mem_cons]
    exact ⟨rfl, rfl, rfl, rfl, ⟨by decide, by decide⟩, rfl, ⟨by decide, by decide⟩, hstring,
      List.forall_mem_nil _⟩
  have hfloat : tokenize "1.//\n" = .ok [float] := by decide +kernel
  exact ⟨⟨hlexable, by decide +kernel, tokenize_printed.1 tokens hlexable⟩, hfloat,
    (tokenize_printed.2 _ _ hfloat).1 float List.mem_cons_self⟩

end Scrawl
