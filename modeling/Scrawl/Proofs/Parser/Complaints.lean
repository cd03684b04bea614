import Scrawl.Proofs.Parser.Progress

/-!
# Proofs/Parser/Complaints — what the parser can fail with

Every part of the parser fails with a complaint, or because its fuel ran out, if its scans have a
node for each name (`Parser.Correspondence.complaining`).  The fuel of a whole program does not run
out, so tokens that are no program are refused with a complaint (`failsOnly_parse`).
-/

namespace Scrawl

namespace Parser

/-- **Everything corresponds to itself**, errors if they are complaints or fuel that ran out, and
scans with a node for each name. -/
def Correspondence.complaining : Correspondence :=
  { equal with
    error := fun e e' => e = e' ∧ (e = .exhausted ∨ e.IsComplaint)
    scan := fun s s' => s = s' ∧ s.Named
    exhausted := ⟨rfl, .inl rfl⟩
    unmet := by rintro _ _ _ rfl; exact ⟨rfl, .inr trivial⟩
    misplaced := by rintro _ _ _ rfl; exact ⟨rfl, .inr trivial⟩
    empty := ⟨rfl, Scan.named_empty⟩
    depth_eq := by rintro _ _ ⟨rfl, -⟩; rfl
    operand := by
      rintro s _ t _ n _ ⟨rfl, hs⟩ rfl - rfl -
      exact ⟨⟨rfl, hs.operand t n⟩, rfl, hs.operand _ n⟩
    push := by
      rintro s _ t _ ⟨rfl, hs⟩ rfl hname
      exact .refl (fun e he => ⟨rfl, .inr (s.failsOnly_push t e he)⟩) fun _ hpush =>
        ⟨rfl, hs.push hname hpush⟩
    tree := by
      rintro s _ ⟨rfl, hs⟩
      exact .refl (fun e he => ⟨rfl, .inr (hs.failsOnly_tree e he)⟩) fun _ _ => rfl }

end Parser

/-- The fuel of a program does not run out. -/
theorem parse_ne_exhausted (tokens : List Token) : parse tokens ≠ .error .exhausted := by
  have hends := (Parser.programWith_ends (Parser.fuelFor (.ofTokens tokens)) (.ofTokens tokens) rfl
    (by rw [Parser.fuelFor]; omega)).ne_exhausted
  rw [parse, Parser.program, Parser.run_bind, Parser.run_fuelled]
  generalize (Parser.programWith (Parser.fuelFor (.ofTokens tokens))).run (.ofTokens tokens) = r
    at hends ⊢
  obtain ⟨e | ns, d⟩ := r
  · rintro ⟨⟩
    exact hends rfl
  · rintro ⟨⟩

/-- **Tokens that are no program are refused with a complaint.** -/
theorem failsOnly_parse (tokens : List Token) :
    FailsOnly ParseError.IsComplaint (parse tokens) := by
  intro e he
  have hne : e ≠ .exhausted := by
    rintro rfl
    exact parse_ne_exhausted tokens he
  have hprogram := Parser.Correspondence.complaining.program (c := .ofTokens tokens) rfl
  rw [show (Parser.program.run (.ofTokens tokens)).1 = .error e from he] at hprogram
  rcases hprogram with ⟨-, hout⟩ | ⟨hout, -⟩
  · exact absurd (Except.error.inj hout) hne
  · exact hout.2.resolve_left hne

end Scrawl
