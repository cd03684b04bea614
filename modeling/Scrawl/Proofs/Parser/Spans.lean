import Scrawl.Proofs.Parser.Reading

/-!
# Proofs/Parser/Spans — the tokens of a success

`Spans p c Q` says of every success of a parser at a place what tokens lie between the place and
its end.  A sequence spans what its parts span, one behind the other, so that the tokens of a whole
phrase are known from one rule for each small parser.
-/

namespace Scrawl

namespace Cursor

variable {c d : Cursor} {t : Token} {ts : List Token}

/-- Reading tokens does not pass the end. -/
theorem Reads.closed (h : c.Reads ts d) (hc : c.Closed) : d.Closed := by
  induction ts generalizing c with
  | nil => exact h ▸ hc
  | cons t ts ih => exact ih h.2 hc

/-- The next token, unless the input ends there. -/
theorem head?_rest (hc : c.Closed) (h : c.peek.kind ≠ .endFile) : c.rest.head? = some c.peek := by
  obtain ⟨t, rest, hrest⟩ := List.exists_cons_of_ne_nil (rest_ne_nil hc h)
  have ht : c.rest.head? = some t := by rw [hrest]; rfl
  rw [ht, peek_eq ht]

theorem ofTokens_eq_behind (tokens : List Token) : ofTokens tokens = behind [] tokens := rfl

/-- What lies behind the tokens read is the rest of the list. -/
theorem exists_behind_of_reads {before tokens : List Token}
    (h : (behind before tokens).Reads ts d) :
    ∃ rest, tokens = ts ++ rest ∧ d = behind (before ++ ts) rest := by
  induction ts generalizing before tokens with
  | nil => exact ⟨tokens, rfl, by rw [List.append_nil]; exact h.symm⟩
  | cons t ts ih =>
    obtain ⟨hhead, hreads⟩ := h
    obtain ⟨rest, rfl⟩ : ∃ rest, tokens = t :: rest := List.head?_eq_some_iff.mp hhead
    have hnext : (behind before (t :: rest)).next = behind (before ++ [t]) rest := by
      simp [behind, next]
    obtain ⟨rest', rfl, rfl⟩ := ih (hnext ▸ hreads)
    exact ⟨rest', rfl, by simp⟩

end Cursor

namespace Parser

variable {α β : Type}

/-- **Every success of a parser at a place spans tokens of a class**, which may depend on the result
and on the end. -/
def Spans (p : Parser α) (c : Cursor) (Q : α → List Token → Cursor → Prop) : Prop :=
  ∀ a d, p.run c = (.ok a, d) → ∃ ts, c.Reads ts d ∧ Q a ts d

namespace Spans

variable {c : Cursor} {P : α → List Token → Cursor → Prop} {Q : β → List Token → Cursor → Prop}

theorem pure {a : α} (h : P a [] c) : Spans (Pure.pure a) c P := by
  rintro _ _ ⟨⟩
  exact ⟨[], rfl, h⟩

theorem throw (e : ParseError) : Spans (throw e) c P := by rintro _ _ ⟨⟩

theorem complain (text : String) : Spans (complain text) c P := by rintro _ _ ⟨⟩

theorem throw_bind (e : ParseError) (f : α → Parser β) : Spans (MonadExcept.throw e >>= f) c Q := by
  rintro _ _ ⟨⟩

theorem complain_bind (text : String) (f : α → Parser β) :
    Spans (Parser.complain text >>= f) c Q := by
  rintro _ _ ⟨⟩

/-- A class may be widened, and may use which tokens were read. -/
theorem mono {P' : α → List Token → Cursor → Prop} {p : Parser α} (hp : Spans p c P)
    (h : ∀ a ts d, c.Reads ts d → P a ts d → P' a ts d) : Spans p c P' := by
  intro a d hr
  obtain ⟨ts, hts, hP⟩ := hp a d hr
  exact ⟨ts, hts, h a ts d hts hP⟩

/-- **A sequence spans what its parts span.** -/
theorem bind {p : Parser α} {f : α → Parser β} (hc : c.Closed) (hp : Spans p c P)
    (hf : ∀ a ts d, d.Closed → P a ts d → Spans (f a) d fun b us e => Q b (ts ++ us) e) :
    Spans (p >>= f) c Q := by
  intro b e hr
  rw [run_bind] at hr
  generalize hrun : p.run c = r at hr
  obtain ⟨_ | a, d⟩ := r
  · cases hr
  obtain ⟨ts, hts, hP⟩ := hp a d hrun
  obtain ⟨us, hus, hQ⟩ := hf a ts d (hts.closed hc) hP b e hr
  exact ⟨ts ++ us, Cursor.reads_append.mpr ⟨d, hts, hus⟩, hQ⟩

theorem ite {b : Prop} [Decidable b] {p q : Parser α} (hp : b → Spans p c P)
    (hq : ¬ b → Spans q c P) : Spans (if b then p else q) c P := by
  split
  · exact hp ‹b›
  · exact hq ‹¬ b›

/-- Looking at the tokens spans none. -/
theorem look {p : Parser α} {a : α} (hp : p.run c = (.ok a, c)) {f : α → Parser β}
    (hf : Spans (f a) c Q) : Spans (p >>= f) c Q := by
  intro b e hr
  rw [run_bind, hp] at hr
  exact hf b e hr

/-- A token taken in front of the rest. -/
theorem take (hc : c.Closed) {kind : Kind} (hk : kind ≠ .endFile) {expectation : String}
    {f : Token → Parser β}
    (hf : ∀ t d, d.Closed → t.kind = kind → Spans (f t) d fun b us e => Q b (t :: us) e) :
    Spans (Parser.consume kind expectation >>= f) c Q := by
  refine bind (P := fun t ts _ => ts = [t] ∧ t.kind = kind) hc ?_ ?_
  · intro t d hr
    rw [run_consume] at hr
    split at hr
    case isFalse => cases hr
    case isTrue hkind =>
      cases hr
      exact ⟨[c.peek], ⟨Cursor.head?_rest hc (hkind ▸ hk), rfl⟩, rfl, hkind⟩
  · rintro t _ d hd ⟨rfl, ht⟩
    exact hf t d hd ht

/-- A token taken is the first of those spanned. -/
theorem advance (hc : c.Closed) (h : c.peek.kind ≠ .endFile) {f : Token → Parser β}
    (hf : Spans (f c.peek) c.next fun b us e => Q b (c.peek :: us) e) :
    Spans (Parser.advance >>= f) c Q := by
  have hhead := Cursor.head?_rest hc h
  intro b e hr
  rw [run_bind, run_advance, Cursor.isEmpty_rest hhead] at hr
  obtain ⟨us, hus, hQ⟩ := hf b e hr
  exact ⟨c.peek :: us, ⟨hhead, hus⟩, hQ⟩

/-- A result computed elsewhere spans nothing. -/
theorem ofExcept {x : Except ParseError α} (h : ∀ a, x = .ok a → P a [] c) :
    Spans (ofExcept x) c P := by
  intro a d hr
  rw [run_ofExcept] at hr
  obtain ⟨rfl, rfl⟩ := Prod.mk.inj hr
  exact ⟨[], rfl, h a rfl⟩

/-- An expression that must be there spans what one that may be missing does. -/
theorem require {p : Parser Node} {P : Node → List Token → Cursor → Prop} (hp : Spans p c P)
    (hc : c.Closed) (text : String) : Spans (requireFrom p text) c P := by
  refine bind hc hp fun n ts d _ hn => ite (fun _ => pure ?_) fun _ => complain_bind _ _
  rwa [List.append_nil]

end Spans

end Parser

end Scrawl
