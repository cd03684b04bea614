import Scrawl.Proofs.Parser.Progress

/-!
# Proofs/Parser/Reading — parsers on known tokens

`c.Reads ts d` says that the tokens `ts` stand between the places `c` and `d`.  Where the tokens
are known, what a parser settles in is found by going through its steps: one rule for each.
-/

namespace Scrawl

namespace Cursor

variable {c d : Cursor} {t : Token} {ts us : List Token}

/-- **Some tokens stand between two places.** -/
def Reads : Cursor → List Token → Cursor → Prop
  | c, [], d => c = d
  | c, t :: ts, d => c.rest.head? = some t ∧ c.next.Reads ts d

/-- Tokens one after the other stand one after the other. -/
theorem reads_append : ∀ {ts us : List Token} {c d : Cursor},
    c.Reads (ts ++ us) d ↔ ∃ m, c.Reads ts m ∧ m.Reads us d
  | [], us, c, d => by simp [Reads]
  | t :: ts, us, c, d => by simp [Reads, reads_append, and_assoc]

theorem peek_eq (h : c.rest.head? = some t) : c.peek = t := by
  rw [peek, ahead, ← List.head?_eq_getElem?, h]
  rfl

theorem isEmpty_rest (h : c.rest.head? = some t) : c.rest.isEmpty = false := by
  rw [List.isEmpty_eq_false_iff]
  rintro hnil
  rw [hnil] at h
  cases h

/-- The token behind the next one. -/
theorem ahead_one (c : Cursor) : c.ahead 1 = c.next.peek := by
  simp [peek, ahead, next]

/-- **The place in a list of tokens with some of them behind it.** -/
def behind (before rest : List Token) : Cursor := ⟨rest, before.length, finishOf (before ++ rest)⟩

/-- A cursor behind some tokens reads the next of them. -/
theorem reads_behind : ∀ before ts rest : List Token,
    (behind before (ts ++ rest)).Reads ts (behind (before ++ ts) rest)
  | before, [], rest => by simp [Reads]
  | before, t :: ts, rest => by
      refine ⟨rfl, ?_⟩
      have hnext :
          (behind before (t :: ts ++ rest)).next = behind (before ++ [t]) (ts ++ rest) := by
        simp [behind, next]
      have hsplit : before ++ t :: ts = before ++ [t] ++ ts := by simp
      rw [hnext, hsplit]
      exact reads_behind (before ++ [t]) ts rest

/-- The token that marks the end stands behind the last one. -/
theorem closed_behind (before rest : List Token) : (behind before rest).Closed := rfl

end Cursor

namespace Parser

variable {α β : Type} {c d : Cursor} {r : Except ParseError β × Cursor}

namespace Settles

theorem pure (a : α) (c : Cursor) : Settles (fun _ => (Pure.pure a : Parser α)) c (.ok a, c) :=
  .of_forall fun _ => rfl

/-- **A sequence settles part by part.** -/
theorem bind {p : ℕ → Parser α} {f : ℕ → α → Parser β} {a : α} (hp : Settles p c (.ok a, d))
    (hf : Settles (fun fuel => f fuel a) d r) : Settles (fun fuel => p fuel >>= f fuel) c r := by
  filter_upwards [hp, hf] with fuel hp hf
  rw [run_bind, hp]
  exact hf

/-- A part that takes no fuel. -/
theorem look {p : Parser α} {f : ℕ → α → Parser β} {a : α} (hp : p.run c = (.ok a, d))
    (hf : Settles (fun fuel => f fuel a) d r) : Settles (fun fuel => p >>= f fuel) c r :=
  bind (.of_forall fun _ => hp) hf

/-- A token of the kind asked for is taken, and the parser goes on with it. -/
theorem take {kind : Kind} {expectation : String} {f : ℕ → Token → Parser β} {t : Token}
    (hc : c.rest.head? = some t) (hk : t.kind = kind)
    (hf : Settles (fun fuel => f fuel t) c.next r) :
    Settles (fun fuel => consume kind expectation >>= f fuel) c r := by
  refine look ?_ hf
  rw [run_consume, Cursor.peek_eq hc, if_pos hk]

theorem advance {f : ℕ → Token → Parser β} {t : Token} (hc : c.rest.head? = some t)
    (hf : Settles (fun fuel => f fuel t) c.next r) :
    Settles (fun fuel => Parser.advance >>= f fuel) c r := by
  refine look ?_ hf
  rw [run_advance, Cursor.peek_eq hc, Cursor.isEmpty_rest hc]
  rfl

theorem ite_pos {b : Prop} [Decidable b] (hb : b) {p q : ℕ → Parser β} (h : Settles p c r) :
    Settles (fun fuel => if b then p fuel else q fuel) c r := by
  simpa only [if_pos hb] using h

theorem ite_neg {b : Prop} [Decidable b] (hb : ¬ b) {p q : ℕ → Parser β} (h : Settles q c r) :
    Settles (fun fuel => if b then p fuel else q fuel) c r := by
  simpa only [if_neg hb] using h

end Settles

end Parser

end Scrawl
