import Mathlib.Order.Filter.AtTopBot.Basic
import Scrawl.Proofs.Parser.Correspondence

/-!
# Proofs/Parser/Fuel — more fuel changes nothing

A parser that does not run out of fuel does the same with more of it (`steady`).  So a parser with
fuel has one outcome: `Parser.Settles p c r` says that `p` ends in `r` from some amount of fuel on,
and once an amount is known not to run out, `r` is the outcome with that amount
(`Settles.run_eq`).
-/

namespace Scrawl

namespace Parser

variable {α β : Type}

/-- **One parser does what another does** wherever that one does not run out of fuel. -/
def Extends (q p : Parser α) : Prop :=
  ∀ c, (p.run c).1 ≠ .error .exhausted → q.run c = p.run c

namespace Extends

theorem refl (p : Parser α) : Extends p p := fun _ _ => rfl

theorem bind {p q : Parser α} {f g : α → Parser β} (h : Extends q p)
    (hf : ∀ a, Extends (g a) (f a)) : Extends (q >>= g) (p >>= f) := by
  intro c hc
  rw [run_bind] at hc ⊢
  rw [run_bind]
  have hp : (p.run c).1 ≠ .error .exhausted := by
    intro he
    rw [show p.run c = (.error .exhausted, (p.run c).2) from Prod.ext he rfl] at hc
    exact hc rfl
  rw [h c hp]
  generalize p.run c = r at hc ⊢
  obtain ⟨e | a, d⟩ := r
  · rfl
  · exact hf a d hc

end Extends

/-! ## More fuel -/

open Correspondence (equal)

/-- **One unit of fuel more changes nothing**, whatever part of the parser has it. -/
theorem steady (fuel : Nat) : equal.Parts fuel (fuel + 1) :=
  equal.parts (.inr ⟨trivial, fuel.le_succ⟩)

theorem Extends.of_tracks {R : α → α → Prop} {p q : Parser α} (h : equal.Tracks R p q)
    (hR : ∀ ⦃a b⦄, R a b → a = b) : Extends q p := by
  intro c hc
  have hpq := (h rfl).resolve_left fun hp => hc hp.2
  generalize p.run c = r at hpq ⊢
  generalize q.run c = r' at hpq ⊢
  obtain ⟨x, d⟩ := r
  obtain ⟨y, d'⟩ := r'
  obtain ⟨hxy, hd⟩ := hpq
  obtain rfl : d = d' := hd
  obtain e | a := x <;> obtain e' | b := y
  · obtain rfl : e = e' := hxy
    rfl
  · exact hxy.elim
  · exact hxy.elim
  · rw [hR hxy]

theorem programWith_extends (fuel : Nat) : Extends (programWith (fuel + 1)) (programWith fuel) :=
  .of_tracks (equal.programWith (.inr ⟨trivial, fuel.le_succ⟩)) fun _ _ h =>
    (eq_of_forall₂ (fun _ _ h => h.1) h).1

/-! ## The outcome with enough fuel -/

/-- **A parser ends in one way from some amount of fuel on.** -/
def Settles (p : ℕ → Parser α) (c : Cursor) (r : Except ParseError α × Cursor) : Prop :=
  ∀ᶠ fuel in Filter.atTop, (p fuel).run c = r

/-- What is true of all larger amounts of fuel need only be shown of successors. -/
theorem Settles.succ {p : ℕ → Parser α} {c : Cursor} {r : Except ParseError α × Cursor}
    (h : Settles (fun fuel => p (fuel + 1)) c r) : Settles p c r := by
  rw [Settles, ← Filter.map_add_atTop_eq_nat 1, Filter.eventually_map]
  exact h

section Amount

variable {p : ℕ → Parser α} {c : Cursor} {fuel : ℕ}

/-- **A parser settles in what it does with an amount of fuel that does not run out.** -/
theorem Settles.of_run (hp : ∀ fuel, Extends (p (fuel + 1)) (p fuel))
    (hfuel : ((p fuel).run c).1 ≠ .error .exhausted) : Settles p c ((p fuel).run c) := by
  have hmore : ∀ k, (p (fuel + k)).run c = (p fuel).run c := by
    intro k
    induction k with
    | zero => rfl
    | succ k ih =>
      rw [← Nat.add_assoc, hp (fuel + k) c (ih ▸ hfuel), ih]
  filter_upwards [Filter.eventually_ge_atTop fuel] with bound hbound
  rw [← hmore (bound - fuel), Nat.add_sub_cancel' hbound]

/-- **An amount of fuel that does not run out gives the outcome.** -/
theorem Settles.run_eq {r : Except ParseError α × Cursor} (h : Settles p c r)
    (hp : ∀ fuel, Extends (p (fuel + 1)) (p fuel))
    (hfuel : ((p fuel).run c).1 ≠ .error .exhausted) : (p fuel).run c = r := by
  obtain ⟨bound, hrun, hr⟩ := ((Settles.of_run hp hfuel).and h).exists
  exact hrun.symm.trans hr

end Amount

end Parser

end Scrawl
