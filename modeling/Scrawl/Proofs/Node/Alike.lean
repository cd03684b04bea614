import Mathlib.Data.List.Forall2
import Scrawl.Machine.Run

/-!
# Proofs/Node/Alike — trees that do the same

Two expressions are **alike** when they differ only in names, and related names stand in the same
places.  Statements may also differ in what has no effect: inside of a function, a `return` that is
not among the statements of the body itself does nothing, and may be there on one side only.  Of a
body, nothing behind its first `return` matters.

Which names are related is a parameter `ν`, and so is which definitions of functions are, `D`.
-/

namespace Scrawl

namespace Node

variable (ν : String → String → Prop)

mutual

/-- **Expressions with related names**, or none on both sides. -/
inductive AlikeExpression : Node → Node → Prop
  | absent : AlikeExpression .absent .absent
  | literal (v : Value) : AlikeExpression (.literal v) (.literal v)
  | reference {x y : String} (hx : ν x y) : AlikeExpression (.reference x) (.reference y)
  | call {x y : String} {as bs : List Node} (hx : ν x y) (ha : AlikeExpressions as bs) :
      AlikeExpression (.call x as) (.call y bs)
  | unary (operator : Token) {e e' : Node} (h : AlikeExpression e e') :
      AlikeExpression (.unary operator e) (.unary operator e')
  | binary (operator : Token) {l r l' r' : Node} (hl : AlikeExpression l l')
      (hr : AlikeExpression r r') :
      AlikeExpression (.binary operator l r) (.binary operator l' r')

/-- …one by one. -/
inductive AlikeExpressions : List Node → List Node → Prop
  | nil : AlikeExpressions [] []
  | cons {e e' : Node} {es es' : List Node} (h : AlikeExpression e e')
      (hs : AlikeExpressions es es') : AlikeExpressions (e :: es) (e' :: es')

end

variable (D : Definition → Definition → Prop) (inside : Prop)

mutual

/-- **Statements that do the same**, inside of a function or outside of all. -/
inductive Alike : Node → Node → Prop
  | expression {e e' : Node} (h : AlikeExpression ν e e') : Alike e e'
  | definition {x y : String} {i i' : Node} (hx : ν x y)
      (hi : Option.Rel (AlikeExpression ν) i.assigned? i'.assigned?) :
      Alike (.variable x i true) (.variable y i' true)
  | function {x y : String} {ps ps' : List Node} {b b' : Node} (hx : ν x y)
      (hd : D ⟨ps, b⟩ ⟨ps', b'⟩) : Alike (.function x ps b true) (.function y ps' b' true)
  | block {ns ns' : List Node} (h : AlikeAll ns ns') : Alike (.block ns) (.block ns')
  | choice {c t f c' t' f' : Node} (hc : AlikeExpression ν c c') (ht : Alike t t')
      (hf : Alike f f') : Alike (.choice c t f) (.choice c' t' f')
  | whileLoop {c b c' b' : Node} (hc : AlikeExpression ν c c') (hb : Alike b b') :
      Alike (.whileLoop c b) (.whileLoop c' b')
  | forLoop {i c u b i' c' u' b' : Node} (hi : Alike i i') (hc : AlikeExpression ν c c')
      (hu : AlikeExpression ν u u') (hb : Alike b b') :
      Alike (.forLoop i c u b) (.forLoop i' c' u' b')
  | dropped {n : Node} (h : inside) (hn : n.isReturn) : Alike n .absent
  | added {n : Node} (h : inside) (hn : n.isReturn) : Alike .absent n

/-- …in turn. -/
inductive AlikeAll : List Node → List Node → Prop
  | nil : AlikeAll [] []
  | cons {n n' : Node} {ns ns' : List Node} (h : Alike n n') (hs : AlikeAll ns ns') :
      AlikeAll (n :: ns) (n' :: ns')
  | dropped {n : Node} {ns ns' : List Node} (h : inside) (hn : n.isReturn)
      (hs : AlikeAll ns ns') : AlikeAll (n :: ns) ns'
  | added {n : Node} {ns ns' : List Node} (h : inside) (hn : n.isReturn)
      (hs : AlikeAll ns ns') : AlikeAll ns (n :: ns')

end

/-- **Bodies of functions that do the same**: up to the first `return`, and there. -/
inductive AlikeBody : List Node → List Node → Prop
  | nil : AlikeBody [] []
  | returned {operator : Token} {e e' : Node} (ns ns' : List Node)
      (hk : operator.kind = .returnWord) (h : AlikeExpression ν e e') :
      AlikeBody (.unary operator e :: ns) (.unary operator e' :: ns')
  | cons {n n' : Node} {ns ns' : List Node} (hn : n.isReturn = false) (hn' : n'.isReturn = false)
      (h : Alike ν D True n n') (hs : AlikeBody ns ns') : AlikeBody (n :: ns) (n' :: ns')

end Node

/-- **Functions that do the same**: with related names for parameters, and alike bodies. -/
structure Definition.Alike (ν : String → String → Prop) (D : Definition → Definition → Prop)
    (d d' : Definition) : Prop where
  parameters : List.Forall₂ (fun p p' => ∃ x y, ν x y ∧ p = .reference x ∧ p' = .reference y)
    d.parameters d'.parameters
  body : ∃ ns ns', d.body = .block ns ∧ d'.body = .block ns' ∧ Node.AlikeBody ν D ns ns'

variable {ν : String → String → Prop} {D : Definition → Definition → Prop} {inside : Prop}

namespace Node

/-- Alike expressions both name a variable, by related names, or neither does. -/
theorem AlikeExpression.referenced? {e e' : Node} (h : AlikeExpression ν e e') :
    Option.Rel ν e.referenced? e'.referenced? := by
  cases h with
  | reference hx => exact .some hx
  | absent | literal _ | call _ _ | unary _ _ | binary _ _ _ => exact .none

/-- Where an expression may stand or nothing. -/
theorem AlikeExpression.of_ne {f : Node → Node} (hf : f .absent = .absent) {e : Node}
    (h : e ≠ .absent → AlikeExpression ν e (f e)) : AlikeExpression ν e (f e) := by
  by_cases ha : e = .absent
  · rw [ha, hf]
    exact .absent
  · exact h ha

/-- What is alike to its image one by one is so as a list. -/
theorem AlikeExpressions.of_map {f : Node → Node} {es : List Node}
    (h : ∀ e ∈ es, AlikeExpression ν e (f e)) : AlikeExpressions ν es (es.map f) := by
  induction es with
  | nil => exact .nil
  | cons e es ih =>
    obtain ⟨he, hes⟩ := List.forall_mem_cons.mp h
    exact .cons he (ih hes)

theorem AlikeAll.of_map {f : Node → Node} {ns : List Node}
    (h : ∀ n ∈ ns, Alike ν D inside n (f n)) : AlikeAll ν D inside ns (ns.map f) := by
  induction ns with
  | nil => exact .nil
  | cons n ns ih =>
    obtain ⟨hn, hns⟩ := List.forall_mem_cons.mp h
    exact .cons hn (ih hns)

/-! ## The other way round -/

mutual

/-- **Likeness goes both ways**, with the names the other way round. -/
theorem AlikeExpression.flip : ∀ {e e' : Node}, AlikeExpression ν e e' →
    AlikeExpression (flip ν) e' e
  | _, _, .absent => .absent
  | _, _, .literal v => .literal v
  | _, _, .reference hx => .reference hx
  | _, _, .call hx ha => .call hx ha.flip
  | _, _, .unary operator h => .unary operator h.flip
  | _, _, .binary operator hl hr => .binary operator hl.flip hr.flip

theorem AlikeExpressions.flip : ∀ {es es' : List Node}, AlikeExpressions ν es es' →
    AlikeExpressions (flip ν) es' es
  | _, _, .nil => .nil
  | _, _, .cons h hs => .cons h.flip hs.flip

end

mutual

/-- A `return` dropped on one side is one added on the other. -/
theorem Alike.flip : ∀ {n n' : Node}, Alike ν D inside n n' →
    Alike (flip ν) (flip D) inside n' n
  | _, _, .expression h => .expression h.flip
  | _, _, .definition hx hi => by
      refine .definition hx ?_
      generalize Node.assigned? _ = right at hi ⊢
      generalize Node.assigned? _ = right' at hi ⊢
      cases hi with
      | none => exact .none
      | some h => exact .some h.flip
  | _, _, .function hx hd => .function hx hd
  | _, _, .block h => .block h.flip
  | _, _, .choice hc ht hf => .choice hc.flip ht.flip hf.flip
  | _, _, .whileLoop hc hb => .whileLoop hc.flip hb.flip
  | _, _, .forLoop hi hc hu hb => .forLoop hi.flip hc.flip hu.flip hb.flip
  | _, _, .dropped h hn => .added h hn
  | _, _, .added h hn => .dropped h hn

theorem AlikeAll.flip : ∀ {ns ns' : List Node}, AlikeAll ν D inside ns ns' →
    AlikeAll (flip ν) (flip D) inside ns' ns
  | _, _, .nil => .nil
  | _, _, .cons h hs => .cons h.flip hs.flip
  | _, _, .dropped h hn hs => .added h hn hs.flip
  | _, _, .added h hn hs => .dropped h hn hs.flip

end

/-- Bodies are alike the other way round: the first `return` stands in both. -/
theorem AlikeBody.flip {ns ns' : List Node} (h : AlikeBody ν D ns ns') :
    AlikeBody (flip ν) (flip D) ns' ns := by
  induction h with
  | nil => exact .nil
  | returned ns ns' hk h => exact .returned ns' ns hk h.flip
  | cons hn hn' h _ ih => exact .cons hn' hn h.flip ih

end Node

theorem Definition.Alike.flip {d d' : Definition} (h : d.Alike ν D d') :
    Definition.Alike (flip ν) (flip D) d' d where
  parameters := by
    refine h.parameters.flip.imp ?_
    rintro _ _ ⟨x, y, hx, hp, hp'⟩
    exact ⟨y, x, hx, hp', hp⟩
  body := by
    obtain ⟨ns, ns', hns, hns', hbody⟩ := h.body
    exact ⟨ns', ns, hns', hns, hbody.flip⟩

end Scrawl
