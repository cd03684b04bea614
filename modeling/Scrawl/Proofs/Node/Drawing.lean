import Scrawl.Node.Outline
import Scrawl.Proofs.Node.DocumentText

/-!
# Proofs/Node/Drawing — programs can be drawn

The outline of a node is its label over the outlines of its children (`Outline.ofNode_eq`), so a
drawing fails at a node without a label.  Of the nodes of a program only the literals could be
such, when their text is too long; but a literal was read within the digit limit, so it can be
written again.
-/

namespace Scrawl

open Decimal

/-- A value that has a text. -/
def Value.Writable (v : Value) : Prop := ∃ text, v.write = .ok text

/-- **What a literal stands for can be written.** -/
theorem Value.IsLiteral.writable {v : Value} (h : v.IsLiteral) : v.Writable := by
  obtain ⟨t, -, ht⟩ := h
  match v with
  | .int n =>
    have hlt := lt_tenPow_of_length_toDigits (t.length_toDigits_of_literal ht)
    exact ⟨toString n, by rw [write, writeInteger, if_pos hlt]⟩
  | .float _ | .string _ | .bool _ | .void => exact ⟨_, rfl⟩

/-! ## The outline by label and children -/

namespace Outline

variable {ns : List Node} {ts : List Outline}

theorem ofNodes_nil : ofNodes [] = Pure.pure [] := by rw [ofNodes]; rfl

theorem ofNodes_cons (n : Node) (ns : List Node) :
    ofNodes (n :: ns) = do return (← ofNode n) :: (← ofNodes ns) := by rw [ofNodes]

/-- Outlines of lists one after the other are made one after the other. -/
theorem ofNodes_append (ns ms : List Node) :
    ofNodes (ns ++ ms) = do return (← ofNodes ns) ++ (← ofNodes ms) := by
  induction ns with
  | nil => simp [ofNodes_nil]
  | cons n ns ih => simp [ofNodes_cons, ih]

/-- A part that may be missing adds one outline or none. -/
theorem ofOptional_eq (n : Node) : ofOptional n (ofNode n) = ofNodes n.optional := by
  rw [ofOptional, Node.optional]
  split
  · rw [ofNodes, ofNodes]
    rcases ofNode n with e | t <;> rfl
  · rw [ofNodes]

/-- **The outline of a node is its label over the outlines of its children.** -/
theorem ofNode_eq (n : Node) :
    ofNode n = do return .node (← n.label) (← ofNodes (← n.children)) := by
  have hchildren {cs : List Node} (h : n.children = .ok cs) :
      (do return .node (← n.label) (← ofNodes (← n.children)) : Except Fault Outline) =
        do return .node (← n.label) (← ofNodes cs) := by rw [h]; rfl
  cases n with
  | absent | value => rw [ofNode]; rfl
  | terminal content => rw [ofNode, hchildren rfl, ofNodes]; rfl
  | block statements => rw [ofNode, hchildren rfl]
  | «variable» name initializer isDefinition => rw [ofNode, hchildren rfl, ofOptional_eq]
  | function name parameters body isDefinition =>
    rw [ofNode, hchildren rfl, ofOptional_eq, ofNodes_append]
    simp only [bind_assoc, pure_bind]
  | unary operator operand =>
    rw [ofNode, hchildren rfl]
    simp only [ofNodes_cons, ofNodes_nil, bind_assoc, pure_bind]
  | binary operator left right =>
    rw [ofNode, hchildren rfl]
    simp only [ofNodes_cons, ofNodes_nil, bind_assoc, pure_bind]
  | choice condition whenTrue whenFalse =>
    rw [ofNode, hchildren rfl, ofOptional_eq]
    simp only [ofNodes_cons, bind_assoc, pure_bind]
  | whileLoop condition body =>
    rw [ofNode, hchildren rfl]
    simp only [ofNodes_cons, ofNodes_nil, bind_assoc, pure_bind]
  | forLoop initialization condition update body =>
    rw [ofNode, hchildren rfl]
    simp only [ofOptional_eq, ofNodes_append, bind_assoc, pure_bind]

/-- Outlines are made of a list when one is made of each node. -/
theorem ofNodes_eq_ok_iff :
    ofNodes ns = .ok ts ↔ List.Forall₂ (fun n t => ofNode n = .ok t) ns ts := by
  induction ns generalizing ts with
  | nil =>
    rw [ofNodes, List.forall₂_nil_left_iff]
    exact ⟨fun h => (Except.ok.inj h).symm, fun h => congrArg Except.ok h.symm⟩
  | cons n ns ih =>
    rw [ofNodes, List.forall₂_cons_left_iff]
    constructor
    · intro h
      obtain ⟨t, ht, h⟩ := exists_of_bind_eq_ok h
      obtain ⟨us, hus, h⟩ := exists_of_bind_eq_ok h
      exact ⟨t, us, ht, ih.mp hus, (Except.ok.inj h).symm⟩
    · rintro ⟨t, us, ht, hus, rfl⟩
      rw [ht, ih.mpr hus]
      rfl

/-- **An outline is a node's label over its children's outlines.** -/
theorem ofNode_eq_ok_iff {n : Node} {label : String} :
    ofNode n = .ok (.node label ts) ↔ n.label = .ok label ∧ ∃ cs, n.children = .ok cs ∧
      List.Forall₂ (fun c t => ofNode c = .ok t) cs ts := by
  rw [ofNode_eq]
  constructor
  · intro h
    obtain ⟨l, hl, h⟩ := exists_of_bind_eq_ok h
    obtain ⟨cs, hcs, h⟩ := exists_of_bind_eq_ok h
    obtain ⟨us, hus, h⟩ := exists_of_bind_eq_ok h
    obtain ⟨rfl, rfl⟩ := Outline.node.inj (Except.ok.inj h)
    exact ⟨hl, cs, hcs, ofNodes_eq_ok_iff.mp hus⟩
  · rintro ⟨hl, cs, hcs, hts⟩
    rw [hl, hcs]
    change (ofNodes cs >>= fun ts => Pure.pure (Outline.node label ts)) = _
    rw [ofNodes_eq_ok_iff.mpr hts]
    rfl

end Outline

namespace Node

/-- **A node that can be drawn.** -/
def Drawable (n : Node) : Prop := ∃ t, Outline.ofNode n = .ok t

/-- Nodes that can each be drawn can all be. -/
theorem Drawable.all : ∀ {ns : List Node}, (∀ n ∈ ns, n.Drawable) →
    ∃ ts, Outline.ofNodes ns = .ok ts
  | [], _ => ⟨[], by rw [Outline.ofNodes]⟩
  | n :: ns, h => by
      obtain ⟨⟨t, ht⟩, hns⟩ := List.forall_mem_cons.mp h
      obtain ⟨ts, hts⟩ := Drawable.all hns
      exact ⟨t :: ts, by rw [Outline.ofNodes, ht, hts]; rfl⟩

/-- What an optional part holds is the node itself, and it is there. -/
theorem of_mem_optional {c n : Node} (h : c ∈ n.optional) : c = n ∧ n ≠ .absent := by
  cases n with
  | absent => cases h
  | _ => exact ⟨List.mem_singleton.mp h, by rintro ⟨⟩⟩

/-- **A node can be drawn when it has a label and its children can be drawn.** -/
theorem drawable_of_children {n : Node} {label : String} {cs : List Node}
    (hlabel : n.label = .ok label) (hchildren : n.children = .ok cs)
    (h : ∀ c ∈ cs, c.Drawable) : n.Drawable := by
  obtain ⟨ts, hts⟩ := Drawable.all h
  exact ⟨.node label ts, Outline.ofNode_eq_ok_iff.mpr
    ⟨hlabel, cs, hchildren, Outline.ofNodes_eq_ok_iff.mp hts⟩⟩

/-- A literal is labelled by its text, or by its sort where the text is empty. -/
theorem label_literal {v : Value} (h : ∀ s, v ≠ .string s) :
    (literal v).label =
      (Fault.ofNumber v.write).map fun text => if text = "" then v.sort.name else text := by
  rw [literal, label]
  exact h

/-- A value that has a text has a label. -/
theorem exists_label_literal {v : Value} (h : v.Writable) :
    ∃ label, (literal v).label = .ok label := by
  obtain ⟨text, htext⟩ := h
  by_cases hs : ∃ s, v = .string s
  · obtain ⟨s, rfl⟩ := hs
    exact ⟨_, rfl⟩
  · rw [label_literal fun s hv => hs ⟨s, hv⟩, htext]
    exact ⟨_, rfl⟩

/-- A literal is drawable when its value has a text. -/
theorem drawable_literal {v : Value} (h : v.Writable) : (literal v).Drawable := by
  obtain ⟨label, hlabel⟩ := exists_label_literal h
  exact drawable_of_children hlabel rfl (List.forall_mem_nil _)

theorem drawable_reference (name : String) : (reference name).Drawable :=
  drawable_of_children rfl rfl (List.forall_mem_nil _)

theorem drawable_block {ns : List Node} (h : ∀ n ∈ ns, n.Drawable) : (block ns).Drawable :=
  drawable_of_children rfl rfl h

theorem drawable_unary (operator : Token) {operand : Node} (h : operand.Drawable) :
    (unary operator operand).Drawable :=
  drawable_of_children rfl rfl (by simpa using h)

theorem drawable_binary (operator : Token) {left right : Node} (hl : left.Drawable)
    (hr : right.Drawable) : (binary operator left right).Drawable :=
  drawable_of_children rfl rfl (by simpa using ⟨hl, hr⟩)

theorem drawable_variable (name : String) {initializer : Node} (h : initializer.Drawable) :
    (Node.variable name initializer true).Drawable := by
  refine drawable_of_children rfl rfl fun c hc => ?_
  obtain ⟨rfl, -⟩ := of_mem_optional hc
  exact h

/-- A function is drawable where its parameters are, and its body if it has one. -/
theorem drawable_function (name : String) {parameters : List Node} {body : Node}
    (isDefinition : Bool) (hp : ∀ p ∈ parameters, p.Drawable)
    (hb : body ≠ .absent → body.Drawable) :
    (function name parameters body isDefinition).Drawable := by
  refine drawable_of_children rfl rfl (List.forall_mem_append.mpr ⟨hp, fun c hc => ?_⟩)
  obtain ⟨rfl, hpresent⟩ := of_mem_optional hc
  exact hb hpresent

theorem drawable_choice {condition whenTrue whenFalse : Node} (hc : condition.Drawable)
    (ht : whenTrue.Drawable) (hf : whenFalse ≠ .absent → whenFalse.Drawable) :
    (choice condition whenTrue whenFalse).Drawable := by
  refine drawable_of_children rfl rfl (List.forall_mem_cons.mpr ⟨hc,
    List.forall_mem_cons.mpr ⟨ht, fun c hc => ?_⟩⟩)
  obtain ⟨rfl, hpresent⟩ := of_mem_optional hc
  exact hf hpresent

variable {n : Node}

/-- **An expression can be drawn** when its literals have texts. -/
theorem IsExpression.drawable (h : n.IsExpression Value.Writable) : n.Drawable := by
  induction h with
  | literal h => exact drawable_literal h
  | reference name => exact drawable_reference name
  | call name _ ih => exact drawable_function name false ih fun ha => absurd rfl ha
  | unary _ _ ih => exact drawable_unary _ ih
  | binary _ _ _ ihl ihr => exact drawable_binary _ ihl ihr

/-- …and so can a statement. -/
theorem IsStatement.drawable (h : n.IsStatement Value.Writable) : n.Drawable := by
  induction h with
  | expression h => exact h.drawable
  | declaration name => exact drawable_variable name (drawable_reference name)
  | definition name _ h =>
    exact drawable_variable name (drawable_binary _ (drawable_reference name) h.drawable)
  | function name hp _ ih =>
    refine drawable_function name true (fun p hmem => ?_) fun _ => drawable_block ih
    obtain ⟨x, rfl⟩ := hp p hmem
    exact drawable_reference x
  | returnVoid _ => exact drawable_unary _ (drawable_literal ⟨"", rfl⟩)
  | returnValue _ h => exact drawable_unary _ h.drawable
  | choice hc _ ih => exact drawable_choice hc.drawable (drawable_block ih) fun ha => absurd rfl ha
  | choiceElse hc _ _ iht ihf =>
    exact drawable_choice hc.drawable (drawable_block iht) fun _ => drawable_block ihf
  | choiceChain hc _ _ iht ihf =>
    exact drawable_choice hc.drawable (drawable_block iht) fun _ => ihf
  | whileLoop hc _ ih =>
    exact drawable_of_children rfl rfl (by simpa using ⟨hc.drawable, drawable_block ih⟩)
  | forLoop _ hc hu _ ihi ih =>
    refine drawable_of_children rfl rfl ?_
    simp only [List.forall_mem_append]
    refine ⟨⟨⟨fun c h => ?_, fun c h => ?_⟩, fun c h => ?_⟩, fun c h => ?_⟩ <;>
      obtain ⟨rfl, hpresent⟩ := of_mem_optional h
    · exact ihi hpresent
    · exact (hc hpresent).drawable
    · exact (hu hpresent).drawable
    · exact drawable_block ih

theorem IsProgram.drawable (h : n.IsProgram Value.IsLiteral) : n.Drawable := by
  obtain ⟨hs⟩ := h
  exact drawable_block fun n hn => ((hs n hn).mono fun _ => Value.IsLiteral.writable).drawable

/-- **Every program can be drawn.** -/
theorem IsProgram.exists_draw (h : n.IsProgram Value.IsLiteral) :
    ∃ drawing, n.draw = .ok drawing := by
  obtain ⟨t, ht⟩ := h.drawable
  exact ⟨t.draw, by rw [draw, ht]; rfl⟩

end Node

end Scrawl
