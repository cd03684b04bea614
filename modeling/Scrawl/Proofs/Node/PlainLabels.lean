import Mathlib.Logic.Relation
import Scrawl.Proofs.Node.Decoding
import Scrawl.Proofs.Node.Drawing
import Scrawl.Proofs.Parser.Lexemes
import Scrawl.Proofs.Parser.Trees
import Scrawl.Proofs.Token.Layout

/-!
# Proofs/Node/PlainLabels — what a drawing tells of a tree

A tree whose nodes all have plain labels can be drawn, and its drawing gives back the labels and the
children of every node (`drawing_determines_tree`).  The trees of programs are of this kind unless a
string literal has a line break in it: names, operators and the texts of numbers consist of **ink**,
characters that neither break a line nor start a branch.
-/

namespace Scrawl

open Decimal Lexer Text

/-! ## The nodes of a tree -/

theorem exists_mem_of_forall₂ {α β : Type} {R : α → β → Prop} {as : List α} {bs : List β}
    (h : List.Forall₂ R as bs) {b : β} (hb : b ∈ bs) : ∃ a ∈ as, R a b := by
  induction h with
  | nil => cases hb
  | cons hab _ ih =>
    rcases List.mem_cons.mp hb with rfl | hb
    · exact ⟨_, List.mem_cons_self, hab⟩
    · obtain ⟨a, ha, hab⟩ := ih hb
      exact ⟨a, List.mem_cons_of_mem _ ha, hab⟩

namespace Node

variable {n c m : Node}

/-- A node is among the children of another. -/
def HasChild (n c : Node) : Prop := ∃ cs, n.children = .ok cs ∧ c ∈ cs

/-- **A node is in a tree**, at its root or below. -/
def Contains (n m : Node) : Prop := Relation.ReflTransGen HasChild n m

/-- **Every node of a tree has a label, and a plain one.** -/
def HasPlainLabels (n : Node) : Prop :=
  ∀ m, n.Contains m → ∃ label, m.label = .ok label ∧ Outline.IsPlainLabel label

theorem sizeOf_of_mem_optional (h : c ∈ n.optional) : sizeOf c = sizeOf n := by
  rw [(of_mem_optional h).1]

/-- Children are smaller. -/
theorem HasChild.sizeOf_lt (h : n.HasChild c) : sizeOf c < sizeOf n := by
  obtain ⟨cs, hcs, hc⟩ := h
  cases n with
  | absent | value => cases hcs
  | terminal =>
    obtain rfl := Except.ok.inj hcs
    cases hc
  | _ =>
    obtain rfl := Except.ok.inj hcs
    grind [→ List.sizeOf_lt_of_mem, sizeOf_of_mem_optional, block.sizeOf_spec,
      «variable».sizeOf_spec, function.sizeOf_spec, unary.sizeOf_spec, binary.sizeOf_spec,
      choice.sizeOf_spec, whileLoop.sizeOf_spec, forLoop.sizeOf_spec]

/-- **Induction over a tree by its children.** -/
@[elab_as_elim] theorem childInduction {P : Node → Prop}
    (step : ∀ n, (∀ c, n.HasChild c → P c) → P n) (n : Node) : P n :=
  (measure (sizeOf (α := Node))).wf.induction n fun n ih => step n fun c hc => ih c hc.sizeOf_lt

/-- A node with a label has children, if only none. -/
theorem exists_children_of_label {label : String} (h : n.label = .ok label) :
    ∃ cs, n.children = .ok cs := by
  cases n with
  | absent | value => cases h
  | _ => exact ⟨_, rfl⟩

/-- **A tree can be drawn when all its nodes have labels.** -/
theorem drawable_of_labels (n : Node)
    (h : ∀ m, n.Contains m → ∃ label, m.label = .ok label) : n.Drawable := by
  induction n using childInduction with
  | step n ih =>
    obtain ⟨label, hlabel⟩ := h n .refl
    obtain ⟨cs, hcs⟩ := exists_children_of_label hlabel
    refine drawable_of_children hlabel hcs fun c hc => ?_
    have hchild : n.HasChild c := ⟨cs, hcs, hc⟩
    exact ih c hchild fun m hm => h m (hm.head hchild)

/-- What stands in a tree that can be drawn can be drawn. -/
theorem Drawable.of_contains (h : n.Drawable) (hm : n.Contains m) : m.Drawable := by
  induction hm with
  | refl => exact h
  | tail _ hchild ih =>
    obtain ⟨⟨label, ts⟩, ht⟩ := ih
    obtain ⟨-, cs, hcs, hts⟩ := Outline.ofNode_eq_ok_iff.mp ht
    obtain ⟨ds, hds, hc⟩ := hchild
    obtain rfl : cs = ds := Except.ok.inj (hcs.symm.trans hds)
    obtain ⟨u, -, hu⟩ := exists_mem_of_forall₂ hts.flip hc
    exact ⟨u, hu⟩

/-- Every label of the outline is the label of a node. -/
theorem exists_of_mem_labels {t : Outline} (ht : Outline.ofNode n = .ok t) {label : String}
    (h : label ∈ t.labels) : ∃ m, n.Contains m ∧ m.label = .ok label := by
  induction t using Outline.induction generalizing n with
  | node l ts ih =>
    obtain ⟨hl, cs, hcs, hts⟩ := Outline.ofNode_eq_ok_iff.mp ht
    rw [Outline.labels, List.mem_cons] at h
    rcases h with rfl | h
    · exact ⟨n, .refl, hl⟩
    · obtain ⟨u, hu, h⟩ := Outline.mem_labelsBelow.mp h
      obtain ⟨c, hc, hcu⟩ := exists_mem_of_forall₂ hts hu
      obtain ⟨m, hm, hlabel⟩ := ih u hu hcu h
      exact ⟨m, hm.head ⟨cs, hcs, hc⟩, hlabel⟩

/-- …and every label of a node is in the outline. -/
theorem mem_labels_of_contains {t : Outline} (ht : Outline.ofNode n = .ok t) (hm : n.Contains m)
    {label : String} (h : m.label = .ok label) : label ∈ t.labels := by
  induction hm using Relation.ReflTransGen.head_induction_on generalizing t with
  | refl =>
    obtain ⟨l, ts⟩ := t
    obtain rfl : label = l :=
      Except.ok.inj (h.symm.trans (Outline.ofNode_eq_ok_iff.mp ht).1)
    rw [Outline.labels]
    exact List.mem_cons_self
  | head hchild _ ih =>
    obtain ⟨l, ts⟩ := t
    obtain ⟨-, cs, hcs, hts⟩ := Outline.ofNode_eq_ok_iff.mp ht
    obtain ⟨ds, hds, hc⟩ := hchild
    obtain rfl : cs = ds := Except.ok.inj (hcs.symm.trans hds)
    obtain ⟨u, hu, hcu⟩ := exists_mem_of_forall₂ hts.flip hc
    rw [Outline.labels]
    exact List.mem_cons_of_mem _ (Outline.mem_labelsBelow.mpr ⟨u, hu, ih hcu⟩)

/-- **A tree has plain labels exactly if it can be drawn and its outline has plain labels.** -/
theorem hasPlainLabels_iff : n.HasPlainLabels ↔ ∃ t, Outline.ofNode n = .ok t ∧ t.IsPlain := by
  constructor
  · intro h
    obtain ⟨t, ht⟩ := drawable_of_labels n fun m hm => (h m hm).imp fun _ => And.left
    refine ⟨t, ht, fun label hlabel => ?_⟩
    obtain ⟨m, hm, hl⟩ := exists_of_mem_labels ht hlabel
    obtain ⟨l, hl', hplain⟩ := h m hm
    exact Except.ok.inj (hl'.symm.trans hl) ▸ hplain
  · rintro ⟨t, ht, hplain⟩ m hm
    obtain ⟨⟨label, ts⟩, hmt⟩ := Drawable.of_contains ⟨t, ht⟩ hm
    have hlabel : m.label = .ok label := (Outline.ofNode_eq_ok_iff.mp hmt).1
    exact ⟨label, hlabel, hplain label (mem_labels_of_contains ht hm hlabel)⟩

end Node

/-! ## Ink -/

namespace Outline

/-- **A text of ink**: no character of it breaks a line or starts a branch. -/
def IsInk (text : List Char) : Prop := ∀ c ∈ text, c ∉ '\n' :: branchStarts

instance decidableIsInk (text : List Char) : Decidable (IsInk text) :=
  inferInstanceAs (Decidable (∀ c ∈ text, c ∉ '\n' :: branchStarts))

variable {text : List Char} {label front back : String}

/-- Characters of a class that has neither a line break nor a branch are ink. -/
theorem isInk_of_forall {p : Char → Bool} (hp : ∀ c ∈ '\n' :: branchStarts, ¬ p c)
    (h : ∀ c ∈ text, p c) : IsInk text :=
  fun c hc hmem => hp c hmem (h c hc)

theorem IsInk.isPlainLabel (h : IsInk label.toList) : IsPlainLabel label :=
  ⟨fun hn => h _ hn List.mem_cons_self,
    fun c hc hs => h c (List.mem_of_mem_head? hc) (List.mem_cons_of_mem _ hs)⟩

theorem IsInk.append (hf : IsInk front.toList) (hb : IsInk back.toList) :
    IsInk (front ++ back).toList := by
  rw [IsInk, String.toList_append, List.forall_mem_append]
  exact ⟨hf, hb⟩

/-- Behind its first character a plain label may hold anything but line breaks. -/
theorem IsPlainLabel.append (hf : IsPlainLabel front) (hne : front.toList ≠ [])
    (hb : '\n' ∉ back.toList) : IsPlainLabel (front ++ back) := by
  rw [IsPlainLabel, String.toList_append, List.mem_append, List.head?_append_of_ne_nil _ hne]
  exact ⟨not_or.mpr ⟨hf.1, hb⟩, hf.2⟩

end Outline

open Outline

/-! ### Numbers -/

namespace Decimal

/-- A character that numbers are written with. -/
def isNumberPart (c : Char) : Bool := c.isDigit || c ∈ ['+', '-', '.', 'e', 'i', 'n', 'f', 'a']

variable {digits : List Char}

theorem isNumberPart_of_mem_toDigits {n : ℕ} : ∀ c ∈ Nat.toDigits 10 n, isNumberPart c :=
  fun c hc => by rw [isNumberPart, isDigit_of_mem_toDigits hc, Bool.true_or]

theorem isNumberPart_of_mem_zeros {k : ℕ} : ∀ c ∈ List.replicate k '0', isNumberPart c :=
  fun c hc => by rw [List.eq_of_mem_replicate hc]; rfl

theorem isNumberPart_of_mem_writePositional (hd : ∀ c ∈ digits, isNumberPart c) (point : ℤ) :
    ∀ c ∈ writePositional digits point, isNumberPart c := by
  rw [writePositional]
  split
  · rw [List.forall_mem_cons, List.forall_mem_cons, List.forall_mem_append]
    exact ⟨rfl, rfl, isNumberPart_of_mem_zeros, hd⟩
  split
  · rw [List.forall_mem_append, List.forall_mem_cons]
    exact ⟨fun c hc => hd c (List.mem_of_mem_take hc), rfl,
      fun c hc => hd c (List.mem_of_mem_drop hc)⟩
  · rw [List.forall_mem_append, List.forall_mem_append]
    exact ⟨⟨hd, isNumberPart_of_mem_zeros⟩, by decide⟩

theorem isNumberPart_of_mem_writeExponent (hd : ∀ c ∈ digits, isNumberPart c) (power : ℤ) :
    ∀ c ∈ writeExponent digits power, isNumberPart c := by
  rw [writeExponent, List.forall_mem_append, List.forall_mem_append, List.forall_mem_cons,
    List.forall_mem_cons, List.forall_mem_append]
  refine ⟨⟨fun c hc => hd c (List.mem_of_mem_take hc), ?_⟩, rfl, ?_, isNumberPart_of_mem_zeros,
    isNumberPart_of_mem_toDigits⟩
  · split
    · exact List.forall_mem_nil _
    · exact List.forall_mem_cons.mpr ⟨rfl, fun c hc => hd c (List.mem_of_mem_drop hc)⟩
  · split <;> rfl

/-- A number in either form is made of digits, signs, points and letters. -/
theorem isNumberPart_of_mem_write (d : Scientific) : ∀ c ∈ d.write, isNumberPart c := by
  rw [Scientific.write]
  split
  · exact isNumberPart_of_mem_writePositional isNumberPart_of_mem_toDigits _
  · exact isNumberPart_of_mem_writeExponent isNumberPart_of_mem_toDigits _

/-- …and so are infinities and what is no number. -/
theorem isNumberPart_of_mem_writeFloat (x : Float) :
    ∀ c ∈ (writeFloat x).toList, isNumberPart c := by
  rw [writeFloat]
  split
  · decide
  · split <;> decide
  · rename_i negative mantissa exponent _
    have hmagnitude : ∀ c ∈ if mantissa = 0 then ['0', '.', '0']
        else (shortest mantissa exponent).write, isNumberPart c := by
      split
      · decide
      · exact isNumberPart_of_mem_write _
    rw [String.toList_ofList]
    split
    · exact List.forall_mem_cons.mpr ⟨rfl, hmagnitude⟩
    · exact hmagnitude

theorem isNumberPart_of_mem_toString (n : ℤ) : ∀ c ∈ (toString n).toList, isNumberPart c := by
  rw [toList_toString, List.forall_mem_append]
  refine ⟨?_, isNumberPart_of_mem_toDigits⟩
  split <;> decide

theorem not_isNumberPart : ∀ c ∈ '\n' :: branchStarts, ¬ isNumberPart c := by decide

end Decimal

/-- **The text of a value that is no string is ink.** -/
theorem Value.isInk_of_write {v : Value} {text : String} (hv : ∀ s, v ≠ .string s)
    (h : v.write = .ok text) : IsInk text.toList := by
  cases v with
  | int n =>
    rw [write, writeInteger] at h
    split at h
    · obtain rfl := Except.ok.inj h
      exact isInk_of_forall not_isNumberPart (isNumberPart_of_mem_toString n)
    · cases h
  | float x =>
    obtain rfl := Except.ok.inj h
    exact isInk_of_forall not_isNumberPart (isNumberPart_of_mem_writeFloat x)
  | string s => exact absurd rfl (hv s)
  | bool b =>
    obtain rfl := Except.ok.inj h
    cases b <;> decide
  | void =>
    obtain rfl := Except.ok.inj h
    exact List.forall_mem_nil _

/-! ### Words and symbols -/

/-- **Every token but a string literal is written in ink.** -/
theorem Token.IsLexable.isInk {t : Token} (h : t.IsLexable) :
    t.Spelled fun lexeme => IsInk lexeme.toList := by
  have hdigits {cs : List Char} (h : ∀ c ∈ cs, isDecimal c) : IsInk cs :=
    isInk_of_forall (by decide) h
  have hsymbols : ∀ s ∈ symbols, ∀ c ∈ s.1, c ∉ '\n' :: branchStarts := by decide
  intro hk
  rcases h.cases with ⟨-, hname⟩ | ⟨-, hint⟩ | ⟨-, hfloat⟩ | ⟨hstring, -⟩ | hsymbol
  · exact isInk_of_forall (by decide) hname.forall_isWordPart
  · exact hdigits hint.2
  · obtain ⟨whole, fraction, htext, hwhole, hfraction⟩ := hfloat
    rw [htext, IsInk, List.forall_mem_append, List.forall_mem_cons]
    exact ⟨hdigits hwhole.2, by decide, hdigits hfraction⟩
  · exact absurd hstring hk
  · exact hsymbols _ hsymbol

/-! ## The trees of programs -/

namespace Node

variable {n m : Node}

/-- A child is spelled as its parent is. -/
theorem Spelled.of_hasChild {P : String → Prop} (h : n.Spelled P) (hc : n.HasChild m) :
    m.Spelled P := by
  obtain ⟨cs, hcs, hc⟩ := hc
  have hoptional {k : Node} (hk : k.Spelled P) : ∀ m ∈ k.optional, m.Spelled P :=
    fun m hm => (of_mem_optional hm).1 ▸ hk
  cases h with
  | absent => cases hcs
  | literal =>
    obtain rfl := Except.ok.inj hcs
    cases hc
  | «variable» _ h =>
    obtain rfl := Except.ok.inj hcs
    exact hoptional h m hc
  | function _ hp hb =>
    obtain rfl := Except.ok.inj hcs
    exact List.forall_mem_append.mpr ⟨hp, hoptional hb⟩ m hc
  | unary _ h =>
    obtain rfl := Except.ok.inj hcs
    exact List.mem_singleton.mp hc ▸ h
  | binary _ hl hr =>
    obtain rfl := Except.ok.inj hcs
    exact List.forall_mem_cons.mpr ⟨hl, List.forall_mem_singleton.mpr hr⟩ m hc
  | block h =>
    obtain rfl := Except.ok.inj hcs
    exact h m hc
  | choice hcond ht hf =>
    obtain rfl := Except.ok.inj hcs
    exact List.forall_mem_cons.mpr ⟨hcond, List.forall_mem_cons.mpr ⟨ht, hoptional hf⟩⟩ m hc
  | whileLoop hcond hb =>
    obtain rfl := Except.ok.inj hcs
    exact List.forall_mem_cons.mpr ⟨hcond, List.forall_mem_singleton.mpr hb⟩ m hc
  | forLoop hi hcond hu hb =>
    obtain rfl := Except.ok.inj hcs
    simp only [List.mem_append] at hc
    rcases hc with ((hc | hc) | hc) | hc
    · exact hoptional hi m hc
    · exact hoptional hcond m hc
    · exact hoptional hu m hc
    · exact hoptional hb m hc

theorem Spelled.of_contains {P : String → Prop} (h : n.Spelled P) (hm : n.Contains m) :
    m.Spelled P := by
  induction hm with
  | refl => exact h
  | tail _ hchild ih => exact ih.of_hasChild hchild

/-- A literal has a plain label, unless it is a text with a line break. -/
theorem isPlainLabel_literal {v : Value} (hv : ∀ s, v = .string s → '\n' ∉ s.toList)
    {label : String} (h : (literal v).label = .ok label) : IsPlainLabel label := by
  by_cases hstring : ∃ s, v = .string s
  · obtain ⟨s, rfl⟩ := hstring
    obtain rfl := Except.ok.inj h
    rw [String.append_assoc]
    refine IsPlainLabel.append (by decide) (by decide) ?_
    rw [String.toList_append, List.mem_append]
    exact not_or.mpr ⟨hv s rfl, by decide⟩
  · have hne : ∀ s, v ≠ .string s := fun s hs => hstring ⟨s, hs⟩
    have hsort : ∀ sort : ValueSort, IsPlainLabel sort.name := by rintro ⟨⟩ <;> decide
    rw [label_literal hne] at h
    rcases hwrite : v.write with e | text
    · rw [hwrite] at h
      cases h
    · rw [hwrite] at h
      obtain rfl := Except.ok.inj h
      dsimp only
      split
      · exact hsort v.sort
      · exact (Value.isInk_of_write hne hwrite).isPlainLabel

/-- **Names and operators in ink make plain labels**, if a string has no line break. -/
theorem Spelled.isPlainLabel (h : n.Spelled fun lexeme => IsInk lexeme.toList)
    (hs : ∀ s, n = .literal (.string s) → '\n' ∉ s.toList) {label : String}
    (hl : n.label = .ok label) : IsPlainLabel label := by
  cases h with
  | absent => cases hl
  | literal v => exact isPlainLabel_literal (fun s hv => hs s (hv ▸ rfl)) hl
  | «variable» hname _ =>
    obtain rfl := Except.ok.inj hl
    split
    · exact IsPlainLabel.append (by decide) (by decide) hname.isPlainLabel.1
    · exact hname.isPlainLabel
  | function hname _ _ =>
    obtain rfl := Except.ok.inj hl
    split
    · exact IsPlainLabel.append (by decide) (by decide) hname.isPlainLabel.1
    · exact (hname.append (by decide)).isPlainLabel
  | unary hop _ =>
    obtain rfl := Except.ok.inj hl
    exact hop.isPlainLabel
  | binary hop _ _ =>
    obtain rfl := Except.ok.inj hl
    exact hop.isPlainLabel
  | block | choice | whileLoop | forLoop =>
    obtain rfl := Except.ok.inj hl
    decide

/-- **The tree of a program has plain labels** unless a string in it has a line break. -/
theorem hasPlainLabels_of_parseProgram {source : String} (h : parseProgram source = .ok n)
    (hs : ∀ s, n.Contains (.literal (.string s)) → '\n' ∉ s.toList) : n.HasPlainLabels := by
  obtain ⟨tokens, htokens, hparse⟩ := parseProgram_eq_ok_iff.mp h
  have hspelled := spelled_of_parse hparse
    (fun t ht => ((tokenize_eq_ok_iff.mp htokens).isLexable t ht).isInk) (List.forall_mem_nil _)
  intro m hm
  obtain ⟨⟨label, ts⟩, ht⟩ := (isProgram_of_parse hparse).drawable.of_contains hm
  have hlabel : m.label = .ok label := (Outline.ofNode_eq_ok_iff.mp ht).1
  refine ⟨label, hlabel, (hspelled.of_contains hm).isPlainLabel (fun s hms => ?_) hlabel⟩
  exact hs s (hms ▸ hm)

end Node

/-! ## Drawings -/

/-- **The drawing determines the tree.**  A tree with plain labels is drawn with one line for each
node, in pre-order, a corner marking the last children, and its outline is decoded from the text; so
trees with plain labels and one drawing have the same labels and the same children everywhere.
Programs have plain labels, unless a string in them has a line break. -/
theorem drawing_determines_tree :
    (∀ (n : Node) (label : String) (ts : List Outline),
      Outline.ofNode n = .ok (.node label ts) ↔ n.label = .ok label ∧
        ∃ cs, n.children = .ok cs ∧ List.Forall₂ (fun c t => Outline.ofNode c = .ok t) cs ts) ∧
    (∀ n : Node, n.HasPlainLabels → ∃ t, Outline.ofNode n = .ok t ∧ n.draw = .ok t.draw ∧
      t.draw.toList.splitOn '\n' = t.rows.map (·.text.toList) ∧ t.rows.map (·.label) = t.labels ∧
      (∀ r ∈ t.rows, "└── ".toList <+: r.text.toList.dropWhile isPadding ↔
        r.trail.getLast? = some false) ∧
      Outline.decode t.draw = some t) ∧
    (∀ (trail : List Bool) (label : String) (ts : List Outline) (t : Outline),
      (Outline.node label (ts ++ [t])).rowsFrom trail = ⟨trail, label⟩ ::
        (ts.flatMap (·.rowsFrom (trail ++ [true])) ++ t.rowsFrom (trail ++ [false]))) ∧
    (∀ n m : Node, n.HasPlainLabels → m.HasPlainLabels → n.draw = m.draw →
      Outline.ofNode n = Outline.ofNode m) ∧
    (∀ (source : String) (n : Node), parseProgram source = .ok n →
      (∀ s, n.Contains (.literal (.string s)) → '\n' ∉ s.toList) → n.HasPlainLabels) := by
  have hdraw {n : Node} {t : Outline} (ht : Outline.ofNode n = .ok t) : n.draw = .ok t.draw := by
    rw [Node.draw, ht]
    rfl
  refine ⟨fun n label ts => ofNode_eq_ok_iff, fun n hn => ?_, rowsFrom_concat,
    fun n m hn hm hsame => ?_, fun source n => Node.hasPlainLabels_of_parseProgram⟩
  · obtain ⟨t, ht, hplain⟩ := Node.hasPlainLabels_iff.mp hn
    exact ⟨t, ht, hdraw ht, splitOn_draw hplain, map_label_rows t,
      fun r hr => Row.corner_iff (hplain.row hr), decode_draw hplain⟩
  · obtain ⟨t, ht, hplain⟩ := Node.hasPlainLabels_iff.mp hn
    obtain ⟨u, hu, hplain'⟩ := Node.hasPlainLabels_iff.mp hm
    have htexts : t.draw = u.draw :=
      Except.ok.inj ((hdraw ht).symm.trans (hsame.trans (hdraw hu)))
    have houtlines : t = u :=
      Option.some.inj ((decode_draw hplain).symm.trans (htexts ▸ decode_draw hplain'))
    rw [ht, hu, houtlines]

/-- A call with a string that looks like a branch, and any other tree with its drawing. -/
theorem drawing_determines_tree_glyphs :
    let source := "f(\"└── a\", -x);"
    let n : Node := .block [.call "f" [.literal (.string "└── a"),
      .unary ⟨.negative, "-", ⟨1, 12⟩⟩ (.reference "x")]]
    let text := "block\n└── f()\n    ├── \"└── a\"\n    └── -\n        └── x"
    parseProgram source = .ok n ∧ n.HasPlainLabels ∧ n.draw = .ok text ∧
      ∀ m : Node, m.HasPlainLabels → m.draw = .ok text → Outline.ofNode m = Outline.ofNode n := by
  intro source n text
  let tokens : List Token := [⟨.identifier, "f", ⟨1, 1⟩⟩, ⟨.leftParen, "(", ⟨1, 2⟩⟩,
    ⟨.string, "└── a", ⟨1, 3⟩⟩, ⟨.comma, ",", ⟨1, 10⟩⟩, ⟨.subtract, "-", ⟨1, 12⟩⟩,
    ⟨.identifier, "x", ⟨1, 13⟩⟩, ⟨.rightParen, ")", ⟨1, 14⟩⟩, ⟨.endStatement, ";", ⟨1, 15⟩⟩]
  have htokens : tokenize source = .ok tokens := by decide +kernel
  have hparse : parseProgram source = .ok n := parseProgram_eq_ok_iff.mpr ⟨tokens, htokens, rfl⟩
  let t : Outline :=
    .node "block" [.node "f()" [.node "\"└── a\"" [], .node "-" [.node "x" []]]]
  have houtline : Outline.ofNode n = .ok t := rfl
  have hlines : ∀ label ∈ t.labels, '\n' ∉ label.toList := by decide +kernel
  obtain ⟨-, -, -, hsame, hprogram⟩ := drawing_determines_tree
  have hplain : n.HasPlainLabels := by
    refine hprogram source n hparse fun s hs hbreak => ?_
    exact hlines _ (Node.mem_labels_of_contains houtline hs rfl) (by simp [hbreak])
  have hdraw : n.draw = .ok text := by
    rw [Node.draw, houtline]
    decide +kernel
  exact ⟨hparse, hplain, hdraw, fun m hm htext => hsame m n hm hplain (htext.trans hdraw.symm)⟩

end Scrawl
