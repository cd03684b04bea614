import Scrawl.Proofs.Json.RoundTrip
import Scrawl.Proofs.Node.Document
import Scrawl.Proofs.Parser.Trees

/-!
# Proofs/Node/DocumentText — the text of a tree is read as the tree

The document of a parsed program is one that reading undoes (`Json.Readable`): its objects have
distinct names, and its integers come from literals, which keep within the digit limit.  So the
text of the document is read as the very document, and that as the tree without the places of its
operators.
-/

namespace Scrawl

open Decimal Json

/-! ## Values and tokens -/

/-- The integer of a literal keeps within the digit limit. -/
theorem Token.length_toDigits_of_literal {t : Token} {n : Int} (h : t.literal = .ok (.int n)) :
    (Nat.toDigits 10 n.natAbs).length ≤ digitLimit := by
  unfold literal at h
  split at h
  · obtain ⟨m, hm, hn⟩ := exists_of_map_eq_ok h
    obtain rfl := Value.int.inj hn
    cases hread : readInteger t.lexeme with
    | error e =>
      rw [hread] at hm
      cases hm
    | ok k =>
      rw [hread] at hm
      obtain rfl := Except.ok.inj hm
      exact length_toDigits_of_readInteger hread
  · obtain ⟨x, -, hx⟩ := exists_of_map_eq_ok h
    cases hx
  all_goals cases h

section Readable

variable {limit : Option Nat}

/-- **A value is read back** unless it is an integer longer than the reader takes. -/
theorem Value.readable_toJson {v : Value}
    (h : ∀ n, v = .int n → ∀ k ∈ limit, (Nat.toDigits 10 n.natAbs).length ≤ k) :
    v.toJson.Readable limit := by
  cases v with
  | int n => exact .object (by simp) (by simp [Readable.text, Readable.int (h n rfl)])
  | float x => exact .object (by simp) (by simp [Readable.text, Readable.float])
  | string s => exact .object (by simp) (by simp [Readable.text])
  | bool b => exact .object (by simp) (by simp [Readable.text, Readable.bool])
  | void => exact .object (by simp) (by simp [Readable.text])

/-- A literal was read from digits itself, so it is short enough. -/
theorem Value.IsLiteral.readable_toJson {v : Value} (h : v.IsLiteral) :
    v.toJson.Readable (some digitLimit) := by
  obtain ⟨t, -, ht⟩ := h
  refine Value.readable_toJson ?_
  rintro n rfl _ ⟨⟩
  exact t.length_toDigits_of_literal ht

/-- A token is written as two texts, so no number stands in the way. -/
theorem Token.readable_toJson (t : Token) : t.toJson.Readable limit :=
  .object (by simp) (by simp [Readable.text])

/-! ## Trees -/

namespace Node

theorem toItems_eq_map (ns : List Node) : toItems ns = ns.map toJson := by
  induction ns with
  | nil => rw [toItems, List.map_nil]
  | cons n ns ih => rw [toItems, ih, List.map_cons]

theorem readable_toItems {ns : List Node} (h : ∀ n ∈ ns, n.toJson.Readable limit) :
    (Json.list (toItems ns)).Readable limit := by
  rw [toItems_eq_map]
  exact .list (List.forall_mem_map.mpr h)

/-- A block is readable where its statements are. -/
theorem readable_block {ns : List Node} (h : ∀ n ∈ ns, n.toJson.Readable limit) :
    (Node.block ns).toJson.Readable limit := by
  rw [toJson]
  exact .object (by simp) (by simp [Readable.text, readable_toItems h])

theorem readable_reference (name : String) : (Node.reference name).toJson.Readable limit := by
  rw [reference, toJson, toJson]
  exact .object (by simp) (by simp [Readable.text, Readable.null, Readable.bool])

theorem readable_unary (operator : Token) {operand : Node} (h : operand.toJson.Readable limit) :
    (Node.unary operator operand).toJson.Readable limit := by
  rw [toJson]
  exact .object (by simp) (by simp [Readable.text, operator.readable_toJson, h])

theorem readable_binary (operator : Token) {left right : Node} (hl : left.toJson.Readable limit)
    (hr : right.toJson.Readable limit) :
    (Node.binary operator left right).toJson.Readable limit := by
  rw [toJson]
  exact .object (by simp) (by simp [Readable.text, operator.readable_toJson, hl, hr])

/-- A literal is readable where its value is. -/
theorem readable_literal {v : Value} (h : v.toJson.Readable limit) :
    (Node.literal v).toJson.Readable limit := by
  rw [literal, toJson, toJson]
  exact .object (by simp) (by simp [Readable.text, h])

theorem readable_variable (name : String) {initializer : Node} (isDefinition : Bool)
    (h : initializer.toJson.Readable limit) :
    (Node.variable name initializer isDefinition).toJson.Readable limit := by
  rw [toJson]
  exact .object (by simp) (by simp [Readable.text, Readable.bool, h])

theorem readable_function (name : String) {parameters : List Node} {body : Node}
    (isDefinition : Bool) (hp : ∀ p ∈ parameters, p.toJson.Readable limit)
    (hb : body.toJson.Readable limit) :
    (Node.function name parameters body isDefinition).toJson.Readable limit := by
  rw [toJson]
  exact .object (by simp) (by simp [Readable.text, Readable.bool, readable_toItems hp, hb])

theorem readable_choice {condition whenTrue whenFalse : Node}
    (hc : condition.toJson.Readable limit) (ht : whenTrue.toJson.Readable limit)
    (hf : whenFalse.toJson.Readable limit) :
    (Node.choice condition whenTrue whenFalse).toJson.Readable limit := by
  rw [toJson]
  exact .object (by simp) (by simp [Readable.text, hc, ht, hf])

theorem readable_absent : Node.absent.toJson.Readable limit := by
  rw [toJson]
  exact .null

/-- Where a node may be missing, `null` is readable in its place. -/
theorem readable_optional {n : Node} (h : n ≠ .absent → n.toJson.Readable limit) :
    n.toJson.Readable limit := by
  by_cases ha : n = .absent
  · exact ha ▸ readable_absent
  · exact h ha

variable {L : Value → Prop} (hL : ∀ v, L v → v.toJson.Readable limit) {n : Node}

include hL

/-- An expression is readable where its literals are. -/
theorem IsExpression.readable_toJson (h : n.IsExpression L) : n.toJson.Readable limit := by
  induction h with
  | literal h => exact readable_literal (hL _ h)
  | reference name => exact readable_reference name
  | call name h ih => exact readable_function name false ih readable_absent
  | unary hk h ih => exact readable_unary _ ih
  | binary hk hl hr ihl ihr => exact readable_binary _ ihl ihr

/-- …and so is a statement. -/
theorem IsStatement.readable_toJson (h : n.IsStatement L) : n.toJson.Readable limit := by
  induction h with
  | expression h => exact h.readable_toJson hL
  | declaration name => exact readable_variable name true (readable_reference name)
  | definition name hk h =>
    exact readable_variable name true
      (readable_binary _ (readable_reference name) (h.readable_toJson hL))
  | function name hp h ih =>
    refine readable_function name true (fun p hmem => ?_) (readable_block ih)
    obtain ⟨x, rfl⟩ := hp p hmem
    exact readable_reference x
  | returnVoid hk =>
    exact readable_unary _ (readable_literal (Value.readable_toJson fun n hn => by cases hn))
  | returnValue hk h => exact readable_unary _ (h.readable_toJson hL)
  | choice hc ht ih =>
    exact readable_choice (hc.readable_toJson hL) (readable_block ih) readable_absent
  | choiceElse hc ht hf iht ihf =>
    exact readable_choice (hc.readable_toJson hL) (readable_block iht) (readable_block ihf)
  | choiceChain hc ht hf iht ihf =>
    exact readable_choice (hc.readable_toJson hL) (readable_block iht) ihf
  | whileLoop hc h ih =>
    rw [toJson]
    exact .object (by simp) (by simp [Readable.text, hc.readable_toJson hL, readable_block ih])
  | forLoop hi hc hu h ihi ihb =>
    have hinitialization := readable_optional ihi
    have hcondition := readable_optional fun ha => (hc ha).readable_toJson hL
    have hupdate := readable_optional fun ha => (hu ha).readable_toJson hL
    rw [toJson]
    exact .object (by simp)
      (by simp [Readable.text, hinitialization, hcondition, hupdate, readable_block ihb])

/-- **The document of a program is readable** where its literals are. -/
theorem IsProgram.readable_toJson (h : n.IsProgram L) : n.toJson.Readable limit := by
  obtain ⟨h⟩ := h
  exact readable_block fun n hn => (h n hn).readable_toJson hL

end Node

end Readable

/-- **The text of a parsed program's document is read as the document.** -/
theorem read_pretty_of_parseSource {source : String} {tokens : List Token} {program : Node}
    (h : parseSource source = .ok (tokens, program)) :
    Json.read program.toJson.pretty = .ok program.toJson :=
  have hprogram := isProgram_of_parseSource h
  (hprogram.readable_toJson fun _ => Value.IsLiteral.readable_toJson).read_pretty

end Scrawl
