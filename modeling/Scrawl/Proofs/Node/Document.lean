import Scrawl.Node.Document
import Scrawl.Proofs.Node.Rendering
import Scrawl.Proofs.Outcome

/-!
# Proofs/Node/Document — reading a document undoes writing it

Every tree that is written reads back as itself, but for the places of its operators
(`Node.ofJson_toJson`).  A tree that was read has no such places (`Node.unplaced_ofJson`), whatever
the document left out or held besides, so writing and reading it changes it no more.
-/

namespace Scrawl

open Document

/-! ## Tokens and values -/

theorem Kind.mem_all (k : Kind) : k ∈ all := by
  cases k <;> decide

theorem Kind.ofName?_name (k : Kind) : ofName? k.name = some k :=
  have h : ∀ k ∈ all, ofName? k.name = some k := by decide +kernel
  h k k.mem_all

namespace Document

theorem toToken_toJson (t : Token) : toToken t.toJson = .ok t.unplaced := by
  change (toKind (.text t.kind.name) >>= fun kind => Except.ok (Token.mk kind t.lexeme .none)) = _
  rw [toKind, Kind.ofName?_name]
  rfl

/-- A token that was read has no place. -/
theorem unplaced_toToken {j : Json} {t : Token} (h : toToken j = .ok t) : t.unplaced = t := by
  unfold toToken at h
  split at h
  · obtain ⟨_, -, h⟩ := exists_of_bind_eq_ok h
    obtain ⟨_, -, h⟩ := exists_of_bind_eq_ok h
    obtain ⟨_, -, h⟩ := exists_of_bind_eq_ok h
    cases h
    rfl
  · cases h
  · cases h
  · cases h

theorem ofJson_value (v : Value) : Node.ofJson v.toJson = .ok (.value v) := by
  cases v <;> rw [Value.toJson, Node.ofJson] <;> rfl

end Document

/-! ## Trees -/

namespace Node

mutual

/-- **A tree that is written reads back**, without the places of its operators. -/
theorem ofJson_toJson : ∀ n : Node, ofJson n.toJson = .ok n.unplaced
  | .absent => by rw [toJson, ofJson, unplaced]
  | .value v => ofJson_value v
  | .block statements => by
      rw [toJson, ofJson]
      change (ofList (.list (toItems statements)) >>= fun ns => .ok (Node.block ns)) = _
      rw [ofList, ofItems_toItems statements]
      rfl
  | .variable name initializer isDefinition => by
      rw [toJson, ofJson]
      change (ofJson initializer.toJson >>= fun n => .ok (Node.variable name n isDefinition)) = _
      rw [ofJson_toJson initializer]
      rfl
  | .function name parameters body isDefinition => by
      rw [toJson, ofJson]
      change (ofList (.list (toItems parameters)) >>= fun ns => ofJson body.toJson >>= fun n =>
        .ok (Node.function name ns n isDefinition)) = _
      rw [ofList, ofItems_toItems parameters, ofJson_toJson body]
      rfl
  | .terminal content => by
      rw [toJson, ofJson]
      change (ofJson content.toJson >>= fun n => .ok (Node.terminal n)) = _
      rw [ofJson_toJson content]
      rfl
  | .unary operator operand => by
      rw [toJson, ofJson]
      change (toToken operator.toJson >>= fun t => ofJson operand.toJson >>= fun n =>
        .ok (Node.unary t n)) = _
      rw [toToken_toJson, ofJson_toJson operand]
      rfl
  | .binary operator left right => by
      rw [toJson, ofJson]
      change (toToken operator.toJson >>= fun t => ofJson left.toJson >>= fun l =>
        ofJson right.toJson >>= fun r => .ok (Node.binary t l r)) = _
      rw [toToken_toJson, ofJson_toJson left, ofJson_toJson right]
      rfl
  | .choice condition whenTrue whenFalse => by
      rw [toJson, ofJson]
      change (ofJson condition.toJson >>= fun c => ofJson whenTrue.toJson >>= fun t =>
        ofJson whenFalse.toJson >>= fun f => .ok (Node.choice c t f)) = _
      rw [ofJson_toJson condition, ofJson_toJson whenTrue, ofJson_toJson whenFalse]
      rfl
  | .whileLoop condition body => by
      rw [toJson, ofJson]
      change (ofJson condition.toJson >>= fun c => ofJson body.toJson >>= fun b =>
        .ok (Node.whileLoop c b)) = _
      rw [ofJson_toJson condition, ofJson_toJson body]
      rfl
  | .forLoop initialization condition update body => by
      rw [toJson, ofJson]
      change (ofJson initialization.toJson >>= fun i => ofJson condition.toJson >>= fun c =>
        ofJson update.toJson >>= fun u => ofJson body.toJson >>= fun b =>
          .ok (Node.forLoop i c u b)) = _
      rw [ofJson_toJson initialization, ofJson_toJson condition, ofJson_toJson update,
        ofJson_toJson body]
      rfl

/-- …and so do the items of a list. -/
theorem ofItems_toItems : ∀ ns : List Node, ofItems (toItems ns) = .ok (unplacedAll ns)
  | [] => by rw [toItems, ofItems, unplacedAll]
  | n :: ns => by
      rw [toItems, ofItems, ofJson_toJson n, ofItems_toItems ns, unplacedAll]
      rfl

end

/-! ## Trees that were read -/

section Object

variable {fields : Fields} {o : Option { v : Json // sizeOf v < sizeOf fields }}
  {e : DocumentError}
  (htree : ∀ v : Json, sizeOf v < sizeOf fields → ∀ n, ofJson v = .ok n → n.unplaced = n)
  (hlist : ∀ v : Json, sizeOf v < sizeOf fields → ∀ ns, ofList v = .ok ns → unplacedAll ns = ns)

include htree

theorem unplaced_child {n : Node} (h : (match o with
      | none => .error e
      | some ⟨v, _⟩ => ofJson v) = Except.ok n) : n.unplaced = n := by
  obtain _ | ⟨v, hv⟩ := o
  · cases h
  · exact htree v hv n h

theorem unplaced_optionalChild {n : Node} (h : (match o with
      | none => .ok .absent
      | some ⟨v, _⟩ => ofJson v) = (Except.ok n : Except DocumentError Node)) :
    n.unplaced = n := by
  obtain _ | ⟨v, hv⟩ := o
  · cases h
    rfl
  · exact htree v hv n h

omit htree in
include hlist in
theorem unplaced_children {ns : List Node} (h : (match o with
      | none => .error e
      | some ⟨v, _⟩ => ofList v) = Except.ok ns) : unplacedAll ns = ns := by
  obtain _ | ⟨v, hv⟩ := o
  · cases h
  · exact hlist v hv ns h

include hlist

/-- An object is read as a tree without places, if what its fields hold is. -/
theorem unplaced_ofJson_object {n : Node} (h : ofJson (.object fields) = .ok n) :
    n.unplaced = n := by
  rw [ofJson] at h
  dsimp only at h
  split at h
  · obtain ⟨v, -, rfl⟩ := exists_of_map_eq_ok h
    rfl
  split at h
  · obtain ⟨ns, hns, h⟩ := exists_of_bind_eq_ok h
    cases h
    rw [unplaced, unplaced_children hlist hns]
  · obtain ⟨name, -, h⟩ := exists_of_bind_eq_ok h
    obtain ⟨i, hi, h⟩ := exists_of_bind_eq_ok h
    cases h
    rw [unplaced, unplaced_optionalChild htree hi]
  · obtain ⟨name, -, h⟩ := exists_of_bind_eq_ok h
    obtain ⟨ns, hns, h⟩ := exists_of_bind_eq_ok h
    obtain ⟨b, hb, h⟩ := exists_of_bind_eq_ok h
    cases h
    rw [unplaced, unplaced_children hlist hns, unplaced_optionalChild htree hb]
  · obtain ⟨c, hc, h⟩ := exists_of_bind_eq_ok h
    cases h
    rw [unplaced, unplaced_child htree hc]
  · obtain ⟨_, -, h⟩ := exists_of_bind_eq_ok h
    obtain ⟨t, ht, h⟩ := exists_of_bind_eq_ok h
    obtain ⟨c, hc, h⟩ := exists_of_bind_eq_ok h
    cases h
    rw [unplaced, unplaced_toToken ht, unplaced_child htree hc]
  · obtain ⟨_, -, h⟩ := exists_of_bind_eq_ok h
    obtain ⟨t, ht, h⟩ := exists_of_bind_eq_ok h
    obtain ⟨l, hl, h⟩ := exists_of_bind_eq_ok h
    obtain ⟨r, hr, h⟩ := exists_of_bind_eq_ok h
    cases h
    rw [unplaced, unplaced_toToken ht, unplaced_child htree hl, unplaced_child htree hr]
  · obtain ⟨c, hc, h⟩ := exists_of_bind_eq_ok h
    obtain ⟨t, ht, h⟩ := exists_of_bind_eq_ok h
    obtain ⟨f, hf, h⟩ := exists_of_bind_eq_ok h
    cases h
    rw [unplaced, unplaced_child htree hc, unplaced_child htree ht,
      unplaced_optionalChild htree hf]
  · obtain ⟨c, hc, h⟩ := exists_of_bind_eq_ok h
    obtain ⟨b, hb, h⟩ := exists_of_bind_eq_ok h
    cases h
    rw [unplaced, unplaced_child htree hc, unplaced_child htree hb]
  · obtain ⟨i, hi, h⟩ := exists_of_bind_eq_ok h
    obtain ⟨c, hc, h⟩ := exists_of_bind_eq_ok h
    obtain ⟨u, hu, h⟩ := exists_of_bind_eq_ok h
    obtain ⟨b, hb, h⟩ := exists_of_bind_eq_ok h
    cases h
    rw [unplaced, unplaced_optionalChild htree hi, unplaced_optionalChild htree hc,
      unplaced_optionalChild htree hu, unplaced_child htree hb]
  · cases h

end Object

mutual

/-- **A tree that was read has no places.** -/
theorem unplaced_ofJson {j : Json} {n : Node} (h : ofJson j = .ok n) : n.unplaced = n := by
  match j with
  | .null =>
    rw [ofJson] at h
    cases h
    rfl
  | .object fields =>
    exact unplaced_ofJson_object (fun v hv m hm => unplaced_ofJson hm)
      (fun v hv ms hms => unplaced_ofList hms) h
  | .bool _ | .int _ | .float _ | .text _ | .list _ =>
    rw [ofJson] at h
    · cases h
    · nofun
    · nofun
termination_by sizeOf j

theorem unplaced_ofList {j : Json} {ns : List Node} (h : ofList j = .ok ns) :
    unplacedAll ns = ns := by
  match j with
  | .list items =>
    rw [ofList] at h
    exact unplaced_ofItems h
  | .text s =>
    rw [ofList] at h
    split at h
    · cases h
      rfl
    · cases h
  | .object fields =>
    rw [ofList] at h
    split at h
    · cases h
      rfl
    · cases h
  | .null | .bool _ | .int _ | .float _ =>
    rw [ofList] at h
    · cases h
    · nofun
    · nofun
    · nofun
termination_by sizeOf j

theorem unplaced_ofItems {items : List Json} {ns : List Node} (h : ofItems items = .ok ns) :
    unplacedAll ns = ns := by
  match items with
  | [] =>
    rw [ofItems] at h
    cases h
    rfl
  | item :: rest =>
    rw [ofItems] at h
    obtain ⟨n, hn, h⟩ := exists_of_bind_eq_ok h
    obtain ⟨ns', hns, h⟩ := exists_of_bind_eq_ok h
    cases h
    rw [unplacedAll, unplaced_ofJson hn, unplaced_ofItems hns]
termination_by sizeOf items

end

end Node

/-- **Documents carry trees whole.**  Every tree is written as a document that reads back as the
tree without the places of its operators; and a tree that any document was read as, whatever that
left out, is written as one that reads back as the very same tree. -/
theorem document_roundTrip :
    (∀ n : Node, Node.ofJson n.toJson = .ok n.unplaced) ∧
      ∀ (j : Json) (n : Node), Node.ofJson j = .ok n → Node.ofJson n.toJson = .ok n := by
  refine ⟨Node.ofJson_toJson, fun j n h => ?_⟩
  rw [Node.ofJson_toJson, Node.unplaced_ofJson h]

/-- A reference that says neither that it is no definition nor that it has no initializer. -/
theorem document_roundTrip_reference :
    let j : Json :=
      .object [("note", .int 1), ("identifier", .text "x"), ("type", .text "Variable")]
    Node.ofJson j = .ok (.reference "x") ∧
      Node.ofJson (Node.reference "x").toJson = .ok (.reference "x") := by
  intro j
  have h : Node.ofJson j = .ok (.reference "x") := by
    rw [Node.ofJson]
    rfl
  exact ⟨h, document_roundTrip.2 j _ h⟩

end Scrawl
