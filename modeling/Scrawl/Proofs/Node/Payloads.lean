import Scrawl.Json.Reader
import Scrawl.Proofs.Node.DocumentText
import Scrawl.Proofs.Outcome

/-!
# Proofs/Node/Payloads — documents whose payloads are of their sorts

A document can call something an integer that is none, have a number for a name, or a terminal that
holds no value.  The readers do not take all such documents, and what follows from them is not
described.  In a **typed** document (`Json.Typed`) every payload is of the sort it is said to be, so
its tree is refused only for what is missing, unknown or of the wrong shape, and its terminals hold
values (`Node.takes_ofJson`).  Every such tree is written as a typed document (`Node.typed_toJson`),
in particular that of a program.
-/

namespace Scrawl

open Document

/-! ## Typed documents -/

namespace Json

/-- A document that stands for a value. -/
def IsValue (j : Json) : Prop :=
  ∃ fields, j = .object fields ∧ fields.lookup "__type__" = some (.text "Value")

/-- **A payload of the sort that its kind names.**  A double may be given in other ways as well. -/
structure Fits (kind payload : Json) : Prop where
  int : kind = .text "int" → ∃ n, payload = .int n
  string : kind = .text "string" → ∃ s, payload = .text s
  bool : kind = .text "bool" → ∃ b, payload = .bool b

end Json

/-- **An object whose payloads are of their sorts**, as far as it has them: names and lexemes are
texts, a value fits its kind, and a terminal holds a value. -/
structure Document.Fields.Typed (fields : Fields) : Prop where
  identifier : ∀ j, fields.lookup "identifier" = some j → ∃ s, j = .text s
  lexeme : ∀ j, fields.lookup "lexeme" = some j → ∃ s, j = .text s
  payload : fields.lookup "__type__" = some (.text "Value") → ∀ kind j,
    fields.lookup "kind" = some kind → fields.lookup "value" = some j → kind.Fits j
  content : fields.lookup "type" = some (.text "Terminal") → ∀ j,
    fields.lookup "value" = some j → j.IsValue

/-- **A document whose objects are all typed.** -/
inductive Json.Typed : Json → Prop where
  | null : Typed .null
  | bool (b : Bool) : Typed (.bool b)
  | int (n : Int) : Typed (.int n)
  | float (x : Float) : Typed (.float x)
  | text (s : String) : Typed (.text s)
  | list {items : List Json} (h : ∀ j ∈ items, Typed j) : Typed (.list items)
  | object {fields : Fields} (hfields : fields.Typed) (h : ∀ entry ∈ fields, Typed entry.2) :
      Typed (.object fields)

/-- **A text that holds a typed document**, if it holds one at all, and that is not given up for a
lone half. -/
structure Json.TypedText (text : String) : Prop where
  whole : Json.read text ≠ .error .loneHalf
  typed : ∀ j, Json.read text = .ok j → j.Typed

theorem Json.TypedText.of_read {text : String} {j : Json} (h : Json.read text = .ok j)
    (hj : j.Typed) : Json.TypedText text where
  whole he := by cases h.symm.trans he
  typed _ hj' := Except.ok.inj (h.symm.trans hj') ▸ hj

/-! ## Trees that hold values -/

namespace Node

mutual

/-- **A tree whose terminals all hold values.** -/
def HoldsValues : Node → Prop
  | .absent | .value _ => True
  | .block statements => HoldsValuesAll statements
  | .variable _ initializer _ => initializer.HoldsValues
  | .function _ parameters body _ => HoldsValuesAll parameters ∧ body.HoldsValues
  | .terminal content => ∃ v, content = .value v
  | .unary _ operand => operand.HoldsValues
  | .binary _ left right => left.HoldsValues ∧ right.HoldsValues
  | .choice condition whenTrue whenFalse =>
    condition.HoldsValues ∧ whenTrue.HoldsValues ∧ whenFalse.HoldsValues
  | .whileLoop condition body => condition.HoldsValues ∧ body.HoldsValues
  | .forLoop initialization condition update body =>
    initialization.HoldsValues ∧ condition.HoldsValues ∧ update.HoldsValues ∧ body.HoldsValues

/-- Trees whose terminals all hold values. -/
def HoldsValuesAll : List Node → Prop
  | [] => True
  | n :: rest => n.HoldsValues ∧ HoldsValuesAll rest

end

end Node

/-! ## Reading them -/

/-- A payload that was not taken. -/
def DocumentError.IsPayload : DocumentError → Prop
  | .payload _ => True
  | _ => False

/-- **What a document holds was taken**, and is of a class, unless something else is wrong with
it. -/
def Takes {α : Type} (Q : α → Prop) : Except DocumentError α → Prop
  | .ok a => Q a
  | .error e => ¬e.IsPayload

namespace Takes

variable {α β : Type} {Q : α → Prop} {R : β → Prop} {x : Except DocumentError α}

/-- **Readers in turn**: what the second is given is what the first took. -/
theorem bind {f : α → Except DocumentError β} (h : Takes Q x) (hf : ∀ a, Q a → Takes R (f a)) :
    Takes R (x >>= f) := by
  obtain e | a := x
  · exact h
  · exact hf a h

/-- What is made of a result may be in another class. -/
theorem map {f : α → β} (h : Takes Q x) (hf : ∀ a, Q a → R (f a)) : Takes R (x.map f) := by
  obtain e | a := x
  · exact h
  · exact hf a h

/-- No payload was refused. -/
theorem not_isPayload (h : Takes Q x) {e : DocumentError} (he : x = .error e) : ¬e.IsPayload := by
  subst he
  exact h

end Takes

namespace Document

variable {fields : Fields}

/-- What a field holds is typed if everything in the object is. -/
theorem typed_of_lookup (h : ∀ entry ∈ fields, entry.2.Typed) {key : String} {j : Json}
    (hj : fields.lookup key = some j) : j.Typed := by
  obtain ⟨l, r, rfl, -⟩ := List.lookup_eq_some_iff.mp hj
  exact h (key, j) (List.mem_append_right l List.mem_cons_self)

theorem lookup_of_field? {key : String} {v : { v : Json // sizeOf v < sizeOf fields }}
    (hv : field? fields key = some v) : fields.lookup key = some v.1 := by
  rw [← field?_map_val, hv]
  rfl

/-- A field that must be there is one of the object's, or missing. -/
theorem takes_require (key : String) :
    Takes (fun j => fields.lookup key = some j) (require fields key) := by
  unfold require
  split
  · assumption
  · exact id

/-- A text that is one is taken. -/
theorem takes_requireText {key : String}
    (h : ∀ j, fields.lookup key = some j → ∃ s, j = .text s) :
    Takes (fun _ => True) (requireText fields key) := by
  refine (takes_require key).bind fun j hj => ?_
  obtain ⟨s, rfl⟩ := h j hj
  exact trivial

theorem takes_toFloat (j : Json) : Takes (fun _ => True) (toFloat j) := by
  unfold toFloat
  repeat' split
  all_goals first | exact trivial | exact id

/-- **A value that fits its kind is taken.** -/
theorem takes_toValue (h : fields.Typed)
    (hvalue : fields.lookup "__type__" = some (.text "Value")) :
    Takes (fun _ => True) (toValue fields) := by
  refine (takes_require "kind").bind fun kind hkind => ?_
  have hfits (j : Json) (hj : fields.lookup "value" = some j) : kind.Fits j :=
    h.payload hvalue kind j hkind hj
  split
  · exact trivial
  · refine (takes_require "value").bind fun j hj => ?_
    obtain ⟨n, rfl⟩ := (hfits j hj).int rfl
    exact trivial
  · refine (takes_require "value").bind fun j _ => ?_
    exact (takes_toFloat j).bind fun _ _ => trivial
  · exact (takes_requireText fun j hj => (hfits j hj).string rfl).bind fun _ _ => trivial
  · refine (takes_require "value").bind fun j hj => ?_
    obtain ⟨b, rfl⟩ := (hfits j hj).bool rfl
    exact trivial
  all_goals exact id

theorem takes_toKind (j : Json) : Takes (fun _ => True) (toKind j) := by
  unfold toKind
  repeat' split
  all_goals first | exact trivial | exact id

/-- **A token with a text for its lexeme is taken.** -/
theorem takes_toToken {j : Json} (h : j.Typed) : Takes (fun _ => True) (toToken j) := by
  cases h with
  | object hfields =>
    refine (takes_require "kind").bind fun kind _ => (takes_toKind kind).bind fun kind _ => ?_
    exact (takes_requireText hfields.lexeme).bind fun _ _ => trivial
  | _ => exact id

/-- The token of an operator. -/
theorem takes_operator (hparts : ∀ entry ∈ fields, entry.2.Typed) {β : Type} {R : β → Prop}
    {next : Token → Except DocumentError β} (hnext : ∀ t, Takes R (next t)) :
    Takes R (require fields "token" >>= fun j => toToken j >>= next) :=
  (takes_require "token").bind fun _ hj =>
    (takes_toToken (typed_of_lookup hparts hj)).bind fun t _ => hnext t

end Document

namespace Node

/-- A document that stands for a value is read as one. -/
theorem takes_ofJson_value {fields : Fields} (h : fields.Typed)
    (hvalue : fields.lookup "__type__" = some (.text "Value")) :
    Takes (fun n => ∃ v, n = .value v) (ofJson (.object fields)) := by
  rw [ofJson]
  dsimp only
  rw [hvalue]
  exact (takes_toValue h hvalue).map fun v _ => ⟨v, rfl⟩

section Object

variable {fields : Fields} (hfields : fields.Typed) (hparts : ∀ entry ∈ fields, entry.2.Typed)
  (htree : ∀ j : Json, sizeOf j < sizeOf fields → j.Typed → Takes HoldsValues (ofJson j))
  (hlist : ∀ j : Json, sizeOf j < sizeOf fields → j.Typed → Takes HoldsValuesAll (ofList j))

include hparts htree

/-- A part that must be there holds values. -/
theorem takes_child (key : String) : Takes HoldsValues (match field? fields key with
    | none => .error (.missing key)
    | some ⟨v, _⟩ => ofJson v) := by
  split
  · exact id
  · exact htree _ ‹_› (typed_of_lookup hparts (lookup_of_field? ‹_›))

/-- …and so does one that may be missing, the absent node holding nothing. -/
theorem takes_optionalChild (key : String) : Takes HoldsValues (match field? fields key with
    | none => .ok .absent
    | some ⟨v, _⟩ => ofJson v) := by
  split
  · exact trivial
  · exact htree _ ‹_› (typed_of_lookup hparts (lookup_of_field? ‹_›))

omit htree in
include hlist in
theorem takes_children (key : String) : Takes HoldsValuesAll (match field? fields key with
    | none => .error (.missing key)
    | some ⟨v, _⟩ => ofList v) := by
  split
  · exact id
  · exact hlist _ ‹_› (typed_of_lookup hparts (lookup_of_field? ‹_›))

omit htree in
include hfields in
/-- The content of a terminal is a value. -/
theorem takes_content (hterminal : fields.lookup "type" = some (.text "Terminal")) :
    Takes (fun n => ∃ v, n = .value v) (match field? fields "value" with
      | none => .error (.missing "value")
      | some ⟨v, _⟩ => ofJson v) := by
  split
  · exact id
  · have hlookup := lookup_of_field? ‹_›
    obtain ⟨inner, rfl, hvalue⟩ := hfields.content hterminal _ hlookup
    cases typed_of_lookup hparts hlookup with
    | object hinner _ => exact takes_ofJson_value hinner hvalue

include hfields hlist

/-- An object is taken, if what its fields hold is. -/
theorem takes_ofJson_object : Takes HoldsValues (ofJson (.object fields)) := by
  have hchild := takes_child hparts htree
  have hoptional := takes_optionalChild hparts htree
  have hchildren := takes_children hparts hlist
  rw [ofJson]
  dsimp only
  split
  · exact (takes_toValue hfields ‹_›).map fun _ _ => trivial
  split
  · exact (hchildren "statements").bind fun _ hs => hs
  · refine (takes_requireText hfields.identifier).bind fun _ _ => ?_
    exact (hoptional "initializer").bind fun _ hi => hi
  · refine (takes_requireText hfields.identifier).bind fun _ _ => ?_
    exact (hchildren "parameters").bind fun _ hp => (hoptional "body").bind fun _ hb => ⟨hp, hb⟩
  · exact (takes_content hfields hparts ‹_›).bind fun _ hc => hc
  · exact takes_operator hparts fun _ => (hchild "child").bind fun _ hc => hc
  · refine takes_operator hparts fun _ => (hchild "left").bind fun _ hl => ?_
    exact (hchild "right").bind fun _ hr => ⟨hl, hr⟩
  · refine (hchild "condition").bind fun _ hc => (hchild "true_body").bind fun _ ht => ?_
    exact (hoptional "false_body").bind fun _ hf => ⟨hc, ht, hf⟩
  · exact (hchild "condition").bind fun _ hc => (hchild "body").bind fun _ hb => ⟨hc, hb⟩
  · refine (hoptional "initialization").bind fun _ hi => (hoptional "condition").bind fun _ hc => ?_
    exact (hoptional "update").bind fun _ hu => (hchild "body").bind fun _ hb => ⟨hi, hc, hu, hb⟩
  · exact id

end Object

mutual

/-- **A typed document is taken, and its terminals hold values.** -/
theorem takes_ofJson {j : Json} (h : j.Typed) : Takes HoldsValues (ofJson j) := by
  match j, h with
  | .null, _ =>
    rw [ofJson]
    exact trivial
  | .object fields, .object hfields hparts =>
    exact takes_ofJson_object hfields hparts (fun _ _ h => takes_ofJson h)
      (fun _ _ h => takes_ofList h)
  | .bool _, _ | .int _, _ | .float _, _ | .text _, _ | .list _, _ =>
    rw [ofJson]
    · exact id
    · nofun
    · nofun
termination_by sizeOf j

/-- A list of typed documents is read into trees that hold values. -/
theorem takes_ofList {j : Json} (h : j.Typed) : Takes HoldsValuesAll (ofList j) := by
  match j, h with
  | .list items, .list h =>
    rw [ofList]
    exact takes_ofItems h
  | .text s, _ =>
    rw [ofList]
    split
    · exact trivial
    · exact id
  | .object fields, _ =>
    rw [ofList]
    split
    · exact trivial
    · exact id
  | .null, _ | .bool _, _ | .int _, _ | .float _, _ =>
    rw [ofList]
    · exact id
    · nofun
    · nofun
    · nofun
termination_by sizeOf j

theorem takes_ofItems {items : List Json} (h : ∀ j ∈ items, j.Typed) :
    Takes HoldsValuesAll (ofItems items) := by
  match items with
  | [] =>
    rw [ofItems]
    exact trivial
  | item :: rest =>
    obtain ⟨hitem, hrest⟩ := List.forall_mem_cons.mp h
    rw [ofItems]
    exact (takes_ofJson hitem).bind fun _ hn => (takes_ofItems hrest).bind fun _ hns => ⟨hn, hns⟩
termination_by sizeOf items

end

end Node

/-! ## Writing them -/

/-- A value is written as a typed document. -/
theorem Value.typed_toJson (v : Value) : v.toJson.Typed := by
  cases v <;> refine .object ⟨?_, ?_, ?_, ?_⟩ ?_ <;>
    simp [List.lookup, Json.Typed.text, Json.Typed.int, Json.Typed.float, Json.Typed.bool,
      Value.sort, ValueSort.name]
  all_goals constructor <;> simp

theorem Value.isValue_toJson (v : Value) : v.toJson.IsValue := by
  cases v <;> exact ⟨_, rfl, rfl⟩

/-- So is a token. -/
theorem Token.typed_toJson (t : Token) : t.toJson.Typed :=
  .object
    ⟨by simp [List.lookup], by simp [List.lookup], by simp [List.lookup], by simp [List.lookup]⟩
    (by simp [Json.Typed.text])

/-- An object that says what node it is. -/
theorem Document.typed_object {type : String} {rest : Fields}
    (hidentifier : ∀ j, rest.lookup "identifier" = some j → ∃ s, j = .text s)
    (hlexeme : rest.lookup "lexeme" = none) (hvalue : rest.lookup "__type__" = none)
    (hcontent : type = "Terminal" → ∀ j, rest.lookup "value" = some j → j.IsValue)
    (hparts : ∀ entry ∈ rest, entry.2.Typed) :
    (Json.object (("type", .text type) :: rest)).Typed := by
  refine .object ⟨?_, ?_, ?_, ?_⟩ (List.forall_mem_cons.mpr ⟨.text type, hparts⟩)
  · simpa [List.lookup] using hidentifier
  · simp [List.lookup, hlexeme]
  · simp [List.lookup, hvalue]
  · simpa [List.lookup] using hcontent

namespace Node

mutual

/-- **A tree whose terminals hold values is written as a typed document.** -/
theorem typed_toJson : ∀ {n : Node}, n.HoldsValues → n.toJson.Typed
  | .absent, _ => by
      rw [toJson]
      exact .null
  | .value v, _ => by
      rw [toJson]
      exact v.typed_toJson
  | .block statements, h => by
      rw [toJson]
      exact typed_object (by simp [List.lookup]) rfl rfl (by simp)
        (by simp [typed_toItems h])
  | .variable name initializer isDefinition, h => by
      rw [toJson]
      exact typed_object (by simp [List.lookup]) rfl rfl (by simp)
        (by simp [Json.Typed.text, Json.Typed.bool, typed_toJson (n := initializer) h])
  | .function name parameters body isDefinition, h => by
      rw [toJson]
      exact typed_object (by simp [List.lookup]) rfl rfl (by simp)
        (by simp [Json.Typed.text, Json.Typed.bool, typed_toItems h.1, typed_toJson h.2])
  | .terminal _, ⟨v, rfl⟩ => by
      rw [toJson, toJson]
      exact typed_object (by simp [List.lookup]) rfl rfl (by simp [List.lookup, v.isValue_toJson])
        (by simp [v.typed_toJson])
  | .unary operator operand, h => by
      rw [toJson]
      exact typed_object (by simp [List.lookup]) rfl rfl (by simp)
        (by simp [operator.typed_toJson, typed_toJson (n := operand) h])
  | .binary operator left right, h => by
      rw [toJson]
      exact typed_object (by simp [List.lookup]) rfl rfl (by simp)
        (by simp [operator.typed_toJson, typed_toJson h.1, typed_toJson h.2])
  | .choice condition whenTrue whenFalse, h => by
      rw [toJson]
      exact typed_object (by simp [List.lookup]) rfl rfl (by simp)
        (by simp [typed_toJson h.1, typed_toJson h.2.1, typed_toJson h.2.2])
  | .whileLoop condition body, h => by
      rw [toJson]
      exact typed_object (by simp [List.lookup]) rfl rfl (by simp)
        (by simp [typed_toJson h.1, typed_toJson h.2])
  | .forLoop initialization condition update body, h => by
      rw [toJson]
      exact typed_object (by simp [List.lookup]) rfl rfl (by simp)
        (by simp [typed_toJson h.1, typed_toJson h.2.1, typed_toJson h.2.2.1,
          typed_toJson h.2.2.2])

/-- Trees that hold values are written as typed documents, one by one. -/
theorem typed_toItems : ∀ {ns : List Node}, HoldsValuesAll ns → (Json.list (toItems ns)).Typed
  | [], _ => by
      rw [toItems]
      exact .list (by simp)
  | n :: ns, h => by
      rw [toItems]
      cases typed_toItems h.2 with
      | list hitems => exact .list (List.forall_mem_cons.mpr ⟨typed_toJson h.1, hitems⟩)

end

/-! ## Programs -/

theorem holdsValuesAll_iff {ns : List Node} : HoldsValuesAll ns ↔ ∀ n ∈ ns, n.HoldsValues := by
  induction ns with
  | nil => simp [HoldsValuesAll]
  | cons n ns ih => rw [HoldsValuesAll, ih, List.forall_mem_cons]

theorem holdsValues_reference (name : String) : (Node.reference name).HoldsValues := trivial

/-- A part that is absent holds no terminals. -/
theorem holdsValues_optional {n : Node} (h : n ≠ .absent → n.HoldsValues) : n.HoldsValues := by
  by_cases ha : n = .absent
  · exact ha ▸ trivial
  · exact h ha

variable {L : Value → Prop} {n : Node}

/-- An expression holds values, for its only terminals are literals. -/
theorem IsExpression.holdsValues (h : n.IsExpression L) : n.HoldsValues := by
  induction h with
  | @literal v _ => exact ⟨v, rfl⟩
  | reference name => exact holdsValues_reference name
  | call _ _ ih => exact ⟨holdsValuesAll_iff.mpr ih, trivial⟩
  | unary _ _ ih => exact ih
  | binary _ _ _ ihl ihr => exact ⟨ihl, ihr⟩

/-- …and so does a statement. -/
theorem IsStatement.holdsValues (h : n.IsStatement L) : n.HoldsValues := by
  induction h with
  | expression h => exact h.holdsValues
  | declaration name => exact holdsValues_reference name
  | definition name _ h => exact ⟨holdsValues_reference name, h.holdsValues⟩
  | function _ hp _ ih =>
    refine ⟨holdsValuesAll_iff.mpr fun p hmem => ?_, holdsValuesAll_iff.mpr ih⟩
    obtain ⟨x, rfl⟩ := hp p hmem
    exact holdsValues_reference x
  | returnVoid _ => exact ⟨.void, rfl⟩
  | returnValue _ h => exact h.holdsValues
  | choice hc _ iht => exact ⟨hc.holdsValues, holdsValuesAll_iff.mpr iht, trivial⟩
  | choiceElse hc _ _ iht ihf =>
    exact ⟨hc.holdsValues, holdsValuesAll_iff.mpr iht, holdsValuesAll_iff.mpr ihf⟩
  | choiceChain hc _ _ iht ihf => exact ⟨hc.holdsValues, holdsValuesAll_iff.mpr iht, ihf⟩
  | whileLoop hc _ ih => exact ⟨hc.holdsValues, holdsValuesAll_iff.mpr ih⟩
  | forLoop _ hc hu _ ihi ih =>
    exact ⟨holdsValues_optional ihi, holdsValues_optional fun ha => (hc ha).holdsValues,
      holdsValues_optional fun ha => (hu ha).holdsValues, holdsValuesAll_iff.mpr ih⟩

theorem IsProgram.holdsValues (h : n.IsProgram L) : n.HoldsValues := by
  obtain ⟨h⟩ := h
  exact holdsValuesAll_iff.mpr fun n hn => (h n hn).holdsValues

end Node

/-- **The text of a parsed program's document holds a typed document.** -/
theorem typedText_of_parseSource {source : String} {tokens : List Token} {program : Node}
    (h : parseSource source = .ok (tokens, program)) :
    Json.TypedText program.toJson.pretty :=
  .of_read (read_pretty_of_parseSource h)
    (Node.typed_toJson (isProgram_of_parseSource h).holdsValues)

end Scrawl
