import Scrawl.Json.Basic
import Scrawl.Node.Basic

/-!
# Node/Document — trees as JSON documents

`toJson` writes a tree as nested objects, each with the name of its shape; `ofJson` reads one back.
Reading is lenient about optional parts and about fields that mean nothing here, and otherwise
stops at the first thing missing or of the wrong sort.  A payload that is not of the sort it is said
to be is not taken at all.  Places of tokens are not kept.
-/

namespace Scrawl

open Decimal

/-- Why a document is no tree. -/
inductive DocumentError where
  /-- A field that has to be there is not. -/
  | missing (key : String)
  /-- A token of an unknown kind. -/
  | unknownToken (shown : String)
  /-- Something else than an object or null in place of a node. -/
  | notAnObject
  /-- Something without items in place of a list. -/
  | noItems (sort : String)
  /-- Something without fields in place of a token. -/
  | noFields (sort : String)
  /-- A text in place of a token. -/
  | textFields
  /-- A list in place of a token. -/
  | listFields
  /-- A list or an object in place of a name. -/
  | noKey (sort : String)
  /-- Something that cannot be a double. -/
  | notNumeric (sort : String)
  | unknownNode (shown : String)
  | unknownValue (shown : String)
  | number (error : NumberError)
  /-- A name or a payload that is not of the sort it is said to be. -/
  | payload (key : String)
deriving DecidableEq, Repr

/-- The wording of a document error. -/
def DocumentError.message : DocumentError → String
  | .missing key => Text.quoted key
  | .unknownToken shown => shown
  | .notAnObject => "Invalid AST object"
  | .noItems sort => s!"'{sort}' object is not iterable"
  | .noFields sort => s!"'{sort}' object is not subscriptable"
  | .textFields => "string indices must be integers, not 'str'"
  | .listFields => "list indices must be integers or slices, not str"
  | .noKey sort => s!"unhashable type: '{sort}'"
  | .notNumeric sort => s!"float() argument must be a string or a real number, not '{sort}'"
  | .unknownNode shown => "Unknown AST node type: " ++ shown
  | .unknownValue shown => "Unknown value kind: " ++ shown
  | .number error => error.message
  | .payload key => s!"payload {key} is not of its sort"

/-! ## Writing -/

/-- A value as an object. -/
def Value.toJson (v : Value) : Json :=
  let payload : List (String × Json) := match v with
    | .int n => [("value", .int n)]
    | .float x => [("value", .float x)]
    | .string s => [("value", .text s)]
    | .bool b => [("value", .bool b)]
    | .void => []
  .object ([("__type__", .text "Value"), ("kind", .text v.sort.name)] ++ payload)

/-- A token as an object. -/
def Token.toJson (t : Token) : Json :=
  .object [("kind", .text t.kind.name), ("lexeme", .text t.lexeme)]

namespace Node

mutual

/-- **A tree as a document.** -/
def toJson : Node → Json
  | .absent => .null
  | .value v => v.toJson
  | .block statements => .object [
      ("type", .text "Block"), ("statements", .list (toItems statements))]
  | .variable name initializer isDefinition => .object [
      ("type", .text "Variable"), ("identifier", .text name), ("initializer", toJson initializer),
      ("is_definition", .bool isDefinition)]
  | .function name parameters body isDefinition => .object [
      ("type", .text "Function"), ("identifier", .text name),
      ("parameters", .list (toItems parameters)), ("body", toJson body),
      ("is_definition", .bool isDefinition)]
  | .terminal content => .object [("type", .text "Terminal"), ("value", toJson content)]
  | .unary operator operand => .object [
      ("type", .text "Unary"), ("token", operator.toJson), ("child", toJson operand)]
  | .binary operator left right => .object [
      ("type", .text "Binary"), ("token", operator.toJson), ("left", toJson left),
      ("right", toJson right)]
  | .choice condition whenTrue whenFalse => .object [
      ("type", .text "If"), ("condition", toJson condition), ("true_body", toJson whenTrue),
      ("false_body", toJson whenFalse)]
  | .whileLoop condition body => .object [
      ("type", .text "While"), ("condition", toJson condition), ("body", toJson body)]
  | .forLoop initialization condition update body => .object [
      ("type", .text "For"), ("initialization", toJson initialization),
      ("condition", toJson condition), ("update", toJson update), ("body", toJson body)]

/-- Trees as the items of a list. -/
def toItems : List Node → List Json
  | [] => []
  | n :: rest => toJson n :: toItems rest

end

end Node

/-! ## Reading -/

namespace Document

/-- The fields of an object. -/
abbrev Fields := List (String × Json)

/-- A field that has to be there. -/
def require (fields : Fields) (key : String) : Except DocumentError Json :=
  match fields.lookup key with
  | some v => .ok v
  | none => .error (.missing key)

/-- A text that has to be there. -/
def requireText (fields : Fields) (key : String) : Except DocumentError String := do
  match ← require fields key with
  | .text s => .ok s
  | _ => .error (.payload key)

/-- Whether a field is there and counts as true. -/
def flag (fields : Fields) (key : String) : Bool := (fields.lookup key).any Json.truthy

/-- A double from a number, a truth value or a text. -/
def toFloat : Json → Except DocumentError Float
  | .float x => .ok x
  | .int n =>
    match Double.ofInt? n with
    | some x => .ok x
    | none => .error (.number .tooLargeForFloat)
  | .bool b => .ok (if b then 1 else 0)
  | .text s =>
    match readFloat s with
    | .ok x => .ok x
    | .error e => .error (.number e)
  | j => .error (.notNumeric j.sort)

/-- **The value that an object stands for.** -/
def toValue (fields : Fields) : Except DocumentError Value := do
  match ← require fields "kind" with
  | .text "void" => .ok .void
  | .text "int" =>
    match ← require fields "value" with
    | .int n => .ok (.int n)
    | _ => .error (.payload "value")
  | .text "float" => return .float (← toFloat (← require fields "value"))
  | .text "string" => return .string (← requireText fields "value")
  | .text "bool" =>
    match ← require fields "value" with
    | .bool b => .ok (.bool b)
    | _ => .error (.payload "value")
  | .list _ => .error (.noKey "list")
  | .object _ => .error (.noKey "dict")
  | kind => .error (.unknownValue kind.bareDisplay)

/-- A token kind from its name. -/
def toKind : Json → Except DocumentError Kind
  | .text name =>
    match Kind.ofName? name with
    | some kind => .ok kind
    | none => .error (.unknownToken (Text.quoted name))
  | .list _ => .error (.noKey "list")
  | .object _ => .error (.noKey "dict")
  | j => .error (.unknownToken j.display)

/-- **The token that a document stands for.** -/
def toToken : Json → Except DocumentError Token
  | .object fields => do
    let kind ← toKind (← require fields "kind")
    return ⟨kind, ← requireText fields "lexeme", .none⟩
  | .text _ => .error .textFields
  | .list _ => .error .listFields
  | j => .error (.noFields j.sort)

/-- A field of an object, which is smaller than the fields. -/
def field? : (fields : Fields) → String → Option { v : Json // sizeOf v < sizeOf fields }
  | [], _ => none
  | (name, value) :: rest, key =>
    if key == name then some ⟨value, by simp; omega⟩
    else (field? rest key).map fun ⟨v, h⟩ => ⟨v, by simp; omega⟩

@[simp] theorem field?_map_val (fields : Fields) (key : String) :
    (field? fields key).map (·.1) = fields.lookup key := by
  induction fields with
  | nil => rfl
  | cons entry rest ih =>
    obtain ⟨name, value⟩ := entry
    simp only [field?, List.lookup_cons]
    cases h : key == name <;> simp [← ih, Function.comp_def]

end Document

namespace Node

open Document

mutual

/-- **The tree that a document stands for.** -/
def ofJson (j : Json) : Except DocumentError Node :=
  match j with
  | .null => .ok .absent
  | .object fields =>
    let child (key : String) : Except DocumentError Node :=
      match field? fields key with
      | none => .error (.missing key)
      | some ⟨v, _⟩ => ofJson v
    let optionalChild (key : String) : Except DocumentError Node :=
      match field? fields key with
      | none => .ok .absent
      | some ⟨v, _⟩ => ofJson v
    let children (key : String) : Except DocumentError (List Node) :=
      match field? fields key with
      | none => .error (.missing key)
      | some ⟨v, _⟩ => ofList v
    match fields.lookup "__type__" with
    | some (.text "Value") => (toValue fields).map .value
    | _ =>
      match fields.lookup "type" with
      | some (.text "Block") => do return .block (← children "statements")
      | some (.text "Variable") => do
        return .variable (← requireText fields "identifier") (← optionalChild "initializer")
          (flag fields "is_definition")
      | some (.text "Function") => do
        return .function (← requireText fields "identifier") (← children "parameters")
          (← optionalChild "body") (flag fields "is_definition")
      | some (.text "Terminal") => do return .terminal (← child "value")
      | some (.text "Unary") => do
        return .unary (← toToken (← require fields "token")) (← child "child")
      | some (.text "Binary") => do
        return .binary (← toToken (← require fields "token")) (← child "left") (← child "right")
      | some (.text "If") => do
        return .choice (← child "condition") (← child "true_body") (← optionalChild "false_body")
      | some (.text "While") => do return .whileLoop (← child "condition") (← child "body")
      | some (.text "For") => do
        return .forLoop (← optionalChild "initialization") (← optionalChild "condition")
          (← optionalChild "update") (← child "body")
      | other => .error (.unknownNode (other.getD .null).bareDisplay)
  | _ => .error .notAnObject
termination_by sizeOf j

/-- The trees in a list.  A text and an object have items too, which are no nodes. -/
def ofList (j : Json) : Except DocumentError (List Node) :=
  match j with
  | .list items => ofItems items
  | .text s => if s = "" then .ok [] else .error .notAnObject
  | .object fields => if fields.isEmpty then .ok [] else .error .notAnObject
  | j => .error (.noItems j.sort)
termination_by sizeOf j

/-- The trees of a list's items. -/
def ofItems (items : List Json) : Except DocumentError (List Node) :=
  match items with
  | [] => .ok []
  | item :: rest => do return (← ofJson item) :: (← ofItems rest)
termination_by sizeOf items

end

end Node

end Scrawl
