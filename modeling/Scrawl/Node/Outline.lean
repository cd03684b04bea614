import Scrawl.Fault

/-!
# Node/Outline — labels, children and the drawn tree

The **outline** of a node keeps the labels and the order of the children and forgets the rest.  It
is drawn a node a line: each line shows its label behind the branches that lead to it, a corner
marking the last child.  Drawing goes down a tree level by level, and may be limited in how far it
goes.
-/

namespace Scrawl

namespace Node

/-- **The label of a node.** -/
def label : Node → Except Fault String
  | .block _ => .ok "block"
  | .variable name _ isDefinition => .ok (if isDefinition then "var " ++ name else name)
  | .function name _ _ isDefinition =>
    .ok (if isDefinition then "function " ++ name else name ++ "()")
  | .terminal (.value (.string s)) => .ok ("\"" ++ s ++ "\"")
  | .terminal (.value v) =>
    (Fault.ofNumber v.write).map fun text => if text = "" then v.sort.name else text
  | .terminal content => .error (.lacking content.shape .text)
  | .unary operator _ => .ok operator.lexeme
  | .binary operator _ _ => .ok operator.lexeme
  | .choice .. => .ok "if"
  | .whileLoop .. => .ok "while"
  | .forLoop .. => .ok "for"
  | .absent => .error (.lacking .absent .label)
  | .value v => .error (.lacking (.value v.sort) .label)

/-- A child that may be absent, as a list. -/
def optional (n : Node) : List Node := if n.isPresent then [n] else []

/-- **The children of a node**, in source order. -/
def children : Node → Except Fault (List Node)
  | .block statements => .ok statements
  | .variable _ initializer _ => .ok initializer.optional
  | .function _ parameters body _ => .ok (parameters ++ body.optional)
  | .terminal _ => .ok []
  | .unary _ operand => .ok [operand]
  | .binary _ left right => .ok [left, right]
  | .choice condition whenTrue whenFalse => .ok (condition :: whenTrue :: whenFalse.optional)
  | .whileLoop condition body => .ok [condition, body]
  | .forLoop initialization condition update body =>
    .ok (initialization.optional ++ condition.optional ++ update.optional ++ body.optional)
  | .absent => .error (.unexpected .listing .absent)
  | .value v => .error (.unexpected .listing (.value v.sort))

end Node

/-- **A labelled ordered tree.** -/
inductive Outline where
  | node (label : String) (children : List Outline)
deriving Inhabited

namespace Outline

/-- The outline of a child that may be absent. -/
def ofOptional (n : Node) (outline : Except Fault Outline) : Except Fault (List Outline) :=
  if n.isPresent then outline.map ([·]) else .ok []

mutual

/-- **The outline of a node**; it fails at the first node, in drawing order, without a label. -/
def ofNode : Node → Except Fault Outline
  | n@(.block statements) => do return .node (← n.label) (← ofNodes statements)
  | n@(.variable _ initializer _) => do
    return .node (← n.label) (← ofOptional initializer (ofNode initializer))
  | n@(.function _ parameters body _) => do
    return .node (← n.label) ((← ofNodes parameters) ++ (← ofOptional body (ofNode body)))
  | n@(.terminal _) => do return .node (← n.label) []
  | n@(.unary _ operand) => do return .node (← n.label) [← ofNode operand]
  | n@(.binary _ left right) => do return .node (← n.label) [← ofNode left, ← ofNode right]
  | n@(.choice condition whenTrue whenFalse) => do
    return .node (← n.label) ((← ofNode condition) :: (← ofNode whenTrue) ::
      (← ofOptional whenFalse (ofNode whenFalse)))
  | n@(.whileLoop condition body) => do
    return .node (← n.label) [← ofNode condition, ← ofNode body]
  | n@(.forLoop initialization condition update body) => do
    return .node (← n.label) ((← ofOptional initialization (ofNode initialization)) ++
      (← ofOptional condition (ofNode condition)) ++ (← ofOptional update (ofNode update)) ++
      (← ofOptional body (ofNode body)))
  | .absent => .error (.lacking .absent .label)
  | .value v => .error (.lacking (.value v.sort) .label)

/-- The outlines of nodes, in order. -/
def ofNodes : List Node → Except Fault (List Outline)
  | [] => .ok []
  | n :: rest => do return (← ofNode n) :: (← ofNodes rest)

end

/-! ## Drawing -/

/-- In front of the label of a child that has a sibling behind it, or has none. -/
def pointer (hasNext : Bool) : String := if hasNext then "├── " else "└── "

/-- In front of the lines below such a child. -/
def beside (hasNext : Bool) : String := if hasNext then "│   " else "    "

mutual

/-- The lines of a child and of what is below it; the padding stands in front of them all. -/
def branch (padding : String) (hasNext : Bool) : Outline → List String
  | .node label children =>
    (padding ++ pointer hasNext ++ label) :: branches (padding ++ beside hasNext) children

/-- The lines of all children of a node. -/
def branches (padding : String) : List Outline → List String
  | [] => []
  | child :: rest => branch padding (!rest.isEmpty) child ++ branches padding rest

end

/-- The lines of a drawing. -/
def lines : Outline → List String
  | .node label children => label :: branches "" children

/-- **The drawing of an outline.** -/
def draw (t : Outline) : String := "\n".intercalate t.lines

end Outline

namespace Node

/-- **The drawing of a node.** -/
def draw (n : Node) : Except Fault String := (Outline.ofNode n).map Outline.draw

mutual

/-- **How many levels a tree has.** -/
def levels : Node → Nat
  | .absent => 0
  | .value _ | .terminal _ => 1
  | .block statements => levelsOf statements + 1
  | .variable _ initializer _ => levels initializer + 1
  | .function _ parameters body _ => max (levelsOf parameters) (levels body) + 1
  | .unary _ operand => levels operand + 1
  | .binary _ left right => max (levels left) (levels right) + 1
  | .choice condition whenTrue whenFalse =>
    max (levels condition) (max (levels whenTrue) (levels whenFalse)) + 1
  | .whileLoop condition body => max (levels condition) (levels body) + 1
  | .forLoop initialization condition update body =>
    max (max (levels initialization) (levels condition)) (max (levels update) (levels body)) + 1

/-- How many levels the trees of a list have at most. -/
def levelsOf : List Node → Nat
  | [] => 0
  | n :: rest => max (levels n) (levelsOf rest)

end

/-- **The drawing of a node with at most so many levels.** -/
def drawWithin (limit : Nat) (n : Node) : Except Fault String :=
  if limit < n.levels then .error .tooManyLevels else n.draw

end Node

end Scrawl
