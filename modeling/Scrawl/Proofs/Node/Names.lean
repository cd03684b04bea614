import Scrawl.Machine.Run

/-!
# Proofs/Node/Names — the names of variables in a tree

`n.Names N` says that every variable and parameter in a tree has a name in `N`.  What a tree calls,
and what it defines as a function, has names of another kind: they do not count.
-/

namespace Scrawl

namespace Node

mutual

/-- **The names that occur in a tree as variables or parameters.** -/
def variableNames : Node → List String
  | .absent | .value _ => []
  | .block statements => variableNamesAll statements
  | .variable name initializer _ => name :: initializer.variableNames
  | .function _ parameters body isDefinition =>
    (if isDefinition then parameters.filterMap name? else []) ++
      (variableNamesAll parameters ++ body.variableNames)
  | .terminal content => content.variableNames
  | .unary _ operand => operand.variableNames
  | .binary _ left right => left.variableNames ++ right.variableNames
  | .choice condition whenTrue whenFalse =>
    condition.variableNames ++ (whenTrue.variableNames ++ whenFalse.variableNames)
  | .whileLoop condition body => condition.variableNames ++ body.variableNames
  | .forLoop initialization condition update body =>
    initialization.variableNames ++
      (condition.variableNames ++ (update.variableNames ++ body.variableNames))

/-- The names in trees, one after the other. -/
def variableNamesAll : List Node → List String
  | [] => []
  | n :: rest => n.variableNames ++ variableNamesAll rest

end

/-- **Every variable or parameter of a tree has a name of a class.** -/
def Names (N : String → Prop) (n : Node) : Prop := ∀ x ∈ n.variableNames, N x

end Node

/-- The parameters of a function have names of a class, and all variables of its body. -/
structure Definition.Names (N : String → Prop) (d : Definition) : Prop where
  parameters : ∀ p ∈ d.parameters, ∀ x ∈ p.name?, N x
  body : d.body.Names N

namespace Node

variable {N : String → Prop}

/-- The names of nodes are those of each. -/
theorem forall_mem_variableNamesAll {ns : List Node} :
    (∀ x ∈ variableNamesAll ns, N x) ↔ ∀ n ∈ ns, n.Names N := by
  induction ns with
  | nil => simp [variableNamesAll]
  | cons n ns ih =>
    rw [variableNamesAll, List.forall_mem_append, ih, List.forall_mem_cons]
    rfl

theorem names_absent : Node.absent.Names N := by
  intro x hx
  cases hx

theorem names_block {ns : List Node} : (Node.block ns).Names N ↔ ∀ n ∈ ns, n.Names N :=
  forall_mem_variableNamesAll

theorem names_variable {name : String} {initializer : Node} {isDefinition : Bool} :
    (Node.variable name initializer isDefinition).Names N ↔ N name ∧ initializer.Names N :=
  List.forall_mem_cons

theorem names_unary {operator : Token} {operand : Node} :
    (Node.unary operator operand).Names N ↔ operand.Names N := .rfl

theorem names_binary {operator : Token} {left right : Node} :
    (Node.binary operator left right).Names N ↔ left.Names N ∧ right.Names N :=
  List.forall_mem_append

theorem names_choice {condition whenTrue whenFalse : Node} :
    (Node.choice condition whenTrue whenFalse).Names N ↔
      condition.Names N ∧ whenTrue.Names N ∧ whenFalse.Names N :=
  List.forall_mem_append.trans (and_congr .rfl List.forall_mem_append)

theorem names_whileLoop {condition body : Node} :
    (Node.whileLoop condition body).Names N ↔ condition.Names N ∧ body.Names N :=
  List.forall_mem_append

theorem names_forLoop {initialization condition update body : Node} :
    (Node.forLoop initialization condition update body).Names N ↔
      initialization.Names N ∧ condition.Names N ∧ update.Names N ∧ body.Names N :=
  List.forall_mem_append.trans (and_congr .rfl (List.forall_mem_append.trans
    (and_congr .rfl List.forall_mem_append)))

/-- The names of a function are those of its parameters, if they are defined there, and of its
parts. -/
theorem names_function {name : String} {parameters : List Node} {body : Node}
    {isDefinition : Bool} : (Node.function name parameters body isDefinition).Names N ↔
      (∀ x ∈ if isDefinition then parameters.filterMap name? else [], N x) ∧
        (∀ n ∈ parameters, n.Names N) ∧ body.Names N :=
  List.forall_mem_append.trans (and_congr .rfl (List.forall_mem_append.trans
    (and_congr forall_mem_variableNamesAll .rfl)))

/-- All names are of a class that leaves none out. -/
theorem names_of_forall (n : Node) (h : ∀ x, N x) : n.Names N := fun x _ => h x

/-- The arguments of a call. -/
theorem Names.arguments {name : String} {arguments : List Node} {body : Node} {isDefinition : Bool}
    (h : (Node.function name arguments body isDefinition).Names N) :
    ∀ n ∈ arguments, n.Names N := (names_function.mp h).2.1

/-- A definition leaves a function over the same names. -/
theorem Names.definition {name : String} {parameters : List Node} {body : Node}
    (h : (Node.function name parameters body true).Names N) :
    Definition.Names N ⟨parameters, body⟩ := by
  obtain ⟨hparameters, -, hbody⟩ := names_function.mp h
  exact ⟨fun p hp x hx => hparameters x (List.mem_filterMap.mpr ⟨p, hp, hx⟩), hbody⟩

/-- The variable that a node refers to. -/
theorem Names.referenced {n : Node} (h : n.Names N) {x : String} (hx : n.referenced? = some x) :
    N x := by
  unfold referenced? at hx
  split at hx
  · cases hx
    exact (names_variable.mp h).1
  · cases hx

/-- What an initializer assigns has no names but those of the initializer. -/
theorem Names.assigned {n right : Node} (h : n.Names N) (hr : n.assigned? = some right) :
    right.Names N := by
  unfold assigned? at hr
  split at hr
  · split at hr
    · cases hr
      exact (names_binary.mp h).2
    · cases hr
  · cases hr

end Node

theorem Definition.names_of_forall {N : String → Prop} (d : Definition) (h : ∀ x, N x) :
    d.Names N := ⟨fun _ _ x _ => h x, d.body.names_of_forall h⟩

end Scrawl
