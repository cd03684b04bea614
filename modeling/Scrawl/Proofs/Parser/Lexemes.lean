import Scrawl.Proofs.Expression.Items
import Scrawl.Proofs.Parser.Correspondence

/-!
# Proofs/Parser/Lexemes — names and operators are lexemes

The parser makes up no names and no operators: each one in a tree is the lexeme of a token, and not
of a string literal.  So what holds of those lexemes holds of the whole tree (`spelled_of_parse`).

What has to be shown is that each way of making a tree from tokens and trees keeps to the class
(`Parser.Correspondence.spelled`).
-/

namespace Scrawl

/-- **Every name and every operator of a tree is in a class.** -/
inductive Node.Spelled (P : String → Prop) : Node → Prop
  | absent : Spelled P .absent
  | literal (v : Value) : Spelled P (.literal v)
  | variable {name : String} {initializer : Node} {isDefinition : Bool} (hname : P name)
      (h : Spelled P initializer) : Spelled P (.variable name initializer isDefinition)
  | function {name : String} {parameters : List Node} {body : Node} {isDefinition : Bool}
      (hname : P name) (hp : ∀ p ∈ parameters, Spelled P p) (hb : Spelled P body) :
      Spelled P (.function name parameters body isDefinition)
  | unary {operator : Token} {operand : Node} (hop : P operator.lexeme)
      (h : Spelled P operand) : Spelled P (.unary operator operand)
  | binary {operator : Token} {left right : Node} (hop : P operator.lexeme)
      (hl : Spelled P left) (hr : Spelled P right) : Spelled P (.binary operator left right)
  | block {statements : List Node} (h : ∀ n ∈ statements, Spelled P n) :
      Spelled P (.block statements)
  | choice {condition whenTrue whenFalse : Node} (hc : Spelled P condition)
      (ht : Spelled P whenTrue) (hf : Spelled P whenFalse) :
      Spelled P (.choice condition whenTrue whenFalse)
  | whileLoop {condition body : Node} (hc : Spelled P condition) (hb : Spelled P body) :
      Spelled P (.whileLoop condition body)
  | forLoop {initialization condition update body : Node} (hi : Spelled P initialization)
      (hc : Spelled P condition) (hu : Spelled P update) (hb : Spelled P body) :
      Spelled P (.forLoop initialization condition update body)

/-- The lexeme of a token is in a class, unless it is a string literal. -/
def Token.Spelled (P : String → Prop) (t : Token) : Prop := t.kind ≠ .string → P t.lexeme

variable {P : String → Prop}

theorem Token.Spelled.name {t : Token} (h : t.Spelled P) (hk : t.kind = .identifier) :
    P t.lexeme := h (by rw [hk]; decide)

/-! ## Expressions -/

namespace Grove

/-- All trees of a grove are spelled in a class. -/
structure Spelled (P : String → Prop) (g : Grove) : Prop where
  stack : ∀ n ∈ g.stack, n.Spelled P
  queue : ∀ n ∈ g.queue, n.Spelled P

variable {g g' : Grove} {t : Token}

/-- A step of the tree builder puts operators on trees, and makes up neither. -/
theorem Spelled.step (h : g.Spelled P) (ht : t.Spelled P) (hs : g.step t = .ok g') :
    g'.Spelled P := by
  rcases step_cases hs with ⟨n, queue, hq, rfl⟩ | ⟨v, -, -, -, rfl⟩ | ⟨ho, -, hop⟩
  · obtain ⟨hn, hqueue⟩ := List.forall_mem_cons.mp (hq ▸ h.queue)
    exact ⟨List.forall_mem_cons.mpr ⟨hn, h.stack⟩, hqueue⟩
  · exact ⟨List.forall_mem_cons.mpr ⟨.literal v, h.stack⟩, h.queue⟩
  -- A string literal is an operand, so an operator is none.
  have hlexeme : P t.lexeme := ht fun hk => ho (by rw [hk]; rfl)
  rcases hop with ⟨n, stack, -, hstack, rfl⟩ | ⟨left, right, stack, -, hstack, rfl⟩
  · obtain ⟨hn, hrest⟩ := List.forall_mem_cons.mp (hstack ▸ h.stack)
    exact ⟨List.forall_mem_cons.mpr ⟨.unary hlexeme hn, hrest⟩, h.queue⟩
  · obtain ⟨hr, hrest⟩ := List.forall_mem_cons.mp (hstack ▸ h.stack)
    obtain ⟨hl, hrest⟩ := List.forall_mem_cons.mp hrest
    exact ⟨List.forall_mem_cons.mpr ⟨.binary hlexeme hl hr, hrest⟩, h.queue⟩

end Grove

/-- **A tree built from tokens and operands is spelled** as they are. -/
theorem spelled_of_buildTree {tokens : List Token} {operands rest : List Node} {n : Node}
    (ht : ∀ t ∈ tokens, t.Spelled P) (ho : ∀ a ∈ operands, a.Spelled P)
    (h : buildTree tokens operands = .ok (n, rest)) : n.Spelled P := by
  obtain ⟨g, hg, h⟩ := exists_of_bind_eq_ok h
  obtain ⟨m, hfinish, h⟩ := exists_of_bind_eq_ok h
  obtain rfl : m = n := congrArg Prod.fst (Except.ok.inj h)
  have hspelled : g.Spelled P :=
    foldlM_ok_induction (fun t htt _ _ hb hs => hb.step (ht t htt) hs) ⟨by simp, ho⟩ hg
  rcases Grove.finish_cases hfinish with ⟨-, rfl⟩ | hstack
  · exact .absent
  · exact hspelled.stack m (by simp [hstack])

namespace Scan

/-- All tokens and nodes of a scan are spelled in a class. -/
structure Spelled (P : String → Prop) (s : Scan) : Prop where
  recent : ∀ t ∈ s.recent, t.Spelled P
  nodes : ∀ n ∈ s.nodes, n.Spelled P

variable {s s' : Scan} {t : Token}

theorem Spelled.operand (h : s.Spelled P) (ht : t.Spelled P) {n : Node} (hn : n.Spelled P) :
    (s.operand t n).Spelled P where
  recent := List.forall_mem_cons.mpr ⟨ht, h.recent⟩
  nodes := List.forall_mem_cons.mpr ⟨hn, h.nodes⟩

/-- A token that is taken in keeps its spelling, also where a minus becomes a sign. -/
theorem Spelled.push (h : s.Spelled P) (ht : t.Spelled P) (hs : s.push t = .ok s') :
    s'.Spelled P := by
  have hcons {u : Token} (hu : u.Spelled P) : ∀ u' ∈ u :: s.recent, u'.Spelled P :=
    List.forall_mem_cons.mpr ⟨hu, h.recent⟩
  rcases push_cases hs with ⟨-, rfl⟩ | ⟨-, rfl⟩ | ⟨-, -, -, ⟨hk, -, rfl⟩ | ⟨-, rfl⟩⟩
  · exact ⟨hcons ht, h.nodes⟩
  · exact ⟨hcons ht, h.nodes⟩
  · exact ⟨hcons fun _ => ht (by rw [hk]; decide), h.nodes⟩
  · exact ⟨hcons ht, h.nodes⟩

/-- The tree of what was scanned is spelled as what was scanned. -/
theorem Spelled.tree (h : s.Spelled P) {n : Node} (hn : s.tree = .ok n) : n.Spelled P := by
  unfold Scan.tree at hn
  split at hn
  · obtain rfl := Except.ok.inj hn
    exact .absent
  · obtain ⟨reordered, hpost, hn⟩ := exists_of_bind_eq_ok hn
    obtain ⟨⟨m, rest⟩, htree, hn⟩ := exists_of_bind_eq_ok hn
    obtain rfl : m = n := Except.ok.inj hn
    refine spelled_of_buildTree (fun t ht => ?_) (by simpa using h.nodes) htree
    exact h.recent t (List.mem_reverse.mp ((mem_toPostfix hpost).mp ht).1)

end Scan

/-! ## Parsers -/

/-- All tokens from a place on are spelled in a class, the end of the input included. -/
structure Cursor.Spelled (P : String → Prop) (c : Cursor) : Prop where
  rest : ∀ t ∈ c.rest, t.Spelled P
  finish : c.finish.Spelled P

namespace Cursor.Spelled

variable {c : Cursor}

/-- Behind the last token stands the one that marks the end, which is spelled too. -/
theorem ahead (h : c.Spelled P) (offset : Nat) : (c.ahead offset).Spelled P := by
  rw [Cursor.ahead]
  cases hrest : c.rest[offset]? with
  | none => exact h.finish
  | some t => exact h.rest t (List.mem_of_getElem? hrest)

theorem next (h : c.Spelled P) : c.next.Spelled P :=
  ⟨fun t ht => h.rest t (List.mem_of_mem_drop ht), h.finish⟩

end Cursor.Spelled

namespace Parser

/-- **Tokens and trees that are spelled in a class correspond to themselves.** -/
def Correspondence.spelled (P : String → Prop) : Correspondence :=
  { equal with
    token := fun t t' => t = t' ∧ t.Spelled P
    cursor := fun c c' => c = c' ∧ c.Spelled P
    scan := fun s s' => s = s' ∧ s.Spelled P
    expression := fun n n' => n = n' ∧ n.Spelled P
    statement := fun n n' => n = n' ∧ n.Spelled P
    block := fun n n' => n = n' ∧ n.Spelled P
    choice := fun n n' => n = n' ∧ n.Spelled P
    kind_eq := by rintro _ _ ⟨rfl, -⟩; rfl
    lexeme_eq := by rintro _ _ ⟨rfl, -⟩; rfl
    ahead := by rintro _ _ ⟨rfl, hc⟩ offset; exact ⟨rfl, hc.ahead offset⟩
    isEmpty_eq := by rintro _ _ ⟨rfl, -⟩; rfl
    next := by rintro _ _ ⟨rfl, hc⟩; exact ⟨rfl, hc.next⟩
    unmet := by rintro _ _ _ ⟨rfl, -⟩; rfl
    misplaced := by rintro _ _ _ ⟨rfl, -⟩; rfl
    empty := ⟨rfl, List.forall_mem_nil _, List.forall_mem_nil _⟩
    depth_eq := by rintro _ _ ⟨rfl, -⟩; rfl
    operand := by
      rintro s _ t _ n _ ⟨rfl, hs⟩ ⟨rfl, ht⟩ hk ⟨rfl, hn⟩ -
      have hmarked : Token.Spelled P { t with kind := .functionWord } := fun _ => ht.name hk
      exact ⟨⟨rfl, hs.operand ht hn⟩, rfl, hs.operand hmarked hn⟩
    push := by
      rintro s _ t _ ⟨rfl, hs⟩ ⟨rfl, ht⟩ -
      exact .refl (fun _ _ => rfl) fun _ hpush => ⟨rfl, hs.push ht hpush⟩
    tree := by
      rintro s _ ⟨rfl, hs⟩
      exact .refl (fun _ _ => rfl) fun _ hn => ⟨rfl, hs.tree hn⟩
    isPresent_expression := by rintro _ _ ⟨rfl, -⟩; rfl
    isPresent_statement := by rintro _ _ ⟨rfl, -⟩; rfl
    referenced?_eq := by rintro _ _ ⟨rfl, -⟩; rfl
    defines_eq := by rintro _ _ ⟨rfl, -⟩ _; rfl
    reference := fun ht hk => ⟨rfl, .variable (ht.2.name hk) .absent⟩
    call := by
      rintro t _ ns ns' ⟨rfl, ht⟩ hk hns
      obtain ⟨rfl, hall⟩ := eq_of_forall₂ (fun _ _ h => h.1.1) hns
      exact ⟨rfl, .function (ht.name hk) (fun n hn => (hall n hn).1.2) .absent⟩
    of_expression := id
    of_choice := id
    blockOf := by
      intro ns ns' hns
      obtain ⟨rfl, hall⟩ := eq_of_forall₂ (fun _ _ h => h.1.1) hns
      exact ⟨rfl, .block fun n hn => (hall n hn).1.2⟩
    choiceOf := by
      rintro c _ t _ f f' ⟨rfl, hc⟩ - ⟨rfl, ht⟩ hf
      obtain ⟨rfl, hspelled⟩ : f = f' ∧ f.Spelled P := by
        rcases hf with ⟨rfl, rfl⟩ | hf | hf
        · exact ⟨rfl, .absent⟩
        · exact hf
        · exact hf
      exact ⟨rfl, .choice hc ht hspelled⟩
    whileLoop := by
      rintro c _ b _ ⟨rfl, hc⟩ - ⟨rfl, hb⟩
      exact ⟨rfl, .whileLoop hc hb⟩
    forLoop := by
      rintro i _ c _ u _ b _ ⟨rfl, hi⟩ ⟨rfl, hc⟩ ⟨rfl, hu⟩ ⟨rfl, hb⟩
      exact ⟨rfl, .forLoop hi hc hu hb⟩
    definition := by
      rintro t _ n _ ⟨rfl, ht⟩ hk ⟨rfl, hn⟩ -
      exact ⟨rfl, .variable (ht.name hk) hn⟩
    function := by
      rintro t _ ns ns' b _ ⟨rfl, ht⟩ hk hns ⟨rfl, hb⟩
      obtain ⟨rfl, hall⟩ := eq_of_forall₂ (fun _ _ h => h.1.1) hns
      exact ⟨rfl, .function (ht.name hk) (fun n hn => (hall n hn).1.2) hb⟩
    returned := by
      rintro t _ n _ ⟨rfl, ht⟩ hk ⟨rfl, hn⟩
      refine ⟨rfl, .unary (ht (by rw [hk]; decide)) ?_⟩
      split
      · exact hn
      · exact .literal .void }

end Parser

/-- **The names and operators of a program are lexemes of its tokens.** -/
theorem spelled_of_parse {tokens : List Token} {n : Node} (h : parse tokens = .ok n)
    (ht : ∀ t ∈ tokens, t.Spelled P) (hempty : P "") : n.Spelled P :=
  ((Parser.Correspondence.spelled P).block_of_parse ⟨rfl, ht, fun _ => hempty⟩ h).2

end Scrawl
