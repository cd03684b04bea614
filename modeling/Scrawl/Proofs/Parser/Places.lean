import Scrawl.Proofs.Node.Rendering
import Scrawl.Proofs.Parser.Correspondence

/-!
# Proofs/Parser/Places — a parser takes no notice of places

`unplaced` forgets where tokens stand, in a tree, an error or what a parser keeps on its way.  What
is left of something corresponds to it (`Parser.Correspondence.unplacing`), so the parser
**mirrors** itself on tokens without places (`Parser.program_unplaced`): it stops at the same token,
with the tree or the error that would have come out, without the places.  So tokens that differ only
in their places have trees that do (`parse_unplaced`).
-/

namespace Scrawl

/-! ## What a parser keeps, without places -/

/-- An error without places. -/
def ParseError.unplaced : ParseError → ParseError
  | .unmet expectation found => .unmet expectation found.unplaced
  | .misplaced complaint _ => .misplaced complaint .none
  | .notLiteral token => .notLiteral token.unplaced
  | .number error => .number error
  | .noOperandLeft => .noOperandLeft
  | .exhausted => .exhausted

/-- …a cursor. -/
def Cursor.unplaced (c : Cursor) : Cursor :=
  ⟨c.rest.map Token.unplaced, c.taken, c.finish.unplaced⟩

/-- …what was scanned of an expression. -/
def Scan.unplaced (s : Scan) : Scan :=
  ⟨s.depth, s.recent.map Token.unplaced, s.nodes.map Node.unplaced⟩

/-- …its tokens while they are reordered. -/
def Yard.unplaced (y : Yard) : Yard :=
  ⟨y.out.map Token.unplaced, y.waiting.map Token.unplaced, y.afterOperand⟩

/-- …and its trees. -/
def Grove.unplaced (g : Grove) : Grove :=
  ⟨g.stack.map Node.unplaced, g.queue.map Node.unplaced⟩

/-- **An outcome without places**, which a function takes from its value. -/
def ParseError.forget {α β : Type} (f : α → β) : Except ParseError α → Except ParseError β
  | .ok a => .ok (f a)
  | .error e => .error e.unplaced

open ParseError (forget)

section Outcomes

variable {α β γ δ : Type} {f : α → β} {g : γ → δ}

/-- Places are forgotten in a sequence where they are in both of its parts. -/
theorem forget_bind {x : Except ParseError α} {k : α → Except ParseError γ}
    {l : β → Except ParseError δ} (h : ∀ a, l (f a) = forget g (k a)) :
    (forget f x >>= l) = forget g (x >>= k) := by
  cases x with
  | error e => rfl
  | ok a => exact h a

/-- A fold forgets places where its step does. -/
theorem forget_foldlM {step : α → γ → Except ParseError α} {step' : β → δ → Except ParseError β}
    (h : ∀ a c, step' (f a) (g c) = forget f (step a c)) :
    ∀ (cs : List γ) (a : α), (cs.map g).foldlM step' (f a) = forget f (cs.foldlM step a)
  | [], a => rfl
  | c :: cs, a => by
      rw [List.map_cons, List.foldlM_cons, List.foldlM_cons, h]
      exact forget_bind fun b => forget_foldlM h cs b

end Outcomes

/-! ## Expressions -/

/-- A literal is read from the lexeme; a place comes in with the error alone. -/
theorem Token.literal_unplaced (t : Token) : t.unplaced.literal = forget id t.literal := by
  have hnumber {α : Type} (x : Except Decimal.NumberError α) (f : α → Value) :
      (ParseError.ofNumber x).map f = forget id ((ParseError.ofNumber x).map f) := by
    cases x <;> rfl
  obtain ⟨kind, lexeme, position⟩ := t
  cases kind
  case int => exact hnumber _ _
  case float => exact hnumber _ _
  all_goals rfl

namespace Yard

/-- What leaves the waiting operators is chosen by kind, so places play no part. -/
theorem release_unplaced (y : Yard) {goes : Token → Bool}
    (h : ∀ t : Token, goes t.unplaced = goes t) :
    y.unplaced.release goes = (y.release goes).unplaced := by
  have hgoes : goes ∘ Token.unplaced = goes := funext h
  simp only [release, unplaced, List.takeWhile_map, List.dropWhile_map, hgoes, List.map_append,
    List.map_reverse]

/-- One step of the reordering goes by kinds. -/
theorem step_unplaced (y : Yard) (t : Token) :
    y.unplaced.step t.unplaced = forget Yard.unplaced (y.step t) := by
  have hkind : t.unplaced.kind = t.kind := rfl
  have hafter : y.unplaced.afterOperand = y.afterOperand := rfl
  rw [step, step, hkind, hafter]
  split_ifs
  · rfl
  · rfl
  · rw [y.release_unplaced fun _ => rfl]
    generalize y.release isInside = y'
    obtain ⟨out, waiting, afterOperand⟩ := y'
    cases waiting <;> rfl
  · rfl
  · rfl
  · rw [y.release_unplaced fun _ => rfl]
    rfl

theorem finish_unplaced (y : Yard) :
    y.unplaced.finish = forget (List.map Token.unplaced) y.finish := by
  rw [finish, finish, y.release_unplaced fun _ => rfl]
  generalize y.release isInside = y'
  obtain ⟨out, waiting, afterOperand⟩ := y'
  cases waiting with
  | nil => exact congrArg Except.ok List.map_reverse.symm
  | cons t waiting => rfl

end Yard

/-- **Tokens are reordered alike without places.** -/
theorem toPostfix_unplaced (tokens : List Token) :
    toPostfix (tokens.map Token.unplaced) =
      forget (List.map Token.unplaced) (toPostfix tokens) := by
  rw [toPostfix, show Yard.empty = Yard.empty.unplaced from rfl,
    forget_foldlM Yard.step_unplaced]
  exact forget_bind Yard.finish_unplaced

namespace Grove

/-- One step of the tree builder takes as many operands without places. -/
theorem step_unplaced (g : Grove) (t : Token) :
    g.unplaced.step t.unplaced = forget Grove.unplaced (g.step t) := by
  have hkind : t.unplaced.kind = t.kind := rfl
  obtain ⟨stack, queue⟩ := g
  rw [step, step, hkind]
  split_ifs
  · cases queue <;> rfl
  · rw [Token.literal_unplaced]
    cases t.literal <;> rfl
  · cases stack <;> rfl
  · obtain _ | ⟨right, _ | ⟨left, stack⟩⟩ := stack <;> rfl

theorem finish_unplaced (tokens : List Token) (g : Grove) :
    g.unplaced.finish (tokens.map Token.unplaced) =
      forget Node.unplaced (g.finish tokens) := by
  obtain ⟨stack, queue⟩ := g
  obtain _ | ⟨n, _ | ⟨m, stack⟩⟩ := stack
  · rfl
  · rfl
  · cases tokens <;> rfl

end Grove

/-- **A tree is built alike without places.** -/
theorem buildTree_unplaced (tokens : List Token) (operands : List Node) :
    buildTree (tokens.map Token.unplaced) (operands.map Node.unplaced) =
      forget (Prod.map Node.unplaced (List.map Node.unplaced)) (buildTree tokens operands) := by
  have hstart : (⟨[], operands.map Node.unplaced⟩ : Grove) = Grove.unplaced ⟨[], operands⟩ := rfl
  rw [buildTree, hstart, forget_foldlM Grove.step_unplaced]
  refine forget_bind fun g => ?_
  rw [Grove.finish_unplaced]
  exact forget_bind fun n => rfl

namespace Scan

theorem endsOperand_unplaced (recent : List Token) :
    endsOperand (recent.map Token.unplaced) = endsOperand recent := by
  have hstep : (fun t : Token => t.kind.isStep) ∘ Token.unplaced = fun t => t.kind.isStep := rfl
  rw [endsOperand, endsOperand, List.dropWhile_map, hstep]
  cases recent.dropWhile fun t => t.kind.isStep <;> rfl

theorem push_unplaced (s : Scan) (t : Token) :
    s.unplaced.push t.unplaced = forget Scan.unplaced (s.push t) := by
  have hkind : t.unplaced.kind = t.kind := rfl
  have hends : endsOperand s.unplaced.recent = endsOperand s.recent :=
    endsOperand_unplaced s.recent
  rw [push, push, hkind, hends]
  split_ifs <;> rfl

/-- The tree of what was scanned, without places. -/
theorem tree_unplaced (s : Scan) : s.unplaced.tree = forget Node.unplaced s.tree := by
  have hempty : s.unplaced.recent.isEmpty = s.recent.isEmpty := List.isEmpty_map
  have htokens : s.unplaced.recent.reverse = s.recent.reverse.map Token.unplaced :=
    List.map_reverse.symm
  have hnodes : s.unplaced.nodes.reverse = s.nodes.reverse.map Node.unplaced :=
    List.map_reverse.symm
  rw [tree, tree, hempty, htokens, hnodes, toPostfix_unplaced]
  split_ifs
  · rfl
  · refine forget_bind fun tokens => ?_
    rw [buildTree_unplaced]
    exact forget_bind fun n => rfl

end Scan

theorem Node.defines_unplaced (n : Node) (name : String) :
    n.unplaced.defines name = n.defines name := by
  cases n with
  | binary operator left right =>
    rw [Node.unplaced, Node.defines, Node.defines, Node.referenced?_unplaced]
    rfl
  | «variable» x initializer isDefinition => cases isDefinition <;> rfl
  | _ => rfl

/-! ## Parsers that mirror others -/

namespace Cursor

theorem ahead_unplaced (c : Cursor) (offset : Nat) :
    c.unplaced.ahead offset = (c.ahead offset).unplaced := by
  rw [ahead, ahead, unplaced, List.getElem?_map]
  cases c.rest[offset]? <;> rfl

theorem isEmpty_rest_unplaced (c : Cursor) : c.unplaced.rest.isEmpty = c.rest.isEmpty :=
  List.isEmpty_map

/-- A cursor moves on alike, and counts as many tokens taken. -/
theorem next_unplaced (c : Cursor) : c.unplaced.next = c.next.unplaced := by
  rw [next, next, unplaced, unplaced, List.map_drop]

/-- Behind tokens without places, the end has none. -/
theorem ofTokens_unplaced (tokens : List Token) :
    (ofTokens tokens).unplaced = ⟨tokens.map Token.unplaced, 0, ⟨.endFile, "", .none⟩⟩ := rfl

end Cursor

namespace Parser

variable {α β : Type}

/-- **A parser mirrors another** when it does to tokens without places what the other does to the
tokens, places apart. -/
def Mirrors (f : α → β) (p : Parser α) (q : Parser β) : Prop :=
  ∀ c : Cursor, q.run c.unplaced = (forget f (p.run c).1, (p.run c).2.unplaced)

/-- Forgetting is an outcome that corresponds, with the error forgotten. -/
theorem outcomes_forget {f : α → β} (x : Except ParseError α) :
    Outcomes (fun e e' => e' = e.unplaced) (fun a b => b = f a) x (forget f x) := by
  cases x <;> rfl

/-- A relation that is the graph of a function relates a list to its image alone. -/
theorem eq_map_of_forall₂ {f : α → β} {R : α → β → Prop} (hR : ∀ ⦃a b⦄, R a b → b = f a)
    {as : List α} {bs : List β} (h : List.Forall₂ R as bs) : bs = as.map f := by
  induction h with
  | nil => rfl
  | cons hab _ ih => rw [hR hab, ih, List.map_cons]

/-- **Everything corresponds to itself without places.** -/
def Correspondence.unplacing : Correspondence where
  lenient := False
  token t t' := t' = t.unplaced
  cursor c c' := c' = c.unplaced
  error e e' := e' = e.unplaced
  scan s s' := s' = s.unplaced
  expression n n' := n' = n.unplaced
  statement n n' := n' = n.unplaced
  block n n' := n' = n.unplaced
  choice n n' := n' = n.unplaced
  kind_eq := by rintro _ _ rfl; rfl
  lexeme_eq := by rintro _ _ rfl; rfl
  ahead := by rintro c _ rfl offset; exact c.ahead_unplaced offset
  isEmpty_eq := by rintro c _ rfl; exact c.isEmpty_rest_unplaced
  next := by rintro c _ rfl; exact c.next_unplaced
  exhausted := rfl
  unmet := by rintro _ _ _ rfl; rfl
  misplaced := by rintro _ _ _ rfl; rfl
  empty := rfl
  depth_eq := by rintro _ _ rfl; rfl
  operand := by rintro _ _ _ _ _ _ rfl rfl - rfl -; exact ⟨rfl, rfl⟩
  push := by
    rintro s _ t _ rfl rfl -
    rw [s.push_unplaced]
    exact outcomes_forget _
  tree := by
    rintro s _ rfl
    rw [s.tree_unplaced]
    exact outcomes_forget _
  isPresent_expression := by rintro n _ rfl; exact n.isPresent_unplaced
  isPresent_statement := by rintro n _ rfl; exact n.isPresent_unplaced
  referenced?_eq := by rintro n _ rfl; exact n.referenced?_unplaced
  defines_eq := by rintro n _ rfl name; exact n.defines_unplaced name
  reference _ _ := rfl
  call := by
    intro t _ ns ns' _ _ hns
    rw [eq_map_of_forall₂ (fun _ _ h => h.1) hns, Node.call, Node.call, Node.unplaced,
      Node.unplacedAll_eq_map]
    rfl
  of_expression := id
  of_choice := id
  blockOf := by
    intro ns ns' hns
    rw [eq_map_of_forall₂ (fun _ _ h => h.1) hns, Node.unplaced, Node.unplacedAll_eq_map]
  choiceOf := by
    rintro _ _ _ _ _ _ rfl - rfl (⟨rfl, rfl⟩ | rfl | rfl) <;> rfl
  whileLoop := by rintro _ _ _ _ rfl - rfl; rfl
  forLoop := by rintro _ _ _ _ _ _ _ _ rfl rfl rfl rfl; rfl
  definition := by rintro _ _ _ _ - - rfl -; rfl
  function := by
    rintro t _ ns ns' _ _ - - hns rfl
    rw [eq_map_of_forall₂ (fun _ _ h => h.1) hns, Node.unplaced, Node.unplacedAll_eq_map]
  returned := by
    rintro t _ n _ rfl - rfl
    rw [n.isPresent_unplaced]
    split <;> rfl

/-- A parser that tracks another in this correspondence mirrors it. -/
theorem Mirrors.of_tracks {f : α → β} {p : Parser α} {q : Parser β}
    (h : Correspondence.unplacing.Tracks (fun a b => b = f a) p q) : Mirrors f p q := by
  intro c
  have hpq := (h (c := c) rfl).resolve_left And.left
  generalize q.run c.unplaced = r at hpq ⊢
  obtain ⟨y, d⟩ := r
  obtain ⟨hxy, hd⟩ := hpq
  obtain rfl : d = (p.run c).2.unplaced := hd
  generalize (p.run c).1 = x at hxy ⊢
  obtain e | a := x <;> obtain e' | b := y
  · obtain rfl : e' = e.unplaced := hxy
    rfl
  · exact hxy.elim
  · exact hxy.elim
  · obtain rfl : b = f a := hxy
    rfl

/-- **A program is parsed as it is without places.** -/
theorem program_unplaced : Mirrors Node.unplaced program program :=
  .of_tracks Correspondence.unplacing.program

end Parser

/-- **Tokens that differ only in their places are parsed alike**, places apart. -/
theorem parse_unplaced {tokens tokens' : List Token}
    (h : tokens.map Token.unplaced = tokens'.map Token.unplaced) :
    forget Node.unplaced (parse tokens) = forget Node.unplaced (parse tokens') := by
  have hcursor : (Cursor.ofTokens tokens).unplaced = (Cursor.ofTokens tokens').unplaced := by
    rw [Cursor.ofTokens_unplaced, Cursor.ofTokens_unplaced, h]
  have hrun := Parser.program_unplaced (.ofTokens tokens)
  rw [hcursor, Parser.program_unplaced] at hrun
  exact (congrArg Prod.fst hrun).symm

end Scrawl
