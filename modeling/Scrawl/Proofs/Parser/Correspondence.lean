import Mathlib.Data.List.Forall2
import Scrawl.Proofs.Parser.Run

/-!
# Proofs/Parser/Correspondence — the parser takes related tokens to related trees

A **correspondence** relates the tokens, the errors and the trees of two runs of the parser, such
that every way in which the parser puts trees together keeps the relation.  Started at related
cursors, each part of the parser then ends in related results or in related errors, at related
cursors (`Correspondence.parts`).  One induction on the fuel goes through all parts of the parser,
and a fact about whole trees only has to be shown of their making.

A class of trees is a correspondence of each tree in the class with itself.
-/

namespace Scrawl

namespace Parser

variable {α β γ δ : Type}

/-- Two outcomes: results in one relation or errors in another. -/
def Outcomes (E : ParseError → ParseError → Prop) (R : α → β → Prop) :
    Except ParseError α → Except ParseError β → Prop
  | .ok a, .ok b => R a b
  | .error e, .error e' => E e e'
  | _, _ => False

/-- An outcome corresponds to itself where what it holds does. -/
theorem Outcomes.refl {E : ParseError → ParseError → Prop} {R : α → α → Prop}
    {x : Except ParseError α} (hE : ∀ e, x = .error e → E e e) (hR : ∀ a, x = .ok a → R a a) :
    Outcomes E R x x := by
  cases x with
  | error e => exact hE e rfl
  | ok a => exact hR a rfl

/-- Lists in a relation that relates nothing but equal elements. -/
theorem eq_of_forall₂ {R : α → α → Prop} (hR : ∀ ⦃a b⦄, R a b → a = b) {as bs : List α}
    (h : List.Forall₂ R as bs) : as = bs ∧ ∀ a ∈ as, R a a := by
  obtain rfl : as = bs := by
    rw [← List.forall₂_eq_eq_eq]
    exact h.imp hR
  exact ⟨rfl, List.forall₂_same.mp h⟩

/-- **Relations between what two runs of the parser meet**, which the parser keeps. -/
structure Correspondence where
  /-- The second run may go on where the fuel of the first has run out. -/
  lenient : Prop
  token : Token → Token → Prop
  cursor : Cursor → Cursor → Prop
  error : ParseError → ParseError → Prop
  scan : Scan → Scan → Prop
  /-- Expressions, or nothing. -/
  expression : Node → Node → Prop
  /-- Statements, or nothing. -/
  statement : Node → Node → Prop
  block : Node → Node → Prop
  choice : Node → Node → Prop
  -- What is read, and what is said of it.
  kind_eq : ∀ {t t'}, token t t' → t'.kind = t.kind
  lexeme_eq : ∀ {t t'}, token t t' → t'.lexeme = t.lexeme
  ahead : ∀ {c c'}, cursor c c' → ∀ offset, token (c.ahead offset) (c'.ahead offset)
  isEmpty_eq : ∀ {c c'}, cursor c c' → c'.rest.isEmpty = c.rest.isEmpty
  next : ∀ {c c'}, cursor c c' → cursor c.next c'.next
  exhausted : error .exhausted .exhausted
  unmet : ∀ (text : String) {t t'}, token t t' → error (.unmet text t) (.unmet text t')
  misplaced : ∀ (text : String) {t t'}, token t t' →
    error (.misplaced text t.position) (.misplaced text t'.position)
  -- What an expression is made of.
  empty : scan .empty .empty
  depth_eq : ∀ {s s'}, scan s s' → s'.depth = s.depth
  /-- A name, which is marked in front of a call. -/
  operand : ∀ {s s' t t' n n'}, scan s s' → token t t' → t.kind = .identifier →
    expression n n' → n.isPresent →
    scan (s.operand t n) (s'.operand t' n') ∧
      scan (s.operand { t with kind := .functionWord } n)
        (s'.operand { t' with kind := .functionWord } n')
  push : ∀ {s s' t t'}, scan s s' → token t t' → t.kind ≠ .identifier →
    Outcomes error scan (s.push t) (s'.push t')
  tree : ∀ {s s'}, scan s s' → Outcomes error expression s.tree s'.tree
  -- What the parser looks at in trees, and how it makes them.
  isPresent_expression : ∀ {n n'}, expression n n' → n'.isPresent = n.isPresent
  isPresent_statement : ∀ {n n'}, statement n n' → n'.isPresent = n.isPresent
  referenced?_eq : ∀ {n n'}, expression n n' → n'.referenced? = n.referenced?
  defines_eq : ∀ {n n'}, expression n n' → ∀ name, n'.defines name = n.defines name
  reference : ∀ {t t'}, token t t' → t.kind = .identifier →
    expression (.reference t.lexeme) (.reference t.lexeme)
  call : ∀ {t t' ns ns'}, token t t' → t.kind = .identifier →
    List.Forall₂ (fun n n' => expression n n' ∧ n.isPresent) ns ns' →
    expression (.call t.lexeme ns) (.call t.lexeme ns')
  of_expression : ∀ {n n'}, expression n n' → statement n n'
  of_choice : ∀ {n n'}, choice n n' → statement n n'
  blockOf : ∀ {ns ns'}, List.Forall₂ (fun n n' => statement n n' ∧ n.isPresent) ns ns' →
    block (.block ns) (.block ns')
  choiceOf : ∀ {c c' t t' f f'}, expression c c' → c.isPresent → block t t' →
    f = .absent ∧ f' = .absent ∨ choice f f' ∨ block f f' →
    choice (.choice c t f) (.choice c' t' f')
  whileLoop : ∀ {c c' b b'}, expression c c' → c.isPresent → block b b' →
    statement (.whileLoop c b) (.whileLoop c' b')
  forLoop : ∀ {i i' c c' u u' b b'}, statement i i' → expression c c' → expression u u' →
    block b b' → statement (.forLoop i c u b) (.forLoop i' c' u' b')
  definition : ∀ {t t' n n'}, token t t' → t.kind = .identifier → expression n n' →
    n.defines t.lexeme → statement (.variable t.lexeme n true) (.variable t.lexeme n' true)
  function : ∀ {t t' ns ns' b b'}, token t t' → t.kind = .identifier →
    List.Forall₂ (fun n n' => expression n n' ∧ n.referenced?.isSome) ns ns' → block b b' →
    statement (.function t.lexeme ns b true) (.function t.lexeme ns' b' true)
  returned : ∀ {t t' n n'}, token t t' → t.kind = .returnWord → expression n n' →
    statement (.unary t (if n.isPresent then n else .literal .void))
      (.unary t' (if n'.isPresent then n' else .literal .void))

namespace Correspondence

/-- **Everything corresponds to itself**, and a run may outlast another. -/
def equal : Correspondence where
  lenient := True
  token := Eq
  cursor := Eq
  error := Eq
  scan := Eq
  expression := Eq
  statement := Eq
  block := Eq
  choice := Eq
  kind_eq := by rintro _ _ rfl; rfl
  lexeme_eq := by rintro _ _ rfl; rfl
  ahead := by rintro _ _ rfl _; rfl
  isEmpty_eq := by rintro _ _ rfl; rfl
  next := by rintro _ _ rfl; rfl
  exhausted := rfl
  unmet := by rintro _ _ _ rfl; rfl
  misplaced := by rintro _ _ _ rfl; rfl
  empty := rfl
  depth_eq := by rintro _ _ rfl; rfl
  operand := by rintro _ _ _ _ _ _ rfl rfl _ rfl _; exact ⟨rfl, rfl⟩
  push := by rintro s _ t _ rfl rfl _; exact .refl (fun _ _ => rfl) fun _ _ => rfl
  tree := by rintro s _ rfl; exact .refl (fun _ _ => rfl) fun _ _ => rfl
  isPresent_expression := by rintro _ _ rfl; rfl
  isPresent_statement := by rintro _ _ rfl; rfl
  referenced?_eq := by rintro _ _ rfl; rfl
  defines_eq := by rintro _ _ rfl _; rfl
  reference _ _ := rfl
  call := by
    intro t _ ns ns' _ _ hns
    rw [(eq_of_forall₂ (fun _ _ h => h.1) hns).1]
  of_expression := id
  of_choice := id
  blockOf := by
    intro ns ns' hns
    rw [(eq_of_forall₂ (fun _ _ h => h.1) hns).1]
  choiceOf := by
    rintro _ _ _ _ _ _ rfl _ rfl (⟨rfl, rfl⟩ | rfl | rfl) <;> rfl
  whileLoop := by rintro _ _ _ _ rfl _ rfl; rfl
  forLoop := by rintro _ _ _ _ _ _ _ _ rfl rfl rfl rfl; rfl
  definition := by rintro _ _ _ _ _ _ rfl _; rfl
  function := by
    rintro t _ ns ns' _ _ _ _ hns rfl
    rw [(eq_of_forall₂ (fun _ _ h => h.1) hns).1]
  returned := by rintro _ _ _ _ rfl _ rfl; rfl

variable (K : Correspondence)

/-- An expression that is there. -/
def Present (n n' : Node) : Prop := K.expression n n' ∧ n.isPresent

/-- A statement that is there. -/
def Stated (n n' : Node) : Prop := K.statement n n' ∧ n.isPresent

/-- A parameter or an argument. -/
def Listed (isDefinition : Bool) (n n' : Node) : Prop :=
  K.Present n n' ∧ (isDefinition && n.referenced?.isNone) = false

/-- **One parser keeps up with another**: started at related cursors, they end in related results or
errors, at related cursors. -/
def Tracks (R : α → β → Prop) (p : Parser α) (q : Parser β) : Prop :=
  ∀ ⦃c c'⦄, K.cursor c c' → K.lenient ∧ (p.run c).1 = .error .exhausted ∨
    Outcomes K.error R (p.run c).1 (q.run c').1 ∧ K.cursor (p.run c).2 (q.run c').2

variable {K}

namespace Tracks

variable {R : α → β → Prop} {S : γ → δ → Prop}

theorem pure {a : α} {b : β} (h : R a b) : K.Tracks R (Pure.pure a) (Pure.pure b) :=
  fun _ _ hc => .inr ⟨h, hc⟩

theorem throw {e e' : ParseError} (h : K.error e e') :
    K.Tracks R (throw e : Parser α) (throw e' : Parser β) := fun _ _ hc => .inr ⟨h, hc⟩

/-- Where the fuel has run out, the second run has none either or is free to go on. -/
theorem exhausted {fuel' : Nat} (h : fuel' = 0 ∨ K.lenient) {q : Nat → Parser β}
    (hq : q 0 = MonadExcept.throw .exhausted) :
    K.Tracks R (MonadExcept.throw .exhausted : Parser α) (q fuel') := by
  rcases h with rfl | hlenient
  · rw [hq]
    exact .throw K.exhausted
  · exact fun _ _ _ => .inl ⟨hlenient, rfl⟩

theorem ofExcept {x : Except ParseError α} {y : Except ParseError β} (h : Outcomes K.error R x y) :
    K.Tracks R (ofExcept x) (ofExcept y) := by
  intro c c' hc
  rw [run_ofExcept, run_ofExcept]
  exact .inr ⟨h, hc⟩

theorem complain (text : String) :
    K.Tracks R (complain text : Parser α) (complain text : Parser β) :=
  fun _ _ hc => .inr ⟨K.misplaced text (K.ahead hc 0), hc⟩

/-- The results may be in a wider relation. -/
theorem mono {R' : α → β → Prop} {p : Parser α} {q : Parser β} (h : K.Tracks R p q)
    (hR : ∀ ⦃a b⦄, R a b → R' a b) : K.Tracks R' p q := by
  intro c c' hc
  refine (h hc).imp_right (And.imp_left ?_)
  generalize (p.run c).1 = x
  generalize (q.run c').1 = y
  intro hxy
  obtain e | a := x <;> obtain e' | b := y
  · exact hxy
  · exact hxy
  · exact hxy
  · exact hR hxy

/-- **Parsers in turn keep up in turn**, from cursors that correspond. -/
theorem bind {p : Parser α} {q : Parser β} {f : α → Parser γ} {g : β → Parser δ}
    (h : K.Tracks R p q) (hf : ∀ ⦃a b⦄, R a b → K.Tracks S (f a) (g b)) :
    K.Tracks S (p >>= f) (q >>= g) := by
  intro c c' hc
  have hpq := h hc
  rw [run_bind, run_bind]
  generalize p.run c = r at hpq ⊢
  generalize q.run c' = r' at hpq ⊢
  obtain ⟨x, d⟩ := r
  obtain ⟨y, d'⟩ := r'
  rcases hpq with ⟨hlenient, hx⟩ | ⟨hxy, hd⟩
  · obtain rfl : x = .error .exhausted := hx
    exact .inl ⟨hlenient, rfl⟩
  obtain e | a := x <;> obtain e' | b := y
  · exact .inr ⟨hxy, hd⟩
  · exact hxy.elim
  · exact hxy.elim
  · exact hf hxy hd

/-- A success of one parser comes with one of the other. -/
theorem exists_of_ok {p : Parser α} {q : Parser β} (h : K.Tracks R p q) {c c' d : Cursor} {a : α}
    (hc : K.cursor c c') (hr : p.run c = (.ok a, d)) :
    ∃ b d', q.run c' = (.ok b, d') ∧ R a b ∧ K.cursor d d' := by
  have hpq := h hc
  rw [hr] at hpq
  generalize q.run c' = r at hpq
  obtain ⟨y, d'⟩ := r
  rcases hpq with ⟨-, hexhausted⟩ | ⟨hy, hd⟩
  · cases hexhausted
  obtain e | b := y
  · exact hy.elim
  · exact ⟨b, d', rfl, hy, hd⟩

/-- Nothing behind a failure is reached. -/
theorem complain_bind (text : String) {f : α → Parser γ} {g : β → Parser δ} :
    K.Tracks S (Parser.complain text >>= f) (Parser.complain text >>= g) :=
  bind (R := fun _ _ => False) (complain text) fun _ _ h => h.elim

theorem throw_bind {e e' : ParseError} (h : K.error e e') {f : α → Parser γ} {g : β → Parser δ} :
    K.Tracks S ((MonadExcept.throw e : Parser α) >>= f)
      ((MonadExcept.throw e' : Parser β) >>= g) :=
  bind (R := fun _ _ => False) (throw h) fun _ _ h => h.elim

theorem ite {b : Prop} [Decidable b] {p p' : Parser α} {q q' : Parser β}
    (h : b → K.Tracks R p q) (h' : ¬ b → K.Tracks R p' q') :
    K.Tracks R (if b then p else p') (if b then q else q') := by
  split
  · exact h ‹_›
  · exact h' ‹_›

/-! ### Tokens -/

theorem ahead (offset : Nat) : K.Tracks K.token (Parser.ahead offset) (Parser.ahead offset) :=
  fun _ _ hc => .inr ⟨K.ahead hc offset, hc⟩

theorem peek : K.Tracks K.token Parser.peek Parser.peek := .ahead 0

/-- Tokens that correspond are of one kind. -/
theorem check (kind : Kind) : K.Tracks Eq (Parser.check kind) (Parser.check kind) :=
  .bind .peek fun _ _ ht => .pure (by rw [K.kind_eq ht])

theorem atEnd : K.Tracks Eq atEnd atEnd := by
  intro c c' hc
  exact .inr ⟨(K.isEmpty_eq hc).symm, hc⟩

/-- Both sides move on by a token, or stand at their ends. -/
theorem advance : K.Tracks K.token advance advance := by
  intro c c' hc
  rw [run_advance, run_advance, K.isEmpty_eq hc]
  refine .inr ⟨K.ahead hc 0, ?_⟩
  dsimp only
  split
  · exact hc
  · exact K.next hc

/-- A token is taken on both sides, or both fail with what they were asked for. -/
theorem consume (kind : Kind) (expectation : String) :
    K.Tracks (fun t t' => K.token t t' ∧ t.kind = kind) (consume kind expectation)
      (consume kind expectation) := by
  intro c c' hc
  have hpeek : K.token c.peek c'.peek := K.ahead hc 0
  rw [run_consume, run_consume, K.kind_eq hpeek]
  split
  · exact .inr ⟨⟨hpeek, ‹_›⟩, K.next hc⟩
  · exact .inr ⟨K.unmet expectation hpeek, hc⟩

theorem reference : K.Tracks K.Present Parser.reference Parser.reference := by
  refine .bind (.consume _ _) fun _ _ ⟨ht, hk⟩ => .pure ?_
  rw [K.lexeme_eq ht]
  exact ⟨K.reference ht hk, rfl⟩

/-- What must be there is there on both sides, or both complain. -/
theorem requireFrom {p q : Parser Node} (h : K.Tracks K.expression p q) (text : String) :
    K.Tracks K.Present (requireFrom p text) (requireFrom q text) := by
  refine .bind h fun _ _ hn => ?_
  rw [K.isPresent_expression hn]
  exact .ite (fun hpresent => .pure ⟨hn, hpresent⟩) fun _ => .complain_bind text

end Tracks

/-- A statement in front of others, left out on both sides when it is empty. -/
theorem forall₂_stated {n n' : Node} {ns ns' : List Node} (hn : K.statement n n')
    (hns : List.Forall₂ K.Stated ns ns') :
    List.Forall₂ K.Stated ((if n.isPresent then [n] else []) ++ ns)
      ((if n'.isPresent then [n'] else []) ++ ns') := by
  rw [K.isPresent_statement hn]
  split
  · exact .cons ⟨hn, ‹_›⟩ hns
  · exact hns

/-! ## The parts of the parser -/

variable (K) in
/-- **The parts of the parser keep up with themselves**, for two amounts of fuel. -/
structure Parts (fuel fuel' : Nat) : Prop where
  statement : K.Tracks K.statement (statementWith fuel) (statementWith fuel')
  statements : K.Tracks (List.Forall₂ K.Stated) (statementsWith fuel) (statementsWith fuel')
  block : K.Tracks K.block (blockWith fuel) (blockWith fuel')
  choice : K.Tracks K.choice (choiceWith fuel) (choiceWith fuel')
  whileLoop : K.Tracks K.statement (whileWith fuel) (whileWith fuel')
  forLoop : K.Tracks K.statement (forWith fuel) (forWith fuel')
  definition : K.Tracks K.statement (definitionWith fuel) (definitionWith fuel')
  function : K.Tracks K.statement (functionWith fuel true) (functionWith fuel' true)
  call : K.Tracks K.Present (functionWith fuel false) (functionWith fuel' false)
  parameters : ∀ {name name'}, K.token name name' → ∀ isDefinition,
    K.Tracks (List.Forall₂ (K.Listed isDefinition)) (parametersWith fuel name isDefinition)
      (parametersWith fuel' name' isDefinition)
  returned : K.Tracks K.statement (returnWith fuel) (returnWith fuel')
  expression : K.Tracks K.expression (expressionWith fuel) (expressionWith fuel')
  scan : ∀ {s s'}, K.scan s s' → K.Tracks K.scan (scanWith fuel s) (scanWith fuel' s')

namespace Parts

/-- Without fuel both sides are exhausted, unless the correspondence lets the second go on. -/
theorem zero {fuel' : Nat} (h : fuel' = 0 ∨ K.lenient) : K.Parts 0 fuel' where
  statement := by rw [statementWith]; exact .exhausted h statementWith.eq_1
  statements := by rw [statementsWith]; exact .exhausted h statementsWith.eq_1
  block := by rw [blockWith]; exact .exhausted h blockWith.eq_1
  choice := by rw [choiceWith]; exact .exhausted h choiceWith.eq_1
  whileLoop := by rw [whileWith]; exact .exhausted h whileWith.eq_1
  forLoop := by rw [forWith]; exact .exhausted h forWith.eq_1
  definition := by rw [definitionWith]; exact .exhausted h definitionWith.eq_1
  function := by
    rw [functionWith]
    exact .exhausted (q := (functionWith · true)) h (functionWith.eq_1 _)
  call := by
    rw [functionWith]
    exact .exhausted (q := (functionWith · false)) h (functionWith.eq_1 _)
  parameters {_ name'} _ isDefinition := by
    rw [parametersWith]
    exact .exhausted (q := (parametersWith · name' isDefinition)) h (parametersWith.eq_1 _ _)
  returned := by rw [returnWith]; exact .exhausted h returnWith.eq_1
  expression := by rw [expressionWith]; exact .exhausted h expressionWith.eq_1
  scan {_ s'} _ := by
    rw [scanWith]
    exact .exhausted (q := (scanWith · s')) h (scanWith.eq_1 _)

variable {fuel fuel' : Nat} (h : K.Parts fuel fuel')

include h

/-- **A statement goes to one parser on both sides**, for the kinds agree. -/
theorem statement_succ :
    K.Tracks K.statement (statementWith (fuel + 1)) (statementWith (fuel' + 1)) := by
  rw [statementWith, statementWith]
  refine .bind .peek fun t t' ht => ?_
  rw [K.kind_eq ht]
  split
  · exact h.choice.mono fun _ _ => K.of_choice
  · exact h.whileLoop
  · exact h.forLoop
  · exact h.definition
  · exact h.function
  · exact h.returned
  · refine .bind h.expression fun _ _ hn => .bind (.consume _ _) fun _ _ _ => ?_
    exact .pure (K.of_expression hn)

/-- Statements are collected on both sides, without those that come to nothing. -/
theorem statements_succ :
    K.Tracks (List.Forall₂ K.Stated) (statementsWith (fuel + 1)) (statementsWith (fuel' + 1)) := by
  rw [statementsWith, statementsWith]
  refine .bind (.check _) ?_
  rintro closed _ rfl
  refine .ite (fun _ => .pure .nil) fun _ => .bind .atEnd ?_
  rintro ended _ rfl
  refine .ite (fun _ => .complain _) fun _ => .bind (.check _) ?_
  rintro stray _ rfl
  refine .ite (fun _ => .bind .advance fun _ _ _ => h.statements) fun _ => ?_
  refine .bind h.statement fun _ _ hn => .bind h.statements fun _ _ hns => ?_
  exact .pure (forall₂_stated hn hns)

theorem block_succ : K.Tracks K.block (blockWith (fuel + 1)) (blockWith (fuel' + 1)) := by
  rw [blockWith, blockWith]
  refine .bind (.consume _ _) fun _ _ _ => .bind h.statements fun _ _ hns => ?_
  exact .bind (.consume _ _) fun _ _ _ => .pure (K.blockOf hns)

/-- An `else` stands on both sides or on neither. -/
theorem choice_succ : K.Tracks K.choice (choiceWith (fuel + 1)) (choiceWith (fuel' + 1)) := by
  rw [choiceWith, choiceWith]
  refine .bind (.consume _ _) fun _ _ _ => .bind (.consume _ _) fun _ _ _ => ?_
  refine .bind (.requireFrom h.expression _) fun _ _ hc => .bind (.consume _ _) fun _ _ _ => ?_
  refine .bind h.block fun _ _ ht => .bind (.check _) ?_
  rintro hasElse _ rfl
  refine .ite (fun _ => .bind .advance fun _ _ _ => .bind (.check _) ?_) fun _ => ?_
  · rintro isChain _ rfl
    refine .ite (fun _ => ?_) fun _ => ?_
    · exact .bind h.choice fun _ _ hf => .pure (K.choiceOf hc.1 hc.2 ht (.inr (.inl hf)))
    · exact .bind h.block fun _ _ hf => .pure (K.choiceOf hc.1 hc.2 ht (.inr (.inr hf)))
  · exact .pure (K.choiceOf hc.1 hc.2 ht (.inl ⟨rfl, rfl⟩))

theorem whileLoop_succ : K.Tracks K.statement (whileWith (fuel + 1)) (whileWith (fuel' + 1)) := by
  rw [whileWith, whileWith]
  refine .bind (.consume _ _) fun _ _ _ => .bind (.consume _ _) fun _ _ _ => ?_
  refine .bind (.requireFrom h.expression _) fun _ _ hc => .bind (.consume _ _) fun _ _ _ => ?_
  exact .bind h.block fun _ _ hb => .pure (K.whileLoop hc.1 hc.2 hb)

theorem forLoop_succ : K.Tracks K.statement (forWith (fuel + 1)) (forWith (fuel' + 1)) := by
  rw [forWith, forWith]
  refine .bind (.consume _ _) fun _ _ _ => .bind (.consume _ _) fun _ _ _ => ?_
  refine .bind h.statement fun _ _ hi => .bind h.expression fun _ _ hc => ?_
  refine .bind (.consume _ _) fun _ _ _ => .bind h.expression fun _ _ hu => ?_
  refine .bind (.consume _ _) fun _ _ _ => .bind h.block fun _ _ hb => ?_
  exact .pure (K.forLoop hi hc hu hb)

/-- The name is checked against the expression on both sides. -/
theorem definition_succ :
    K.Tracks K.statement (definitionWith (fuel + 1)) (definitionWith (fuel' + 1)) := by
  rw [definitionWith, definitionWith]
  refine .bind (.consume _ _) fun _ _ _ => .bind .peek fun name name' hname => ?_
  rw [K.kind_eq hname, K.lexeme_eq hname]
  refine .ite (fun hk => ?_) fun _ => .complain_bind _
  refine .bind h.expression fun n n' hn => ?_
  rw [K.defines_eq hn]
  refine .ite (fun hdefines => ?_) fun _ => .throw_bind (K.misplaced _ hname)
  exact .bind (.consume _ _) fun _ _ _ => .pure (K.definition hname hk hn hdefines)

/-- A definition has references for parameters. -/
theorem function_succ :
    K.Tracks K.statement (functionWith (fuel + 1) true) (functionWith (fuel' + 1) true) := by
  rw [functionWith, functionWith]
  refine .bind (.consume _ _) fun _ _ _ => .bind (.consume _ _) fun name name' ⟨hname, hk⟩ => ?_
  rw [K.lexeme_eq hname]
  refine .bind (.consume _ _) fun _ _ _ => .bind (h.parameters hname true) fun ns ns' hns => ?_
  refine .bind (.consume _ _) fun _ _ _ => .bind h.block fun _ _ hb => ?_
  refine .pure (K.function hname hk (hns.imp fun n n' hn => ⟨hn.1.1, ?_⟩) hb)
  exact Option.isNone_eq_false_iff.mp hn.2

/-- A call has expressions for parameters. -/
theorem call_succ :
    K.Tracks K.Present (functionWith (fuel + 1) false) (functionWith (fuel' + 1) false) := by
  rw [functionWith, functionWith]
  refine .bind (.consume _ _) fun name name' ⟨hname, hk⟩ => ?_
  rw [K.lexeme_eq hname]
  refine .bind (.consume _ _) fun _ _ _ => .bind (h.parameters hname false) fun ns ns' hns => ?_
  refine .bind (.consume _ _) fun _ _ _ => ?_
  exact .pure ⟨K.call hname hk (hns.imp fun _ _ hn => hn.1), rfl⟩

/-- Both sides go on at a comma and end at a parenthesis. -/
theorem parameters_succ {name name' : Token} (hname : K.token name name') (isDefinition : Bool) :
    K.Tracks (List.Forall₂ (K.Listed isDefinition)) (parametersWith (fuel + 1) name isDefinition)
      (parametersWith (fuel' + 1) name' isDefinition) := by
  rw [parametersWith, parametersWith, K.lexeme_eq hname]
  refine .bind (.check _) ?_
  rintro closed _ rfl
  refine .ite (fun _ => .pure .nil) fun _ => .bind (.requireFrom h.expression _) fun n n' hn => ?_
  rw [K.referenced?_eq hn.1]
  refine .ite (fun _ => .throw_bind (K.misplaced _ hname)) fun href => ?_
  have hcons : K.Tracks (List.Forall₂ (K.Listed isDefinition))
      (do return n :: (← parametersWith fuel name isDefinition))
      (do return n' :: (← parametersWith fuel' name' isDefinition)) :=
    .bind (h.parameters hname isDefinition) fun _ _ hns =>
      .pure (.cons ⟨hn, Bool.eq_false_iff.mpr href⟩ hns)
  refine .bind (.check _) ?_
  rintro comma _ rfl
  refine .ite (fun _ => .bind .advance fun _ _ _ => hcons) fun _ => .bind (.check _) ?_
  rintro closing _ rfl
  exact .ite (fun _ => hcons) fun _ => .complain_bind _

theorem returned_succ : K.Tracks K.statement (returnWith (fuel + 1)) (returnWith (fuel' + 1)) := by
  rw [returnWith, returnWith]
  refine .bind (.consume _ _) fun _ _ ⟨ht, hk⟩ => .bind h.expression fun _ _ hn => ?_
  exact .bind (.consume _ _) fun _ _ _ => .pure (K.returned ht hk hn)

/-- What was scanned makes trees that correspond. -/
theorem expression_succ :
    K.Tracks K.expression (expressionWith (fuel + 1)) (expressionWith (fuel' + 1)) := by
  rw [expressionWith, expressionWith]
  refine .bind (h.scan K.empty) fun s s' hs => ?_
  rw [K.depth_eq hs]
  exact .ite (fun _ => .ofExcept (K.tree hs)) fun _ => .complain_bind _

/-- **A scan stops on both sides or takes a token on both.** -/
theorem scan_succ {s s' : Scan} (hs : K.scan s s') :
    K.Tracks K.scan (scanWith (fuel + 1) s) (scanWith (fuel' + 1) s') := by
  rw [scanWith, scanWith]
  refine .bind .peek fun t t' ht => ?_
  rw [K.depth_eq hs, K.kind_eq ht]
  refine .ite (fun _ => .pure hs) fun _ => .ite (fun hk => ?_) fun hk => ?_
  · refine .bind (.ahead 1) fun next next' hnext => ?_
    rw [K.kind_eq hnext]
    refine .ite (fun _ => ?_) fun _ => ?_
    · exact .bind h.call fun _ _ hn => h.scan (K.operand hs ht hk hn.1 hn.2).2
    · exact .bind .reference fun _ _ hn => h.scan (K.operand hs ht hk hn.1 hn.2).1
  · refine .bind .advance fun _ _ _ => .bind (.ofExcept (K.push hs ht hk)) fun _ _ hs' => ?_
    exact h.scan hs'

/-- **With one unit of fuel more.** -/
theorem succ : K.Parts (fuel + 1) (fuel' + 1) where
  statement := h.statement_succ
  statements := h.statements_succ
  block := h.block_succ
  choice := h.choice_succ
  whileLoop := h.whileLoop_succ
  forLoop := h.forLoop_succ
  definition := h.definition_succ
  function := h.function_succ
  call := h.call_succ
  parameters := h.parameters_succ
  returned := h.returned_succ
  expression := h.expression_succ
  scan := h.scan_succ

end Parts

variable (K)

/-- **Every part of the parser keeps up with itself**, with the same fuel, or with more of it if the
correspondence is lenient. -/
theorem parts : ∀ {fuel fuel' : Nat}, fuel = fuel' ∨ K.lenient ∧ fuel ≤ fuel' → K.Parts fuel fuel'
  | 0, _, h => .zero (h.imp Eq.symm And.left)
  | fuel + 1, 0, h => absurd h (by omega)
  | fuel + 1, fuel' + 1, h =>
      (parts (h.imp Nat.succ.inj (And.imp_right Nat.le_of_succ_le_succ))).succ

/-- A program keeps up with itself, by the fuel on the first side. -/
theorem programWith : ∀ {fuel fuel' : Nat}, fuel = fuel' ∨ K.lenient ∧ fuel ≤ fuel' →
    K.Tracks (List.Forall₂ K.Stated) (programWith fuel) (programWith fuel')
  | 0, _, h => by
      rw [Parser.programWith]
      exact .exhausted (h.imp Eq.symm And.left) programWith.eq_1
  | fuel + 1, 0, h => absurd h (by omega)
  | fuel + 1, fuel' + 1, h => by
      have hfuel := h.imp Nat.succ.inj (And.imp_right Nat.le_of_succ_le_succ)
      rw [Parser.programWith, Parser.programWith]
      refine .bind .atEnd ?_
      rintro ended _ rfl
      refine .ite (fun _ => .pure .nil) fun _ => .bind (.check _) ?_
      rintro stray _ rfl
      refine .ite (fun _ => .bind .advance fun _ _ _ => programWith hfuel) fun _ => ?_
      refine .bind (K.parts hfuel).statement fun _ _ hn => ?_
      exact .bind (programWith hfuel) fun _ _ hns => .pure (forall₂_stated hn hns)

/-- Related cursors have as many tokens left. -/
theorem length_rest_eq {c c' : Cursor} (hc : K.cursor c c') : c'.rest.length = c.rest.length := by
  generalize hn : c.rest.length = n
  induction n generalizing c c' with
  | zero =>
    have hempty := K.isEmpty_eq hc
    rw [List.length_eq_zero_iff.mp hn] at hempty
    exact List.length_eq_zero_iff.mpr (List.isEmpty_iff.mp hempty)
  | succ n ih =>
    have hnext := ih (K.next hc) (by rw [Cursor.next, List.length_drop, hn, Nat.add_sub_cancel])
    have hempty := K.isEmpty_eq hc
    rw [Cursor.next, List.length_drop] at hnext
    have hrest : c.rest ≠ [] := List.ne_nil_of_length_eq_add_one hn
    rw [List.isEmpty_eq_false_iff.mpr hrest, List.isEmpty_eq_false_iff] at hempty
    have := List.length_pos_iff.mpr hempty
    omega

/-- **The parser takes related tokens to related programs.** -/
theorem program : K.Tracks K.block program program := by
  refine .bind (R := List.Forall₂ K.Stated) (fun c c' hc => ?_) fun _ _ hns => .pure (K.blockOf hns)
  rw [run_fuelled, run_fuelled, fuelFor, fuelFor, K.length_rest_eq hc]
  exact K.programWith (.inl rfl) hc

/-- A tree that tokens parse to corresponds to itself, if the tokens do. -/
theorem block_of_parse {tokens : List Token} (hc : K.cursor (.ofTokens tokens) (.ofTokens tokens))
    {n : Node} (h : parse tokens = .ok n) : K.block n n := by
  obtain ⟨m, _, hm, hnm, -⟩ := K.program.exists_of_ok hc (Prod.ext h rfl)
  obtain rfl : n = m := Except.ok.inj (h.symm.trans (congrArg Prod.fst hm))
  exact hnm

end Correspondence

end Parser

end Scrawl
