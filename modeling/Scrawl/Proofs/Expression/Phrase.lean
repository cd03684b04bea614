import Scrawl.Expression.Scan
import Scrawl.Proofs.Node.Formed
import Scrawl.Proofs.Outcome

/-!
# Proofs/Expression/Phrase — scanned expressions and their trees

A **phrase** is what the scan of an expression leaves: its tokens, with one token for each call and
minus signs told apart, and the nodes of its names and calls.  `Phrase k xs qs n` says that `xs` and
`qs` are a phrase of level `k` whose tree is `n`.

A yard that takes in a phrase lets some tokens out and keeps some operators waiting, none of a level
above the phrase's own, and a grove that takes what is out and then what waits has grown the tree
(`Phrase.reorders`).  So reordering and folding give the tree of the phrase (`Phrase.tree`).
-/

namespace Scrawl

/-- **The phrases of a level**, with their tokens, nodes and trees. -/
inductive Phrase : Nat → List Token → List Node → Node → Prop
  | literal {t : Token} {v : Value} (h : t.StandsFor v) : Phrase 0 [t] [] (.literal v)
  | operand {t : Token} (hk : t.kind = .identifier ∨ t.kind = .functionWord) (n : Node) :
      Phrase 0 [t] [n] n
  | group {opening closing : Token} {xs : List Token} {qs : List Node} {n : Node}
      (ho : opening.kind = .leftParen) (hc : closing.kind = .rightParen) (h : Phrase 8 xs qs n) :
      Phrase 0 (opening :: (xs ++ [closing])) qs n
  | stepped {operator : Token} {xs : List Token} {qs : List Node} {n : Node}
      (hk : operator.kind.isStep) (h : Phrase 0 xs qs n) :
      Phrase 0 (xs ++ [operator]) qs (.unary operator n)
  | leading {operator : Token} {xs : List Token} {qs : List Node} {n : Node}
      (hk : operator.kind.isLeading) (h : Phrase 1 xs qs n) :
      Phrase 1 (operator :: xs) qs (.unary operator n)
  | joined {k : Nat} {operator : Token} {xs ys : List Token} {qs rs : List Node} {l r : Node}
      (hk : operator.kind.isInfix) (hp : operator.kind.precedence? = some (k + 1))
      (hl : Phrase (k + 1) xs qs l) (hr : Phrase k ys rs r) :
      Phrase (k + 1) (xs ++ operator :: ys) (qs ++ rs) (.binary operator l r)
  | lift {k : Nat} {xs : List Token} {qs : List Node} {n : Node} (h : Phrase k xs qs n) :
      Phrase (k + 1) xs qs n

namespace Kind

/-- A literal is an operand. -/
theorem isOperand_of_isLiteral {k : Kind} (h : k.isLiteral) : k.isOperand := by
  revert h
  cases k <;> decide

/-- A step may stand in front of its operand as signs do. -/
theorem isLeading_of_isStep {k : Kind} (h : k.isStep) : k.isLeading := by
  revert h
  cases k <;> decide

theorem isUnary_of_isLeading {k : Kind} (h : k.isLeading) : k.isUnary := by
  revert h
  cases k <;> decide

/-- No kind is both unary and infix: `subtract` and `negative` are two. -/
theorem not_isUnary_of_isInfix {k : Kind} (h : k.isInfix) : ¬ k.isUnary := by
  rw [isInfix, Bool.and_eq_true, Bool.not_eq_true'] at h
  simp [h.2]

theorem not_isStep_of_isInfix {k : Kind} (h : k.isInfix) : ¬ k.isStep :=
  fun hs => not_isUnary_of_isInfix h (isUnary_of_isLeading (isLeading_of_isStep hs))

/-- **An operator is nothing else** that stands in an expression. -/
theorem ne_of_isLeading_or_isInfix {k : Kind} (h : k.isLeading ∨ k.isInfix) :
    ¬ k.isOperand ∧ k ≠ identifier ∧ k ≠ functionWord ∧ k ≠ leftParen ∧ k ≠ rightParen := by
  revert h
  cases k <;> decide

theorem precedence_eq {k : Kind} {level : Nat} (h : k.precedence? = some level) :
    k.precedence = level := by
  rw [precedence, h]
  rfl

theorem pos_of_precedence? {k : Kind} {level : Nat} (h : k.precedence? = some level) :
    0 < level := by
  revert h
  cases k <;> simp [precedence?] <;> omega

/-- All leading operators bind alike, and closest. -/
theorem precedence?_of_isLeading {k : Kind} (h : k.isLeading) : k.precedence? = some 1 := by
  revert h
  cases k <;> decide

/-- Every infix operator binds less closely than those. -/
theorem one_lt_of_isInfix {k : Kind} {level : Nat} (h : k.isInfix)
    (hp : k.precedence? = some level) : 1 < level := by
  revert h hp
  cases k <;> simp [isInfix, isOperator, precedence?, isUnary] <;> omega

end Kind

/-! ## What a yard does with a token -/

namespace Yard

/-- An operator of a level up to `k`. -/
def Joins (k : Nat) (t : Token) : Prop := ∃ level ≤ k, t.kind.precedence? = some level

variable {t : Token} {out waiting pending : List Token} {after : Bool} {k : Nat}

theorem Joins.isInside (h : Joins k t) : isInside t := by
  obtain ⟨level, -, hp⟩ := h
  rw [Yard.isInside, bne_iff_ne]
  rintro hk
  rw [hk] at hp
  cases hp

/-- What joins at a level joins at the next. -/
theorem Joins.succ (h : Joins k t) : Joins (k + 1) t := by
  obtain ⟨level, hle, hp⟩ := h
  exact ⟨level, Nat.le_succ_of_le hle, hp⟩

/-- An operator of a lower level binds before those of a higher. -/
theorem Joins.bindsBefore (h : Joins k t) {kind : Kind} (hk : kind.precedence? = some k) :
    bindsBefore kind t := by
  have hin := h.isInside
  obtain ⟨level, hle, hp⟩ := h
  rw [Yard.bindsBefore, hin, Kind.precedence_eq hk, Kind.precedence_eq hp]
  simpa using Int.ofNat_le.mpr hle

/-- No operator binds tighter than all levels. -/
theorem eq_nil_of_joins_zero (h : ∀ t ∈ pending, Joins 0 t) : pending = [] := by
  refine List.eq_nil_iff_forall_not_mem.mpr fun t ht => ?_
  obtain ⟨level, hle, hp⟩ := h t ht
  have := Kind.pos_of_precedence? hp
  omega

/-- An operand goes straight out. -/
theorem step_operand (h : t.kind.isOperand ∨ t.kind = .functionWord) :
    step ⟨out, waiting, after⟩ t = .ok ⟨t :: out, waiting, true⟩ := by
  rw [step, if_pos (by simpa using h)]

theorem step_leftParen (h : t.kind = .leftParen) :
    step ⟨out, waiting, after⟩ t = .ok ⟨out, t :: waiting, false⟩ := by
  simp [step, h, Kind.isOperand]

/-- Operators leave in the order opposite to the one they came in, up to one that stays. -/
theorem release_append {goes : Token → Bool} (hgo : ∀ t ∈ pending, goes t)
    (hstop : ∀ t ∈ waiting.head?, ¬ goes t) :
    release goes ⟨out, pending ++ waiting, after⟩ = ⟨pending.reverse ++ out, waiting, after⟩ := by
  rw [release, takeWhile_append_stop hgo hstop, dropWhile_append_stop hgo hstop]

/-- A closing parenthesis lets out what waits since its partner, and drops both. -/
theorem step_rightParen {opening : Token} (h : t.kind = .rightParen)
    (ho : opening.kind = .leftParen) (hp : ∀ t ∈ pending, isInside t) :
    step ⟨out, pending ++ opening :: waiting, after⟩ t =
      .ok ⟨pending.reverse ++ out, waiting, true⟩ := by
  have hstop : ∀ t ∈ (opening :: waiting).head?, ¬ isInside t := by
    rintro _ ⟨⟩
    simp [isInside, ho]
  simp [step, h, Kind.isOperand, release_append hp hstop]

/-- A step behind an operand goes straight out, for its operand is there already. -/
theorem step_behind (h : t.kind.isStep) :
    step ⟨out, waiting, true⟩ t = .ok ⟨t :: out, waiting, true⟩ := by
  have hk := Kind.ne_of_isLeading_or_isInfix (.inl (Kind.isLeading_of_isStep h))
  simp [step, hk, h]

/-- In front of its operand an operator waits. -/
theorem step_leading (h : t.kind.isLeading) :
    step ⟨out, waiting, false⟩ t = .ok ⟨out, t :: waiting, false⟩ := by
  have hk := Kind.ne_of_isLeading_or_isInfix (.inl h)
  simp [step, hk, Kind.isUnary_of_isLeading h]

/-- **An infix operator sends out those that bind before it**, and waits. -/
theorem step_infix (h : t.kind.isInfix) (hp : ∀ t' ∈ pending, bindsBefore t.kind t')
    (hstop : ∀ t' ∈ waiting.head?, ¬ bindsBefore t.kind t') :
    step ⟨out, pending ++ waiting, after⟩ t =
      .ok ⟨pending.reverse ++ out, t :: waiting, false⟩ := by
  have hk := Kind.ne_of_isLeading_or_isInfix (.inr h)
  simp [step, hk, Kind.not_isStep_of_isInfix h, Kind.not_isUnary_of_isInfix h,
    release_append hp hstop]

/-- **Nothing that waits is let out by an operator of a level up to `k`.** -/
def Guards (k : Nat) (waiting : List Token) : Prop :=
  ∀ t ∈ waiting.head?, isInside t → 1 < k → k < t.kind.precedence

theorem Guards.of_succ (h : Guards (k + 1) waiting) : Guards k waiting := by
  intro t ht hin hk
  have := h t ht hin (by omega)
  omega

end Yard

/-! ## What a grove does with a token -/

namespace Grove

variable {t : Token} {stack queue : List Node} {n l r : Node}

theorem step_literal {v : Value} (h : t.StandsFor v) :
    step ⟨stack, queue⟩ t = .ok ⟨.literal v :: stack, queue⟩ := by
  have hk : t.kind ≠ .identifier ∧ t.kind ≠ .functionWord ∧ t.kind.isOperand := by
    have := h.kind
    revert this
    cases t.kind <;> decide
  simp [step, hk, h.literal, Except.map]

/-- An operand that is a tree already is taken from the queue. -/
theorem step_operand (h : t.kind = .identifier ∨ t.kind = .functionWord) :
    step ⟨stack, n :: queue⟩ t = .ok ⟨n :: stack, queue⟩ := by
  rw [step, if_pos (by simpa using h)]

theorem step_unary (h : t.kind.isLeading) :
    step ⟨n :: stack, queue⟩ t = .ok ⟨.unary t n :: stack, queue⟩ := by
  have hk := Kind.ne_of_isLeading_or_isInfix (.inl h)
  simp [step, hk, Kind.isUnary_of_isLeading h]

/-- An infix operator takes the two trees on top, the right one being the topmost. -/
theorem step_binary (h : t.kind.isInfix) :
    step ⟨r :: l :: stack, queue⟩ t = .ok ⟨.binary t l r :: stack, queue⟩ := by
  have hk := Kind.ne_of_isLeading_or_isInfix (.inr h)
  simp [step, hk, Kind.not_isUnary_of_isInfix h]

end Grove

/-! ## The invariant -/

/-- **How a phrase is taken in**: the tokens let out on the way, and the operators that wait at its
end. -/
structure Reorders (k : Nat) (xs : List Token) (qs : List Node) (n : Node)
    (emitted pending : List Token) : Prop where
  joins : ∀ t ∈ pending, Yard.Joins k t
  yard : ∀ out waiting : List Token, Yard.Guards k waiting →
    xs.foldlM Yard.step ⟨out, waiting, false⟩ =
      .ok ⟨emitted.reverse ++ out, pending ++ waiting, true⟩
  grove : ∀ stack queue : List Node,
    (emitted ++ pending).foldlM Grove.step ⟨stack, qs ++ queue⟩ = .ok ⟨n :: stack, queue⟩

namespace Reorders

variable {k : Nat} {t operator : Token} {xs ys emitted pending emitted' pending' : List Token}
  {qs rs : List Node} {n l r : Node}

theorem literal {v : Value} (h : t.StandsFor v) : Reorders 0 [t] [] (.literal v) [t] [] where
  joins := by simp
  yard _ _ _ := by
    rw [foldlM_cons_ok (Yard.step_operand (.inl (Kind.isOperand_of_isLiteral h.kind)))]
    rfl
  grove _ _ := foldlM_cons_ok (Grove.step_literal h) []

theorem operand (h : t.kind = .identifier ∨ t.kind = .functionWord) :
    Reorders 0 [t] [n] n [t] [] where
  joins := by simp
  yard _ _ _ := by
    have hk : t.kind.isOperand ∨ t.kind = .functionWord := h.imp_left fun h => by rw [h]; rfl
    rw [foldlM_cons_ok (Yard.step_operand hk)]
    rfl
  grove _ _ := foldlM_cons_ok (Grove.step_operand h) []

/-- Whatever waits inside parentheses goes out at their end. -/
theorem group {opening closing : Token} (ho : opening.kind = .leftParen)
    (hc : closing.kind = .rightParen) (h : Reorders 8 xs qs n emitted pending) :
    Reorders 0 (opening :: (xs ++ [closing])) qs n (emitted ++ pending) [] where
  joins := by simp
  yard := by
    intro out waiting _
    have hguard : Yard.Guards 8 (opening :: waiting) := by
      rintro _ ⟨⟩ hin
      rw [Yard.isInside, ho] at hin
      cases hin
    have hinside : ∀ t ∈ pending, Yard.isInside t := fun t ht => (h.joins t ht).isInside
    rw [foldlM_cons_ok (Yard.step_leftParen ho), foldlM_append_ok (h.yard _ _ hguard),
      foldlM_cons_ok (Yard.step_rightParen hc ho hinside), List.reverse_append, List.append_assoc]
    rfl
  grove := by
    rw [List.append_nil]
    exact h.grove

/-- A step behind a phrase goes out at once: nothing of a phrase of level zero waits. -/
theorem stepped (hk : operator.kind.isStep) (h : Reorders 0 xs qs n emitted pending) :
    Reorders 0 (xs ++ [operator]) qs (.unary operator n) (emitted ++ [operator]) [] := by
  obtain rfl := Yard.eq_nil_of_joins_zero h.joins
  refine ⟨by simp, fun out waiting hguard => ?_, fun stack queue => ?_⟩
  · rw [foldlM_append_ok (h.yard _ _ hguard), foldlM_cons_ok (Yard.step_behind hk),
      List.reverse_append]
    rfl
  · have hemitted := h.grove stack queue
    rw [List.append_nil] at hemitted ⊢
    rw [foldlM_append_ok hemitted]
    exact foldlM_cons_ok (Grove.step_unary (Kind.isLeading_of_isStep hk)) []

/-- An operator before its operand waits until the operand is complete. -/
theorem leading (hk : operator.kind.isLeading) (h : Reorders 1 xs qs n emitted pending) :
    Reorders 1 (operator :: xs) qs (.unary operator n) emitted (pending ++ [operator]) where
  joins t ht := by
    rcases List.mem_append.mp ht with ht | ht
    · exact h.joins t ht
    · obtain rfl := List.mem_singleton.mp ht
      exact ⟨1, Nat.le_refl 1, Kind.precedence?_of_isLeading hk⟩
  yard := by
    intro out waiting _
    have hguard : Yard.Guards 1 (operator :: waiting) := fun _ _ _ hlt => absurd hlt (by decide)
    rw [foldlM_cons_ok (Yard.step_leading hk), h.yard _ _ hguard, List.append_assoc]
    rfl
  grove := by
    intro stack queue
    rw [← List.append_assoc, foldlM_append_ok (h.grove _ _)]
    exact foldlM_cons_ok (Grove.step_unary hk) []

/-- An operator between phrases lets out all that waits of its left side, nothing before that, and
waits behind its right side. -/
theorem joined (hk : operator.kind.isInfix) (hp : operator.kind.precedence? = some (k + 1))
    (hl : Reorders (k + 1) xs qs l emitted pending)
    (hr : Reorders k ys rs r emitted' pending') :
    Reorders (k + 1) (xs ++ operator :: ys) (qs ++ rs) (.binary operator l r)
      (emitted ++ pending ++ emitted') (pending' ++ [operator]) where
  joins t ht := by
    rcases List.mem_append.mp ht with ht | ht
    · exact (hr.joins t ht).succ
    · obtain rfl := List.mem_singleton.mp ht
      exact ⟨k + 1, Nat.le_refl _, hp⟩
  yard := by
    intro out waiting hguard
    have hprec := Kind.precedence_eq hp
    have hgo : ∀ t ∈ pending, Yard.bindsBefore operator.kind t := fun t ht =>
      (hl.joins t ht).bindsBefore hp
    have hstop : ∀ t ∈ waiting.head?, ¬ Yard.bindsBefore operator.kind t := by
      intro t ht hb
      obtain ⟨hin, hle⟩ := Bool.and_eq_true_iff.mp hb
      have := hguard t ht hin (Kind.one_lt_of_isInfix hk hp)
      rw [hprec, decide_eq_true_iff] at hle
      omega
    have hguard' : Yard.Guards k (operator :: waiting) := by
      rintro _ ⟨⟩ _ _
      rw [hprec]
      omega
    rw [foldlM_append_ok (hl.yard _ _ hguard), foldlM_cons_ok (Yard.step_infix hk hgo hstop),
      hr.yard _ _ hguard']
    simp
  grove := by
    intro stack queue
    have hsplit : emitted ++ pending ++ emitted' ++ (pending' ++ [operator]) =
        (emitted ++ pending) ++ ((emitted' ++ pending') ++ [operator]) := by simp
    rw [hsplit, List.append_assoc, foldlM_append_ok (hl.grove _ _),
      foldlM_append_ok (hr.grove _ _)]
    exact foldlM_cons_ok (Grove.step_binary hk) []

/-- What is reordered at a level is so at the next, where more may be pending. -/
theorem lift (h : Reorders k xs qs n emitted pending) :
    Reorders (k + 1) xs qs n emitted pending where
  joins t ht := (h.joins t ht).succ
  yard _ _ hguard := h.yard _ _ hguard.of_succ
  grove := h.grove

end Reorders

/-! ## The end of an operand -/

/-- A step is looked through: it ends an operand if what is in front of it does. -/
theorem endsOperand_cons_isStep {t : Token} (h : t.kind.isStep) (recent : List Token) :
    endsOperand (t :: recent) = endsOperand recent := by
  simp [endsOperand, h]

theorem endsOperand_operand {t : Token}
    (h : t.kind.isOperand ∨ t.kind = .functionWord ∨ t.kind = .rightParen) (recent : List Token) :
    endsOperand (t :: recent) := by
  have hstep : ¬ t.kind.isStep := by
    revert h
    cases t.kind <;> decide
  simpa [endsOperand, hstep, or_assoc] using h

/-- Behind a parenthesis that opens, or an infix operator, no operand has ended. -/
theorem endsOperand_opening {t : Token} (h : t.kind = .leftParen ∨ t.kind.isInfix)
    (recent : List Token) : endsOperand (t :: recent) = false := by
  have hkind : ¬ t.kind.isStep ∧ ¬ t.kind.isOperand ∧ t.kind ≠ .functionWord ∧
      t.kind ≠ .rightParen := by
    revert h
    cases t.kind <;> decide
  simp [endsOperand, hkind]

/-- A sign leaves it open whether an operand has ended. -/
theorem endsOperand_leading {t : Token} (h : t.kind.isLeading) {recent : List Token}
    (hr : endsOperand recent = false) : endsOperand (t :: recent) = false := by
  by_cases hstep : t.kind.isStep
  · rw [endsOperand_cons_isStep hstep, hr]
  · have hkind := Kind.ne_of_isLeading_or_isInfix (.inl h)
    simp [endsOperand, hkind, hstep]

namespace Phrase

variable {k : Nat} {xs : List Token} {qs : List Node} {n : Node}

/-- **Every phrase is taken in.** -/
theorem reorders (h : Phrase k xs qs n) :
    ∃ emitted pending, Reorders k xs qs n emitted pending := by
  induction h with
  | literal h => exact ⟨_, _, .literal h⟩
  | operand hk n => exact ⟨_, _, .operand hk⟩
  | group ho hc _ ih =>
    obtain ⟨emitted, pending, h⟩ := ih
    exact ⟨_, _, h.group ho hc⟩
  | stepped hk _ ih =>
    obtain ⟨emitted, pending, h⟩ := ih
    exact ⟨_, _, h.stepped hk⟩
  | leading hk _ ih =>
    obtain ⟨emitted, pending, h⟩ := ih
    exact ⟨_, _, h.leading hk⟩
  | joined hk hp _ _ ihl ihr =>
    obtain ⟨emitted, pending, hl⟩ := ihl
    obtain ⟨emitted', pending', hr⟩ := ihr
    exact ⟨_, _, hl.joined hk hp hr⟩
  | lift _ ih =>
    obtain ⟨emitted, pending, h⟩ := ih
    exact ⟨_, _, h.lift⟩

/-- The scan of a phrase ends with a complete operand. -/
theorem endsOperand (h : Phrase k xs qs n) :
    ∀ recent : List Token, endsOperand (xs.reverse ++ recent) := by
  induction h with
  | literal h =>
    intro recent
    exact endsOperand_operand (.inl (Kind.isOperand_of_isLiteral h.kind)) recent
  | operand hk n =>
    intro recent
    exact endsOperand_operand (hk.imp (fun h => by rw [h]; rfl) .inl) recent
  | group ho hc _ ih =>
    intro recent
    rw [List.reverse_cons, List.reverse_append, List.reverse_singleton]
    exact endsOperand_operand (.inr (.inr hc)) _
  | stepped hk _ ih =>
    intro recent
    rw [List.reverse_append, List.reverse_singleton, List.append_assoc, List.singleton_append,
      endsOperand_cons_isStep hk]
    exact ih recent
  | leading hk _ ih =>
    intro recent
    rw [List.reverse_cons, List.append_assoc]
    exact ih _
  | joined hk hp _ _ ihl ihr =>
    intro recent
    rw [List.reverse_append, List.reverse_cons, List.append_assoc, List.append_assoc]
    exact ihr _
  | lift _ ih => exact ih

/-- **The tree of a phrase** is the tree of its scan. -/
theorem tree (h : Phrase k xs qs n) (depth : Nat) :
    Scan.tree ⟨depth, xs.reverse, qs.reverse⟩ = .ok n := by
  obtain ⟨emitted, pending, hr⟩ := h.reorders
  have hinside : ∀ t ∈ pending, Yard.isInside t := fun t ht => (hr.joins t ht).isInside
  have hpost : toPostfix xs = .ok (emitted ++ pending) := by
    have hyard := hr.yard [] [] (by rintro _ ⟨⟩)
    rw [toPostfix, Yard.empty, hyard]
    change Yard.finish _ = _
    rw [Yard.finish, Yard.release_append hinside (by rintro _ ⟨⟩)]
    simp
  have hbuild : buildTree (emitted ++ pending) qs = .ok (n, []) := by
    have hgrove := hr.grove [] []
    rw [List.append_nil] at hgrove
    rw [buildTree, hgrove]
    rfl
  have hne : xs.reverse.isEmpty = false := by
    rw [List.isEmpty_reverse, List.isEmpty_eq_false_iff]
    rintro rfl
    cases h.endsOperand []
  rw [Scan.tree, hne, List.reverse_reverse, List.reverse_reverse, hpost]
  change (do return (← buildTree (emitted ++ pending) qs).1) = _
  rw [hbuild]
  rfl

end Phrase

end Scrawl
