import Scrawl.Proofs.Expression.Grammar

/-!
# Proofs/Expression/Placement — operands and operators in their places

Which token may follow which in an expression, told by a machine with four states that looks at
kinds alone and counts nothing.  The tokens of every sentence are **in place**
(`Derives.inPlace`).

The converse needs parentheses that match and literals that have values.  `Standing.Fits` says what
the tokens up to some state are worth: with so many parentheses open they lead up to an operand, or
end with one.  One lemma for each kind of token says how that goes on.
-/

namespace Scrawl

open Kind (leftParen rightParen comma identifier)

theorem Kind.mem_steps_of_isStep {k : Kind} (h : k.isStep) : k ∈ Kind.steps := by
  revert h
  cases k <;> decide

/-- **What the tokens of an expression up to some place ask for.** -/
inductive Standing where
  /-- Behind nothing, an operator or an open parenthesis: an operand. -/
  | wanting
  /-- Behind the open parenthesis of a call or a comma: an operand or the end of the call. -/
  | inviting
  /-- Behind a name: an operator, the end of what was opened, or the parenthesis of a call. -/
  | named
  /-- Behind any other operand: an operator or the end of what was opened. -/
  | complete
deriving DecidableEq, Repr

namespace Standing

variable {s s' : Standing} {k : Kind}

/-- An operand has ended. -/
def isOver : Standing → Bool
  | named | complete => true
  | _ => false

/-- **One more token**, if it is in place. -/
def next (s : Standing) (k : Kind) : Option Standing :=
  if s.isOver then
    if k.isInfix then some wanting
    else if k.isStep || k = rightParen then some complete
    else if k = comma || k = leftParen && s = named then some inviting
    else none
  else
    if k.isLiteral then some complete
    else if k = identifier then some named
    else if k = leftParen || Kind.signs.contains k then some wanting
    else if k = rightParen && s = inviting then some complete
    else none

/-- What is asked for behind some more tokens, if they are in place. -/
def after (s : Standing) (word : List Kind) : Option Standing := word.foldlM next s

/-- Kinds one after the other are placed one after the other. -/
theorem after_append (s : Standing) (v w : List Kind) :
    s.after (v ++ w) = (s.after v).bind (after · w) :=
  List.foldlM_append

theorem after_cons (s : Standing) (k : Kind) (w : List Kind) :
    s.after (k :: w) = (s.next k).bind (after · w) :=
  List.foldlM_cons

theorem after_singleton (s : Standing) (k : Kind) : s.after [k] = s.next k := by
  rw [after_cons]
  exact Option.bind_fun_some _

/-! ## One token -/

theorem next_literal (hs : ¬ s.isOver) (hk : k.isLiteral) : s.next k = some complete := by
  rw [next, if_neg hs, if_pos hk]

theorem next_name (hs : ¬ s.isOver) : s.next identifier = some named := by
  rw [next, if_neg hs]
  rfl

/-- A parenthesis that opens stands where an operand would. -/
theorem next_opening (hs : ¬ s.isOver) : s.next leftParen = some wanting := by
  rw [next, if_neg hs]
  rfl

/-- A sign leaves the operand still wanted. -/
theorem next_sign (hs : ¬ s.isOver) (hk : k ∈ Kind.signs) : s.next k = some wanting := by
  have hkind : ¬ k.isLiteral ∧ k ≠ identifier := by
    revert hk
    cases k <;> decide
  simp [next, hs, hkind, hk]

/-- An operator between two operands wants the second. -/
theorem next_operator (hs : s.isOver) (hk : k.isInfix) : s.next k = some wanting := by
  rw [next, if_pos hs, if_pos hk]

/-- A step behind an operand leaves it complete. -/
theorem next_step (hs : s.isOver) (hk : k.isStep) : s.next k = some complete := by
  have hjoins : ¬ k.isInfix := fun h => Kind.not_isStep_of_isInfix h hk
  simp [next, hs, hjoins, hk]

/-- A parenthesis closes behind an operand, or where one was invited and none came. -/
theorem next_closing (hs : s ≠ wanting) : s.next rightParen = some complete := by
  cases s with
  | wanting => exact absurd rfl hs
  | _ => rfl

/-- A comma invites another argument. -/
theorem next_comma (hs : s.isOver) : s.next comma = some inviting := by
  rw [next, if_pos hs]
  rfl

theorem ne_wanting_of_isOver (hs : s.isOver) : s ≠ wanting := by
  rintro rfl
  cases hs

/-- A name is an operand. -/
theorem of_next_name (h : s.next identifier = some s') : ¬ s.isOver ∧ s' = named := by
  cases s with
  | wanting | inviting => exact ⟨by decide, (Option.some.inj h).symm⟩
  | named | complete => cases h

/-- A comma follows an operand. -/
theorem of_next_comma (h : s.next comma = some s') : s.isOver ∧ s' = inviting := by
  cases s with
  | wanting | inviting => cases h
  | named | complete => exact ⟨rfl, (Option.some.inj h).symm⟩

/-- A parenthesis closes nowhere else. -/
theorem of_next_closing (h : s.next rightParen = some s') : s ≠ wanting ∧ s' = complete := by
  cases s with
  | wanting => cases h
  | inviting | named | complete => exact ⟨by decide, (Option.some.inj h).symm⟩

/-- **The tokens in place where an operand may come.** -/
theorem cases_of_next (hs : ¬ s.isOver) (h : s.next k = some s') :
    k.isLiteral ∧ s' = complete ∨ k = identifier ∧ s' = named ∨ k = leftParen ∧ s' = wanting ∨
      k ∈ Kind.signs ∧ s' = wanting ∨ k = rightParen ∧ s = inviting ∧ s' = complete := by
  rw [next, if_neg hs] at h
  split at h
  case isTrue hk => exact .inl ⟨hk, (Option.some.inj h).symm⟩
  split at h
  case isTrue hk => exact .inr (.inl ⟨hk, (Option.some.inj h).symm⟩)
  split at h
  case isTrue hk =>
    rw [Bool.or_eq_true, decide_eq_true_iff, List.contains_iff_mem] at hk
    have hs' := (Option.some.inj h).symm
    exact .inr (.inr (hk.imp (⟨·, hs'⟩) fun hk => .inl ⟨hk, hs'⟩))
  split at h
  case isTrue hk =>
    rw [Bool.and_eq_true, decide_eq_true_iff, decide_eq_true_iff] at hk
    exact .inr (.inr (.inr (.inr ⟨hk.1, hk.2, (Option.some.inj h).symm⟩)))
  case isFalse => cases h

/-- **The tokens in place where an operand has ended.** -/
theorem cases_of_next_over (hs : s.isOver) (h : s.next k = some s') :
    k.isInfix ∧ s' = wanting ∨ k.isStep ∧ s' = complete ∨ k = rightParen ∧ s' = complete ∨
      k = comma ∧ s' = inviting ∨ k = leftParen ∧ s = named ∧ s' = inviting := by
  rw [next, if_pos hs] at h
  split at h
  case isTrue hk => exact .inl ⟨hk, (Option.some.inj h).symm⟩
  split at h
  case isTrue hk =>
    rw [Bool.or_eq_true, decide_eq_true_iff] at hk
    have hs' := (Option.some.inj h).symm
    exact .inr (hk.imp (⟨·, hs'⟩) fun hk => .inl ⟨hk, hs'⟩)
  split at h
  case isTrue hk =>
    rw [Bool.or_eq_true, Bool.and_eq_true, decide_eq_true_iff, decide_eq_true_iff,
      decide_eq_true_iff] at hk
    have hs' := (Option.some.inj h).symm
    exact .inr (.inr (.inr (hk.imp (⟨·, hs'⟩) fun hk => ⟨hk.1, hk.2, hs'⟩)))
  case isFalse => cases h

end Standing

/-- **Every operand and operator of an expression is in place**, and the last operand is
complete. -/
def InPlace (word : List Kind) : Prop := (Standing.wanting.after word).any Standing.isOver

instance instDecidableInPlace (word : List Kind) : Decidable (InPlace word) :=
  inferInstanceAs (Decidable (_ = true))

/-! ## Sentences are in place -/

variable {L : Token → Value → Prop}

mutual

/-- A sentence takes the place of an operand. -/
theorem Derives.exists_after (hL : ∀ {t v}, L t v → t.kind.isLiteral) :
    ∀ {k : Nat} {ts : List Token} {n : Node}, Derives L k ts n → ∀ {s : Standing}, ¬ s.isOver →
      ∃ s', s.after (ts.map Token.kind) = some s' ∧ s'.isOver
  | _, _, _, .literal h, s, hs => by
      refine ⟨.complete, ?_, rfl⟩
      rw [List.map_singleton, Standing.after_singleton, Standing.next_literal hs (hL h)]
  | _, _, _, .name hk, s, hs => by
      refine ⟨.named, ?_, rfl⟩
      rw [List.map_singleton, Standing.after_singleton, hk, Standing.next_name hs]
  | _, _, _, .call hk ho hc h, s, hs => by
      obtain ⟨s', hs', hne⟩ := h.exists_after hL
      refine ⟨.complete, ?_, rfl⟩
      rw [List.map_cons, List.map_cons, Standing.after_cons, hk, Standing.next_name hs,
        Option.bind_some, Standing.after_cons, ho, List.map_append]
      change Standing.after .inviting _ = _
      rw [Standing.after_append, hs', Option.bind_some, List.map_singleton,
        Standing.after_singleton, hc, Standing.next_closing hne]
  | _, _, _, .group ho hc h, s, hs => by
      obtain ⟨s', hs', hover⟩ := h.exists_after hL (s := .wanting) (by decide)
      refine ⟨.complete, ?_, rfl⟩
      rw [List.map_cons, Standing.after_cons, ho, Standing.next_opening hs, Option.bind_some,
        List.map_append, Standing.after_append, hs', Option.bind_some, List.map_singleton,
        Standing.after_singleton, hc, Standing.next_closing (Standing.ne_wanting_of_isOver hover)]
  | _, _, _, .stepped hk h, s, hs => by
      obtain ⟨s', hs', hover⟩ := h.exists_after hL hs
      refine ⟨.complete, ?_, rfl⟩
      rw [List.map_append, Standing.after_append, hs', Option.bind_some, List.map_singleton,
        Standing.after_singleton, Standing.next_step hover (Kind.isStep_of_mem_steps hk)]
  | _, _, _, .signed hk h, s, hs => by
      obtain ⟨s', hs', hover⟩ := h.exists_after hL (s := .wanting) (by decide)
      refine ⟨s', ?_, hover⟩
      rw [List.map_cons, Standing.after_cons, Standing.next_sign hs hk, Option.bind_some, hs']
  | _, _, _, .joined hk hl hr, s, hs => by
      obtain ⟨s₁, hs₁, hover₁⟩ := hl.exists_after hL hs
      obtain ⟨s₂, hs₂, hover₂⟩ := hr.exists_after hL (s := .wanting) (by decide)
      have hjoins := (Kind.precedence?_of_mem_operators hk).1
      refine ⟨s₂, ?_, hover₂⟩
      rw [List.map_append, Standing.after_append, hs₁, Option.bind_some, List.map_cons,
        Standing.after_cons, Standing.next_operator hover₁ hjoins, Option.bind_some, hs₂]
  | _, _, _, .lift h, _, hs => h.exists_after hL hs

/-- Arguments are in place where one is invited. -/
theorem DerivesAll.exists_after (hL : ∀ {t v}, L t v → t.kind.isLiteral) :
    ∀ {ts : List Token} {ns : List Node}, DerivesAll L ts ns →
      ∃ s', Standing.inviting.after (ts.map Token.kind) = some s' ∧ s' ≠ .wanting
  | _, _, .none => ⟨.inviting, rfl, by decide⟩
  | _, _, .last h => by
      obtain ⟨s', hs', hover⟩ := h.exists_after hL (s := .inviting) (by decide)
      exact ⟨s', hs', Standing.ne_wanting_of_isOver hover⟩
  | _, _, .more hk h hs => by
      obtain ⟨s₁, hs₁, hover⟩ := h.exists_after hL (s := .inviting) (by decide)
      obtain ⟨s₂, hs₂, hne⟩ := hs.exists_after hL
      refine ⟨s₂, ?_, hne⟩
      rw [List.map_append, Standing.after_append, hs₁, Option.bind_some, List.map_cons,
        Standing.after_cons, hk, Standing.next_comma hover, Option.bind_some, hs₂]

end

/-- **A sentence is in place.** -/
theorem Derives.inPlace (hL : ∀ {t v}, L t v → t.kind.isLiteral) {k : Nat} {ts : List Token}
    {n : Node} (h : Derives L k ts n) : InPlace (ts.map Token.kind) := by
  obtain ⟨s', hs', hover⟩ := h.exists_after hL (s := .wanting) (by decide)
  rw [InPlace, hs']
  exact hover

/-! ## Tokens up to a place -/

/-- **An operator behind a sentence joins it to the next operand**, at its own level: it takes the
whole sentence for its left side, or else the last part of it. -/
theorem Derives.exists_joined {k p : Nat} {operator : Token} {ts us : List Token} {l r : Node}
    (hl : Derives L k ts l) (hk : operator.kind ∈ Kind.operators p) (hr : Derives L 1 us r) :
    ∃ n, Derives L (max k p) (ts ++ operator :: us) n := by
  obtain ⟨hjoins, hlevel⟩ := Kind.precedence?_of_mem_operators hk
  have hp : 1 < p := Kind.one_lt_of_isInfix hjoins hlevel
  induction k generalizing ts l with
  | zero =>
    obtain ⟨q, rfl⟩ : ∃ q, p = q + 1 := ⟨p - 1, by omega⟩
    rw [max_eq_right (by omega)]
    exact ⟨_, .joined hk (hl.of_le (by omega)) (hr.of_le (by omega))⟩
  | succ k ih =>
    by_cases hkp : k + 1 ≤ p
    · obtain ⟨q, rfl⟩ : ∃ q, p = q + 1 := ⟨p - 1, by omega⟩
      rw [max_eq_right hkp]
      exact ⟨_, .joined hk (hl.of_le hkp) (hr.of_le (by omega))⟩
    rw [max_eq_left (by omega)]
    cases hl with
    | signed => omega
    | joined hk' hl' hr' =>
      obtain ⟨n, hn⟩ := ih hr'
      rw [max_eq_left (by omega)] at hn
      rw [List.append_assoc, List.cons_append]
      exact ⟨_, .joined hk' hl' hn⟩
    | lift h =>
      obtain ⟨n, hn⟩ := ih h
      rw [max_eq_left (by omega)] at hn
      exact ⟨n, hn.lift⟩

variable (L)

/-- **Some tokens lead up to an operand**: with one behind them they are a sentence. -/
def Lead (ts : List Token) : Prop :=
  ∀ {us : List Token} {n : Node}, Derives L 1 us n → ∃ m, Derives L 8 (ts ++ us) m

/-- Some tokens lead up to an operand, with so many parentheses open. -/
def Leads : Nat → List Token → Prop
  | 0, ts => Lead L ts
  | depth + 1, ts => ∃ before opening ts', ts = before ++ opening :: ts' ∧
      opening.kind = leftParen ∧ Leads depth before ∧ Lead L ts'

/-- Some tokens end with an operand, with so many parentheses open. -/
def Ended (depth : Nat) (ts : List Token) : Prop :=
  ∃ ts' us n, ts = ts' ++ us ∧ Leads L depth ts' ∧ Derives L 0 us n

/-- **What the tokens up to some place are worth**, by what they ask for. -/
def Standing.Fits (depth : Nat) (ts : List Token) : Standing → Prop
  | .wanting => Leads L depth ts
  | .inviting => depth = 0 ∧ ts = []
  | .named | .complete => Ended L depth ts

variable {L} {depth : Nat} {t : Token} {ts us : List Token} {n : Node}

namespace Lead

theorem nil : Lead L [] := fun h => ⟨_, h.of_le (by decide)⟩

/-- A sign in front of an operand is one more token leading up to it. -/
theorem sign (h : Lead L ts) (hk : t.kind ∈ Kind.signs) : Lead L (ts ++ [t]) := by
  intro us n hn
  rw [List.append_assoc]
  exact h (.signed hk hn)

/-- Behind an operand and an operator comes another operand. -/
theorem joined (h : Lead L ts) (hus : Derives L 0 us n) (hk : t.kind.isInfix) :
    Lead L (ts ++ us ++ [t]) := by
  intro vs m hm
  obtain ⟨level, hlt, hmem⟩ := Kind.exists_mem_operators hk
  obtain ⟨l, hl⟩ := h hus.lift
  obtain ⟨n', hn'⟩ := hl.exists_joined hmem hm
  rw [max_eq_left (by omega)] at hn'
  exact ⟨n', by simpa using hn'⟩

end Lead

namespace Leads

/-- What leads up to an operand may do so otherwise since the last open parenthesis. -/
theorem exists_last (h : Leads L depth ts) : ∃ before ts', ts = before ++ ts' ∧ Lead L ts' ∧
    ∀ {us : List Token}, Lead L us → Leads L depth (before ++ us) := by
  cases depth with
  | zero => exact ⟨[], ts, rfl, h, id⟩
  | succ depth =>
    obtain ⟨before, opening, ts', rfl, ho, hbefore, hts'⟩ := h
    refine ⟨before ++ [opening], ts', by simp, hts', fun {us} hus => ?_⟩
    exact ⟨before, opening, us, by simp, ho, hbefore, hus⟩

theorem sign (h : Leads L depth ts) (hk : t.kind ∈ Kind.signs) : Leads L depth (ts ++ [t]) := by
  obtain ⟨before, ts', rfl, hts', hlast⟩ := h.exists_last
  rw [List.append_assoc]
  exact hlast (hts'.sign hk)

/-- A parenthesis leads up to an operand one level deeper. -/
theorem opening (h : Leads L depth ts) (ho : t.kind = leftParen) :
    Leads L (depth + 1) (ts ++ [t]) :=
  ⟨ts, t, [], rfl, ho, h, Lead.nil⟩

/-- Behind what leads up to it, an operand has ended. -/
theorem operand (h : Leads L depth ts) (hus : Derives L 0 us n) : Ended L depth (ts ++ us) :=
  ⟨ts, us, n, rfl, h, hus⟩

end Leads

namespace Ended

/-- An operator behind an operand leads up to the next. -/
theorem joined (h : Ended L depth ts) (hk : t.kind.isInfix) : Leads L depth (ts ++ [t]) := by
  obtain ⟨ts', us, n, rfl, hts', hus⟩ := h
  obtain ⟨before, ts', rfl, hlead, hlast⟩ := hts'.exists_last
  simpa using hlast (hlead.joined hus hk)

/-- A step behind an operand ends it again. -/
theorem step (h : Ended L depth ts) (hk : t.kind ∈ Kind.steps) : Ended L depth (ts ++ [t]) := by
  obtain ⟨ts', us, n, rfl, hts', hus⟩ := h
  exact ⟨ts', us ++ [t], _, by simp, hts', .stepped hk hus⟩

/-- A closing parenthesis makes an operand of all that stands behind its partner. -/
theorem closing (h : Ended L (depth + 1) ts) (hc : t.kind = rightParen) :
    Ended L depth (ts ++ [t]) := by
  obtain ⟨_, us, n, rfl, ⟨before, opening, ts', rfl, ho, hbefore, hlead⟩, hus⟩ := h
  obtain ⟨m, hm⟩ := hlead hus.lift
  exact ⟨before, opening :: (ts' ++ us ++ [t]), m, by simp, hbefore, .group ho hc hm⟩

/-- With no parenthesis open, what ends with an operand is a sentence. -/
theorem exists_derives (h : Ended L 0 ts) : ∃ n, Derives L 8 ts n := by
  obtain ⟨ts', us, n, rfl, hts', hus⟩ := h
  exact hts' hus.lift

end Ended

namespace Standing.Fits

variable {s : Standing}

/-- Where no operand is over, the tokens lead up to one. -/
theorem leads (h : s.Fits L depth ts) (hs : ¬ s.isOver) : Leads L depth ts := by
  cases s with
  | wanting => exact h
  | inviting =>
    obtain ⟨rfl, rfl⟩ := h
    exact Lead.nil
  | named | complete => exact absurd rfl hs

/-- Where one is over, it has ended. -/
theorem ended (h : s.Fits L depth ts) (hs : s.isOver) : Ended L depth ts := by
  cases s with
  | named | complete => exact h
  | wanting | inviting => cases hs

end Standing.Fits

end Scrawl
