import Scrawl.Proofs.Machine.Alike
import Scrawl.Proofs.Machine.Trace

/-!
# Proofs/Machine/DeadCode — what can be erased from functions

A function ends with the first `return` among the statements of its body, so what stands behind that
is never reached; and a `return` that is nested in another statement does nothing.  `Node.cleaned`
erases both from every function of a program, and nobody can tell from a run (`dead_code_erased`).
The scopes of the two runs hold different functions, but they are alike all along.  Only a drawing
of the tree shows what is dead: it may be what has too many levels to be drawn.
-/

namespace Scrawl

namespace Node

mutual

/-- **A statement whose functions are cleaned**; inside of a function, also without the returns that
are nested in it. -/
def cleaned (inside : Bool) : Node → Node
  | .block statements => .block (cleanedAll inside statements)
  | .function name parameters (.block body) true =>
    .function name parameters (.block (cleanedBody body)) true
  | .choice condition whenTrue whenFalse =>
    .choice condition (whenTrue.cleaned inside) (whenFalse.cleaned inside)
  | .whileLoop condition body => .whileLoop condition (body.cleaned inside)
  | .forLoop initialization condition update body =>
    .forLoop (if inside && initialization.isReturn then .absent else initialization.cleaned inside)
      condition update (body.cleaned inside)
  | n => n

/-- …all of them. -/
def cleanedAll (inside : Bool) : List Node → List Node
  | [] => []
  | n :: rest =>
    if inside && n.isReturn then cleanedAll inside rest
    else n.cleaned inside :: cleanedAll inside rest

/-- **The body of a function, cleaned**: nothing is left behind its first `return`. -/
def cleanedBody : List Node → List Node
  | [] => []
  | n :: rest => if n.isReturn then [n] else n.cleaned true :: cleanedBody rest

end

@[simp] theorem isReturn_cleaned (inside : Bool) (n : Node) :
    (n.cleaned inside).isReturn = n.isReturn := by
  unfold cleaned
  split <;> rfl

end Node

/-- A function with its body cleaned. -/
def Definition.cleaned (d : Definition) : Definition :=
  match d.body with
  | .block body => ⟨d.parameters, .block (Node.cleanedBody body)⟩
  | _ => d

/-- A function of a program, and the same with its body cleaned. -/
def Definition.IsCleaned (d d' : Definition) : Prop := d.Formed ∧ d' = d.cleaned

namespace Node

variable {L : Value → Prop} {n : Node}

/-- An expression is alike to itself. -/
theorem IsExpression.alike_refl (h : n.IsExpression L) : AlikeExpression (· = ·) n n := by
  induction h with
  | literal _ => exact .literal _
  | reference name => exact .reference rfl
  | call name _ ih =>
    have harguments := AlikeExpressions.of_map (f := id) ih
    rw [List.map_id] at harguments
    exact .call rfl harguments
  | unary _ _ ih => exact .unary _ ih
  | binary _ _ _ ihl ihr => exact .binary _ ihl ihr

/-- There are no functions in an expression. -/
theorem IsExpression.cleaned_eq (h : n.IsExpression L) (inside : Bool) : n.cleaned inside = n := by
  cases h <;> rfl

/-- Statements are alike to what is left of them, the `return`s that go being without effect. -/
theorem alikeAll_cleaned {inside : Bool} : ∀ {ns : List Node},
    (∀ n ∈ ns, Alike (· = ·) Definition.IsCleaned (inside = true) n (n.cleaned inside)) →
      AlikeAll (· = ·) Definition.IsCleaned (inside = true) ns (cleanedAll inside ns)
  | [], _ => .nil
  | n :: ns, h => by
      obtain ⟨hn, hns⟩ := List.forall_mem_cons.mp h
      rw [cleanedAll]
      split
      · rename_i hdead
        obtain ⟨hinside, hreturn⟩ := (Bool.and_eq_true _ _).mp hdead
        exact .dropped hinside hreturn (alikeAll_cleaned hns)
      · exact .cons hn (alikeAll_cleaned hns)

theorem alike_block_cleaned {inside : Bool} {ns : List Node}
    (h : ∀ n ∈ ns, Alike (· = ·) Definition.IsCleaned (inside = true) n (n.cleaned inside)) :
    Alike (· = ·) Definition.IsCleaned (inside = true) (.block ns) ((block ns).cleaned inside) :=
  .block (alikeAll_cleaned h)

/-- **A statement and what is left of it do the same.** -/
theorem IsStatement.alike_cleaned (h : n.Statement) (inside : Bool) :
    Alike (· = ·) Definition.IsCleaned (inside = true) n (n.cleaned inside) := by
  induction h with
  | expression he =>
    rw [he.cleaned_eq]
    exact .expression he.alike_refl
  | declaration name => exact .definition rfl .none
  | definition name hk he =>
    refine .definition rfl ?_
    rw [assigned?, if_pos hk]
    exact .some he.alike_refl
  | function name hp hbody _ => exact .function rfl ⟨⟨hp, .intro hbody⟩, rfl⟩
  | returnVoid hk => exact .expression (.unary _ (.literal _))
  | returnValue hk he => exact .expression (.unary _ he.alike_refl)
  | choice hc _ iht =>
    exact .choice hc.alike_refl (alike_block_cleaned iht) (.expression .absent)
  | choiceElse hc _ _ iht ihf =>
    exact .choice hc.alike_refl (alike_block_cleaned iht) (alike_block_cleaned ihf)
  | choiceChain hc _ _ iht ihf => exact .choice hc.alike_refl (alike_block_cleaned iht) ihf
  | whileLoop hc _ ih => exact .whileLoop hc.alike_refl (alike_block_cleaned ih)
  | @forLoop initialization _ _ _ _ hc hu _ ihi ih =>
    refine .forLoop ?_ (.of_ne (f := id) rfl fun h => (hc h).alike_refl)
      (.of_ne (f := id) rfl fun h => (hu h).alike_refl) (alike_block_cleaned ih)
    split
    · rename_i hdead
      obtain ⟨hinside, hreturn⟩ := (Bool.and_eq_true _ _).mp hdead
      exact .dropped hinside hreturn
    · by_cases ha : initialization = .absent
      · subst ha
        exact .expression .absent
      · exact ihi ha

/-! ## Cleaned programs -/

theorem exists_of_mem_cleanedAll {inside : Bool} : ∀ {ns : List Node}, n ∈ cleanedAll inside ns →
    ∃ k ∈ ns, n = k.cleaned inside
  | k :: ns, h => by
      rw [cleanedAll] at h
      split at h
      · obtain ⟨l, hl, rfl⟩ := exists_of_mem_cleanedAll h
        exact ⟨l, List.mem_cons_of_mem k hl, rfl⟩
      · obtain rfl | h := List.mem_cons.mp h
        · exact ⟨k, List.mem_cons_self, rfl⟩
        · obtain ⟨l, hl, rfl⟩ := exists_of_mem_cleanedAll h
          exact ⟨l, List.mem_cons_of_mem k hl, rfl⟩

/-- What is left of a body was in it, itself or cleaned. -/
theorem exists_of_mem_cleanedBody : ∀ {ns : List Node}, n ∈ cleanedBody ns →
    ∃ k ∈ ns, n = k ∨ n = k.cleaned true
  | k :: ns, h => by
      rw [cleanedBody] at h
      split at h
      · exact ⟨k, List.mem_cons_self, .inl (List.mem_singleton.mp h)⟩
      · obtain rfl | h := List.mem_cons.mp h
        · exact ⟨k, List.mem_cons_self, .inr rfl⟩
        · obtain ⟨l, hl, hn⟩ := exists_of_mem_cleanedBody h
          exact ⟨l, List.mem_cons_of_mem k hl, hn⟩

/-- **What is left of a statement is a statement.** -/
theorem IsStatement.cleaned (h : n.IsStatement L) (inside : Bool) :
    (n.cleaned inside).IsStatement L := by
  have hall {ns : List Node} {inside : Bool} (ih : ∀ n ∈ ns, (n.cleaned inside).IsStatement L) :
      ∀ n ∈ cleanedAll inside ns, n.IsStatement L := by
    intro n hn
    obtain ⟨k, hk, rfl⟩ := exists_of_mem_cleanedAll hn
    exact ih k hk
  induction h generalizing inside with
  | expression he => exact (he.cleaned_eq inside).symm ▸ .expression he
  | declaration name => exact .declaration name
  | definition name hk he => exact .definition name hk he
  | function name hp hbody ih =>
    refine .function name hp fun n hn => ?_
    obtain ⟨k, hk, rfl | rfl⟩ := exists_of_mem_cleanedBody hn
    · exact hbody n hk
    · exact ih k hk true
  | returnVoid hk => exact .returnVoid hk
  | returnValue hk he => exact .returnValue hk he
  | choice hc _ iht => exact .choice hc (hall fun n hn => iht n hn inside)
  | choiceElse hc _ _ iht ihf =>
    exact .choiceElse hc (hall fun n hn => iht n hn inside) (hall fun n hn => ihf n hn inside)
  | choiceChain hc _ _ iht ihf =>
    exact .choiceChain hc (hall fun n hn => iht n hn inside) (ihf inside)
  | whileLoop hc _ ih => exact .whileLoop hc (hall fun n hn => ih n hn inside)
  | @forLoop initialization _ _ _ _ hc hu _ ihi ih =>
    refine .forLoop (fun hne => ?_) hc hu (hall fun n hn => ih n hn inside)
    split at hne
    · exact absurd rfl hne
    · rename_i halive
      rw [if_neg halive]
      refine ihi (fun ha => hne ?_) inside
      rw [ha]
      rfl

/-- **What is left of a program is a program.** -/
theorem IsProgram.cleaned (h : n.IsProgram L) (inside : Bool) :
    (n.cleaned inside).IsProgram L := by
  obtain ⟨hs⟩ := h
  refine .intro fun n hn => ?_
  obtain ⟨k, hk, rfl⟩ := exists_of_mem_cleanedAll hn
  exact (hs k hk).cleaned inside

theorem IsProgram.alike_cleaned (h : n.Statements) :
    Alike (· = ·) Definition.IsCleaned False n (n.cleaned false) := by
  obtain ⟨hs⟩ := h
  have hblock := alike_block_cleaned fun n hn => (hs n hn).alike_cleaned false
  rwa [eq_false Bool.false_ne_true] at hblock

/-! ## Bodies of functions -/

/-- **A body does what is left of it does**, up to its first `return`. -/
theorem alikeBody_cleaned : ∀ {ns : List Node}, (∀ n ∈ ns, n.Statement) →
    AlikeBody (· = ·) Definition.IsCleaned ns (cleanedBody ns)
  | [], _ => .nil
  | n :: ns, h => by
      obtain ⟨hn, hns⟩ := List.forall_mem_cons.mp h
      rw [cleanedBody]
      split
      · rename_i hr
        obtain ⟨operator, e, rfl, hk, he⟩ := hn.exists_of_isReturn hr
        refine .returned ns [] hk ?_
        obtain rfl | he := he
        · exact .literal _
        · exact he.alike_refl
      · rename_i hr
        have halike := hn.alike_cleaned true
        rw [eq_self] at halike
        rw [Bool.not_eq_true] at hr
        exact .cons hr (by rwa [isReturn_cleaned]) halike (alikeBody_cleaned hns)

end Node

/-- **A function and its cleaned form do the same.** -/
theorem Definition.IsCleaned.alike {d d' : Definition} (h : d.IsCleaned d') :
    d.Alike (· = ·) Definition.IsCleaned d' := by
  obtain ⟨⟨hp, hbody⟩, rfl⟩ := h
  obtain ⟨parameters, body⟩ := d
  obtain ⟨hns⟩ := hbody
  refine ⟨?_, _, _, rfl, rfl, Node.alikeBody_cleaned hns⟩
  refine List.forall₂_same.mpr fun p hmem => ?_
  obtain ⟨x, rfl⟩ := hp p hmem
  exact ⟨x, x, rfl, rfl, rfl⟩

end Scrawl
