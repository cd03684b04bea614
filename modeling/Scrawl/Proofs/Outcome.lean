/-!
# Proofs/Outcome — computations that may fail, taken apart

What a success of a sequence or of a fold says about its steps, what a sequence can fail with
(`FailsOnly`), and where a run over the start of a list stops.
-/

namespace Scrawl

variable {ε α β : Type}

/-- **A sequence succeeds when both of its parts do.** -/
theorem exists_of_bind_eq_ok {x : Except ε α} {f : α → Except ε β} {b : β}
    (h : x >>= f = .ok b) : ∃ a, x = .ok a ∧ f a = .ok b := by
  obtain e | a := x
  · cases h
  · exact ⟨a, rfl, h⟩

theorem exists_of_map_eq_ok {x : Except ε α} {f : α → β} {b : β} (h : x.map f = .ok b) :
    ∃ a, x = .ok a ∧ f a = b := by
  obtain e | a := x
  · cases h
  · exact ⟨a, rfl, Except.ok.inj h⟩

/-- **What every step keeps, a fold keeps.** -/
theorem foldlM_ok_induction {f : β → α → Except ε β} {I : β → Prop} :
    ∀ {l : List α} {b d : β}, (∀ a ∈ l, ∀ {b d : β}, I b → f b a = .ok d → I d) → I b →
      l.foldlM f b = .ok d → I d
  | [], b, d, _, hb, h => by
      obtain rfl : b = d := Except.ok.inj h
      exact hb
  | a :: l, b, d, hstep, hb, h => by
      rw [List.foldlM_cons] at h
      obtain ⟨c, hc, hd⟩ := exists_of_bind_eq_ok h
      exact foldlM_ok_induction (fun x hx => hstep x (List.mem_cons_of_mem a hx))
        (hstep a List.mem_cons_self hb hc) hd

/-- **What every step keeps of the list up to it, a fold keeps of the whole list.** -/
theorem foldlM_append_induction {f : β → α → Except ε β} {I : List α → β → Prop}
    (hstep : ∀ {l : List α} {a : α} {b d : β}, I l b → f b a = .ok d → I (l ++ [a]) d)
    {l m : List α} {b d : β} (hb : I l b) (h : m.foldlM f b = .ok d) : I (l ++ m) d := by
  induction m generalizing l b with
  | nil =>
    obtain rfl : b = d := Except.ok.inj h
    rwa [List.append_nil]
  | cons a m ih =>
    rw [List.foldlM_cons] at h
    obtain ⟨c, hc, h⟩ := exists_of_bind_eq_ok h
    rw [List.append_cons]
    exact ih (hstep hb hc) h

/-! ## Folds step by step -/

theorem foldlM_cons_ok {f : β → α → Except ε β} {b d : β} {a : α} (h : f b a = .ok d)
    (l : List α) : (a :: l).foldlM f b = l.foldlM f d := by
  rw [List.foldlM_cons, h]
  rfl

/-- A fold goes on from where it got to. -/
theorem foldlM_append_ok {f : β → α → Except ε β} {b d : β} {l : List α}
    (h : l.foldlM f b = .ok d) (l' : List α) : (l ++ l').foldlM f b = l'.foldlM f d := by
  rw [List.foldlM_append, h]
  rfl

/-! ## Errors that may occur -/

/-- **An outcome whose errors all lie in a class.** -/
def FailsOnly (P : ε → Prop) (x : Except ε α) : Prop := ∀ e, x = .error e → P e

namespace FailsOnly

variable {P Q : ε → Prop}

theorem ok (a : α) : FailsOnly P (.ok a) := nofun

theorem error {e : ε} (h : P e) : FailsOnly P (.error e : Except ε α) := by
  rintro _ ⟨⟩
  exact h

/-- A class of errors may be widened. -/
theorem mono {x : Except ε α} (h : FailsOnly P x) (hPQ : ∀ e, P e → Q e) : FailsOnly Q x :=
  fun e he => hPQ e (h e he)

/-- The second part of a sequence may rely on the success of the first. -/
theorem bind_of_ok {x : Except ε α} {f : α → Except ε β} (h : FailsOnly P x)
    (hf : ∀ a, x = .ok a → FailsOnly P (f a)) : FailsOnly P (x >>= f) := by
  obtain e | a := x
  · exact .error (h e rfl)
  · exact hf a rfl

/-- **Of two steps in turn**, whichever fails does so within the class. -/
theorem bind {x : Except ε α} {f : α → Except ε β} (h : FailsOnly P x)
    (hf : ∀ a, FailsOnly P (f a)) : FailsOnly P (x >>= f) := h.bind_of_ok fun a _ => hf a

theorem map {x : Except ε α} (h : FailsOnly P x) (f : α → β) : FailsOnly P (x.map f) := by
  obtain e | a := x
  · exact .error (h e rfl)
  · exact .ok _

theorem mapM {f : α → Except ε β} (h : ∀ a, FailsOnly P (f a)) :
    ∀ as : List α, FailsOnly P (as.mapM f)
  | [] => .ok []
  | a :: as => by
      rw [List.mapM_cons]
      exact (h a).bind fun _ => (mapM h as).bind fun _ => .ok _

theorem foldlM {f : β → α → Except ε β} (h : ∀ b a, FailsOnly P (f b a)) :
    ∀ (as : List α) (b : β), FailsOnly P (as.foldlM f b)
  | [], b => .ok b
  | a :: as, b => by
      rw [List.foldlM_cons]
      exact (h b a).bind fun c => foldlM h as c

end FailsOnly

/-! ## Runs at the start of a list -/

/-- A run that something stops is taken whole. -/
theorem takeWhile_append_stop {p : α → Bool} {l l' : List α} (h : ∀ a ∈ l, p a)
    (hstop : ∀ a ∈ l'.head?, ¬ p a) : (l ++ l').takeWhile p = l := by
  rw [List.takeWhile_append_of_pos h]
  cases l' with
  | nil => simp
  | cons a _ => rw [List.takeWhile_cons_of_neg (hstop a rfl), List.append_nil]

theorem dropWhile_append_stop {p : α → Bool} {l l' : List α} (h : ∀ a ∈ l, p a)
    (hstop : ∀ a ∈ l'.head?, ¬ p a) : (l ++ l').dropWhile p = l' := by
  rw [List.dropWhile_append_of_pos h]
  cases l' with
  | nil => rfl
  | cons a _ => exact List.dropWhile_cons_of_neg (hstop a rfl)

/-- What stands behind a longest run does not belong to it. -/
theorem not_of_mem_head?_dropWhile {p : α → Bool} {l : List α} :
    ∀ a ∈ (l.dropWhile p).head?, ¬ p a := by
  intro a ha
  have h := List.head?_dropWhile_not p l
  rw [Option.mem_def.mp ha] at h
  rw [h]
  exact Bool.false_ne_true

end Scrawl
