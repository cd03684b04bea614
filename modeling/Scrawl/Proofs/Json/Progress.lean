import Scrawl.Json.Reader

/-!
# Proofs/Json/Progress — the reader never runs out of steps

A reader that succeeds has taken in at least one character (`Moves`).  A value therefore needs no
more steps than twice the characters left, and a whole text has them (`readWithin_ne_exhausted`).
-/

namespace Scrawl.Json

variable {α : Type} {limit : Option Nat} {s t : Spot}

/-! ## Moving on -/

/-- **A reader moves on**: where it succeeds there is less left than where it started, and it does
not fail for want of steps. -/
def Moves (s : Spot) : Except ReadError (α × Spot) → Prop
  | .ok (_, t) => t.rest.length < s.rest.length
  | .error e => e ≠ .exhausted

/-- A reader that starts further on. -/
theorem Moves.of_le {x : Except ReadError (α × Spot)} (h : Moves t x)
    (hle : t.rest.length ≤ s.rest.length) : Moves s x := by
  obtain e | ⟨a, u⟩ := x
  · exact h
  · exact Nat.lt_of_lt_of_le h hle

@[simp] theorem Spot.length_skip (s : Spot) (n : Nat) :
    (s.skip n).rest.length = s.rest.length - n := List.length_drop

theorem Spot.length_skipSpace (s : Spot) : s.skipSpace.rest.length ≤ s.rest.length := by
  rw [skipSpace, length_skip]
  exact Nat.sub_le _ _

/-- Behind a character there is less left. -/
theorem Spot.length_skip_lt {c : Char} {cs : List Char} (h : s.rest = c :: cs) {n : Nat}
    (hn : 0 < n) : (s.skip n).rest.length < s.rest.length := by
  rw [length_skip, h, List.length_cons]
  omega

/-! ## Texts and numbers -/

/-- An escape is read without fuel. -/
theorem readEscape_ne_exhausted (s : Spot) : readEscape s ≠ .error .exhausted := by
  unfold readEscape
  repeat' split
  all_goals nofun

/-- **A text moves on** by at least its closing quote, with a unit of fuel for each character
left. -/
theorem moves_readTextFrom (start fuel : Nat) (done : Option (List Char)) (s : Spot)
    (hfuel : s.rest.length < fuel) : Moves s (readTextFrom start fuel done s) := by
  induction fuel generalizing done s with
  | zero => omega
  | succ fuel ih =>
    rw [readTextFrom]
    split
    · nofun
    · cases done with
      | some cs => exact Spot.length_skip_lt ‹_› Nat.one_pos
      | none => nofun
    · nofun
    · rename_i hrest
      have hescape := readEscape_ne_exhausted (s.skip 1)
      split
      · rename_i e he
        exact fun h => hescape (he.trans (congrArg Except.error h))
      · rename_i c length _
        have hlt := Spot.length_skip_lt hrest (show 0 < 1 + length by omega)
        exact (ih _ _ (by omega)).of_le (Nat.le_of_lt hlt)
    · rename_i hrest
      have hlt := Spot.length_skip_lt hrest Nat.one_pos
      split
      · nofun
      · exact (ih _ _ (by omega)).of_le (Nat.le_of_lt hlt)

theorem moves_readText (s : Spot) : Moves s (readText s) :=
  moves_readTextFrom _ _ _ _ (Nat.lt_succ_self _)

/-- A number takes a digit at least. -/
theorem moves_readNumber (limit : Option Nat) (s : Spot) : Moves s (readNumber limit s) := by
  unfold readNumber
  split
  rename_i negative body hsign
  dsimp only
  split
  · rintro ⟨⟩
  · rename_i hwhole
    have hlength : 0 < (wholePart body).length := List.length_pos_iff.mpr hwhole
    -- Where a number starts there is a character left.
    obtain ⟨c, cs, hrest⟩ : ∃ c cs, s.rest = c :: cs := by
      refine List.ne_nil_iff_exists_cons.mp fun hnil => hwhole ?_
      rw [hnil] at hsign
      obtain ⟨-, rfl⟩ := Prod.mk.inj hsign
      rfl
    split
    · split
      · rintro ⟨⟩
      · exact Spot.length_skip_lt hrest (by omega)
    · split
      · exact Spot.length_skip_lt hrest (by omega)
      · rintro ⟨⟩

/-- A scalar takes a character at least, whichever sort it is. -/
theorem moves_readScalar (limit : Option Nat) (s : Spot) : Moves s (readScalar limit s) := by
  unfold readScalar
  split
  · rename_i word value hfind
    have hne : ∀ entry ∈ constants, entry.1 ≠ [] := by decide
    have hword : word ≠ [] := hne _ (List.mem_of_find?_eq_some hfind)
    have hstart : word.isPrefixOf s.rest := by
      have h := List.find?_some hfind
      exact h
    have hlength := (List.isPrefixOf_iff_prefix.mp hstart).length_le
    have hpos := List.length_pos_iff.mpr hword
    change (s.skip word.length).rest.length < s.rest.length
    rw [Spot.length_skip]
    omega
  · exact moves_readNumber limit s

/-! ## Values -/

/-- **Values, items and fields are read with the steps they need**, in twice as many as there are
characters left. -/
structure Suffices (limit : Option Nat) (fuel : Nat) : Prop where
  value : ∀ s : Spot, 2 * s.rest.length < fuel → Moves s (readValue limit fuel s)
  items : ∀ (done : List Json) (s : Spot), 2 * s.rest.length + 1 < fuel →
    Moves s (readItems limit fuel done s)
  fields : ∀ (done : List (String × Json)) (s : Spot), 2 * s.rest.length + 1 < fuel →
    Moves s (readFields limit fuel done s)

namespace Suffices

variable {fuel : Nat} (h : Suffices limit fuel)

include h

/-- A value takes a character before it goes into its parts. -/
theorem value_succ (s : Spot) (hfuel : 2 * s.rest.length < fuel + 1) :
    Moves s (readValue limit (fuel + 1) s) := by
  have hinside {c : Char} {cs : List Char} (hrest : s.rest = c :: cs) :
      (s.skip 1).skipSpace.rest.length < s.rest.length :=
    Nat.lt_of_le_of_lt (Spot.length_skipSpace _) (Spot.length_skip_lt hrest Nat.one_pos)
  rw [readValue]
  split
  · rename_i hrest
    have hlt := Spot.length_skip_lt hrest Nat.one_pos
    have htext := (moves_readText (s.skip 1)).of_le (Nat.le_of_lt hlt)
    split
    · rename_i he
      rwa [he] at htext
    · rename_i he
      rwa [he] at htext
  · rename_i hrest
    have hlt := hinside hrest
    dsimp only
    split
    · exact Nat.lt_of_le_of_lt (by simp) hlt
    · exact (h.items [] _ (by omega)).of_le (Nat.le_of_lt hlt)
  · rename_i hrest
    have hlt := hinside hrest
    dsimp only
    split
    · exact Nat.lt_of_le_of_lt (by simp) hlt
    · exact (h.fields [] _ (by omega)).of_le (Nat.le_of_lt hlt)
  · exact moves_readScalar limit s

/-- An item takes a character, and so does the comma behind it. -/
theorem items_succ (done : List Json) (s : Spot) (hfuel : 2 * s.rest.length + 1 < fuel + 1) :
    Moves s (readItems limit (fuel + 1) done s) := by
  have hvalue := h.value s (by omega)
  rw [readItems]
  split
  · rename_i he
    rwa [he] at hvalue
  · rename_i item t ht
    rw [ht] at hvalue
    have hlt : t.skipSpace.rest.length < s.rest.length :=
      Nat.lt_of_le_of_lt t.length_skipSpace hvalue
    have hmore := (t.skipSpace.skip 1).length_skipSpace
    dsimp only
    split
    · exact Nat.lt_of_le_of_lt (by simp) hlt
    · rw [Spot.length_skip] at hmore
      exact (h.items _ _ (by omega)).of_le (by omega)
    · rintro ⟨⟩

/-- A field takes its key, its colon and its value. -/
theorem fields_succ (done : List (String × Json)) (s : Spot)
    (hfuel : 2 * s.rest.length + 1 < fuel + 1) :
    Moves s (readFields limit (fuel + 1) done s) := by
  rw [readFields]
  split
  · rename_i hrest
    have hname := (moves_readText (s.skip 1)).of_le
      (Nat.le_of_lt (Spot.length_skip_lt hrest Nat.one_pos))
    split
    · rename_i he
      rwa [he] at hname
    · rename_i name t ht
      rw [ht] at hname
      have hlt : t.skipSpace.rest.length < s.rest.length :=
        Nat.lt_of_le_of_lt t.length_skipSpace hname
      have hcolon := (t.skipSpace.skip 1).length_skipSpace
      rw [Spot.length_skip] at hcolon
      dsimp only
      split
      · have hvalue := h.value (t.skipSpace.skip 1).skipSpace (by omega)
        split
        · rename_i he
          rwa [he] at hvalue
        · rename_i value u hu
          rw [hu] at hvalue
          have hlt' : u.skipSpace.rest.length < s.rest.length - 1 := by
            have hle := u.length_skipSpace
            have hvalue : u.rest.length < (t.skipSpace.skip 1).skipSpace.rest.length := hvalue
            omega
          have hmore := (u.skipSpace.skip 1).length_skipSpace
          rw [Spot.length_skip] at hmore
          split
          · exact Nat.lt_of_le_of_lt (by simp) (Nat.lt_of_lt_of_le hlt' (Nat.sub_le _ _))
          · exact (h.fields _ _ (by omega)).of_le (by omega)
          · rintro ⟨⟩
      · rintro ⟨⟩
  · rintro ⟨⟩

end Suffices

/-- **Every amount of steps is enough for the texts that are short enough for it.** -/
theorem suffices_fuel (limit : Option Nat) (fuel : Nat) : Suffices limit fuel := by
  induction fuel with
  | zero =>
    exact ⟨fun _ hfuel => absurd hfuel (Nat.not_lt_zero _),
      fun _ _ hfuel => absurd hfuel (Nat.not_lt_zero _),
      fun _ _ hfuel => absurd hfuel (Nat.not_lt_zero _)⟩
  | succ fuel ih => exact ⟨ih.value_succ, ih.items_succ, ih.fields_succ⟩

/-- **A text is read or refused, and never left for want of steps.** -/
theorem readWithin_ne_exhausted (limit : Option Nat) (text : String) :
    readWithin limit text ≠ .error .exhausted := by
  have hspace := Spot.length_skipSpace ⟨text.toList, 0⟩
  have hvalue := (suffices_fuel limit (2 * text.toList.length + 2)).value
    (Spot.skipSpace ⟨text.toList, 0⟩) (by dsimp only at hspace; omega)
  unfold readWithin
  dsimp only
  split
  · rintro ⟨⟩
  · split
    · rename_i he
      rw [he] at hvalue
      exact fun h => hvalue (Except.error.inj h)
    · split
      · rintro ⟨⟩
      · rintro ⟨⟩

end Scrawl.Json
