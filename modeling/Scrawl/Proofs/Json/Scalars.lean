import Scrawl.Json.Printer
import Scrawl.Json.Reader
import Scrawl.Proofs.Decimal.FloatText

/-!
# Proofs/Json/Scalars — texts, numbers and constants are read back

`Reads` says that a reader takes a value off the front of a text.  A text between quotes is taken
off character by character (`readTextFrom_escapeChar`), a number up to the first character that
cannot go on with it (`NumberStop`).  For a double this rests on its decimal text
(`Decimal.exists_text_of_finite`).
-/

namespace Scrawl.Json

open Text Decimal

/-- **A reader takes a value off a text and leaves a rest**, wherever in the text it starts. -/
def Reads {α : Type} (reader : Spot → Except ReadError (α × Spot)) (text : List Char) (a : α)
    (rest : List Char) : Prop :=
  ∀ index, ∃ next, reader ⟨text, index⟩ = .ok (a, ⟨rest, next⟩)

theorem Spot.skip_append (cs rest : List Char) (index : Nat) :
    Spot.skip ⟨cs ++ rest, index⟩ cs.length = ⟨rest, index + cs.length⟩ := by
  rw [Spot.skip, List.drop_left]

/-! ## Texts -/

section Texts

variable {c : Char} {more rest : List Char}

theorem hexValue?_digitChar {n : Nat} (h : n < 16) : hexValue? n.digitChar = some n := by
  have hall : ∀ k : Fin 16, hexValue? k.val.digitChar = some k.val := by decide
  exact hall ⟨n, h⟩

theorem hexDigits_control {n : Nat} (h : n < 0x20) :
    hexDigits 4 n = ['0', '0', (n / 16).digitChar, (n % 16).digitChar] := by
  have hall : ∀ k : Fin 0x20, hexDigits 4 k.val =
      ['0', '0', (k.val / 16).digitChar, (k.val % 16).digitChar] := by decide
  exact hall ⟨n, h⟩

/-- The code of a control character is read back. -/
theorem hexCode?_control {n : Nat} (h : n < 0x20) (hmore : more ≠ []) :
    hexCode? (hexDigits 4 n ++ more) = some n := by
  obtain ⟨d, more, rfl⟩ := List.exists_cons_of_ne_nil hmore
  have hzero : hexValue? '0' = some 0 := rfl
  have hhigh := hexValue?_digitChar (by omega : n / 16 < 16)
  have hlow := hexValue?_digitChar (by omega : n % 16 < 16)
  have hcode : ((0 * 16 + 0) * 16 + n / 16) * 16 + n % 16 = n := by omega
  rw [hexDigits_control h]
  change (do return (((← hexValue? '0') * 16 + (← hexValue? '0')) * 16 +
    (← hexValue? (n / 16).digitChar)) * 16 + (← hexValue? (n % 16).digitChar) : Option Nat) = some n
  rw [hzero, hhigh, hlow]
  exact congrArg some hcode

/-- A control character is read back from the four digits of its escape. -/
theorem readEscape_control (index : Nat) (h : c.toNat < 0x20) (hmore : more ≠ []) :
    readEscape ⟨'u' :: (hexDigits 4 c.toNat ++ more), index⟩ = .ok (some c, 5) := by
  have hhalf : isHighHalf c.toNat = false ∧ isLowHalf c.toNat = false := by
    simp only [isHighHalf, isLowHalf, Bool.and_eq_false_iff, decide_eq_false_iff_not]
    omega
  have hchar : charOfCode? c.toNat = some c := by
    rw [charOfCode?, hhalf.1, hhalf.2, if_neg (by decide), Char.ofNat_toNat]
  simp only [readEscape, hexCode?_control h hmore, hhalf.1, hchar]

/-- **One character inside a text is read back.** -/
theorem readTextFrom_escapeChar (c : Char) (start fuel index : Nat) (done : List Char)
    (hmore : more ≠ []) : ∃ next,
      readTextFrom start (fuel + 1) (some done) ⟨escapeChar c ++ more, index⟩ =
        readTextFrom start fuel (some (c :: done)) ⟨more, next⟩ := by
  rw [escapeChar]
  split_ifs with h1 h2 h3 h4 h5 h6 h7 h8
  · subst h1
    exact ⟨_, rfl⟩
  · subst h2
    exact ⟨_, rfl⟩
  · subst h3
    exact ⟨_, rfl⟩
  · subst h4
    exact ⟨_, rfl⟩
  · subst h5
    exact ⟨_, rfl⟩
  · subst h6
    exact ⟨_, rfl⟩
  · subst h7
    exact ⟨_, rfl⟩
  · have hescape := readEscape_control (index + 1) h8 hmore
    refine ⟨index + 6, ?_⟩
    rw [hexDigits_control h8] at hescape ⊢
    simp only [List.cons_append, List.nil_append, readTextFrom, Spot.skip, List.drop_succ_cons,
      List.drop_zero] at hescape ⊢
    rw [hescape]
    rfl
  · refine ⟨index + 1, ?_⟩
    rw [List.singleton_append, readTextFrom]
    split
    · cases ‹_›
    · exact absurd (List.cons.inj ‹_›).1 h1
    · exact absurd (List.cons.inj ‹_›).1 h2
    · exact absurd (List.cons.inj ‹_›).1 h2
    · rename_i d rest _ _ _ heq
      obtain ⟨rfl, rfl⟩ := List.cons.inj heq
      rw [if_neg h8]
      rfl

/-- The characters inside a text join those read before. -/
theorem readTextFrom_flatMap (start : Nat) : ∀ (cs : List Char) {fuel : Nat} (done : List Char)
    (index : Nat), cs.length < fuel → ∃ next,
      readTextFrom start fuel (some done) ⟨cs.flatMap escapeChar ++ '"' :: rest, index⟩ =
        .ok (String.ofList (done.reverse ++ cs), ⟨rest, next⟩)
  | [], fuel + 1, done, index, _ => ⟨_, by rw [List.append_nil]; rfl⟩
  | c :: cs, fuel + 1, done, index, h => by
      obtain ⟨next, hstep⟩ := readTextFrom_escapeChar c start fuel index done
        (List.append_ne_nil_of_right_ne_nil (cs.flatMap escapeChar) (List.cons_ne_nil '"' rest))
      obtain ⟨last, hrest⟩ := readTextFrom_flatMap start cs (c :: done) next
        (Nat.lt_of_succ_lt_succ h)
      refine ⟨last, ?_⟩
      rw [List.flatMap_cons, List.append_assoc, hstep, hrest, List.reverse_cons, List.append_assoc,
        List.singleton_append]

theorem escapeChar_ne_nil (c : Char) : escapeChar c ≠ [] := by
  rw [escapeChar]
  split_ifs <;> exact List.cons_ne_nil _ _

/-- Escaping makes a text no shorter, so its own length is fuel enough. -/
theorem length_le_escaped : ∀ cs : List Char, cs.length ≤ (cs.flatMap escapeChar).length
  | [] => Nat.le_refl 0
  | c :: cs => by
      have hc := List.length_pos_iff.mpr (escapeChar_ne_nil c)
      have hcs := length_le_escaped cs
      rw [List.flatMap_cons, List.length_cons, List.length_append]
      omega

/-- **A text behind its opening quote is read back.** -/
theorem reads_text (s : String) (rest : List Char) :
    Reads readText (s.toList.flatMap escapeChar ++ '"' :: rest) s rest := by
  intro index
  have hlength : s.toList.length < (s.toList.flatMap escapeChar ++ '"' :: rest).length + 1 := by
    have := length_le_escaped s.toList
    rw [List.length_append]
    omega
  obtain ⟨next, h⟩ := readTextFrom_flatMap (index - 1) s.toList [] index hlength
  rw [List.reverse_nil, List.nil_append, String.ofList_toList] at h
  exact ⟨next, h⟩

end Texts

/-! ## Numbers -/

section Numbers

variable {whole fraction exponent rest : List Char} {limit : Option Nat} {index : Nat}

/-- A number behind its sign. -/
theorem readNumber_sign (negative : Bool) {body text : List Char} (hbody : body.head? ≠ some '-')
    (htext : text = (if negative then ['-'] else []) ++ body) :
    readNumber limit ⟨text, index⟩ =
      let whole := wholePart body
      if whole = [] then .error (.malformed .expectingValue index)
      else
        let fraction := fractionPart (body.drop whole.length)
        let exponent := exponentPart (body.drop (whole.length + fraction.length))
        let length := (if negative then 1 else 0) + whole.length + fraction.length + exponent.length
        if fraction = [] ∧ exponent = [] then
          if limit.any (· < whole.length) then .error (.number (.tooManyDigits whole.length))
          else .ok (.int (signed negative (digitsValue whole)), Spot.skip ⟨text, index⟩ length)
        else
          match readDecimal? (whole ++ fraction ++ exponent) with
          | some d =>
            .ok (.float (Double.ofMagnitude negative d.toBits), Spot.skip ⟨text, index⟩ length)
          | none => .error (.malformed .expectingValue index) := by
  subst htext
  cases negative with
  | true => rfl
  | false =>
    rw [if_neg Bool.false_ne_true, List.nil_append, readNumber]
    split
    rename_i heq
    split at heq
    · exact absurd (congrArg List.head? ‹_›) hbody
    · obtain ⟨rfl, rfl⟩ := Prod.mk.inj heq
      rfl

/-- **A number that is taken apart in the right places.** -/
theorem readNumber_parts (limit : Option Nat) (index : Nat) (negative : Bool) (hne : whole ≠ [])
    (hsign : whole.head? ≠ some '-')
    (hwhole : wholePart (whole ++ (fraction ++ (exponent ++ rest))) = whole)
    (hfraction : fractionPart (fraction ++ (exponent ++ rest)) = fraction)
    (hexponent : exponentPart (exponent ++ rest) = exponent) : ∃ next,
    readNumber limit ⟨(if negative then ['-'] else []) ++
        (whole ++ (fraction ++ (exponent ++ rest))), index⟩ =
      if fraction = [] ∧ exponent = [] then
        if limit.any (· < whole.length) then .error (.number (.tooManyDigits whole.length))
        else .ok (.int (signed negative (digitsValue whole)), ⟨rest, next⟩)
      else
        match readDecimal? (whole ++ fraction ++ exponent) with
        | some d => .ok (.float (Double.ofMagnitude negative d.toBits), ⟨rest, next⟩)
        | none => .error (.malformed .expectingValue index) := by
  have hdrop : (whole ++ (fraction ++ (exponent ++ rest))).drop (whole.length + fraction.length) =
      exponent ++ rest := by
    rw [← List.append_assoc, ← List.length_append, List.drop_left]
  have hhead : (whole ++ (fraction ++ (exponent ++ rest))).head? ≠ some '-' := by
    rwa [List.head?_append, Option.or_of_isSome (List.isSome_head?.mpr hne)]
  have hlength : (if negative then 1 else 0) + whole.length + fraction.length + exponent.length =
      ((if negative then ['-'] else []) ++ (whole ++ (fraction ++ exponent))).length := by
    cases negative <;> simp <;> omega
  have hskip : Spot.skip ⟨(if negative then ['-'] else []) ++
      (whole ++ (fraction ++ (exponent ++ rest))), index⟩ ((if negative then 1 else 0) +
        whole.length + fraction.length + exponent.length) = ⟨rest, index +
        ((if negative then ['-'] else []) ++ (whole ++ (fraction ++ exponent))).length⟩ := by
    rw [hlength, ← Spot.skip_append]
    simp only [List.append_assoc]
  refine ⟨index + ((if negative then ['-'] else []) ++ (whole ++ (fraction ++ exponent))).length,
    ?_⟩
  rw [readNumber_sign negative hhead rfl]
  dsimp only
  rw [hwhole, if_neg hne, List.drop_left, hfraction, hdrop, hexponent, hskip]

/-- **A character that goes on with no number.** -/
def NumberStop (rest : List Char) : Prop :=
  ∀ c ∈ rest.head?, ¬ c.isDigit ∧ c ≠ '.' ∧ c ≠ 'e' ∧ c ≠ 'E'

/-- Digits before the point are taken up to the first other character. -/
theorem wholePart_append {tail : List Char} (hne : whole ≠ []) (hdigits : ∀ c ∈ whole, c.isDigit)
    (hleading : whole = ['0'] ∨ whole.head? ≠ some '0') (hstop : ∀ c ∈ tail.head?, ¬ c.isDigit) :
    wholePart (whole ++ tail) = whole := by
  rcases hleading with rfl | hleading
  · rfl
  · obtain ⟨c, more, rfl⟩ := List.exists_cons_of_ne_nil hne
    rw [List.cons_append, wholePart]
    · exact takeWhile_append_stop (p := isAsciiDigit) hdigits hstop
    · exact fun _ heq => hleading (congrArg List.head? heq)

theorem fractionPart_of_stop (hstop : ∀ c ∈ rest.head?, c ≠ '.') : fractionPart rest = [] := by
  rw [fractionPart]
  rintro more rfl
  exact hstop '.' rfl rfl

theorem exponentPart_of_stop (hstop : ∀ c ∈ rest.head?, c ≠ 'e' ∧ c ≠ 'E') :
    exponentPart rest = [] := by
  cases rest with
  | nil => rfl
  | cons c rest => rw [exponentPart, if_neg (not_or.mpr (hstop c rfl))]

variable {t : DecimalText}

/-- The fraction of a number is read whole before what does not go on with it. -/
theorem fractionPart_fractionText (h : t.Proper) (hdigit : ∀ c ∈ rest.head?, ¬ c.isDigit)
    (hpoint : ∀ c ∈ rest.head?, c ≠ '.') :
    fractionPart (t.fractionText ++ rest) = t.fractionText := by
  rw [DecimalText.fractionText]
  split_ifs with hnil
  · exact fractionPart_of_stop hpoint
  · have hdigits : (t.fraction ++ rest).takeWhile isAsciiDigit = t.fraction :=
      takeWhile_append_stop (p := isAsciiDigit) h.fraction hdigit
    rw [List.cons_append, fractionPart, hdigits]
    split
    · exact absurd ‹_› hnil
    · rfl

/-- …and so is the exponent. -/
theorem exponentPart_exponentText (h : t.Proper) (hstop : NumberStop rest) :
    exponentPart (t.exponentText ++ rest) = t.exponentText := by
  rw [DecimalText.exponentText]
  split
  · exact exponentPart_of_stop fun c hc => (hstop c hc).2.2
  · rename_i negative digits heq
    obtain ⟨hne, hdigits⟩ := h.exponent _ heq
    have hsign : (((if negative then '-' else '+') :: digits ++ rest).takeWhile
        fun c => c == '-' || c == '+').take 1 = [if negative then '-' else '+'] := by
      cases negative <;> rfl
    have hrest : (digits ++ rest).takeWhile isAsciiDigit = digits :=
      takeWhile_append_stop (p := isAsciiDigit) hdigits fun c hc => (hstop c hc).1
    have hbehind : ((if negative then '-' else '+') :: digits ++ rest).drop
        [if negative then '-' else '+'].length = digits ++ rest := rfl
    rw [List.cons_append, exponentPart, if_pos (.inl rfl), hsign]
    obtain ⟨digit, more, rfl⟩ := List.exists_cons_of_ne_nil hne
    simp only [hbehind, hrest, List.singleton_append]

theorem exponentText_head (hstop : NumberStop rest) :
    ∀ c ∈ (t.exponentText ++ rest).head?, ¬ c.isDigit ∧ c ≠ '.' := by
  rw [DecimalText.exponentText]
  split
  · exact fun c hc => ⟨(hstop c hc).1, (hstop c hc).2.1⟩
  · rintro c ⟨⟩
    decide

/-- What follows the digits in front of the point is no digit. -/
theorem fractionText_head (hstop : NumberStop rest) :
    ∀ c ∈ (t.fractionText ++ (t.exponentText ++ rest)).head?, ¬ c.isDigit := by
  rw [DecimalText.fractionText]
  split_ifs
  · exact fun c hc => (exponentText_head hstop c hc).1
  · rintro c ⟨⟩
    decide

theorem head?_ne_minus (hdigits : ∀ c ∈ whole, c.isDigit) : whole.head? ≠ some '-' :=
  fun h => absurd (hdigits '-' (List.mem_of_mem_head? h)) (by decide)

/-- A double is written with a fraction or an exponent, so it is not read as an integer. -/
theorem DecimalText.Proper.not_integer (h : t.Proper) :
    ¬ (t.fractionText = [] ∧ t.exponentText = []) := by
  rintro ⟨hfraction, hexponent⟩
  rcases h.marked with hne | hne
  · rw [DecimalText.fractionText, if_neg hne] at hfraction
    cases hfraction
  · obtain ⟨x, hx⟩ := Option.ne_none_iff_exists'.mp hne
    rw [DecimalText.exponentText, hx] at hexponent
    cases hexponent

/-- **The text of a double is read back.** -/
theorem reads_decimalText (limit : Option Nat) (negative : Bool) (h : t.Proper)
    (hstop : NumberStop rest) :
    Reads (readNumber limit) ((if negative then ['-'] else []) ++ (t.text ++ rest))
      (.float (Double.ofMagnitude negative t.scientific.toBits)) rest := by
  intro index
  have htail := exponentText_head (t := t) hstop
  have hread := h.readDecimal?_text
  obtain ⟨next, hnumber⟩ := readNumber_parts limit index negative
    h.whole_ne_nil (head?_ne_minus h.whole)
    (wholePart_append h.whole_ne_nil h.whole h.leading (fractionText_head hstop))
    (fractionPart_fractionText h (fun c hc => (htail c hc).1) fun c hc => (htail c hc).2)
    (exponentPart_exponentText h hstop)
  refine ⟨next, ?_⟩
  rw [DecimalText.text] at hread ⊢
  rw [List.append_assoc, List.append_assoc, hnumber, if_neg (DecimalText.Proper.not_integer h),
    List.append_assoc, hread]

/-- **The text of an integer is read back**, unless it has too many digits. -/
theorem reads_integer (n : Int) (hlimit : ∀ k ∈ limit, (Nat.toDigits 10 n.natAbs).length ≤ k)
    (hstop : NumberStop rest) :
    Reads (readNumber limit) ((if n < 0 then ['-'] else []) ++ (Nat.toDigits 10 n.natAbs ++ rest))
      (.int n) rest := by
  intro index
  have hdigits : ∀ c ∈ Nat.toDigits 10 n.natAbs, c.isDigit := fun c hc => isDigit_of_mem_toDigits hc
  have hleading : Nat.toDigits 10 n.natAbs = ['0'] ∨
      (Nat.toDigits 10 n.natAbs).head? ≠ some '0' := by
    rcases Nat.eq_zero_or_pos n.natAbs with hzero | hpos
    · exact .inl (by rw [hzero]; rfl)
    · exact .inr (head?_toDigits_ne hpos)
  have hwhole : wholePart (Nat.toDigits 10 n.natAbs ++ ([] ++ ([] ++ rest))) =
      Nat.toDigits 10 n.natAbs :=
    wholePart_append Nat.toDigits_ne_nil hdigits hleading fun c hc => (hstop c hc).1
  obtain ⟨next, hnumber⟩ := readNumber_parts limit index (n < 0) Nat.toDigits_ne_nil
    (head?_ne_minus hdigits) hwhole
    (fractionPart_of_stop fun c hc => (hstop c hc).2.1)
    (exponentPart_of_stop fun c hc => (hstop c hc).2.2)
  have hany : ¬ limit.any (fun k => decide (k < (Nat.toDigits 10 n.natAbs).length)) := by
    cases limit with
    | none => nofun
    | some k => simpa using hlimit k rfl
  have hsign : (if decide (n < 0) = true then ['-'] else []) = if n < 0 then ['-'] else [] := by
    simp only [decide_eq_true_eq]
  refine ⟨next, ?_⟩
  rw [← hsign]
  refine hnumber.trans ?_
  rw [if_pos ⟨rfl, rfl⟩, if_neg hany, digitsValue_toDigits, signed_natAbs]

end Numbers

/-! ## Constants and numbers -/

section Scalars

variable {c : Char} {text more rest : List Char} {limit : Option Nat}

/-- A constant is read back by its first letter. -/
theorem reads_constant {word : List Char} {value : Json} (h : (word, value) ∈ constants)
    (rest : List Char) : Reads (readScalar limit) (word ++ rest) value rest := by
  intro index
  simp only [constants, List.mem_cons, List.not_mem_nil, or_false, Prod.mk.injEq] at h
  rcases h with ⟨rfl, rfl⟩ | ⟨rfl, rfl⟩ | ⟨rfl, rfl⟩ | ⟨rfl, rfl⟩ | ⟨rfl, rfl⟩ | ⟨rfl, rfl⟩
  all_goals exact ⟨_, rfl⟩

/-- No constant starts with a digit. -/
theorem find?_constants (negative : Bool) (hc : c.isDigit) (more : List Char) :
    constants.find? (fun (word, _) =>
      word.isPrefixOf ((if negative then ['-'] else []) ++ c :: more)) = none := by
  have hne (d : Char) (hd : ¬ d.isDigit) : (d == c) = false :=
    beq_eq_false_iff_ne.mpr fun h => hd (h ▸ hc)
  have hn := hne 'n' (by decide)
  have ht := hne 't' (by decide)
  have hf := hne 'f' (by decide)
  have hN := hne 'N' (by decide)
  have hI := hne 'I' (by decide)
  have hminus := hne '-' (by decide)
  cases negative <;>
    simp [constants, List.find?, List.isPrefixOf, hn, ht, hf, hN, hI, hminus]

/-- A digit, or a dash with one behind it, starts a number. -/
theorem reads_number {a : Json} (negative : Bool) (hc : c.isDigit)
    (h : Reads (readNumber limit) ((if negative then ['-'] else []) ++ c :: more) a rest) :
    Reads (readScalar limit) ((if negative then ['-'] else []) ++ c :: more) a rest := by
  intro index
  obtain ⟨next, hread⟩ := h index
  refine ⟨next, ?_⟩
  rw [readScalar]
  dsimp only
  rw [find?_constants negative hc more]
  exact hread

/-- **An integer is read back.** -/
theorem reads_toString (n : Int) (hlimit : ∀ k ∈ limit, (Nat.toDigits 10 n.natAbs).length ≤ k)
    (hstop : NumberStop rest) :
    Reads (readScalar limit) ((toString n).toList ++ rest) (.int n) rest := by
  have h := reads_integer n hlimit hstop
  obtain ⟨c, more, hdigits⟩ := List.exists_cons_of_ne_nil (Nat.toDigits_ne_nil (b := 10)
    (n := n.natAbs))
  have hc : c.isDigit := isDigit_of_mem_toDigits (hdigits ▸ List.mem_cons_self)
  have hsign : (if n < 0 then ['-'] else []) = if decide (n < 0) = true then ['-'] else [] := by
    simp only [decide_eq_true_eq]
  rw [toList_toString, List.append_assoc]
  rw [hdigits, List.cons_append, hsign] at h ⊢
  exact reads_number _ hc h

/-- The text of a double is a constant, or a decimal behind its sign. -/
theorem renderFloat_eq (x : Float) :
    (renderFloat x, .float x) ∈ constants ∨ ∃ (negative : Bool) (t : DecimalText), t.Proper ∧
      Double.ofMagnitude negative t.scientific.toBits = x ∧
      renderFloat x = (if negative then ['-'] else []) ++ t.text := by
  have hx := Double.Parts.toFloat_decode x
  cases hparts : Double.decode x with
  | nan =>
    rw [hparts, Double.Parts.toFloat] at hx
    rw [renderFloat, hparts, ← hx]
    exact .inl (by simp [constants])
  | infinite negative =>
    rw [hparts, Double.Parts.toFloat] at hx
    rw [renderFloat, hparts, ← hx]
    cases negative <;> exact .inl (by simp [constants])
  | finite negative m e =>
    obtain ⟨t, hproper, hbits, htext⟩ := exists_text_of_finite hparts
    refine .inr ⟨negative, t, hproper, hbits, ?_⟩
    rw [renderFloat, hparts]
    exact htext.trans (by cases negative <;> rfl)

/-- **A double is read back.** -/
theorem reads_renderFloat (x : Float) (hstop : NumberStop rest) :
    Reads (readScalar limit) (renderFloat x ++ rest) (.float x) rest := by
  rcases renderFloat_eq x with hconstant | ⟨negative, t, hproper, hbits, htext⟩
  · exact reads_constant hconstant rest
  · have h := reads_decimalText limit negative hproper hstop
    obtain ⟨c, more, hwhole⟩ := List.exists_cons_of_ne_nil hproper.whole_ne_nil
    have hc : c.isDigit := hproper.whole c (hwhole ▸ List.mem_cons_self)
    rw [hbits, DecimalText.text, hwhole, List.cons_append, List.cons_append] at h
    rw [htext, List.append_assoc, DecimalText.text, hwhole, List.cons_append, List.cons_append]
    exact reads_number negative hc h

/-! ## Their characters -/

/-- The characters of constants and numbers. -/
def isPlain (c : Char) : Bool := c.isAlphanum || c == '-' || c == '+' || c == '.'

/-- **The shape of a constant or a number.** -/
structure ScalarText (text : List Char) : Prop where
  ne_nil : text ≠ []
  plain : ∀ c ∈ text, isPlain c

theorem isPlain_of_isDigit (h : c.isDigit) : isPlain c := by
  rw [isPlain, Char.isAlphanum, h, Bool.or_true]
  rfl

theorem scalarText_constant {word : List Char} {value : Json} (h : (word, value) ∈ constants) :
    ScalarText word := by
  have hall : constants.all (fun (word, _) => word ≠ [] && word.all isPlain) := rfl
  have hword := List.all_eq_true.mp hall _ h
  rw [Bool.and_eq_true, decide_eq_true_iff, List.all_eq_true] at hword
  exact ⟨hword.1, hword.2⟩

theorem ScalarText.signed (negative : Bool) (h : ScalarText text) :
    ScalarText ((if negative then ['-'] else []) ++ text) := by
  cases negative with
  | false => exact h
  | true => exact ⟨List.cons_ne_nil _ _, List.forall_mem_cons.mpr ⟨rfl, h.plain⟩⟩

theorem scalarText_toString (n : Int) : ScalarText (toString n).toList := by
  have hsign : (if n < 0 then ['-'] else []) = if decide (n < 0) = true then ['-'] else [] := by
    simp only [decide_eq_true_eq]
  rw [toList_toString, hsign]
  exact .signed _ ⟨Nat.toDigits_ne_nil, fun c hc => isPlain_of_isDigit (isDigit_of_mem_toDigits hc)⟩

theorem DecimalText.Proper.scalarText {t : DecimalText} (h : t.Proper) : ScalarText t.text := by
  have hfraction : ∀ c ∈ t.fractionText, isPlain c := by
    rw [DecimalText.fractionText]
    split_ifs
    · exact List.forall_mem_nil _
    · exact List.forall_mem_cons.mpr ⟨rfl, fun c hc => isPlain_of_isDigit (h.fraction c hc)⟩
  have hexponent : ∀ c ∈ t.exponentText, isPlain c := by
    rw [DecimalText.exponentText]
    split
    · exact List.forall_mem_nil _
    · rename_i negative digits heq
      refine List.forall_mem_cons.mpr ⟨rfl, List.forall_mem_cons.mpr ⟨?_, fun c hc => ?_⟩⟩
      · cases negative <;> rfl
      · exact isPlain_of_isDigit ((h.exponent _ heq).2 c hc)
  refine ⟨List.append_ne_nil_of_left_ne_nil h.whole_ne_nil _, ?_⟩
  rw [DecimalText.text, List.forall_mem_append, List.forall_mem_append]
  exact ⟨fun c hc => isPlain_of_isDigit (h.whole c hc), hfraction, hexponent⟩

/-- **The text of a double is that of a scalar**, infinities and what is no number included. -/
theorem scalarText_renderFloat (x : Float) : ScalarText (renderFloat x) := by
  rcases renderFloat_eq x with hconstant | ⟨negative, t, hproper, -, htext⟩
  · exact scalarText_constant hconstant
  · rw [htext]
    exact .signed negative (DecimalText.Proper.scalarText hproper)

end Scalars

end Scrawl.Json
