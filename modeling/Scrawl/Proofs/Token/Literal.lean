import Mathlib.Data.List.TakeWhile
import Scrawl.Proofs.Node.Formed
import Scrawl.Proofs.Outcome
import Scrawl.Token.Lexer

/-!
# Proofs/Token/Literal — the values of the literals that are written in a source text

The numbers that the lexer cuts out are digits, or digits with a point behind the first of them
(`Lexer.firstPiece_int`, `Lexer.firstPiece_float`).  Such a numeral is read as the number that its
digits stand for, so a literal token of a source text has the value one expects of its lexeme
(`Token.Writes.standsFor`).
-/

namespace Scrawl

open Text Decimal

/-! ## Digits are no other characters -/

namespace Text

variable {c d : Char} {cs : List Char}

theorem ne_of_isDecimal (h : isDecimal c) (hd : ¬ isDecimal d) : c ≠ d := by
  rintro rfl
  exact hd h

/-- The blocks of ten digits meet no range of blanks. -/
theorem blanks_apart_zeros :
    ∀ z ∈ zeros, ∀ r ∈ blanks, r.2 < z ∨ z + 10 ≤ r.1 := by decide

/-- **A digit is no blank**, so trimming stops at it. -/
theorem not_isBlank_of_isDecimal (h : isDecimal c) : ¬ isBlank c := by
  obtain ⟨v, hv⟩ := Option.isSome_iff_exists.mp h
  obtain ⟨z, hz, hdigit⟩ := List.exists_of_findSome?_eq_some hv
  intro hblank
  obtain ⟨r, hr, hrange⟩ := List.any_eq_true.mp hblank
  rw [Bool.and_eq_true, decide_eq_true_iff, decide_eq_true_iff] at hrange
  split at hdigit
  · have := blanks_apart_zeros z hz r hr
    omega
  · cases hdigit

end Text

namespace Decimal

variable {c : Char} {cs rest whole fraction : List Char}

/-- A digit is no sign. -/
theorem splitSign_digit (h : isDecimal c) : splitSign (c :: cs) = (false, c :: cs) := by
  have hminus : c ≠ '-' := ne_of_isDecimal h (by decide)
  have hplus : c ≠ '+' := ne_of_isDecimal h (by decide)
  rw [splitSign.eq_3]
  · exact fun _ he => hminus (List.cons.inj he).1
  · exact fun _ he => hplus (List.cons.inj he).1

/-- Digits without underscores are separated as they should be. -/
theorem separatedDigits_digits : ∀ {cs : List Char}, cs ≠ [] → (∀ c ∈ cs, isDecimal c) →
    separatedDigits cs
  | [], h, _ => absurd rfl h
  | [c], _, h => h c List.mem_cons_self
  | c :: d :: rest, _, h => by
      have hd : d ≠ '_' := ne_of_isDecimal (h d (by simp)) (by decide)
      rw [separatedDigits.eq_4 _ _ (by simp) (fun _ he => hd (List.cons.inj he).1), h c (by simp)]
      exact separatedDigits_digits (by simp) fun e he => h e (List.mem_cons_of_mem c he)

/-- **Digits behind a sign are read as the number they stand for**, up to the digit limit. -/
theorem readInteger_signed {text : String} {digits : List Char} (negative : Bool)
    (htext : text.toList = (if negative then ['-'] else []) ++ digits) (hne : digits ≠ [])
    (h : ∀ c ∈ digits, isDecimal c) (hlimit : digits.length ≤ digitLimit) :
    readInteger text = .ok (signed negative (digitsValue digits)) := by
  have hsplit : splitSign (text.toList.dropWhile isBlank) = (negative, digits) := by
    rw [htext]
    cases negative with
    | true => rfl
    | false =>
      obtain ⟨c, rest, rfl⟩ := List.exists_cons_of_ne_nil hne
      have hc : isDecimal c := h c List.mem_cons_self
      have hblank : (c :: rest).dropWhile isBlank = c :: rest :=
        List.dropWhile_cons_of_neg (not_isBlank_of_isDecimal hc)
      exact (congrArg splitSign hblank).trans (splitSign_digit hc)
  have hnumeral : ∀ d ∈ digits, (isDecimal d || d == '_') = true := by
    intro d hd
    rw [h d hd, Bool.true_or]
  have hdigits : digits.filter isDecimal = digits := List.filter_eq_self.mpr h
  rw [readInteger, hsplit]
  dsimp only
  rw [List.takeWhile_eq_self_iff.mpr hnumeral, List.dropWhile_eq_nil_iff.mpr hnumeral, hdigits,
    separatedDigits_digits hne h, if_neg (by simp), if_neg (by omega)]
  rfl

/-- **Digits are read as the number they stand for**, unless there are too many. -/
theorem readInteger_digits {text : String} (hne : text.toList ≠ [])
    (h : ∀ c ∈ text.toList, isDecimal c) (hlimit : text.toList.length ≤ digitLimit) :
    readInteger text = .ok (digitsValue text.toList) :=
  readInteger_signed false rfl hne h hlimit

theorem underscoresBetween_of_not_mem :
    ∀ {cs : List Char} (before : Bool), '_' ∉ cs → underscoresBetween before cs
  | [], _, _ => rfl
  | c :: rest, before, h => by
      rw [List.mem_cons, not_or] at h
      rw [underscoresBetween.eq_3 _ _ _ fun he => h.1 he.symm]
      exact underscoresBetween_of_not_mem _ h.2

/-- A text without blanks at its ends is not trimmed. -/
theorem trimBlanks_eq_self {cs : List Char} (hhead : ∀ c ∈ cs.head?, ¬ isBlank c)
    (hlast : ∀ c ∈ cs.reverse.head?, ¬ isBlank c) : trimBlanks cs = cs := by
  have hfront : cs.dropWhile isBlank = cs := dropWhile_append_stop (l := []) (by simp) hhead
  have hback : cs.reverse.dropWhile isBlank = cs.reverse :=
    dropWhile_append_stop (l := []) (by simp) hlast
  rw [trimBlanks, hfront, hback, List.reverse_reverse]

/-- Digits with a point among them are no word. -/
theorem readMagnitude?_of_mem (h : '.' ∈ cs) :
    readMagnitude? cs = (readDecimal? cs).map Scientific.toBits := by
  have hpoint : '.' ∈ (String.ofList (cs.map Char.toLower)).toList := by
    rw [String.toList_ofList]
    exact List.mem_map.mpr ⟨'.', h, rfl⟩
  have hword {word : String} (hw : '.' ∉ word.toList) :
      String.ofList (cs.map Char.toLower) ≠ word := by
    rintro rfl
    exact hw hpoint
  rw [readMagnitude?, if_neg, if_neg]
  · exact hword (by decide)
  · exact not_or.mpr ⟨hword (by decide), hword (by decide)⟩

/-- **Digits with a point among them are read as the nearest double.** -/
theorem readFloat_digits {text : String} (htext : text.toList = whole ++ '.' :: fraction)
    (hne : whole ≠ []) (hw : ∀ c ∈ whole, isDecimal c) (hf : ∀ c ∈ fraction, isDecimal c) :
    readFloat text = .ok (Double.ofMagnitude false
      (Scientific.toBits ⟨digitsValue (whole ++ fraction), -fraction.length⟩)) := by
  have hpoint : ¬ isDecimal '.' := by decide
  have hchar : ∀ c ∈ whole ++ '.' :: fraction, isDecimal c ∨ c = '.' := by
    intro c hc
    rw [List.mem_append, List.mem_cons] at hc
    rcases hc with hc | rfl | hc
    · exact .inl (hw c hc)
    · exact .inr rfl
    · exact .inl (hf c hc)
  have hblank : ∀ c ∈ whole ++ '.' :: fraction, ¬ isBlank c := by
    intro c hc
    rcases hchar c hc with h | rfl
    · exact not_isBlank_of_isDecimal h
    · decide
  have hunder : ∀ c ∈ whole ++ '.' :: fraction, c ≠ '_' := by
    intro c hc
    rcases hchar c hc with h | rfl
    · exact ne_of_isDecimal h (by decide)
    · decide
  have htrim : trimBlanks (whole ++ '.' :: fraction) = whole ++ '.' :: fraction :=
    trimBlanks_eq_self (fun c hc => hblank c (List.mem_of_head? hc))
      fun c hc => hblank c (List.mem_reverse.mp (List.mem_of_head? hc))
  have hfilter : (whole ++ '.' :: fraction).filter (· != '_') = whole ++ '.' :: fraction :=
    List.filter_eq_self.mpr fun c hc => bne_iff_ne.mpr (hunder c hc)
  have hsign : splitSign (whole ++ '.' :: fraction) = (false, whole ++ '.' :: fraction) := by
    obtain ⟨c, rest, rfl⟩ := List.exists_cons_of_ne_nil hne
    exact splitSign_digit (hw c List.mem_cons_self)
  have hdecimal : readDecimal? (whole ++ '.' :: fraction) =
      some ⟨digitsValue (whole ++ fraction), -fraction.length⟩ := by
    have hstop : ∀ c ∈ ('.' :: fraction).head?, ¬ isDecimal c := by
      rintro _ ⟨⟩
      exact hpoint
    rw [readDecimal?, takeWhile_append_stop hw hstop, dropWhile_append_stop hw hstop]
    simp [List.takeWhile_eq_self_iff.mpr hf, List.dropWhile_eq_nil_iff.mpr hf, hne, readExponent?]
  rw [readFloat, htext, htrim, hfilter, hsign]
  dsimp only
  rw [readMagnitude?_of_mem (by simp), hdecimal,
    underscoresBetween_of_not_mem false fun hmem => hunder '_' hmem rfl]
  rfl

end Decimal

/-! ## The numbers in a source text -/

namespace Lexer

variable {cs text : List Char} {kind : Kind}

theorem keywords_not_number : ∀ w ∈ Kind.keywords, w.2 ≠ .int ∧ w.2 ≠ .float := by decide

theorem symbols_not_number : ∀ s ∈ symbols, s.2 ≠ .int ∧ s.2 ≠ .float := by decide

/-- A word is no number… -/
theorem wordPiece_not_number (h : wordPiece cs = .token kind text) :
    kind ≠ .int ∧ kind ≠ .float := by
  obtain ⟨rfl, -⟩ := Piece.token.inj h
  cases hw : Kind.ofKeyword? (String.ofList (cs.takeWhile isWordPart)) with
  | none => decide
  | some k =>
    obtain ⟨l, r, hsplit, -⟩ := List.lookup_eq_some_iff.mp hw
    exact keywords_not_number _ (hsplit ▸ List.mem_append_right l List.mem_cons_self)

theorem stringPiece?_not_number (h : stringPiece? cs = some (.token kind text)) :
    kind ≠ .int ∧ kind ≠ .float := by
  unfold stringPiece? at h
  split at h
  · obtain ⟨rfl, -⟩ := Piece.token.inj (Option.some.inj h)
    decide
  · cases h

/-- …and neither is a symbol. -/
theorem symbolPiece?_not_number (h : symbolPiece? cs = some (.token kind text)) :
    kind ≠ .int ∧ kind ≠ .float := by
  obtain ⟨s, hs, hpiece⟩ := Option.map_eq_some_iff.mp h
  obtain ⟨rfl, -⟩ := Piece.token.inj hpiece
  exact symbols_not_number s (List.mem_of_find?_eq_some hs)

/-- A piece that is a number starts with a digit. -/
theorem firstPiece_number (h : firstPiece cs = some (.token kind text))
    (hk : ¬ (kind ≠ .int ∧ kind ≠ .float)) :
    (∀ c ∈ cs.head?, isDecimal c) ∧ numberPiece cs = .token kind text := by
  cases cs with
  | nil => cases h
  | cons c rest =>
    rw [firstPiece] at h
    split at h
    · exact absurd (wordPiece_not_number (Option.some.inj h)) hk
    split at h
    · cases h
    split at h
    · cases h
    split at h
    · rename_i hc
      refine ⟨?_, Option.some.inj h⟩
      rintro _ ⟨⟩
      exact hc
    split at h
    · exact absurd (stringPiece?_not_number h) hk
    · exact absurd (symbolPiece?_not_number h) hk

/-- **An integer in a source text is a run of digits.** -/
theorem firstPiece_int (h : firstPiece cs = some (.token .int text)) :
    text ≠ [] ∧ ∀ c ∈ text, isDecimal c := by
  refine ⟨firstPiece_text_ne_nil h, ?_⟩
  have hnumber := (firstPiece_number h (by decide)).2
  unfold numberPiece at hnumber
  split at hnumber
  · cases hnumber
  · obtain ⟨-, rfl⟩ := Piece.token.inj hnumber
    exact fun c hc => List.mem_takeWhile_imp hc

/-- **A float in a source text is a run of digits, a point and perhaps more digits.** -/
theorem firstPiece_float (h : firstPiece cs = some (.token .float text)) :
    ∃ whole fraction, text = whole ++ '.' :: fraction ∧ whole ≠ [] ∧
      (∀ c ∈ whole, isDecimal c) ∧ ∀ c ∈ fraction, isDecimal c := by
  obtain ⟨hhead, hnumber⟩ := firstPiece_number h (by decide)
  unfold numberPiece at hnumber
  dsimp only at hnumber
  split at hnumber
  · rename_i rest _
    obtain ⟨-, rfl⟩ := Piece.token.inj hnumber
    refine ⟨_, _, rfl, ?_, fun c hc => List.mem_takeWhile_imp hc, fun c hc =>
      List.mem_takeWhile_imp hc⟩
    cases cs with
    | nil => cases h
    | cons c _ => simp [hhead c rfl]
  · cases hnumber

/-- **Every token is the first piece of what was left of the text.** -/
theorem exists_piece_of_mem_scan {p : Position} {tokens : List Token} (h : scan cs p = .ok tokens)
    {t : Token} (ht : t ∈ tokens) :
    ∃ rest text, firstPiece rest = some (.token t.kind text) ∧
      t.lexeme = String.ofList (lexemeOf t.kind text) := by
  fun_induction scan cs p generalizing tokens with
  | case1 =>
    obtain rfl := Except.ok.inj h
    cases ht
  | case2 => cases h
  | case3 => cases h
  | case4 p c rest piece hpiece later hlater ih =>
    obtain rfl := Except.ok.inj h
    rcases List.mem_append.mp ht with ht | ht
    · rcases piece with gap | ⟨kind, text⟩
      · cases ht
      · obtain rfl := List.mem_singleton.mp ht
        exact ⟨_, text, hpiece, rfl⟩
    · exact ih hlater ht

end Lexer

/-! ## The literals in a source text -/

namespace Token

/-- **A token that the lexer cuts out of some source text**, wherever it stands there. -/
def IsLexed (t : Token) : Prop :=
  ∃ source tokens, tokenize source = .ok tokens ∧ ∃ t' ∈ tokens, t'.unplaced = t.unplaced

/-- The value that the lexeme of a literal writes. -/
def written (t : Token) : Value :=
  match t.kind with
  | .int => .int (digitsValue t.lexeme.toList)
  | .float =>
    let whole := t.lexeme.toList.takeWhile isDecimal
    let fraction := (t.lexeme.toList.dropWhile isDecimal).drop 1
    .float (Double.ofMagnitude false
      (Scientific.toBits ⟨digitsValue (whole ++ fraction), -fraction.length⟩))
  | .string => .string t.lexeme
  | .trueWord => .bool true
  | .falseWord => .bool false
  | _ => .void

/-- **A literal of a source text and its value**, where an integer has at most as many digits as
the limit allows. -/
structure Writes (t : Token) (v : Value) : Prop where
  lexed : t.IsLexed
  kind : t.kind.isLiteral
  digits : t.kind = .int → t.lexeme.length ≤ digitLimit
  value : t.written = v

variable {t : Token}

/-- A token that was lexed was cut off some text. -/
theorem IsLexed.exists_piece (h : t.IsLexed) : ∃ rest text,
    Lexer.firstPiece rest = some (.token t.kind text) ∧
      t.lexeme = String.ofList (Lexer.lexemeOf t.kind text) := by
  obtain ⟨source, tokens, htokens, t', ht', hsame⟩ := h
  obtain ⟨hkind, hlexeme, -⟩ := Token.mk.inj hsame
  rw [← hkind, ← hlexeme]
  exact Lexer.exists_piece_of_mem_scan htokens ht'

/-- An integer token is made of digits. -/
theorem IsLexed.int (h : t.IsLexed) (hk : t.kind = .int) :
    t.lexeme.toList ≠ [] ∧ ∀ c ∈ t.lexeme.toList, isDecimal c := by
  obtain ⟨rest, text, hpiece, hlexeme⟩ := h.exists_piece
  rw [hk] at hpiece hlexeme
  rw [hlexeme, String.toList_ofList]
  exact Lexer.firstPiece_int hpiece

theorem IsLexed.float (h : t.IsLexed) (hk : t.kind = .float) :
    ∃ whole fraction, t.lexeme.toList = whole ++ '.' :: fraction ∧ whole ≠ [] ∧
      (∀ c ∈ whole, isDecimal c) ∧ ∀ c ∈ fraction, isDecimal c := by
  obtain ⟨rest, text, hpiece, hlexeme⟩ := h.exists_piece
  rw [hk] at hpiece hlexeme
  rw [hlexeme, String.toList_ofList]
  exact Lexer.firstPiece_float hpiece

/-- **The value of a literal of a source text is the one its lexeme writes.** -/
theorem Writes.standsFor {v : Value} (h : t.Writes v) : t.StandsFor v := by
  refine ⟨h.kind, ?_⟩
  have hkinds : t.kind = .int ∨ t.kind = .float ∨ t.kind = .string ∨ t.kind = .trueWord ∨
      t.kind = .falseWord := by
    have hk := h.kind
    revert hk
    cases t.kind <;> decide
  rw [← h.value, literal, written]
  rcases hkinds with hk | hk | hk | hk | hk <;> rw [hk]
  · obtain ⟨hne, hdigits⟩ := h.lexed.int hk
    dsimp only
    rw [readInteger_digits hne hdigits (h.digits hk)]
    rfl
  · obtain ⟨whole, fraction, htext, hne, hw, hf⟩ := h.lexed.float hk
    have hstop : ∀ c ∈ ('.' :: fraction).head?, ¬ isDecimal c := by
      rintro _ ⟨⟩
      decide
    dsimp only
    rw [readFloat_digits htext hne hw hf, htext, takeWhile_append_stop hw hstop,
      dropWhile_append_stop hw hstop]
    rfl

end Token

end Scrawl
