import Scrawl.Proofs.Token.Literal

/-!
# Proofs/Token/Spelling — how tokens are written, and which of them the lexer cuts out

A token is **lexable** when its lexeme has the form that its kind asks for, and **maximal** in front
of a text when nothing there goes on with it.  The first piece of a text is a token exactly when
the text starts with a lexable token that is maximal in front of the rest
(`Lexer.firstPiece_of_starts`, `Lexer.exists_start`), and there is no first piece exactly where no
terminal stands (`Lexer.firstPiece_eq_none_iff`).
-/

namespace Scrawl

open Text

/-! ## The forms of lexemes -/

/-- A keyword or a name. -/
def Kind.isWord (k : Kind) : Bool := k = .identifier || (keywords.map Prod.snd).contains k

namespace Lexer

/-- A letter or an underscore, with letters, digits and underscores behind it. -/
def IsName : List Char → Prop
  | [] => False
  | c :: rest => isWordStart c ∧ ∀ d ∈ rest, isWordPart d

/-- One or more digits. -/
def IsDigits (cs : List Char) : Prop := cs ≠ [] ∧ ∀ c ∈ cs, isDecimal c

/-- Digits, a point and perhaps more digits. -/
def IsPointed (cs : List Char) : Prop :=
  ∃ whole fraction, cs = whole ++ '.' :: fraction ∧ IsDigits whole ∧ ∀ c ∈ fraction, isDecimal c

/-- The spellings of operators and punctuation, and what opens a comment. -/
def openings : List (List Char) := ['/', '/'] :: symbols.map Prod.fst

end Lexer

open Lexer

namespace Token

/-- **A token as the lexer makes them**: its lexeme has the form that its kind asks for. -/
def IsLexable (t : Token) : Prop :=
  match t.kind with
  | .identifier => IsName t.lexeme.toList ∧ t.lexeme ∉ Kind.keywords.map Prod.fst
  | .int => IsDigits t.lexeme.toList
  | .float => IsPointed t.lexeme.toList
  | .string => '"' ∉ t.lexeme.toList
  | .negative => False
  | kind => kind.spelling? = some t.lexeme

/-- **How a token is written**: a string literal between quotes, any other token as its lexeme. -/
def spelling (t : Token) : List Char :=
  if t.kind = .string then '"' :: (t.lexeme.toList ++ ['"']) else t.lexeme.toList

/-- **Nothing goes on with a token** in the text that follows: no character that would make a
longer word or number, and no longer operator and no comment that starts with this one. -/
def IsMaximal (t : Token) (after : List Char) : Prop :=
  if t.kind.isWord then ∀ c ∈ after.head?, ¬ isWordPart c
  else match t.kind with
    | .int => ∀ c ∈ after.head?, ¬ isDecimal c ∧ c ≠ '.'
    | .float => ∀ c ∈ after.head?, ¬ isDecimal c
    | .string => True
    | _ => ∀ longer ∈ openings, longer <+: t.spelling ++ after → longer.length ≤ t.spelling.length

/-- **A text starts with a token**, and some text follows. -/
structure Starts (t : Token) (cs after : List Char) : Prop where
  eq : cs = t.spelling ++ after
  lexable : t.IsLexable
  maximal : t.IsMaximal after

end Token

namespace Lexer

/-- **A text that one of the patterns of the lexer matches**: white space, a comment or a token. -/
inductive IsTerminal : List Char → Prop
  | space {cs : List Char} (hne : cs ≠ []) (h : ∀ c ∈ cs, isSpace c) : IsTerminal cs
  | comment {body : List Char} (h : '\n' ∉ body) : IsTerminal ('/' :: '/' :: body)
  | token {t : Token} (h : t.IsLexable) : IsTerminal t.spelling

/-! ## The tables

A statement about all characters of a list is decided along the list, never by going through all
characters there are. -/

instance (priority := high) decidableForallMemList {p : Char → Prop} [DecidablePred p]
    (cs : List Char) : Decidable (∀ c ∈ cs, p c) := List.decidableBAll p cs

instance (priority := high) decidableForallMemOption {p : Char → Prop} [DecidablePred p]
    (c? : Option Char) : Decidable (∀ c ∈ c?, p c) := Option.decidableForallMem c?

/-- A keyword is a word and is spelled as the table of spellings says. -/
theorem keywords_spelling :
    ∀ w ∈ Kind.keywords, w.2.spelling? = some w.1 ∧ w.2.isWord ∧ w.2 ≠ .negative := by decide

/-- The table finds every keyword that it lists. -/
theorem ofKeyword?_keywords : ∀ w ∈ Kind.keywords, Kind.ofKeyword? w.1 = some w.2 := by decide

instance : DecidablePred IsName
  | [] => .isFalse not_false
  | c :: rest => inferInstanceAs (Decidable (isWordStart c ∧ ∀ d ∈ rest, isWordPart d))

/-- A keyword has the form of a name, so it is the table that tells the two apart. -/
theorem isName_keywords : ∀ w ∈ Kind.keywords, IsName w.1.toList := by decide

/-- The lexer's table of symbols agrees with the table of spellings. -/
theorem symbols_spelling :
    ∀ s ∈ symbols, s.2.spelling? = some (String.ofList s.1) ∧ s.2 ≠ .negative := by decide

theorem symbols_kind : ∀ s ∈ symbols, ¬ s.2.isWord ∧ s.2 ≠ .int ∧ s.2 ≠ .float ∧ s.2 ≠ .string := by
  decide

/-- No symbol starts as a word, a gap, a number or a string does. -/
theorem symbols_head : ∀ s ∈ symbols, ∀ c ∈ s.1.head?,
    ¬ isWordStart c ∧ ¬ isSpace c ∧ ¬ isDecimal c ∧ c ≠ '"' := by decide

/-- The table lists longer symbols first, so its first match is a longest one. -/
theorem symbols_longest_first : symbols.Pairwise fun s s' => s'.1.length ≤ s.1.length := by decide

theorem symbols_injective : ∀ s ∈ symbols, ∀ s' ∈ symbols, s.1 = s'.1 → s = s' := by decide

/-- No symbol starts a comment. -/
theorem symbols_not_comment : ∀ s ∈ symbols, ¬ ['/', '/'] <+: s.1 := by decide

/-- No opening is longer than two characters. -/
theorem length_openings_le : ∀ longer ∈ openings, longer.length ≤ 2 := by decide

/-- White space never goes on with a symbol. -/
theorem openings_not_space : ∀ longer ∈ openings, ∀ c ∈ longer, ¬ isSpace c := by decide

/-- What is found as a keyword stands in the table. -/
theorem mem_keywords_of_ofKeyword? {word : String} {k : Kind} (h : Kind.ofKeyword? word = some k) :
    (word, k) ∈ Kind.keywords := by
  obtain ⟨l, r, hsplit, -⟩ := List.lookup_eq_some_iff.mp h
  rw [hsplit]
  exact List.mem_append_right l List.mem_cons_self

theorem ofKeyword?_eq_none_iff {word : String} :
    Kind.ofKeyword? word = none ↔ word ∉ Kind.keywords.map Prod.fst := by
  rw [← not_iff_not, not_not, ← Ne, Option.ne_none_iff_exists']
  constructor
  · rintro ⟨k, hk⟩
    exact List.mem_map_of_mem (mem_keywords_of_ofKeyword? hk)
  · intro h
    obtain ⟨w, hw, rfl⟩ := List.mem_map.mp h
    exact ⟨w.2, ofKeyword?_keywords w hw⟩

end Lexer

/-! ## The classes of lexable tokens -/

namespace Token

variable {t : Token} {after : List Char}

/-- A kind with one spelling is lexable in that spelling; `negative` shares the spelling of
`subtract`, and is never lexed. -/
theorem isLexable_of_spelling? {kind : Kind} {lexeme : String} (h : kind.spelling? = some lexeme)
    (hk : kind ≠ .negative) (p : Position) : (⟨kind, lexeme, p⟩ : Token).IsLexable := by
  cases kind
  case negative => exact absurd rfl hk
  case identifier | int | float | string | endFile => cases h
  all_goals exact h

/-- What has a spelling is a keyword or a symbol. -/
theorem mem_tables_of_spelling? {kind : Kind} {lexeme : String} (h : kind.spelling? = some lexeme)
    (hk : kind ≠ .negative) : (lexeme, kind) ∈ Kind.keywords ∨ (lexeme.toList, kind) ∈ symbols := by
  cases kind
  case negative => exact absurd rfl hk
  case identifier | int | float | string | endFile => cases h
  all_goals
    cases h
    decide

/-- **A lexable token is a word, a number, a string literal or a symbol.** -/
theorem IsLexable.cases (h : t.IsLexable) :
    t.kind = (Kind.ofKeyword? t.lexeme).getD .identifier ∧ IsName t.lexeme.toList ∨
    t.kind = .int ∧ IsDigits t.lexeme.toList ∨
    t.kind = .float ∧ IsPointed t.lexeme.toList ∨
    t.kind = .string ∧ '"' ∉ t.lexeme.toList ∨
    (t.lexeme.toList, t.kind) ∈ symbols := by
  obtain ⟨kind, lexeme, p⟩ := t
  have hfixed (hs : kind.spelling? = some lexeme) (hk : kind ≠ .negative) :
      kind = (Kind.ofKeyword? lexeme).getD .identifier ∧ IsName lexeme.toList ∨
        (lexeme.toList, kind) ∈ symbols := by
    refine (mem_tables_of_spelling? hs hk).imp_left fun hw => ⟨?_, isName_keywords _ hw⟩
    rw [ofKeyword?_keywords _ hw]
    rfl
  cases kind
  case identifier =>
    refine .inl ⟨?_, h.1⟩
    rw [ofKeyword?_eq_none_iff.mpr h.2]
    rfl
  case int => exact .inr (.inl ⟨rfl, h⟩)
  case float => exact .inr (.inr (.inl ⟨rfl, h⟩))
  case string => exact .inr (.inr (.inr (.inl ⟨rfl, h⟩)))
  case negative => exact h.elim
  all_goals exact (hfixed h (by decide)).imp_right fun hs => .inr (.inr (.inr hs))

/-- A word is a keyword or an identifier. -/
theorem isWord_ofKeyword? (word : String) : ((Kind.ofKeyword? word).getD .identifier).isWord := by
  cases h : Kind.ofKeyword? word with
  | none => rfl
  | some k => exact (keywords_spelling _ (mem_keywords_of_ofKeyword? h)).2.1

theorem isWord_of_kind (h : t.kind = (Kind.ofKeyword? t.lexeme).getD .identifier) :
    t.kind.isWord := h ▸ isWord_ofKeyword? t.lexeme

theorem ne_string_of_isWord {k : Kind} (h : k.isWord) : k ≠ .string := by
  rintro rfl
  exact absurd h (by decide)

theorem spelling_of_ne_string (h : t.kind ≠ .string) : t.spelling = t.lexeme.toList := if_neg h

theorem spelling_string (h : t.kind = .string) :
    t.spelling = '"' :: (t.lexeme.toList ++ ['"']) := if_pos h

/-- Nothing goes on with a word before a character that is no part of words. -/
theorem isMaximal_word (h : t.kind.isWord) :
    t.IsMaximal after ↔ ∀ c ∈ after.head?, ¬ isWordPart c := by
  rw [IsMaximal, if_pos h]

/-- A point goes on with digits also where no digit is behind it. -/
theorem isMaximal_int (h : t.kind = .int) :
    t.IsMaximal after ↔ ∀ c ∈ after.head?, ¬ isDecimal c ∧ c ≠ '.' := by
  rw [IsMaximal, h, if_neg (by decide)]

theorem isMaximal_float (h : t.kind = .float) :
    t.IsMaximal after ↔ ∀ c ∈ after.head?, ¬ isDecimal c := by
  rw [IsMaximal, h, if_neg (by decide)]

/-- Nothing goes on with a string, for the quote closes it. -/
theorem isMaximal_string (h : t.kind = .string) : t.IsMaximal after := by
  rw [IsMaximal, h, if_neg (by decide)]
  trivial

/-- Nothing goes on with a symbol where no longer opening stands. -/
theorem isMaximal_symbol (h : (t.lexeme.toList, t.kind) ∈ symbols) :
    t.IsMaximal after ↔ ∀ longer ∈ openings, longer <+: t.lexeme.toList ++ after →
      longer.length ≤ t.lexeme.toList.length := by
  obtain ⟨hword, hint, hfloat, hstring⟩ := symbols_kind _ h
  rw [IsMaximal, if_neg hword, spelling_of_ne_string hstring]
  split
  · exact absurd ‹_› hint
  · exact absurd ‹_› hfloat
  · exact absurd ‹_› hstring
  · rfl

/-- At the end of a text nothing goes on. -/
theorem isMaximal_nil (h : t.IsLexable) : t.IsMaximal [] := by
  rcases h.cases with ⟨hk, -⟩ | ⟨hk, -⟩ | ⟨hk, -⟩ | ⟨hk, -⟩ | hsymbol
  · exact (isMaximal_word (isWord_of_kind hk)).mpr fun c hc => by cases hc
  · exact (isMaximal_int hk).mpr fun c hc => by cases hc
  · exact (isMaximal_float hk).mpr fun c hc => by cases hc
  · exact isMaximal_string hk
  · refine (isMaximal_symbol hsymbol).mpr fun longer _ hp => ?_
    rw [List.append_nil] at hp
    exact hp.length_le

end Token

/-! ## The first piece by the first character -/

namespace Lexer

variable {c : Char} {rest cs text after : List Char}

/-- The blocks of ten digits stand apart from the letters. -/
theorem zeros_apart_letters : ∀ z ∈ zeros, z + 10 ≤ 65 ∨ 122 < z := by decide

/-- **A digit does not start a word**, in any of the scripts that have digits. -/
theorem not_isWordStart_of_isDecimal (h : isDecimal c) : ¬ isWordStart c := by
  intro hw
  rw [isWordStart, Bool.or_eq_true, beq_iff_eq] at hw
  rcases hw with hw | rfl
  · obtain ⟨v, hv⟩ := Option.isSome_iff_exists.mp h
    obtain ⟨z, hz, hdigit⟩ := List.exists_of_findSome?_eq_some hv
    have hapart := zeros_apart_letters z hz
    have hletter : 65 ≤ c.toNat ∧ c.toNat ≤ 122 := by
      have hw : decide (65 ≤ c.val ∧ c.val ≤ 90) || (decide (97 ≤ c.val) && decide (c.val ≤ 122)) :=
        hw
      simp only [Bool.or_eq_true, Bool.and_eq_true, decide_eq_true_eq,
        UInt32.le_iff_toNat_le] at hw
      change 65 ≤ c.val.toNat ∧ c.val.toNat ≤ 122
      rcases hw with hw | hw
      · exact ⟨hw.1, hw.2.trans (by decide)⟩
      · exact ⟨le_trans (by decide) hw.1, hw.2⟩
    split at hdigit
    · omega
    · cases hdigit
  · exact absurd h (by decide)

/-- White space is one of five characters. -/
theorem mem_spaces_of_isSpace (h : isSpace c) : c ∈ [' ', '\t', '\x0c', '\r', '\n'] := by
  simpa [isSpace, or_assoc] using h

/-- None of the five goes on with a word or a number. -/
theorem spaces_apart : ∀ c ∈ [' ', '\t', '\x0c', '\r', '\n'],
    ¬ isWordStart c ∧ ¬ isWordPart c ∧ ¬ isDecimal c ∧ c ≠ '.' := by decide

/-- Where a word starts, the first piece is a word. -/
theorem firstPiece_word (h : isWordStart c) :
    firstPiece (c :: rest) = some (wordPiece (c :: rest)) := by
  rw [firstPiece, if_pos h]

/-- Where white space stands, the first piece is all of it. -/
theorem firstPiece_space (h : isSpace c) :
    firstPiece (c :: rest) = some (.gap (c :: rest.takeWhile isSpace)) := by
  rw [firstPiece, if_neg (spaces_apart c (mem_spaces_of_isSpace h)).1, if_pos h]

/-- A comment is one piece, up to the end of its line. -/
theorem firstPiece_comment (rest : List Char) :
    firstPiece ('/' :: '/' :: rest) =
      some (.gap ('/' :: '/' :: rest.takeWhile (· != '\n'))) := rfl

/-- Where a digit stands, the first piece is a number. -/
theorem firstPiece_digit (h : isDecimal c) :
    firstPiece (c :: rest) = some (numberPiece (c :: rest)) := by
  have hspace : ¬ isSpace c := fun hs =>
    (spaces_apart c (mem_spaces_of_isSpace hs)).2.2.1 h
  have hslash : ¬ (c == '/' && rest.head? == some '/') := by
    rw [Bool.and_eq_true, beq_iff_eq]
    exact fun hs => ne_of_isDecimal h (by decide) hs.1
  rw [firstPiece, if_neg (not_isWordStart_of_isDecimal h), if_neg hspace, if_neg hslash, if_pos h]

theorem firstPiece_quote : firstPiece ('"' :: rest) = stringPiece? rest := rfl

theorem prefix_comment_iff :
    ['/', '/'] <+: c :: rest ↔ (c == '/' && rest.head? == some '/') = true := by
  rw [Bool.and_eq_true, beq_iff_eq, beq_iff_eq, List.cons_prefix_cons, eq_comm]
  refine and_congr_right fun _ => ?_
  cases rest <;> simp [eq_comm]

/-- Where nothing else starts, there is a symbol or nothing. -/
theorem firstPiece_other (hw : ¬ isWordStart c) (hs : ¬ isSpace c) (hd : ¬ isDecimal c)
    (hq : c ≠ '"') (hc : ¬ ['/', '/'] <+: c :: rest) :
    firstPiece (c :: rest) = symbolPiece? (c :: rest) := by
  rw [firstPiece, if_neg hw, if_neg hs, if_neg (prefix_comment_iff.not.mp hc), if_neg hd,
    if_neg (by simpa using hq)]

/-- A symbol is looked for where one stands, unless it opens a comment. -/
theorem firstPiece_symbol {s : List Char × Kind} (hs : s ∈ symbols) (hp : s.1 <+: cs)
    (hc : ¬ ['/', '/'] <+: cs) : firstPiece cs = symbolPiece? cs := by
  obtain ⟨c, text, htext⟩ := List.exists_cons_of_ne_nil (symbols_ne_nil s hs)
  obtain ⟨hw, hspace, hd, hq⟩ := symbols_head s hs c (by rw [htext]; rfl)
  obtain ⟨after, rfl⟩ := hp
  rw [htext] at hc ⊢
  exact firstPiece_other hw hspace hd hq hc

/-- **What a text starts with**, by its first character. -/
theorem start_cases (c : Char) (rest : List Char) :
    isWordStart c ∨ isSpace c ∨ ['/', '/'] <+: c :: rest ∨ isDecimal c ∨ c = '"' ∨
      firstPiece (c :: rest) = symbolPiece? (c :: rest) ∧ ¬ ['/', '/'] <+: c :: rest := by
  by_cases hw : isWordStart c
  · exact .inl hw
  by_cases hs : isSpace c
  · exact .inr (.inl hs)
  by_cases hc : ['/', '/'] <+: c :: rest
  · exact .inr (.inr (.inl hc))
  by_cases hd : isDecimal c
  · exact .inr (.inr (.inr (.inl hd)))
  by_cases hq : c = '"'
  · exact .inr (.inr (.inr (.inr (.inl hq))))
  · exact .inr (.inr (.inr (.inr (.inr ⟨firstPiece_other hw hs hd hq hc, hc⟩))))

/-! ## Pieces and what they are cut from -/

/-- A name starts as words do. -/
theorem IsName.head (h : IsName text) : ∃ c rest, text = c :: rest ∧ isWordStart c := by
  obtain _ | ⟨c, rest⟩ := text
  · exact h.elim
  · exact ⟨c, rest, rfl, h.1⟩

theorem IsDigits.head (h : IsDigits text) : ∃ c rest, text = c :: rest ∧ isDecimal c := by
  obtain ⟨c, rest, rfl⟩ := List.exists_cons_of_ne_nil h.1
  exact ⟨c, rest, rfl, h.2 c List.mem_cons_self⟩

theorem IsPointed.head (h : IsPointed text) : ∃ c rest, text = c :: rest ∧ isDecimal c := by
  obtain ⟨whole, fraction, rfl, hw, -⟩ := h
  obtain ⟨c, rest, rfl, hc⟩ := hw.head
  exact ⟨c, rest ++ '.' :: fraction, rfl, hc⟩

theorem IsName.forall_isWordPart (h : IsName text) : ∀ c ∈ text, isWordPart c := by
  obtain _ | ⟨c, rest⟩ := text
  · exact h.elim
  · exact List.forall_mem_cons.mpr ⟨isWordPart_of_isWordStart h.1, h.2⟩

/-- **A name is cut off whole** before a character that is no part of it. -/
theorem wordPiece_append (h : IsName text) (hstop : ∀ c ∈ after.head?, ¬ isWordPart c) :
    wordPiece (text ++ after) =
      .token ((Kind.ofKeyword? (String.ofList text)).getD .identifier) text := by
  rw [wordPiece, takeWhile_append_stop h.forall_isWordPart hstop]

/-- What starts as a word does is a longest name and the rest. -/
theorem exists_name (h : isWordStart c) (rest : List Char) :
    ∃ text after, c :: rest = text ++ after ∧ IsName text ∧
      ∀ c ∈ after.head?, ¬ isWordPart c := by
  refine ⟨c :: rest.takeWhile isWordPart, rest.dropWhile isWordPart, ?_,
    ⟨h, fun d hd => List.mem_takeWhile_imp hd⟩, not_of_mem_head?_dropWhile⟩
  rw [List.cons_append, List.takeWhile_append_dropWhile]

/-- Digits are cut off whole, as an integer, before what is neither a digit nor a point. -/
theorem numberPiece_digits (h : IsDigits text)
    (hstop : ∀ c ∈ after.head?, ¬ isDecimal c ∧ c ≠ '.') :
    numberPiece (text ++ after) = .token .int text := by
  have hend : ∀ c ∈ after.head?, ¬ isDecimal c := fun c hc => (hstop c hc).1
  rw [numberPiece, takeWhile_append_stop h.2 hend, dropWhile_append_stop h.2 hend]
  split
  · exact absurd rfl (hstop '.' rfl).2
  · rfl

/-- Digits around a point are cut off whole, as a float, also with none behind the point. -/
theorem numberPiece_pointed {whole fraction : List Char} (hw : IsDigits whole)
    (hf : ∀ c ∈ fraction, isDecimal c) (hstop : ∀ c ∈ after.head?, ¬ isDecimal c) :
    numberPiece (whole ++ '.' :: (fraction ++ after)) =
      .token .float (whole ++ '.' :: fraction) := by
  have hpoint : ∀ c ∈ ('.' :: (fraction ++ after)).head?, ¬ isDecimal c := by
    rintro _ ⟨⟩
    decide
  rw [numberPiece, takeWhile_append_stop hw.2 hpoint, dropWhile_append_stop hw.2 hpoint]
  change Piece.token .float (whole ++ '.' :: (fraction ++ after).takeWhile isDecimal) = _
  rw [takeWhile_append_stop hf hstop]

/-- What starts with a digit is a longest integer or a longest float, and the rest. -/
theorem exists_number (h : isDecimal c) (rest : List Char) :
    (∃ text after, c :: rest = text ++ after ∧ IsDigits text ∧
      ∀ c ∈ after.head?, ¬ isDecimal c ∧ c ≠ '.') ∨
    ∃ whole fraction after, c :: rest = whole ++ '.' :: (fraction ++ after) ∧ IsDigits whole ∧
      (∀ c ∈ fraction, isDecimal c) ∧ ∀ c ∈ after.head?, ¬ isDecimal c := by
  have hsplit : c :: rest = (c :: rest.takeWhile isDecimal) ++ rest.dropWhile isDecimal := by
    rw [List.cons_append, List.takeWhile_append_dropWhile]
  have hdigits : IsDigits (c :: rest.takeWhile isDecimal) :=
    ⟨List.cons_ne_nil _ _,
      List.forall_mem_cons.mpr ⟨h, fun d hd => List.mem_takeWhile_imp hd⟩⟩
  have hstop : ∀ c ∈ (rest.dropWhile isDecimal).head?, ¬ isDecimal c :=
    not_of_mem_head?_dropWhile
  by_cases hpoint : (rest.dropWhile isDecimal).head? = some '.'
  · obtain ⟨tail, htail⟩ := List.head?_eq_some_iff.mp hpoint
    refine .inr ⟨_, tail.takeWhile isDecimal, tail.dropWhile isDecimal, ?_, hdigits,
      fun d hd => List.mem_takeWhile_imp hd, not_of_mem_head?_dropWhile⟩
    rw [List.takeWhile_append_dropWhile, ← htail, ← hsplit]
  · refine .inl ⟨_, _, hsplit, hdigits, fun d hd => ⟨hstop d hd, ?_⟩⟩
    rintro rfl
    exact hpoint hd

/-- A string is cut off up to the next quote, and only where there is one. -/
theorem stringPiece?_eq_some_iff {piece : Piece} :
    stringPiece? rest = some piece ↔ ∃ body after, rest = body ++ '"' :: after ∧ '"' ∉ body ∧
      piece = .token .string ('"' :: (body ++ ['"'])) := by
  have hcut {body after : List Char} (hbody : '"' ∉ body) :
      (body ++ '"' :: after).takeWhile (· != '"') = body := by
    refine takeWhile_append_stop (fun c hc => ?_) ?_
    · exact bne_iff_ne.mpr fun hq => hbody (hq ▸ hc)
    · rintro _ ⟨⟩
      decide
  constructor
  · intro h
    rw [stringPiece?] at h
    split at h
    · obtain ⟨body, after, rfl, hbody⟩ :=
        List.eq_append_cons_of_mem (List.contains_iff_mem.mp ‹_›)
      rw [hcut hbody] at h
      exact ⟨body, after, rfl, hbody, (Option.some.inj h).symm⟩
    · cases h
  · rintro ⟨body, after, rfl, hbody, rfl⟩
    rw [stringPiece?, if_pos (List.contains_iff_mem.mpr (by simp)), hcut hbody]

/-- **The symbol at the start of a text is the longest one there.** -/
theorem symbolPiece?_eq_some_iff {kind : Kind} :
    symbolPiece? cs = some (.token kind text) ↔ (text, kind) ∈ symbols ∧ text <+: cs ∧
      ∀ s ∈ symbols, s.1 <+: cs → s.1.length ≤ text.length := by
  have hfound {s : List Char × Kind}
      (h : (symbols.find? fun s => s.1.isPrefixOf cs) = some s) :
      s ∈ symbols ∧ s.1 <+: cs ∧ ∀ s' ∈ symbols, s'.1 <+: cs → s'.1.length ≤ s.1.length := by
    obtain ⟨hs, earlier, later, hsplit, hearlier⟩ := List.find?_eq_some_iff_append.mp h
    refine ⟨List.mem_of_find?_eq_some h, List.isPrefixOf_iff_prefix.mp hs, fun s' hs' hp => ?_⟩
    have horder := symbols_longest_first
    rw [hsplit] at hs' horder
    have hlater := (List.pairwise_cons.mp (List.pairwise_append.mp horder).2.1).1
    rcases List.mem_append.mp hs' with hmem | hmem
    · have hno : (!s'.1.isPrefixOf cs) = true := hearlier s' hmem
      rw [List.isPrefixOf_iff_prefix.mpr hp] at hno
      cases hno
    · rcases List.mem_cons.mp hmem with rfl | hmem
      · exact le_rfl
      · exact hlater s' hmem
  rw [symbolPiece?, Option.map_eq_some_iff]
  constructor
  · rintro ⟨s, hs, heq⟩
    obtain ⟨rfl, rfl⟩ := Piece.token.inj heq
    exact hfound hs
  · rintro ⟨hmem, hp, hlongest⟩
    have hsome : (symbols.find? fun s => s.1.isPrefixOf cs).isSome :=
      List.find?_isSome.mpr ⟨(text, kind), hmem, List.isPrefixOf_iff_prefix.mpr hp⟩
    obtain ⟨s, hs⟩ := Option.isSome_iff_exists.mp hsome
    obtain ⟨hmem', hp', hlongest'⟩ := hfound hs
    have hlength : s.1.length = text.length :=
      le_antisymm (hlongest s hmem' hp') (hlongest' (text, kind) hmem hp)
    have htext : s.1 = text :=
      (List.prefix_of_prefix_length_le hp' hp hlength.le).eq_of_length hlength
    obtain rfl : s = (text, kind) := symbols_injective s hmem' (text, kind) hmem htext
    exact ⟨_, hs, rfl⟩

/-! ## Lexable tokens and first pieces -/

/-- **A token that a text starts with is its first piece.** -/
theorem firstPiece_of_starts {t : Token} (h : t.Starts cs after) :
    firstPiece cs = some (.token t.kind t.spelling) := by
  obtain ⟨rfl, hlexable, hmax⟩ := h
  rcases hlexable.cases with ⟨hk, hname⟩ | ⟨hk, hdigits⟩ | ⟨hk, hpointed⟩ | ⟨hk, hbody⟩ | hsymbol
  · have hword := Token.isWord_of_kind hk
    rw [Token.isMaximal_word hword] at hmax
    have hpiece := wordPiece_append hname hmax
    rw [String.ofList_toList, ← hk] at hpiece
    obtain ⟨c, rest, htext, hc⟩ := hname.head
    rw [Token.spelling_of_ne_string (Token.ne_string_of_isWord hword), ← hpiece, htext]
    exact firstPiece_word hc
  · rw [Token.isMaximal_int hk] at hmax
    obtain ⟨c, rest, htext, hc⟩ := hdigits.head
    rw [Token.spelling_of_ne_string (by rw [hk]; decide), hk, ← numberPiece_digits hdigits hmax,
      htext]
    exact firstPiece_digit hc
  · rw [Token.isMaximal_float hk] at hmax
    obtain ⟨c, rest, htext, hc⟩ := hpointed.head
    obtain ⟨whole, fraction, hparts, hw, hf⟩ := hpointed
    have hpiece := numberPiece_pointed hw hf hmax
    rw [← List.cons_append, ← List.append_assoc, ← hparts] at hpiece
    rw [Token.spelling_of_ne_string (by rw [hk]; decide), hk, ← hpiece, htext]
    exact firstPiece_digit hc
  · rw [Token.spelling_string hk, hk, List.cons_append, firstPiece_quote]
    refine stringPiece?_eq_some_iff.mpr ⟨_, after, ?_, hbody, rfl⟩
    rw [List.append_assoc, List.singleton_append]
  · rw [Token.isMaximal_symbol hsymbol] at hmax
    rw [Token.spelling_of_ne_string (symbols_kind _ hsymbol).2.2.2]
    have hcomment : ¬ ['/', '/'] <+: t.lexeme.toList ++ after := fun hp =>
      symbols_not_comment _ hsymbol (List.prefix_of_prefix_length_le hp (List.prefix_append _ _)
        (hmax _ List.mem_cons_self hp))
    rw [firstPiece_symbol hsymbol (List.prefix_append _ _) hcomment]
    exact symbolPiece?_eq_some_iff.mpr ⟨hsymbol, List.prefix_append _ _, fun s hs hp =>
      hmax s.1 (List.mem_cons_of_mem _ (List.mem_map_of_mem hs)) hp⟩

/-- A name is lexable, as the keyword it is or else as an identifier. -/
theorem isLexable_word (h : IsName text) (p : Position) :
    (⟨(Kind.ofKeyword? (String.ofList text)).getD .identifier, String.ofList text, p⟩ :
      Token).IsLexable := by
  cases hk : Kind.ofKeyword? (String.ofList text) with
  | none =>
    refine ⟨?_, ofKeyword?_eq_none_iff.mp hk⟩
    rw [String.toList_ofList]
    exact h
  | some k =>
    obtain ⟨hs, -, hne⟩ := keywords_spelling _ (mem_keywords_of_ofKeyword? hk)
    exact Token.isLexable_of_spelling? hs hne p

/-- A text that starts as a word does starts with a token. -/
theorem starts_of_word (h : isWordStart c) (p : Position) :
    ∃ t after, Token.Starts t (c :: rest) after ∧ t.position = p := by
  obtain ⟨text, after, heq, hname, hstop⟩ := exists_name h rest
  have hword := Token.isWord_ofKeyword? (String.ofList text)
  refine ⟨_, after, ⟨?_, isLexable_word hname p, (Token.isMaximal_word hword).mpr hstop⟩, rfl⟩
  rw [Token.spelling_of_ne_string (Token.ne_string_of_isWord hword), String.toList_ofList, heq]

/-- A text that starts with a digit starts with a token, an integer or a float. -/
theorem starts_of_digit (h : isDecimal c) (p : Position) :
    ∃ t after, Token.Starts t (c :: rest) after ∧ t.position = p := by
  have hspelling {kind : Kind} {text : List Char} (hk : kind ≠ .string) :
      (⟨kind, String.ofList text, p⟩ : Token).spelling = text := by
    rw [Token.spelling_of_ne_string hk, String.toList_ofList]
  rcases exists_number h rest with ⟨text, after, heq, hdigits, hstop⟩ |
    ⟨whole, fraction, after, heq, hw, hf, hstop⟩
  · refine ⟨⟨.int, String.ofList text, p⟩, after,
      ⟨?_, ?_, (Token.isMaximal_int rfl).mpr hstop⟩, rfl⟩
    · rw [hspelling (by decide), heq]
    · change IsDigits (String.ofList text).toList
      rwa [String.toList_ofList]
  · refine ⟨⟨.float, String.ofList (whole ++ '.' :: fraction), p⟩, after,
      ⟨?_, ?_, (Token.isMaximal_float rfl).mpr hstop⟩, rfl⟩
    · rw [hspelling (by decide), heq, List.append_assoc, List.cons_append]
    · change IsPointed (String.ofList (whole ++ '.' :: fraction)).toList
      rw [String.toList_ofList]
      exact ⟨whole, fraction, rfl, hw, hf⟩

/-- A text with a string cut off starts with that string as a token. -/
theorem starts_of_stringPiece? {piece : Piece} (h : stringPiece? rest = some piece)
    (p : Position) : ∃ t after, Token.Starts t ('"' :: rest) after ∧ t.position = p := by
  obtain ⟨body, after, rfl, hbody, -⟩ := stringPiece?_eq_some_iff.mp h
  refine ⟨⟨.string, String.ofList body, p⟩, after, ⟨?_, ?_, Token.isMaximal_string rfl⟩, rfl⟩
  · rw [Token.spelling_string rfl, String.toList_ofList, List.cons_append, List.append_assoc,
      List.singleton_append]
  · change '"' ∉ (String.ofList body).toList
    rwa [String.toList_ofList]

/-- A text with a symbol cut off starts with it, since the longest one is found. -/
theorem starts_of_symbolPiece? {piece : Piece} (h : symbolPiece? cs = some piece)
    (hcomment : ¬ ['/', '/'] <+: cs) (p : Position) :
    ∃ t after, Token.Starts t cs after ∧ t.position = p := by
  obtain ⟨⟨text, kind⟩, -, rfl⟩ := Option.map_eq_some_iff.mp h
  obtain ⟨hmem, ⟨after, rfl⟩, hlongest⟩ := symbolPiece?_eq_some_iff.mp h
  obtain ⟨-, -, -, hstring⟩ := symbols_kind _ hmem
  obtain ⟨hs, hne⟩ := symbols_spelling _ hmem
  have htext : (String.ofList text).toList = text := String.toList_ofList
  refine ⟨⟨kind, String.ofList text, p⟩, after,
    ⟨?_, Token.isLexable_of_spelling? hs hne p, (Token.isMaximal_symbol ?_).mpr ?_⟩, rfl⟩
  · rw [Token.spelling_of_ne_string hstring, htext]
  · rwa [htext]
  · rw [htext]
    intro longer hlonger hp
    rcases List.mem_cons.mp hlonger with rfl | hlonger
    · exact absurd hp hcomment
    · obtain ⟨s, hs, rfl⟩ := List.mem_map.mp hlonger
      exact hlongest s hs hp

/-- **Where there is a first piece, it is white space, a comment up to the end of its line, or a
token.** -/
theorem exists_start (cs : List Char) (p : Position) : firstPiece cs = none ∨
    (∃ c after, cs = c :: after ∧ isSpace c) ∨
    (∃ body after, cs = '/' :: '/' :: (body ++ after) ∧ '\n' ∉ body ∧
      ∀ c ∈ after.head?, c = '\n') ∨
    ∃ t after, Token.Starts t cs after ∧ t.position = p := by
  obtain _ | ⟨c, rest⟩ := cs
  · exact .inl rfl
  rcases start_cases c rest with hw | hs | ⟨tail, hc⟩ | hd | rfl | ⟨hpiece, hc⟩
  · exact .inr (.inr (.inr (starts_of_word hw p)))
  · exact .inr (.inl ⟨c, rest, rfl, hs⟩)
  · refine .inr (.inr (.inl ⟨tail.takeWhile (· != '\n'), tail.dropWhile (· != '\n'), ?_, ?_, ?_⟩))
    · rw [List.takeWhile_append_dropWhile, ← hc]
      rfl
    · exact fun hmem => absurd (List.mem_takeWhile_imp hmem) (by decide)
    · intro d hd
      simpa using not_of_mem_head?_dropWhile d hd
  · exact .inr (.inr (.inr (starts_of_digit hd p)))
  · rw [firstPiece_quote]
    cases h : stringPiece? rest with
    | none => exact .inl rfl
    | some piece => exact .inr (.inr (.inr (starts_of_stringPiece? h p)))
  · rw [hpiece]
    cases h : symbolPiece? (c :: rest) with
    | none => exact .inl rfl
    | some piece => exact .inr (.inr (.inr (starts_of_symbolPiece? h hc p)))

/-- No symbol is a name. -/
theorem not_isName_of_mem_symbols {s : List Char × Kind} (hs : s ∈ symbols) : ¬ IsName s.1 := by
  intro hname
  obtain ⟨c, rest, htext, hc⟩ := hname.head
  exact (symbols_head s hs c (by rw [htext]; rfl)).1 hc

/-- **A token that looks like a word is a keyword exactly when it is in the table**, unless it is a
string literal. -/
theorem mem_keywords_iff {t : Token} (h : t.IsLexable) (hstring : t.kind ≠ .string)
    (hname : IsName t.lexeme.toList) :
    t.kind ∈ Kind.keywords.map Prod.snd ↔ t.lexeme ∈ Kind.keywords.map Prod.fst := by
  obtain ⟨c, rest, htext, hc⟩ := hname.head
  have hdigit {d : Char} {more : List Char} (hmore : t.lexeme.toList = d :: more) :
      ¬ isDecimal d := by
    obtain ⟨rfl, -⟩ := List.cons.inj (htext.symm.trans hmore)
    exact fun hd => not_isWordStart_of_isDecimal hd hc
  rcases h.cases with ⟨hk, -⟩ | ⟨-, hdigits⟩ | ⟨-, hpointed⟩ | ⟨hk, -⟩ | hsymbol
  · cases hword : Kind.ofKeyword? t.lexeme with
    | none =>
      rw [hk, hword]
      exact iff_of_false (by decide) (ofKeyword?_eq_none_iff.mp hword)
    | some k =>
      have hmem := mem_keywords_of_ofKeyword? hword
      rw [hk, hword]
      exact iff_of_true (List.mem_map_of_mem hmem) (List.mem_map_of_mem hmem)
  · obtain ⟨d, more, hmore, hd⟩ := hdigits.head
    exact absurd hd (hdigit hmore)
  · obtain ⟨d, more, hmore, hd⟩ := hpointed.head
    exact absurd hd (hdigit hmore)
  · exact absurd hk hstring
  · exact absurd hname (not_isName_of_mem_symbols hsymbol)

/-- **A symbol is maximal if the next character makes no longer opening of it**: no opening has more
than two characters. -/
theorem isMaximal_symbol_iff_head? {t : Token} (h : (t.lexeme.toList, t.kind) ∈ symbols) :
    t.IsMaximal after ↔ ∀ c ∈ after.head?, t.lexeme.toList ++ [c] ∉ openings := by
  rw [Token.isMaximal_symbol h]
  have hne : t.lexeme.toList ≠ [] := symbols_ne_nil _ h
  generalize t.lexeme.toList = text at hne
  constructor
  · intro hmax c hc hmem
    obtain ⟨tail, rfl⟩ := List.head?_eq_some_iff.mp hc
    have hle := hmax _ hmem ((List.prefix_append_right_inj text).mpr ⟨tail, rfl⟩)
    rw [List.length_append] at hle
    exact absurd hle (by simp)
  · intro hnext longer hlonger hp
    by_contra hlength
    -- A longer opening has one character more, the one that follows.
    obtain ⟨more, rfl⟩ := List.prefix_of_prefix_length_le (List.prefix_append _ _) hp
      (Nat.le_of_not_le hlength)
    have htwo := length_openings_le _ hlonger
    have hpos := List.length_pos_iff.mpr hne
    rw [List.length_append] at htwo hlength
    obtain ⟨c, rfl⟩ : ∃ c, more = [c] := List.length_eq_one_iff.mp (by omega)
    obtain ⟨tail, rfl⟩ := (List.prefix_append_right_inj text).mp hp
    exact hnext c rfl hlonger

/-- **Only the next character decides whether a token is maximal**, and white space never goes on
with one. -/
theorem isMaximal_of_head? {t : Token} {after' : List Char} (ht : t.IsLexable)
    (h : t.IsMaximal after) (hhead : ∀ c ∈ after'.head?, c ∈ after.head? ∨ isSpace c) :
    t.IsMaximal after' := by
  have hspace {c : Char} (hc : isSpace c) := spaces_apart c (mem_spaces_of_isSpace hc)
  rcases ht.cases with ⟨hk, -⟩ | ⟨hk, -⟩ | ⟨hk, -⟩ | ⟨hk, -⟩ | hsymbol
  · have hword := Token.isWord_of_kind hk
    rw [Token.isMaximal_word hword] at h ⊢
    exact fun c hc => (hhead c hc).elim (h c) fun hs => (hspace hs).2.1
  · rw [Token.isMaximal_int hk] at h ⊢
    exact fun c hc => (hhead c hc).elim (h c) fun hs => (hspace hs).2.2
  · rw [Token.isMaximal_float hk] at h ⊢
    exact fun c hc => (hhead c hc).elim (h c) fun hs => (hspace hs).2.2.1
  · exact Token.isMaximal_string hk
  · rw [isMaximal_symbol_iff_head? hsymbol] at h ⊢
    exact fun c hc => (hhead c hc).elim (h c) fun hs hlonger =>
      openings_not_space _ hlonger c (by simp) hs

/-! ## Where no terminal stands -/

/-- A word, a gap, a comment or a number is always found. -/
theorem firstPiece_ne_none
    (h : isWordStart c ∨ isSpace c ∨ ['/', '/'] <+: c :: rest ∨ isDecimal c) :
    firstPiece (c :: rest) ≠ none := by
  rcases h with h | h | ⟨tail, h⟩ | h
  · rw [firstPiece_word h]
    exact Option.some_ne_none _
  · rw [firstPiece_space h]
    exact Option.some_ne_none _
  · rw [← h]
    exact Option.some_ne_none _
  · rw [firstPiece_digit h]
    exact Option.some_ne_none _

/-- Where a lexable token is written there is a first piece, which may be longer. -/
theorem firstPiece_ne_none_of_isLexable {t : Token} (h : t.IsLexable) (after : List Char) :
    firstPiece (t.spelling ++ after) ≠ none := by
  rcases h.cases with ⟨hk, hname⟩ | ⟨hk, hdigits⟩ | ⟨hk, hpointed⟩ | ⟨hk, hbody⟩ | hsymbol
  · have hword := Token.isWord_of_kind hk
    obtain ⟨c, rest, htext, hc⟩ := hname.head
    rw [Token.spelling_of_ne_string (Token.ne_string_of_isWord hword), htext]
    exact firstPiece_ne_none (.inl hc)
  · obtain ⟨c, rest, htext, hc⟩ := hdigits.head
    rw [Token.spelling_of_ne_string (by rw [hk]; decide), htext]
    exact firstPiece_ne_none (.inr (.inr (.inr hc)))
  · obtain ⟨c, rest, htext, hc⟩ := hpointed.head
    rw [Token.spelling_of_ne_string (by rw [hk]; decide), htext]
    exact firstPiece_ne_none (.inr (.inr (.inr hc)))
  · -- Nothing goes on with a string literal.
    rw [firstPiece_of_starts ⟨rfl, h, Token.isMaximal_string hk⟩]
    exact Option.some_ne_none _
  · rw [Token.spelling_of_ne_string (symbols_kind _ hsymbol).2.2.2]
    by_cases hcomment : ['/', '/'] <+: t.lexeme.toList ++ after
    · obtain ⟨tail, htail⟩ := hcomment
      rw [← htail]
      exact Option.some_ne_none _
    · rw [firstPiece_symbol hsymbol (List.prefix_append _ _) hcomment, symbolPiece?, Ne,
        Option.map_eq_none_iff, List.find?_eq_none]
      exact fun hnone => hnone _ hsymbol (List.isPrefixOf_iff_prefix.mpr (List.prefix_append _ _))

/-- **There is no first piece exactly where no terminal matches.** -/
theorem firstPiece_eq_none_iff :
    firstPiece cs = none ↔ ∀ text, text <+: cs → ¬ IsTerminal text := by
  constructor
  · rintro hnone text ⟨after, rfl⟩ (⟨hne, hs⟩ | hbody | ht)
    · obtain ⟨c, rest, rfl⟩ := List.exists_cons_of_ne_nil hne
      exact firstPiece_ne_none (.inr (.inl (hs c List.mem_cons_self))) hnone
    · exact Option.some_ne_none _ hnone
    · exact firstPiece_ne_none_of_isLexable ht after hnone
  · intro hno
    rcases exists_start cs .none with h | ⟨c, after, rfl, hc⟩ | ⟨body, after, rfl, hbody, -⟩ |
      ⟨t, after, ht, -⟩
    · exact h
    · exact absurd (.space (List.cons_ne_nil c []) (by simpa using hc)) (hno [c] ⟨after, rfl⟩)
    · exact absurd (.comment hbody) (hno ('/' :: '/' :: body) ⟨after, rfl⟩)
    · exact absurd (.token ht.lexable) (hno t.spelling ⟨after, ht.eq.symm⟩)

end Lexer

end Scrawl
