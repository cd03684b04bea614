import Scrawl.Proofs.Token.Spelling

/-!
# Proofs/Token/Layout — every character and every place of a source text

A **layout** cuts a text into white space, comments and tokens, each token at the place that the
text before it leads to and maximal in front of what follows.  The lexer succeeds with some tokens
exactly when the text is laid out as these tokens, and fails exactly behind a start that is laid
out, at the first place where no terminal matches (`tokenize_eq_ok_iff`, `tokenize_eq_error_iff`).
-/

namespace Scrawl

open Lexer

/-! ## Places -/

/-- **The place behind a text**: a line for each line break, and a column for each character since
the last one. -/
def Position.behind (text : List Char) : Position :=
  ⟨1 + text.count '\n', 1 + (text.reverse.takeWhile (· != '\n')).length⟩

namespace Position

theorem after_behind (text : List Char) (c : Char) :
    (behind text).after c = behind (text ++ [c]) := by
  rw [after, behind, behind, List.count_append, List.reverse_append]
  by_cases hc : c = '\n'
  · simp [hc, Nat.add_assoc]
  · simp [hc, Nat.add_assoc]

theorem advance_behind (text more : List Char) :
    (behind text).advance more = behind (text ++ more) := by
  induction more generalizing text with
  | nil => rw [List.append_nil]; rfl
  | cons c more ih =>
    change ((behind text).after c).advance more = _
    rw [after_behind, ih, List.append_assoc, List.singleton_append]

end Position

/-! ## Layouts -/

/-- **A text laid out as tokens** with white space and comments around them.  The text stands behind
`before` and in front of `rest`, which decides where a comment and a token end. -/
inductive Layout : (before text rest : List Char) → List Token → Prop
  | nil {before rest : List Char} : Layout before [] rest []
  | space {before text rest : List Char} {tokens : List Token} {c : Char} (hc : isSpace c)
      (h : Layout (before ++ [c]) text rest tokens) : Layout before (c :: text) rest tokens
  /-- A comment goes up to the end of its line. -/
  | comment {before body text rest : List Char} {tokens : List Token} (hbody : '\n' ∉ body)
      (hline : ∀ c ∈ (text ++ rest).head?, c = '\n')
      (h : Layout (before ++ '/' :: '/' :: body) text rest tokens) :
      Layout before ('/' :: '/' :: (body ++ text)) rest tokens
  | token {before text rest : List Char} {tokens : List Token} {t : Token} (ht : t.IsLexable)
      (hmax : t.IsMaximal (text ++ rest)) (hplace : t.position = .behind before)
      (h : Layout (before ++ t.spelling) text rest tokens) :
      Layout before (t.spelling ++ text) rest (t :: tokens)

namespace Lexer

variable {c : Char} {cs rest after body : List Char} {p : Position}

/-- **What a piece adds to the tokens behind it.** -/
theorem scan_of_firstPiece {piece : Piece} (h : firstPiece cs = some piece)
    (hcs : cs = piece.text ++ after) :
    scan cs p = (scan after (p.advance piece.text)).map ((piece.token? p).toList ++ ·) := by
  have hdrop : cs.drop piece.text.length = after := by rw [hcs, List.drop_left]
  obtain _ | ⟨c, rest⟩ := cs
  · cases h
  · rw [scan]
    split
    · rename_i hnone
      cases h.symm.trans hnone
    · rename_i piece' hpiece
      obtain rfl := Option.some.inj (h.symm.trans hpiece)
      rw [hdrop]
      cases scan after (p.advance piece.text) <;> rfl

theorem scan_of_none (h : firstPiece (c :: rest) = none) :
    scan (c :: rest) p = .error ⟨c, p⟩ := by
  rw [scan]
  split
  · rfl
  · rename_i piece hpiece
    cases h.symm.trans hpiece

theorem scan_nil : scan [] p = .ok [] := by rw [scan]

theorem scan_gap {gap : List Char} (h : firstPiece cs = some (.gap gap)) (hcs : cs = gap ++ after) :
    scan cs p = scan after (p.advance gap) := by
  rw [scan_of_firstPiece h hcs]
  change (scan after (p.advance gap)).map ([] ++ ·) = _
  cases scan after (p.advance gap) <;> rfl

/-- White space may be taken one character at a time. -/
theorem scan_space (h : isSpace c) : scan (c :: rest) p = scan rest (p.after c) := by
  have hrun : scan (c :: rest) p =
      scan (rest.dropWhile isSpace) (p.advance (c :: rest.takeWhile isSpace)) :=
    scan_gap (firstPiece_space h) (by rw [List.cons_append, List.takeWhile_append_dropWhile])
  rw [hrun]
  by_cases hd : ∃ d ∈ rest.head?, isSpace d
  · obtain ⟨d, hd, hspace⟩ := hd
    obtain ⟨rest, rfl⟩ := List.head?_eq_some_iff.mp hd
    have hrun : scan (d :: rest) (p.after c) =
        scan (rest.dropWhile isSpace) ((p.after c).advance (d :: rest.takeWhile isSpace)) :=
      scan_gap (firstPiece_space hspace)
        (by rw [List.cons_append, List.takeWhile_append_dropWhile])
    rw [hrun, List.takeWhile_cons_of_pos hspace, List.dropWhile_cons_of_pos hspace]
    rfl
  · obtain _ | ⟨d, rest⟩ := rest
    · rfl
    · have hspace : ¬ isSpace d := fun hspace => hd ⟨d, rfl, hspace⟩
      rw [List.takeWhile_cons_of_neg hspace, List.dropWhile_cons_of_neg hspace]
      rfl

theorem scan_comment (hbody : '\n' ∉ body) (hline : ∀ c ∈ rest.head?, c = '\n') :
    scan ('/' :: '/' :: (body ++ rest)) p = scan rest (p.advance ('/' :: '/' :: body)) := by
  have hcut : (body ++ rest).takeWhile (· != '\n') = body := by
    refine takeWhile_append_stop (fun c hc => bne_iff_ne.mpr fun hn => hbody (hn ▸ hc)) ?_
    intro c hc
    simpa using hline c hc
  have hpiece := firstPiece_comment (body ++ rest)
  rw [hcut] at hpiece
  exact scan_gap hpiece rfl

theorem lexemeOf_spelling (t : Token) :
    String.ofList (lexemeOf t.kind t.spelling) = t.lexeme := by
  by_cases hk : t.kind = .string
  · rw [lexemeOf, if_pos hk, Token.spelling_string hk, List.drop_one, List.tail_cons,
      List.dropLast_concat, String.ofList_toList]
  · rw [lexemeOf, if_neg hk, Token.spelling_of_ne_string hk, String.ofList_toList]

theorem scan_token {t : Token} (h : t.Starts cs after) :
    scan cs t.position = (scan after (t.position.advance t.spelling)).map (t :: ·) := by
  rw [scan_of_firstPiece (firstPiece_of_starts h) h.eq, Piece.token?, lexemeOf_spelling]
  rfl

end Lexer

/-! ## The lexer follows the layout -/

namespace Layout

variable {before text rest : List Char} {tokens : List Token}

/-- **The tokens of a layout are those that the lexer finds**, before it goes on with the rest. -/
theorem scan (h : Layout before text rest tokens) :
    Lexer.scan (text ++ rest) (.behind before) =
      (Lexer.scan rest (.behind (before ++ text))).map (tokens ++ ·) := by
  induction h with
  | @nil before rest =>
    rw [List.nil_append, List.append_nil]
    cases Lexer.scan rest (.behind before) <;> rfl
  | space hc _ ih =>
    rw [List.cons_append, scan_space hc, Position.after_behind, ih, List.append_assoc,
      List.singleton_append]
  | comment hbody hline _ ih =>
    rw [List.cons_append, List.cons_append, List.append_assoc, scan_comment hbody hline,
      Position.advance_behind, ih, List.append_assoc, List.cons_append, List.cons_append]
  | @token before text rest tokens t ht hmax hplace _ ih =>
    rw [← hplace, scan_token ⟨List.append_assoc _ _ _, ht, hmax⟩, hplace, Position.advance_behind,
      ih, List.append_assoc]
    cases Lexer.scan rest _ <;> rfl

/-- **Every text is laid out** up to a place where no piece starts. -/
theorem exists_layout (before cs : List Char) : ∃ text rest tokens, cs = text ++ rest ∧
    Layout before text rest tokens ∧ firstPiece rest = none := by
  -- The induction is on the length: each step takes a piece off the text.
  induction hlength : cs.length using Nat.strong_induction_on generalizing before cs with
  | _ length ih =>
    subst hlength
    rcases exists_start cs (.behind before) with hnone | ⟨c, after, rfl, hc⟩ |
      ⟨body, after, rfl, hbody, hline⟩ | ⟨t, after, ht, hplace⟩
    · exact ⟨[], cs, [], rfl, .nil, hnone⟩
    · obtain ⟨text, rest, tokens, rfl, h, hnone⟩ :=
        ih after.length (by simp) (before ++ [c]) after rfl
      exact ⟨c :: text, rest, tokens, rfl, .space hc h, hnone⟩
    · obtain ⟨text, rest, tokens, rfl, h, hnone⟩ :=
        ih after.length (by simp; omega) (before ++ '/' :: '/' :: body) after rfl
      refine ⟨'/' :: '/' :: (body ++ text), rest, tokens, ?_, .comment hbody hline h, hnone⟩
      simp
    · have hne := firstPiece_text_ne_nil (firstPiece_of_starts ht)
      obtain ⟨rfl, hlexable, hmax⟩ := ht
      have hlt : after.length < (t.spelling ++ after).length := by
        rw [List.length_append]
        exact Nat.lt_add_of_pos_left (List.length_pos_iff.mpr hne)
      obtain ⟨text, rest, tokens, rfl, h, hnone⟩ :=
        ih after.length hlt (before ++ t.spelling) after rfl
      refine ⟨t.spelling ++ text, rest, t :: tokens, ?_, .token hlexable hmax hplace h, hnone⟩
      rw [List.append_assoc]

theorem isLexable (h : Layout before text rest tokens) : ∀ t ∈ tokens, t.IsLexable := by
  induction h with
  | nil => exact List.forall_mem_nil _
  | space _ _ ih => exact ih
  | comment _ _ _ ih => exact ih
  | token ht _ _ _ ih => exact List.forall_mem_cons.mpr ⟨ht, ih⟩

theorem tokenize_eq_ok {source : String} (h : Layout [] source.toList [] tokens) :
    tokenize source = .ok tokens := by
  have hscan := h.scan
  rw [scan_nil, List.append_nil, Except.map, List.append_nil] at hscan
  exact hscan

theorem tokenize_eq_error {source : String} {c : Char} (hsource : source.toList = text ++ c :: rest)
    (h : Layout [] text (c :: rest) tokens) (hnone : firstPiece (c :: rest) = none) :
    tokenize source = .error ⟨c, .behind text⟩ := by
  have hscan := h.scan
  rw [scan_of_none hnone, ← hsource] at hscan
  exact hscan

end Layout

/-- **The lexer succeeds with some tokens exactly when the text is laid out as them.** -/
theorem tokenize_eq_ok_iff {source : String} {tokens : List Token} :
    tokenize source = .ok tokens ↔ Layout [] source.toList [] tokens := by
  refine ⟨fun h => ?_, Layout.tokenize_eq_ok⟩
  obtain ⟨text, rest, found, hsource, hlayout, hnone⟩ := Layout.exists_layout [] source.toList
  obtain _ | ⟨c, rest⟩ := rest
  · rw [List.append_nil] at hsource
    rw [← hsource] at hlayout
    obtain rfl := Except.ok.inj (hlayout.tokenize_eq_ok.symm.trans h)
    exact hlayout
  · cases (hlayout.tokenize_eq_error hsource hnone).symm.trans h

/-- **The lexer fails exactly behind a start that is laid out**, at the first place where no
terminal matches. -/
theorem tokenize_eq_error_iff {source : String} {e : LexError} :
    tokenize source = .error e ↔ ∃ before rest tokens, source.toList = before ++ e.found :: rest ∧
      Layout [] before (e.found :: rest) tokens ∧ e.position = .behind before ∧
      ∀ text, text <+: e.found :: rest → ¬ IsTerminal text := by
  constructor
  · intro h
    obtain ⟨text, rest, found, hsource, hlayout, hnone⟩ := Layout.exists_layout [] source.toList
    obtain _ | ⟨c, rest⟩ := rest
    · rw [List.append_nil] at hsource
      rw [← hsource] at hlayout
      cases hlayout.tokenize_eq_ok.symm.trans h
    · obtain rfl := Except.error.inj ((hlayout.tokenize_eq_error hsource hnone).symm.trans h)
      exact ⟨text, rest, found, hsource, hlayout, rfl, firstPiece_eq_none_iff.mp hnone⟩
  · rintro ⟨before, rest, tokens, hsource, hlayout, hplace, hno⟩
    rw [hlayout.tokenize_eq_error hsource (firstPiece_eq_none_iff.mpr hno), ← hplace]

/-- **The lexer accounts for every character and every place.**  It succeeds with some tokens
exactly when the text is laid out as them: white space, comments and the spellings of the tokens,
in order and with nothing else, each token where the text before it leads to and maximal there.  A
token that looks like a word and is no string literal is a keyword exactly when the table says so.
The lexer fails exactly at a place where no terminal matches, with all before it laid out. -/
theorem tokenize_accounts_for_text (source : String) :
    (∀ tokens, tokenize source = .ok tokens ↔ Layout [] source.toList [] tokens) ∧
    (∀ tokens, tokenize source = .ok tokens → ∀ t ∈ tokens, t.kind ≠ .string →
      IsName t.lexeme.toList →
        (t.kind ∈ Kind.keywords.map Prod.snd ↔ t.lexeme ∈ Kind.keywords.map Prod.fst)) ∧
    (∀ e, tokenize source = .error e ↔ ∃ before rest tokens,
      source.toList = before ++ e.found :: rest ∧ Layout [] before (e.found :: rest) tokens ∧
      e.position = .behind before ∧ ∀ text, text <+: e.found :: rest → ¬ IsTerminal text) := by
  refine ⟨fun tokens => tokenize_eq_ok_iff, fun tokens h t ht hstring hname => ?_,
    fun e => tokenize_eq_error_iff⟩
  exact mem_keywords_iff ((tokenize_eq_ok_iff.mp h).isLexable t ht) hstring hname

/-- A quote inside a comment, a comment inside a string literal of two lines, and a keyword; then a
quote that is never closed. -/
theorem tokenize_accounts_for_text_quotes :
    let source := "if(1.5<=x)//\"\n\"a\n//\""
    let tokens : List Token := [⟨.ifWord, "if", ⟨1, 1⟩⟩, ⟨.leftParen, "(", ⟨1, 3⟩⟩,
      ⟨.float, "1.5", ⟨1, 4⟩⟩, ⟨.lessEqual, "<=", ⟨1, 7⟩⟩, ⟨.identifier, "x", ⟨1, 9⟩⟩,
      ⟨.rightParen, ")", ⟨1, 10⟩⟩, ⟨.string, "a\n//", ⟨2, 1⟩⟩]
    (tokenize source = .ok tokens ∧ Layout [] source.toList [] tokens ∧
      (Kind.ifWord ∈ Kind.keywords.map Prod.snd ↔ "if" ∈ Kind.keywords.map Prod.fst)) ∧
    tokenize "x\n \"a" = .error ⟨'"', ⟨2, 2⟩⟩ ∧ ∃ before rest tokens,
      "x\n \"a".toList = before ++ '"' :: rest ∧ Layout [] before ('"' :: rest) tokens ∧
      ⟨2, 2⟩ = Position.behind before ∧ ∀ text, text <+: '"' :: rest → ¬ IsTerminal text := by
  intro source tokens
  have htokens : tokenize source = .ok tokens := by decide +kernel
  have herror : tokenize "x\n \"a" = .error ⟨'"', ⟨2, 2⟩⟩ := by decide +kernel
  obtain ⟨hlayout, hkeyword, -⟩ := tokenize_accounts_for_text source
  obtain ⟨-, -, hfail⟩ := tokenize_accounts_for_text "x\n \"a"
  refine ⟨⟨htokens, (hlayout tokens).mp htokens, ?_⟩, herror, (hfail _).mp herror⟩
  exact hkeyword tokens htokens ⟨.ifWord, "if", ⟨1, 1⟩⟩ List.mem_cons_self (by decide) (by decide)

/-- **A keyword between quotes is a string literal**, although its lexeme is that of the keyword. -/
theorem quoted_keyword_is_string :
    tokenize "\"if\"" = .ok [⟨.string, "if", ⟨1, 1⟩⟩] ∧ IsName "if".toList ∧
      "if" ∈ Kind.keywords.map Prod.fst ∧ Kind.string ∉ Kind.keywords.map Prod.snd :=
  ⟨by decide +kernel, by decide, by decide, by decide⟩

/-! ## Texts with a line break between them -/

/-- A token some lines further down. -/
def Token.lowered (lines : Nat) (t : Token) : Token :=
  { t with position := ⟨t.position.line + lines, t.position.column⟩ }

theorem Position.behind_lineBreak (above text : List Char) :
    behind (above ++ '\n' :: text) =
      ⟨(behind text).line + (above.count '\n' + 1), (behind text).column⟩ := by
  have hcut : (text.reverse ++ '\n' :: above.reverse).takeWhile (· != '\n') =
      text.reverse.takeWhile (· != '\n') := by
    rw [List.takeWhile_append]
    split
    · rename_i hlength
      rw [(List.takeWhile_prefix _).eq_of_length hlength, List.takeWhile_cons_of_neg (by decide),
        List.append_nil]
    · rfl
  have hreverse : (above ++ '\n' :: text).reverse = text.reverse ++ '\n' :: above.reverse := by
    simp
  rw [behind, behind, hreverse, hcut, List.count_append, List.count_cons_self]
  congr 1
  dsimp only
  omega

namespace Layout

variable {before text text' rest : List Char} {tokens tokens' : List Token}

/-- **A layout may stand further down.** -/
theorem lowered (above : List Char) (h : Layout before text rest tokens) :
    Layout (above ++ '\n' :: before) text rest
      (tokens.map (Token.lowered (above.count '\n' + 1))) := by
  induction h with
  | nil => exact .nil
  | space hc _ ih =>
    refine .space hc ?_
    rwa [List.append_assoc, List.cons_append]
  | comment hbody hline _ ih =>
    refine .comment hbody hline ?_
    rwa [List.append_assoc, List.cons_append]
  | @token before text rest tokens t ht hmax hplace _ ih =>
    have hplace' : (t.lowered (above.count '\n' + 1)).position =
        .behind (above ++ '\n' :: before) := by
      rw [Position.behind_lineBreak, ← hplace]
      rfl
    have hlowered : Layout (above ++ '\n' :: before ++ t.spelling) text rest
        (tokens.map (Token.lowered (above.count '\n' + 1))) := by
      rwa [List.append_assoc, List.cons_append]
    exact .token (t := t.lowered _) ht hmax hplace' hlowered

/-- **What is laid out up to its end stays so in front of a line break.** -/
theorem before_lineBreak (h : Layout before text rest tokens) (hrest : rest = [])
    (below : List Char) : Layout before text ('\n' :: below) tokens := by
  subst hrest
  generalize hrest : ([] : List Char) = rest at h
  induction h with
  | nil => exact .nil
  | space hc _ ih => exact .space hc (ih hrest)
  | @comment _ _ text _ _ hbody hline _ ih =>
    subst hrest
    refine .comment hbody (fun c hc => ?_) (ih rfl)
    obtain _ | ⟨d, text⟩ := text
    · exact (Option.some.inj hc).symm
    · exact hline c hc
  | @token _ text _ _ t ht hmax hplace _ ih =>
    subst hrest
    refine .token ht (isMaximal_of_head? ht hmax fun c hc => ?_) hplace (ih rfl)
    obtain _ | ⟨d, text⟩ := text
    · obtain rfl := Option.some.inj hc
      exact .inr (by decide)
    · exact .inl hc

theorem append (h : Layout before text (text' ++ rest) tokens)
    (h' : Layout (before ++ text) text' rest tokens') :
    Layout before (text ++ text') rest (tokens ++ tokens') := by
  generalize hrest : text' ++ rest = rest' at h
  induction h with
  | nil => rwa [List.append_nil] at h'
  | space hc _ ih =>
    refine .space hc (ih ?_ hrest)
    rwa [List.append_assoc]
  | comment hbody hline _ ih =>
    subst hrest
    rw [List.cons_append, List.cons_append, List.append_assoc]
    refine .comment hbody ?_ (ih ?_ rfl)
    · rwa [List.append_assoc]
    · rwa [List.append_assoc, List.cons_append, List.cons_append]
  | token ht hmax hplace _ ih =>
    subst hrest
    rw [List.append_assoc, List.cons_append]
    refine .token ht ?_ hplace (ih ?_ rfl)
    · rwa [List.append_assoc]
    · rwa [List.append_assoc]

/-- **Texts with a line break between them are laid out one below the other.** -/
theorem lineBreak {above below : List Char} (h : Layout [] above [] tokens)
    (h' : Layout [] below rest tokens') :
    Layout [] (above ++ '\n' :: below) rest
      (tokens ++ tokens'.map (Token.lowered (above.count '\n' + 1))) := by
  have hbelow : Layout above ('\n' :: below) rest
      (tokens'.map (Token.lowered (above.count '\n' + 1))) :=
    .space (by decide) (h'.lowered above)
  exact (h.before_lineBreak rfl (below ++ rest)).append hbelow

end Layout

theorem toList_lineBreak (above below : String) :
    (above ++ "\n" ++ below).toList = above.toList ++ '\n' :: below.toList := by
  simp [String.toList_append]

/-- **Texts with a line break between them have their tokens one after the other.** -/
theorem tokenize_lineBreak {above below : String} {tokens tokens' : List Token}
    (h : tokenize above = .ok tokens) (h' : tokenize below = .ok tokens') :
    tokenize (above ++ "\n" ++ below) =
      .ok (tokens ++ tokens'.map (Token.lowered (above.toList.count '\n' + 1))) := by
  rw [tokenize_eq_ok_iff] at h h' ⊢
  rw [toList_lineBreak]
  exact h.lineBreak h'

/-- A lexer error some lines further down. -/
def LexError.lowered (lines : Nat) (e : LexError) : LexError :=
  { e with position := ⟨e.position.line + lines, e.position.column⟩ }

/-- **A text below a line break fails where it failed alone**, so many lines further down. -/
theorem tokenize_lineBreak_error {above below : String} {tokens : List Token} {e : LexError}
    (h : tokenize above = .ok tokens) (h' : tokenize below = .error e) :
    tokenize (above ++ "\n" ++ below) = .error (e.lowered (above.toList.count '\n' + 1)) := by
  rw [tokenize_eq_ok_iff] at h
  obtain ⟨before, rest, tokens', hbelow, hlayout, hplace, hno⟩ := tokenize_eq_error_iff.mp h'
  refine tokenize_eq_error_iff.mpr ⟨above.toList ++ '\n' :: before, rest, _, ?_,
    h.lineBreak hlayout, ?_, hno⟩
  · rw [toList_lineBreak, hbelow, List.append_assoc, List.cons_append]
    rfl
  · rw [Position.behind_lineBreak, ← hplace]
    rfl

/-- **Cutting into tokens is compositional at line breaks.**  Behind a text that the lexer takes and
a line break, a text is cut as it is alone: with the same tokens, or failing at the same character,
each in its column and lower by the lines of the text before. -/
theorem tokenize_across_lineBreak {above : String} {tokens : List Token}
    (h : tokenize above = .ok tokens) (below : String) :
    (∀ tokens', tokenize below = .ok tokens' → tokenize (above ++ "\n" ++ below) =
      .ok (tokens ++ tokens'.map (Token.lowered (above.toList.count '\n' + 1)))) ∧
    ∀ e, tokenize below = .error e →
      tokenize (above ++ "\n" ++ below) = .error (e.lowered (above.toList.count '\n' + 1)) :=
  ⟨fun _ => tokenize_lineBreak h, fun _ => tokenize_lineBreak_error h⟩

/-- Above the break a string literal of two lines, a number that ends in a point and a comment;
below it a comment and a number, and then a quote that is never closed. -/
theorem tokenize_across_lineBreak_comment :
    let above := "\"a\nb\" 1. //\""
    tokenize above = .ok [⟨.string, "a\nb", ⟨1, 1⟩⟩, ⟨.float, "1.", ⟨2, 4⟩⟩] ∧
      tokenize (above ++ "\n" ++ "//\n 5") = .ok [⟨.string, "a\nb", ⟨1, 1⟩⟩,
        ⟨.float, "1.", ⟨2, 4⟩⟩, ⟨.int, "5", ⟨4, 2⟩⟩] ∧
      tokenize (above ++ "\n" ++ "5\n \"x") = .error ⟨'"', ⟨4, 2⟩⟩ := by
  intro above
  have habove : tokenize above = .ok [⟨.string, "a\nb", ⟨1, 1⟩⟩, ⟨.float, "1.", ⟨2, 4⟩⟩] := by
    decide +kernel
  have hbelow : tokenize "//\n 5" = .ok [⟨.int, "5", ⟨2, 2⟩⟩] := by decide +kernel
  have herror : tokenize "5\n \"x" = .error ⟨'"', ⟨2, 2⟩⟩ := by decide +kernel
  have hlines : above.toList.count '\n' = 1 := by decide +kernel
  have hok := (tokenize_across_lineBreak habove _).1 _ hbelow
  have hfail := (tokenize_across_lineBreak habove _).2 _ herror
  rw [hlines] at hok hfail
  exact ⟨habove, hok, hfail⟩

end Scrawl
