import Scrawl.Proofs.Machine.CallFree
import Scrawl.Proofs.Machine.Session
import Scrawl.Proofs.Machine.Trace

/-!
# Proofs/Machine/IntegerText — integers survive every text

The text of an integer is read in three places: as a line of input, as tokens of a source text, and
as the lexeme of a literal.  All of them arrive at the integer again.  In a source text the minus
sign is a token of its own, so a negative integer is parsed as a **negation** of its absolute value
(`Node.ofInteger`), and evaluating the tree gives the integer back.
-/

namespace Scrawl

open Text Decimal Lexer

variable {n : Int}

/-! ## Lines of input -/

namespace Decimal

theorem isDecimal_of_mem_toDigits {c : Char} {k : Nat} (h : c ∈ Nat.toDigits 10 k) : isDecimal c :=
  isDecimal_of_isDigit (isDigit_of_mem_toDigits h)

/-- **The text of an integer is read as the integer**, up to the digit limit. -/
theorem readInteger_toString (h : (Nat.toDigits 10 n.natAbs).length ≤ digitLimit) :
    readInteger (toString n) = .ok n := by
  have htext : (toString n).toList =
      (if decide (n < 0) = true then ['-'] else []) ++ Nat.toDigits 10 n.natAbs := by
    simp only [toList_toString, decide_eq_true_eq]
  rw [readInteger_signed _ htext Nat.toDigits_ne_nil (fun _ => isDecimal_of_mem_toDigits) h,
    digitsValue_toDigits, signed_natAbs]

theorem writeInteger_toString (h : (Nat.toDigits 10 n.natAbs).length ≤ digitLimit) :
    writeInteger n = .ok (toString n) := by
  rw [writeInteger, if_pos (lt_tenPow_of_length_toDigits h)]

/-- The text of an integer has no point in it. -/
theorem point_notMem_toString (n : Int) : '.' ∉ (toString n).toList := by
  rw [toList_toString, List.mem_append, not_or]
  constructor
  · split <;> decide
  · exact fun h => absurd (isDecimal_of_mem_toDigits h) (by decide)

end Decimal

namespace Value

theorem hasDigit_toString (n : Int) : hasDigit (toString n).toList := by
  obtain ⟨c, more, hdigits⟩ := List.exists_cons_of_ne_nil (Nat.toDigits_ne_nil (b := 10)
    (n := n.natAbs))
  have hc : isDecimal c := isDecimal_of_mem_toDigits (hdigits ▸ List.mem_cons_self)
  refine List.any_eq_true.mpr ⟨c, ?_, ?_⟩
  · rw [toList_toString, hdigits]
    exact List.mem_append_right _ List.mem_cons_self
  · rw [isDigitLike, hc, Bool.true_or]

/-- **A line that is the text of an integer stands for the integer.** -/
theorem ofInput_toString (h : (Nat.toDigits 10 n.natAbs).length ≤ digitLimit) :
    ofInput (toString n) = .int n := by
  have hpoint : hasPointAfterDigit (toString n).toList = false := by
    rw [hasPointAfterDigit, ← Bool.not_eq_true, List.contains_iff_mem]
    exact fun hmem => point_notMem_toString n ((List.dropWhile_sublist _).subset hmem)
  rw [ofInput, hpoint, hasDigit_toString, readInteger_toString h]
  rfl

/-- **A line that is no number and no truth value stands for itself.** -/
theorem ofInput_cases (line : String) : (∃ n, ofInput line = .int n) ∨
    (∃ x, ofInput line = .float x) ∨ (∃ b, ofInput line = .bool b) ∨
      ofInput line = .string line := by
  unfold ofInput
  dsimp only
  split
  · cases readFloat line with
    | ok x => exact .inr (.inl ⟨x, rfl⟩)
    | error e => exact .inr (.inr (.inr rfl))
  split
  · cases readInteger line with
    | ok n => exact .inl ⟨n, rfl⟩
    | error e => exact .inr (.inr (.inr rfl))
  split
  · exact .inr (.inr (.inl ⟨true, rfl⟩))
  split
  · exact .inr (.inr (.inl ⟨false, rfl⟩))
  · exact .inr (.inr (.inr rfl))

end Value

/-! ## Source texts -/

/-- **The tokens of an integer**, written behind some text. -/
def Token.ofInteger (before : List Char) (n : Int) : List Token :=
  if n < 0 then
    [⟨.subtract, "-", .behind before⟩, ⟨.int, toString n.natAbs, .behind (before ++ ['-'])⟩]
  else [⟨.int, toString n.natAbs, .behind before⟩]

/-- **The tree of an integer**, written behind some text. -/
def Node.ofInteger (before : List Char) (n : Int) : Node :=
  if n < 0 then .unary ⟨.negative, "-", .behind before⟩ (.literal (.int n.natAbs))
  else .literal (.int n)

namespace Lexer

/-- No character of an opening is a digit. -/
theorem openings_not_decimal : ∀ longer ∈ openings, ∀ c ∈ longer, ¬ isDecimal c := by decide

/-- Parentheses and the semicolon open nothing longer. -/
theorem openings_alone : ∀ lexeme ∈ ["(", ")", ";"], ∀ longer ∈ openings,
    lexeme.toList <+: longer → longer.length = 1 := by decide

end Lexer

namespace Layout

variable {before text rest : List Char} {tokens : List Token}

/-- The digits of a number are one token. -/
theorem digits (k : Nat) (hstop : ∀ c ∈ (text ++ rest).head?, ¬ isDecimal c ∧ c ≠ '.')
    (h : Layout (before ++ Nat.toDigits 10 k) text rest tokens) :
    Layout before (Nat.toDigits 10 k ++ text) rest
      (⟨.int, toString k, .behind before⟩ :: tokens) := by
  let t : Token := ⟨.int, toString k, .behind before⟩
  have hlexeme : t.lexeme.toList = Nat.toDigits 10 k := Nat.toList_repr
  have hspelling : t.spelling = Nat.toDigits 10 k := hlexeme
  have hlexable : t.IsLexable := by
    change IsDigits t.lexeme.toList
    rw [hlexeme]
    exact ⟨Nat.toDigits_ne_nil, fun _ => isDecimal_of_mem_toDigits⟩
  rw [← hspelling] at h ⊢
  exact .token hlexable ((Token.isMaximal_int rfl).mpr hstop) rfl h

/-- A name that no character goes on with is a token. -/
theorem name (lexeme : String) (hname : IsName lexeme.toList)
    (hkeyword : lexeme ∉ Kind.keywords.map Prod.fst)
    (hstop : ∀ c ∈ (text ++ rest).head?, ¬ isWordPart c)
    (h : Layout (before ++ lexeme.toList) text rest tokens) :
    Layout before (lexeme.toList ++ text) rest (⟨.identifier, lexeme, .behind before⟩ :: tokens) :=
  .token (t := ⟨.identifier, lexeme, .behind before⟩) ⟨hname, hkeyword⟩
    ((Token.isMaximal_word rfl).mpr hstop) rfl h

/-- A symbol that the next character makes no longer opening of is a token. -/
theorem symbol (kind : Kind) (lexeme : String) (hsymbol : (lexeme.toList, kind) ∈ symbols)
    (hnext : ∀ c ∈ (text ++ rest).head?, lexeme.toList ++ [c] ∉ openings)
    (h : Layout (before ++ lexeme.toList) text rest tokens) :
    Layout before (lexeme.toList ++ text) rest (⟨kind, lexeme, .behind before⟩ :: tokens) := by
  let t : Token := ⟨kind, lexeme, .behind before⟩
  have hspelling : t.spelling = lexeme.toList :=
    Token.spelling_of_ne_string (symbols_kind _ hsymbol).2.2.2
  have hlexable : t.IsLexable := by
    obtain ⟨hfixed, hk⟩ := symbols_spelling _ hsymbol
    rw [String.ofList_toList] at hfixed
    exact Token.isLexable_of_spelling? hfixed hk _
  rw [← hspelling] at h ⊢
  exact .token hlexable ((isMaximal_symbol_iff_head? hsymbol).mpr hnext) rfl h

theorem punctuation (kind : Kind) (lexeme : String) (hsymbol : (lexeme.toList, kind) ∈ symbols)
    (hlexeme : lexeme ∈ ["(", ")", ";"])
    (h : Layout (before ++ lexeme.toList) text rest tokens) :
    Layout before (lexeme.toList ++ text) rest (⟨kind, lexeme, .behind before⟩ :: tokens) := by
  refine .symbol kind lexeme hsymbol (fun c _ hmem => ?_) h
  have hlength := openings_alone lexeme hlexeme _ hmem (List.prefix_append _ _)
  rw [List.length_append, List.length_singleton, Nat.add_eq_right] at hlength
  exact symbols_ne_nil _ hsymbol (List.length_eq_zero_iff.mp hlength)

/-- **The text of an integer is laid out as its tokens.** -/
theorem integer (n : Int) (hstop : ∀ c ∈ (text ++ rest).head?, ¬ isDecimal c ∧ c ≠ '.')
    (h : Layout (before ++ (toString n).toList) text rest tokens) :
    Layout before ((toString n).toList ++ text) rest (Token.ofInteger before n ++ tokens) := by
  rw [toList_toString] at h ⊢
  unfold Token.ofInteger
  split
  · rename_i hn
    rw [if_pos hn, ← List.append_assoc] at h
    obtain ⟨d, more, hdigits⟩ := List.exists_cons_of_ne_nil (Nat.toDigits_ne_nil (b := 10)
      (n := n.natAbs))
    refine .symbol .subtract "-" (by decide) ?_ (.digits n.natAbs hstop h)
    rw [hdigits]
    rintro _ ⟨⟩ hmem
    have hd : d ∈ Nat.toDigits 10 n.natAbs := hdigits ▸ List.mem_cons_self
    exact openings_not_decimal _ hmem d (by simp) (isDecimal_of_mem_toDigits hd)
  · rename_i hn
    rw [if_neg hn] at h
    exact .digits n.natAbs hstop h

end Layout

theorem tokenize_toString (n : Int) : tokenize (toString n) = .ok (Token.ofInteger [] n) := by
  have hlayout : Layout [] ((toString n).toList ++ []) [] (Token.ofInteger [] n ++ []) :=
    .integer n (fun c hc => by cases hc) .nil
  rw [List.append_nil, List.append_nil] at hlayout
  exact hlayout.tokenize_eq_ok

/-- **A call that prints an integer is laid out** as a name, the tokens of the integer between
parentheses, and a semicolon. -/
theorem exists_tokenize_output (n : Int) : ∃ name opening closing stop : Token, ∃ before,
    tokenize ("output(" ++ toString n ++ ");") =
        .ok (name :: opening :: (Token.ofInteger before n ++ [closing, stop])) ∧
      name.kind = .identifier ∧ name.lexeme = "output" ∧ opening.kind = .leftParen ∧
        closing.kind = .rightParen ∧ stop.kind = .endStatement := by
  have hend {before : List Char} : Layout before (")".toList ++ (";".toList ++ [])) [] _ :=
    .punctuation .rightParen ")" (by decide) (by decide)
      (.punctuation .endStatement ";" (by decide) (by decide) .nil)
  have hinteger : Layout ([] ++ "output".toList) ("(".toList ++ ((toString n).toList ++ _)) [] _ :=
    .punctuation .leftParen "(" (by decide) (by decide) (.integer n (by rintro _ ⟨⟩; decide) hend)
  have hwhole := Layout.name "output" (by decide) (by decide) (by rintro _ ⟨⟩; decide) hinteger
  have htext : ("output(" ++ toString n ++ ");").toList = "output".toList ++ ("(".toList ++
      ((toString n).toList ++ (")".toList ++ (";".toList ++ [])))) := by
    rw [String.toList_append, String.toList_append, List.append_assoc]
    rfl
  rw [← htext] at hwhole
  exact ⟨_, _, _, _, _, hwhole.tokenize_eq_ok, rfl, rfl, rfl, rfl, rfl⟩

/-! ## Trees -/

theorem standsFor_digits {k : Nat} (h : (Nat.toDigits 10 k).length ≤ digitLimit) (p : Position) :
    Token.StandsFor ⟨.int, toString k, p⟩ (.int k) := by
  have hread : readInteger (toString k) = .ok (k : Int) := readInteger_toString (n := k) h
  exact ⟨rfl, congrArg (fun r => (ParseError.ofNumber r).map Value.int) hread⟩

/-- **The tokens of an integer are a sentence**, with the tree of the integer. -/
theorem derives_ofInteger (h : (Nat.toDigits 10 n.natAbs).length ≤ digitLimit)
    (before : List Char) :
    Derives Token.StandsFor 1 (Token.ofInteger before n) (Node.ofInteger before n) := by
  have hliteral := standsFor_digits h
  have hminus : Kind.subtract ∈ Kind.signs := by decide
  unfold Token.ofInteger Node.ofInteger
  split
  · exact .signed hminus (.lift (.literal (hliteral _)))
  · rw [Int.natAbs_of_nonneg (by omega)] at hliteral
    exact .lift (.literal (hliteral _))

theorem run_expression_ofInteger (h : (Nat.toDigits 10 n.natAbs).length ≤ digitLimit)
    (before : List Char) : Parser.expression.run (.ofTokens (Token.ofInteger before n)) =
      (.ok (Node.ofInteger before n), .behind (Token.ofInteger before n) []) := by
  have hscans := Parser.scans_of_derives id (derives_ofInteger h before)
  have hreads := Cursor.reads_behind [] (Token.ofInteger before n) []
  rw [List.append_nil, List.nil_append] at hreads
  exact (hscans.settles hreads rfl).run_expression (Cursor.closed_behind [] _)

/-- **A call that prints an integer is parsed as one.** -/
theorem exists_parseSource_output (h : (Nat.toDigits 10 n.natAbs).length ≤ digitLimit) :
    ∃ tokens before, parseSource ("output(" ++ toString n ++ ");") =
      .ok (tokens, .block [.call "output" [.ofInteger before n]]) := by
  obtain ⟨name, opening, closing, stop, before, htokens, hname, hlexeme, hopening, hclosing,
    hstop⟩ := exists_tokenize_output n
  have hcall := Derives.call hname hopening hclosing
    (.last ((derives_ofInteger h before).of_le (by decide)))
  rw [hlexeme] at hcall
  have hreads := Cursor.reads_behind []
    (name :: opening :: (Token.ofInteger before n ++ [closing])) [stop]
  have hexpression := (Parser.scans_of_derives id hcall).settles hreads
    (by change Scan.stopsAt 0 stop.kind; rw [hstop]; rfl)
  have hopens : (Cursor.behind [] (name :: opening :: (Token.ofInteger before n ++ [closing]) ++
      [stop])).peek.kind.opens := by
    change name.kind.opens
    rw [hname]
    rfl
  have hstatement := Parser.Settles.statement_expression (.inl hopens) hexpression
    ⟨stop, rfl, hstop, rfl⟩
  have hstarts : name.kind.starts := by
    rw [hname]
    rfl
  have hprogram := Parser.Settles.program_cons rfl hstarts hstatement rfl
    (.program_nil rfl)
  have hparse := parse_eq_ok_iff.mpr ⟨_, hprogram⟩
  rw [List.cons_append, List.cons_append, List.append_assoc, List.singleton_append] at hparse
  refine ⟨name :: opening :: (Token.ofInteger before n ++ [closing, stop]), before, ?_⟩
  rw [parseSource, htokens]
  dsimp only
  rw [hparse]

theorem Value.writable_int (h : (Nat.toDigits 10 n.natAbs).length ≤ digitLimit) :
    (Value.int n).Writable := ⟨toString n, by rw [write, writeInteger_toString h]⟩

/-! ## Runs -/

namespace Machine

/-- **Nothing but the trace lies between two machines**, if messages go to the trace. -/
def Recorded (m m' : Machine) : Prop :=
  (0 < m.verbosity → m.tracing = true) → ∃ trace, m' = m.withTrace trace

instance isPreorder_recorded : IsPreorder Machine Recorded where
  refl m _ := ⟨m.trace, rfl⟩
  trans m₁ m₂ m₃ h h' htracing := by
    obtain ⟨trace, rfl⟩ := h htracing
    obtain ⟨trace', rfl⟩ := h' htracing
    exact ⟨trace', rfl⟩

theorem recorded_say (m : Machine) (text : String) : m.Recorded (m.say 3 text) := by
  intro htracing
  unfold say
  split
  · exact ⟨m.trace, rfl⟩
  · rw [if_pos (htracing (by omega))]
    exact ⟨_, rfl⟩

instance isPreorder_announced : IsPreorder Machine Announced where
  refl := .refl
  trans _ _ _ := .trans

end Machine

namespace Exec

variable {α : Type} {m m' : Machine}

/-- What is announced and then ends has said its label. -/
theorem Ends.of_announced {x y : Nat → Exec α} {outcome : Except Fault α} {text label : String}
    {n : Node} (heq : ∀ fuel, x (fuel + 1) = announce text n >>= fun _ => y fuel)
    (hlabel : n.label = .ok label) (h : Ends y (m.say 3 (text ++ label)) outcome m') :
    Ends x m outcome m' := by
  obtain ⟨fuel, hrun⟩ := h
  refine ⟨fuel + 1, ?_⟩
  have htext : n.label.map (text ++ ·) = .ok (text ++ label) := by rw [hlabel]; rfl
  rw [heq, run_bind, announce, run_sayLazily_of_ok htext]
  exact hrun

section

-- What the announcements of nodes come to.
variable {R : Machine → Machine → Prop} [IsPreorder Machine R]

/-- A literal is announced and is its own value. -/
theorem exists_ends_literal {v : Value} (hv : v.Writable) (m : Machine) :
    ∃ text, Ends (evaluate · (.literal v)) m (.ok v) (m.say 3 text) := by
  obtain ⟨label, hlabel⟩ := Node.exists_label_literal hv
  exact ⟨_, .of_announced (fun fuel => by rw [Node.literal, evaluate]) hlabel ⟨0, rfl⟩⟩

/-- **The tree of an integer is evaluated to the integer**, on every machine. -/
theorem exists_ends_ofInteger (hR : ∀ m text, R m (m.say 3 text))
    (h : (Nat.toDigits 10 n.natAbs).length ≤ digitLimit) (before : List Char) (m : Machine) :
    ∃ m', R m m' ∧ Ends (evaluate · (Node.ofInteger before n)) m (.ok (.int n)) m' := by
  unfold Node.ofInteger
  split
  · rename_i hn
    let m₁ := m.say 3 ("Evaluating: " ++ "-")
    obtain ⟨text, hends⟩ := exists_ends_literal (Value.writable_int (n := n.natAbs) h) m₁
    have hvalue : Value.apply .negative (.int n.natAbs) none = .ok (.int n) := by
      change Except.ok (Value.int (-n.natAbs)) = _
      rw [Int.ofNat_natAbs_of_nonpos (Int.le_of_lt hn), Int.neg_neg]
    have happly (v : Value) : Steady fun _ => ofFault (Value.apply .negative v none) := .const _
    have hsign : Ends (fun _ => ofFault (Value.apply .negative (.int n.natAbs) none))
        (m₁.say 3 text) (.ok (.int n)) (m₁.say 3 text) := ⟨0, by rw [hvalue]; rfl⟩
    have hnegated := (Ends.bind_iff (steady_evaluate _) happly).mpr (.inr ⟨_, _, hends, hsign⟩)
    exact ⟨m₁.say 3 text, trans_of R (hR m _) (hR m₁ text),
      .of_announced (fun fuel => by rw [evaluate]) rfl hnegated⟩
  · obtain ⟨text, hends⟩ := exists_ends_literal (Value.writable_int h) m
    exact ⟨_, hR m text, hends⟩

/-- **A call that prints the value of an expression** prints its text and does nothing else but
what the announcements come to. -/
theorem exists_ends_output {e : Node} {v : Value} {text : String}
    (hR : ∀ m text, R m (m.say 3 text)) (hv : v.write = .ok text)
    (he : ∀ m, ∃ m', R m m' ∧ Ends (evaluate · e) m (.ok v) m') (m : Machine) :
    ∃ m', R m m' ∧ Ends (visit · (.block [.call "output" [e]])) m (.ok ()) (m'.print text) := by
  -- The machines after the announcements of the block, of its statement and of the expression.
  let m₁ := m.say 3 ("Visiting: " ++ "block")
  let m₂ := m₁.say 3 ("Visiting: " ++ ("output" ++ "()"))
  let m₃ := m₂.say 3 ("Evaluating: " ++ ("output" ++ "()"))
  obtain ⟨m₄, hm₄, hends⟩ := he m₃
  have hm : R m m₃ := trans_of R (trans_of R (hR m _) (hR m₁ _)) (hR m₂ _)
  have harguments : Ends (evaluateAll · [e]) m₃ (.ok [v]) m₄ := by
    refine (Ends.succ_iff (by rw [evaluateAll])).mpr ?_
    simp only [evaluateAll]
    have hrest (v : Value) : Steady fun fuel => do return v :: (← evaluateAll fuel []) :=
      fun _ _ hle => (steady_evaluateAll [] hle).bind fun _ => .refl _
    exact (Ends.bind_iff (steady_evaluate e) hrest).mpr (.inr ⟨v, m₄, hends, 1, rfl⟩)
  have hprint : Ends (call · "output" [v]) m₄ (.ok .void) (m₄.print text) := by
    refine ⟨1, ?_⟩
    change (Builtin.printValue v).run m₄ = _
    rw [Builtin.printValue, write, hv]
    rfl
  have hcall : Ends (evaluate · (.call "output" [e])) m₂ (.ok .void) (m₄.print text) := by
    refine .of_announced (fun fuel => by rw [Node.call, evaluate]) rfl ?_
    exact (Ends.bind_iff (steady_evaluateAll _) fun _ => steady_call _ _).mpr
      (.inr ⟨_, _, harguments, hprint⟩)
  have hstatement : Ends (visit · (.call "output" [e])) m₁ (.ok ()) (m₄.print text) := by
    have hdiscard : Ends (fun fuel => evaluate fuel (.call "output" [e]) >>= fun _ => pure ()) m₂
        (.ok ()) (m₄.print text) :=
      (Ends.bind_iff (steady_evaluate _) fun _ => .const _).mpr (.inr ⟨_, _, hcall, 0, rfl⟩)
    exact .of_announced (fun fuel => by rw [Node.call, visit]; rfl) rfl hdiscard
  have hblock : Ends (visitAll · [.call "output" [e]]) m₁ (.ok ()) (m₄.print text) :=
    ends_visitAll_iff.mpr (.next hstatement (.nil _))
  exact ⟨m₄, trans_of R hm hm₄, .of_announced (fun fuel => by rw [visit]; rfl) rfl hblock⟩

end

end Exec

/-- A program that prints an integer has at most four levels. -/
theorem Node.levels_output_ofInteger (before : List Char) (n : Int) :
    (Node.block [.call "output" [.ofInteger before n]]).levels ≤ 4 := by
  have hinteger : (Node.ofInteger before n).levels ≤ 2 := by
    unfold Node.ofInteger
    split
    · exact Nat.le_refl _
    · exact Nat.le_succ _
  simp only [levels, levelsOf]
  omega

/-- **A program that prints an integer prints its text**, and leaves nothing else behind but its
trace.  For a trace there are a file and enough levels. -/
theorem exists_runSource_output (h : (Nat.toDigits 10 n.natAbs).length ≤ digitLimit) {ε : Type}
    (file : Except ε Unit) (limits : Limits) (verbosity seed : Int) (input : List String)
    (hshown : 0 < verbosity → file = .ok () ∧ 4 ≤ limits.levels) : ∃ fuel trace,
      runSource fuel ("output(" ++ toString n ++ ");")
          (Machine.opened file limits verbosity seed input) =
        .ok (.ok (.ok (), { Machine.start limits verbosity seed input with
          output := toString n ++ "\n", trace := trace, tracing := false })) := by
  obtain ⟨tokens, before, hparse⟩ := exists_parseSource_output h
  obtain ⟨drawing, hdraw⟩ := (isProgram_of_parseSource hparse).exists_draw
  have hshows : (Machine.start limits verbosity seed input).Shows _ := fun hv =>
    Nat.le_trans (Node.levels_output_ofInteger before n) (hshown hv).2
  have hwrite : (Value.int n).write = .ok (toString n) := writeInteger_toString h
  obtain ⟨m', hm', hends⟩ := Exec.exists_ends_output Machine.recorded_say hwrite
    (Exec.exists_ends_ofInteger Machine.recorded_say h before)
    ((Machine.start limits verbosity seed input).withTrace
      (Machine.preamble verbosity tokens drawing))
  obtain ⟨trace, rfl⟩ := hm' decide_eq_true
  obtain ⟨fuel, hrun⟩ := (Exec.ends_runTokens_iff hdraw tokens hshows).mpr
    (Exec.ends_runProgram_iff.mpr ⟨_, hends, rfl⟩)
  refine ⟨fuel, trace, (runSource_opened_iff hparse fuel _).mpr ⟨fun hv => (hshown hv).1, ?_⟩⟩
  rw [← String.empty_append (s := toString n)]
  exact hrun

open Exec in
/-- **Integers survive every text.**  Take an integer of at most as many digits as the limit allows,
and its text.  A line of input with that text stands for the integer, so what was printed reads
back.  As a source text it is one number, behind a minus sign if the integer is negative; it is
parsed to its end, and the tree is evaluated to the integer on every machine.  So a program that
prints it prints the same text again, at every verbosity, if a trace has its file and may show four
levels.  And a line that does not stand for a number or a truth value stands for itself,
unchanged. -/
theorem integer_survives_text :
    (∀ n : Int, (Nat.toDigits 10 n.natAbs).length ≤ digitLimit →
      (Value.int n).write = .ok (toString n) ∧
      Value.ofInput (toString n) = .int n ∧
      (∀ fuel rest (m : Machine), (Builtin.input.call fuel []).run
        { m with input := toString n :: rest } = (.ok (.int n), { m with input := rest })) ∧
      (∃ tokens e, tokenize (toString n) = .ok tokens ∧
        tokens.map Token.kind = (if n < 0 then [.subtract, .int] else [.int]) ∧
        Parser.expression.run (.ofTokens tokens) = (.ok e, .behind tokens []) ∧
        ∀ m : Machine, ∃ m', m.Announced m' ∧ Ends (evaluate · e) m (.ok (.int n)) m') ∧
      ∀ (ε : Type) (file : Except ε Unit) limits verbosity seed input,
        (0 < verbosity → file = .ok () ∧ 4 ≤ limits.levels) → ∃ fuel trace,
          runSource fuel ("output(" ++ toString n ++ ");")
              (Machine.opened file limits verbosity seed input) =
            .ok (.ok (.ok (), { Machine.start limits verbosity seed input with
              output := toString n ++ "\n", trace := trace, tracing := false }))) ∧
    ∀ line, (∃ n, Value.ofInput line = .int n) ∨ (∃ x, Value.ofInput line = .float x) ∨
      (∃ b, Value.ofInput line = .bool b) ∨ Value.ofInput line = .string line := by
  refine ⟨fun n h => ?_, Value.ofInput_cases⟩
  have hinput := Value.ofInput_toString h
  refine ⟨writeInteger_toString h, hinput, fun fuel rest m => ?_, ?_,
    fun ε => exists_runSource_output h⟩
  · rw [← hinput]
    rfl
  · refine ⟨Token.ofInteger [] n, Node.ofInteger [] n, tokenize_toString n, ?_,
      run_expression_ofInteger h [], exists_ends_ofInteger .say h []⟩
    unfold Token.ofInteger
    split <;> rfl

/-- A negative integer, at the verbosity that announces every node. -/
theorem integer_survives_text_negative :
    (Nat.toDigits 10 (-42 : Int).natAbs).length ≤ digitLimit ∧ Value.ofInput "-42" = .int (-42) ∧
    let machine := Machine.opened (.ok () : Except Empty Unit) .usual 3 0 []
    (∃ fuel trace, runSource fuel "output(-42);" machine = .ok (.ok (.ok (),
      { Machine.start .usual 3 0 [] with
        output := "-42\n", trace := trace, tracing := false }))) := by
  have hdigits : (Nat.toDigits 10 (-42 : Int).natAbs).length ≤ digitLimit := by decide
  obtain ⟨-, hinput, -, -, hrun⟩ := integer_survives_text.1 (-42) hdigits
  exact ⟨hdigits, hinput, hrun Empty (.ok ()) .usual 3 0 [] fun _ => ⟨rfl, by decide⟩⟩

end Scrawl
