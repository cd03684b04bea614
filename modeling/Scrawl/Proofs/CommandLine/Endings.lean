import Scrawl.Proofs.CommandLine.Emission
import Scrawl.Proofs.Json.Progress
import Scrawl.Proofs.Machine.Pervasive
import Scrawl.Proofs.Machine.Trace
import Scrawl.Proofs.Node.Payloads
import Scrawl.Proofs.Parser.Complaints

/-!
# Proofs/CommandLine/Endings — which failures escape

Almost every failure is reported on the error output, with a status (`Report.Ends`).  Which ones are
not depends on what the arguments have done (`Arguments.subject?`).  Nothing escapes from writing a
tree, nor from arguments that make no sense.  A tree with too many levels escapes from drawing it,
and so from tracing its program.  The one other fault of a program that escapes is an integer that
has to become a double and is too large for that.  With a tree from a file the faults of odd shapes
escape as well, and so does a number in the file that is too large for the double it is said to be
(`Subject.LetsEscape`).  The file holds a typed document: of others nothing is said.
-/

namespace Scrawl.CommandLine

open Surroundings

/-! ## What is run -/

/-- What can be run or drawn. -/
inductive Subject where
  /-- A source text that is run. -/
  | program
  /-- A source text whose tree is drawn. -/
  | drawing
  /-- A tree read from a document, which is run. -/
  | tree
deriving DecidableEq, Repr

/-- **What the arguments have run or drawn**, if anything. -/
def Arguments.subject? (a : Arguments) : Option Subject :=
  match given a.emitAst, given a.ast, given a.program with
  | some _, _, _ => none
  | none, some _, _ => some .tree
  | none, none, none => none
  | none, none, some _ => if a.tree then some .drawing else some .program

/-- **A failure that escapes when something is run or drawn.**  A run whose fuel gives out has not
come to its end; the others have. -/
def Subject.LetsEscape : Subject → Failure → Prop
  | .program, .stop .exhausted | .tree, .stop .exhausted => True
  | .program, .stop (.fault (.number .tooLargeForFloat)) => True
  | .tree, .stop (.fault (.number .tooLargeForFloat)) => True
  | .program, .stop (.fault .tooManyLevels) | .drawing, .stop (.fault .tooManyLevels) => True
  | .tree, .stop (.fault (.unexpected ..)) | .tree, .stop (.fault (.lacking ..)) => True
  | .tree, .document (.number .tooLargeForFloat) => True
  | _, _ => False

/-- A failure that some arguments let escape. -/
def Escapes (arguments : List String) (f : Failure) : Prop :=
  ∃ a subject, readArguments arguments = .ok a ∧ a.subject? = some subject ∧ subject.LetsEscape f

/-- **The document that the arguments have run, if any, is typed.** -/
def Surroundings.RunsTyped (s : Surroundings) (arguments : List String) : Prop :=
  ∀ a p text, readArguments arguments = .ok a → given a.ast = some p → s.read p = .ok text →
    Json.TypedText text

/-! ## Ends -/

/-- **How a run of the command line can end**, given the failures that may escape: well, with
arguments that make no sense, with a failure under its heading, or with one that escapes. -/
inductive Report.Ends (P : Failure → Prop) : Report → Prop where
  | well (output : String) (written : List (Path × String)) : Ends P (.success output written)
  | misused (e : UsageError) : Ends P (.misuse e)
  | reported {f : Failure} {heading : String} (h : f.showing = .reported heading) (output : String)
      (written : List (Path × String)) :
      Ends P ⟨.ok 1, output, heading ++ ": " ++ f.message ++ "\n", written⟩
  | escaped {f : Failure} (h : P f) (output : String) (written : List (Path × String)) :
      Ends P ⟨.error f, output, "", written⟩

/-- A failure that is reported unless it lies in a class. -/
def Failure.ReportedUnless (P : Failure → Prop) (f : Failure) : Prop := f.showing = .escaped → P f

variable {P Q : Failure → Prop}

namespace Report.Ends

/-- A class of failures may be widened. -/
theorem mono {r : Report} (h : r.Ends P) (hPQ : ∀ f, P f → Q f) : r.Ends Q := by
  cases h with
  | well output written => exact .well output written
  | misused e => exact .misused e
  | reported h output written => exact .reported h output written
  | escaped h output written => exact .escaped (hPQ _ h) output written

theorem failure {f : Failure} (h : f.ReportedUnless P) (output : String)
    (written : List (Path × String)) : (Report.failure f output written).Ends P := by
  rw [Report.failure]
  cases hshowing : f.showing with
  | reported heading => exact .reported hshowing output written
  | escaped => exact .escaped (h hshowing) output written

/-- A step that fails is reported as its failure is. -/
theorem orFailure {α : Type} {step : Except Failure α} {next : α → Report}
    (hstep : FailsOnly (Failure.ReportedUnless P) step)
    (hnext : ∀ a, step = .ok a → (next a).Ends P) : (Report.orFailure step next).Ends P := by
  obtain f | a := step
  · exact .failure (hstep f rfl) "" []
  · exact hnext a rfl

end Report.Ends

/-! ## Failures before a run -/

theorem Failure.reportedUnless_of_isComplaint : ∀ {e : ParseError}, e.IsComplaint →
    (Failure.source (.parser e)).ReportedUnless P
  | .unmet .., _ | .misplaced .., _ | .notLiteral _, _ => by rintro ⟨⟩
  | .number (.notInteger _), _ | .number (.notFloat _), _ => by rintro ⟨⟩
  | .number (.tooManyDigits _), _ => by rintro ⟨⟩

/-- **Errors of a source text are reported.** -/
theorem failsOnly_parseSource (source : String) :
    FailsOnly (fun e => (Failure.source e).ReportedUnless P) (parseSource source) := by
  unfold parseSource
  split
  · refine .error ?_
    rintro ⟨⟩
  · split
    · exact .error (Failure.reportedUnless_of_isComplaint (failsOnly_parse _ _ ‹_›))
    · exact .ok _

namespace Surroundings

/-- A file that is not read is reported. -/
theorem failsOnly_read (s : Surroundings) (p : Path) :
    FailsOnly (Failure.ReportedUnless P) (s.read p) := by
  unfold read
  split
  · exact .ok _
  · refine .error ?_
    rintro ⟨⟩

/-- So is one that cannot be written. -/
theorem failsOnly_checkWritable (s : Surroundings) (p : Path) :
    FailsOnly (Failure.ReportedUnless P) (s.checkWritable p) := by
  unfold checkWritable
  split
  · exact .ok _
  · refine .error ?_
    rintro ⟨⟩

theorem failsOnly_ofSource {α : Type} {x : Except SourceError α}
    (h : FailsOnly (fun e => (Failure.source e).ReportedUnless P) x) :
    FailsOnly (Failure.ReportedUnless P) (ofSource x) := by
  obtain e | a := x
  · exact .error (h e rfl)
  · exact .ok a

theorem eq_ok_of_ofSource {α : Type} {x : Except SourceError α} {a : α}
    (h : ofSource x = .ok a) : x = .ok a := by
  obtain e | b := x
  · cases h
  · cases h
    rfl

/-- **Errors of a typed document are reported**, but for a number that is too large. -/
theorem failsOnly_readTree {text : String} (h : Json.TypedText text) :
    FailsOnly (Failure.ReportedUnless Subject.tree.LetsEscape) (readTree text) := by
  unfold readTree
  split
  · rename_i e he
    refine .error ?_
    cases e with
    | exhausted => exact absurd he (Json.readWithin_ne_exhausted _ text)
    | loneHalf => exact absurd he h.whole
    | _ => rintro ⟨⟩
  · rename_i j hj
    split
    · rename_i e he
      refine .error ?_
      cases e with
      | number error =>
        cases error with
        | tooLargeForFloat => exact fun _ => trivial
        | _ => rintro ⟨⟩
      | payload key => exact absurd trivial ((Node.takes_ofJson (h.typed j hj)).not_isPayload he)
      | _ => rintro ⟨⟩
    · exact .ok _

/-! ## Runs -/

/-- An ordinary fault is reported, unless a number is too large. -/
theorem reportedUnless_of_isOrdinary
    (h : P (.stop (.fault (.number .tooLargeForFloat)))) : ∀ {f : Fault}, f.IsOrdinary →
      (Failure.stop (.fault f)).ReportedUnless P
  | .undefined .., _ | .arity .., _ | .operands .., _ | .divisionByZero, _ => by rintro ⟨⟩
  | .moduloByZero, _ | .condition _, _ | .strayReturn, _ | .unassignable _, _ => by rintro ⟨⟩
  | .unsteppable _, _ | .boundSort _, _ | .bound _, _ | .callDepth, _ => by rintro ⟨⟩
  | .number .tooLongToWrite, _ => by rintro ⟨⟩
  | .number .tooLargeForFloat, _ => fun _ => h

/-- A file for the trace that cannot be opened is reported. -/
theorem failsOnly_machine (s : Surroundings) (verbosity : Nat) :
    FailsOnly (Failure.ReportedUnless P) (s.machine verbosity) := fun f hf =>
  s.failsOnly_checkWritable tracePath f (Machine.opened_eq_error_iff.mp hf).2

/-- What is run decides how the report ends. -/
theorem execute_ends (s : Surroundings) (verbosity : Nat) {program : Exec Unit}
    (h : FailsOnly (fun stop => (Failure.stop stop).ReportedUnless P)
      (program.run (.start s.limits verbosity s.seed s.input)).1) :
    (s.execute verbosity program).Ends P := by
  refine .orFailure (s.failsOnly_machine verbosity) fun m hm => ?_
  obtain ⟨-, rfl⟩ := Machine.opened_eq_ok_iff.mp hm
  generalize program.run (.start s.limits verbosity s.seed s.input) = r at h ⊢
  obtain ⟨stop | ⟨⟩, m⟩ := r
  · exact .failure (h stop rfl) _ _
  · exact .well _ _

/-- **A program that is run.**  It is a program in shape, and its tree is drawn for the trace. -/
theorem runFile_ends (s : Surroundings) (verbosity : Nat) (p : Path) :
    (s.runFile verbosity p).Ends Subject.program.LetsEscape := by
  refine .orFailure ((s.failsOnly_read p).bind fun source =>
    failsOnly_ofSource (failsOnly_parseSource source)) fun parsed hparsed => ?_
  obtain ⟨tokens, program⟩ := parsed
  obtain ⟨source, -, hsource⟩ := exists_of_bind_eq_ok hparsed
  have hprogram := isProgram_of_parseSource (eq_ok_of_ofSource hsource)
  obtain ⟨drawing, hdraw⟩ := hprogram.exists_draw
  have hwell := Exec.runProgram_endsWell (hprogram.mono fun _ _ => trivial) s.fuel
    ((Machine.sound_start s.limits verbosity s.seed s.input).showing tokens drawing)
  refine s.execute_ends verbosity fun stop hstop => ?_
  by_cases hshows : (Machine.start s.limits verbosity s.seed s.input).Shows program
  · rw [Exec.run_runTokens_of_shows hdraw hshows] at hstop
    rw [hstop] at hwell
    cases stop with
    | exhausted => exact fun _ => trivial
    | fault f => exact reportedUnless_of_isOrdinary trivial hwell
  · rw [Exec.run_runTokens_of_not_shows hshows] at hstop
    cases hstop
    exact fun _ => trivial

/-- **A tree that is run**, whatever its shape is. -/
theorem runTree_ends (s : Surroundings) (verbosity : Nat) {p : Path}
    (h : ∀ text, s.read p = .ok text → Json.TypedText text) :
    (s.runTree verbosity p).Ends Subject.tree.LetsEscape := by
  refine .orFailure ((s.failsOnly_read p).bind_of_ok fun text htext =>
    failsOnly_readTree (h text htext)) fun program _ => ?_
  refine s.execute_ends verbosity fun stop hstop => ?_
  cases stop with
  | exhausted => exact fun _ => trivial
  | fault f =>
    rcases Exec.runProgram_arising s.fuel program _ f hstop with hordinary | hodd
    · exact reportedUnless_of_isOrdinary trivial hordinary
    · cases f with
      | unexpected => exact fun _ => trivial
      | lacking => exact fun _ => trivial
      | _ => exact hodd.elim

/-- **A program that is drawn.**  Every one can be, within a limit on its levels. -/
theorem drawFile_ends (s : Surroundings) (p : Path) :
    (s.drawFile p).Ends Subject.drawing.LetsEscape := by
  refine .orFailure ((s.failsOnly_read p).bind fun source => ?_) fun drawing _ => .well _ _
  refine (failsOnly_ofSource ((failsOnly_parseSource source).map Prod.snd)).bind_of_ok
    fun program hprogram => ?_
  obtain ⟨⟨tokens, _⟩, hparse, rfl⟩ := exists_of_map_eq_ok (eq_ok_of_ofSource hprogram)
  obtain ⟨drawing, hdraw⟩ := (isProgram_of_parseSource hparse).exists_draw
  dsimp only
  obtain hle | hlt := Nat.lt_or_ge s.limits.levels (Node.levels _) |>.symm
  · rw [Node.drawWithin_of_le hle, hdraw]
    exact .ok drawing
  · rw [Node.drawWithin_of_lt hlt]
    exact .error fun _ => trivial

/-- **Nothing escapes when a tree is written.** -/
theorem emitFile_ends (s : Surroundings) (p : Path) : (s.emitFile p).Ends P := by
  refine .orFailure ?_ fun program _ => .well _ _
  refine (s.failsOnly_read p).bind fun source => ?_
  refine (failsOnly_ofSource ((failsOnly_parseSource source).map _)).bind fun program => ?_
  exact (s.failsOnly_checkWritable (treePath p)).bind fun _ => .ok program

/-- **Whatever is asked for, it ends in a report**, but for what the program or the tree given lets
escape. -/
theorem perform_ends (s : Surroundings) (a : Arguments)
    (h : ∀ p text, given a.ast = some p → s.read p = .ok text → Json.TypedText text) :
    (s.perform a).Ends fun f => ∃ subject, a.subject? = some subject ∧ subject.LetsEscape f := by
  rw [perform, Arguments.subject?]
  cases given a.emitAst with
  | some p => exact s.emitFile_ends p
  | none =>
    cases hast : given a.ast with
    | some p =>
      exact (s.runTree_ends a.verbosity fun text => h p text hast).mono fun f hf => ⟨.tree, rfl, hf⟩
    | none =>
      cases given a.program with
      | none => exact .misused .missingProgram
      | some p =>
        dsimp only
        split
        · exact (s.drawFile_ends p).mono fun f hf => ⟨.drawing, rfl, hf⟩
        · exact (s.runFile_ends a.verbosity p).mono fun f hf => ⟨.program, rfl, hf⟩

end Surroundings

/-! ## A tree and a program that fail -/

/-- The text of a choice that lacks everything. -/
def bareChoice : String :=
  "\x7b\"type\":\"If\",\"condition\":null,\"true_body\":null,\"false_body\":null\x7d"

theorem read_bareChoice :
    Json.read bareChoice = .ok (Node.choice .absent .absent .absent).toJson := rfl

theorem typedText_bareChoice : Json.TypedText bareChoice :=
  .of_read read_bareChoice (Node.typed_toJson ⟨trivial, trivial, trivial⟩)

/-- A program that squares an integer until it lies beyond all doubles, and adds it to one. -/
def hugeSum : String := "var a=9999999999;a*=a;a*=a;a*=a;a*=a;a*=a;1.0+a;"

theorem run_hugeSum : (parseSource hugeSum).map (fun parsed =>
    let r := (Exec.runProgram 20 parsed.2).run (.start .usual 0 0 [])
    (r.1, r.2.output)) = .ok (.error (.fault (.number .tooLargeForFloat)), "") := by
  decide +kernel

/-! ## The answer to any arguments -/

/-- **Few failures escape.**  Whatever the arguments, the files and the input are, as long as a
document that is run is typed, the program ends well, with the usage and status 2, with a message
under a heading and status 1, or with one of the failures that what it runs or draws lets escape. -/
theorem answer_ends (s : Surroundings) (arguments : List String) (h : s.RunsTyped arguments) :
    (s.answer arguments).Ends (Escapes arguments) := by
  rw [answer]
  cases harguments : readArguments arguments with
  | error early =>
    cases early with
    | help => exact .well help []
    | usage e => exact .misused e
  | ok a =>
    refine (s.perform_ends a fun p text => h a p text harguments).mono fun f hf => ?_
    obtain ⟨subject, hsubject, hf⟩ := hf
    exact ⟨a, subject, harguments, hsubject, hf⟩

/-- **Failures do escape.**  One tree has nothing for a condition, and one program has a sum that is
no double. -/
theorem answer_ends_escaped :
    let s : Surroundings := ⟨Directory.files [(["a.json"], .file (Text.encodeUtf8 bareChoice)),
      (["b"], .file (Text.encodeUtf8 hugeSum))], [], 0, .usual, 20⟩
    s.answer ["--ast", "a.json"] =
        ⟨.error (.stop (.fault (.unexpected .evaluating .absent))), "", "", []⟩ ∧
      (s.answer ["--ast", "a.json"]).Ends (Escapes ["--ast", "a.json"]) ∧
      s.answer ["b"] = ⟨.error (.stop (.fault (.number .tooLargeForFloat))), "", "", []⟩ ∧
      (s.answer ["b"]).Ends (Escapes ["b"]) := by
  intro s
  have htree : s.files (.ofString "a.json") = .ok (.file (Text.encodeUtf8 bareChoice)) :=
    Directory.files_eq_walk _ (by decide) (by decide)
  have hprogram : s.files (.ofString "b") = .ok (.file (Text.encodeUtf8 hugeSum)) :=
    Directory.files_eq_walk _ (by decide) (by decide)
  have htext : s.read (.ofString "a.json") = .ok bareChoice := read_of_encoded htree (by decide)
  have htyped : s.RunsTyped ["--ast", "a.json"] := by
    rintro a p text ⟨⟩ ⟨⟩ hread
    obtain rfl := Except.ok.inj (htext.symm.trans hread)
    exact typedText_bareChoice
  have hnone : s.RunsTyped ["b"] := by
    rintro a p text ⟨⟩ ⟨⟩
  refine ⟨?_, answer_ends s _ htyped, ?_, answer_ends s _ hnone⟩
  · rw [answer_tree rfl (by decide), if_pos rfl, runTree_of_read htext read_bareChoice]
    rfl
  · obtain ⟨⟨tokens, program⟩, hparse, hrun⟩ := exists_of_map_eq_ok run_hugeSum
    obtain ⟨hresult, houtput⟩ := Prod.mk.inj hrun
    have hsource : s.read (.ofString "b") = .ok hugeSum := read_of_encoded hprogram (by decide)
    rw [answer_plain rfl (by decide), runFile_of_read hsource hparse, execute_zero,
      Exec.run_runTokens (by decide : (0 : Int) < 1)]
    dsimp only at hresult houtput ⊢
    rw [hresult, houtput]
    rfl

end Scrawl.CommandLine
