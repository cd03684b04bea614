import Scrawl.CommandLine.Report
import Scrawl.Proofs.CommandLine.Arguments
import Scrawl.Proofs.Machine.Faults
import Scrawl.Proofs.Machine.Places
import Scrawl.Proofs.Node.DocumentText
import Scrawl.Proofs.Text.Utf8

/-!
# Proofs/CommandLine/Emission — a tree that was written runs as its program does

Writing the tree of a program and running it gives the answer of the program itself.  The text that
is written is read as the document it was written for (`read_pretty_of_parseSource`), which is the
tree without the places of its operators, and a run takes no notice of those
(`Exec.runProgram_unplaced`).  One thing comes between the two: a name that starts with a dash may
be the name of a program, while that of its tree's file looks like an option (`lone_extended`).
-/

namespace Scrawl.CommandLine

open Surroundings

namespace Surroundings

variable {s : Surroundings} {argument : String}

/-! ## What is asked for -/

theorem given_of_ne (h : argument ≠ "") : given (some argument) = some (.ofString argument) :=
  if_neg h

/-- **A single argument that is no option is run.** -/
theorem answer_plain (h : lone argument = .ok .plain) (hne : argument ≠ "") :
    s.answer [argument] = s.runFile 0 (.ofString argument) := by
  rw [answer, readArguments_plain h]
  dsimp only
  rw [perform, given_of_ne hne]
  rfl

/-- **The tree in a file is run**, unless its name looks like an option. -/
theorem answer_tree {sort : Argument} (h : lone argument = .ok sort) (hne : argument ≠ "") :
    s.answer ["--ast", argument] =
      if sort = .plain then s.runTree 0 (.ofString argument) else .misuse (.missingValue .ast) := by
  rw [answer, readArguments_ast, valueOf, h]
  cases sort with
  | plain =>
    change s.perform ⟨0, false, none, some argument, none⟩ = _
    rw [perform, given_of_ne hne, if_pos rfl]
    rfl
  | _ => rfl

/-- What is written, is written for a program with a name that is no option. -/
theorem of_written (h : (s.answer ["--emit-ast", argument]).written ≠ []) :
    lone argument = .ok .plain ∧ argument ≠ "" ∧
      s.answer ["--emit-ast", argument] = s.emitFile (.ofString argument) := by
  rw [answer, readArguments_emitAst, valueOf] at h ⊢
  rcases hlone : lone argument with e | sort
  · rw [hlone] at h
    exact absurd rfl h
  · rw [hlone] at h
    cases sort with
    | plain =>
      change (s.perform ⟨0, false, some argument, none, none⟩).written ≠ [] at h
      have hne : argument ≠ "" := by
        rintro rfl
        exact absurd rfl h
      refine ⟨rfl, hne, ?_⟩
      change s.perform ⟨0, false, some argument, none, none⟩ = _
      rw [perform, given_of_ne hne]
    | _ => exact absurd rfl h

/-! ## Writing a tree -/

/-- A failure before anything is written leaves nothing written. -/
theorem of_written_orFailure {α : Type} {step : Except Failure α} {next : α → Report}
    (h : (Report.orFailure step next).written ≠ []) : ∃ a, step = .ok a := by
  rcases step with f | a
  · have hnone : (Report.failure f "" []).written = [] := by
      rw [Report.failure]
      split <;> rfl
    exact absurd hnone h
  · exact ⟨a, rfl⟩

/-- **What is written for a program is the text of its tree's document.** -/
theorem written_emitFile {p : Path} (h : (s.emitFile p).written ≠ []) :
    ∃ source tokens program, s.read p = .ok source ∧
      parseSource source = .ok (tokens, program) ∧
      (s.emitFile p).written = [(treePath p, program.toJson.pretty)] := by
  obtain ⟨program, hemitted⟩ := of_written_orFailure h
  obtain ⟨source, hsource, hrest⟩ := exists_of_bind_eq_ok hemitted
  obtain ⟨program', hprogram, hrest⟩ := exists_of_bind_eq_ok hrest
  obtain ⟨⟨⟩, hwritable, hresult⟩ := exists_of_bind_eq_ok hrest
  obtain rfl := Except.ok.inj hresult
  cases hparse : parseSource source with
  | error e =>
    rw [parseProgram, hparse] at hprogram
    cases hprogram
  | ok parsed =>
    rw [parseProgram, hparse] at hprogram
    cases hprogram
    refine ⟨source, parsed.1, parsed.2, hsource, hparse, ?_⟩
    change (Report.orFailure (do
      let program ← ofSource (parseProgram (← s.read p))
      s.checkWritable (treePath p)
      return program) _).written = _
    rw [hemitted]
    rfl

/-! ## Reading it back -/

/-- **A text that was written is read back.** -/
theorem read_of_encoded {p : Path} {text : String}
    (hfile : s.files p = .ok (.file (Text.encodeUtf8 text))) (h : '\r' ∉ text.toList) :
    s.read p = .ok text := by
  rw [read, Files.readText, hfile]
  dsimp only
  rw [Text.decodeUtf8_encodeUtf8]
  dsimp only
  rw [Text.unifyLineEnds_eq_self h, String.ofList_toList]

theorem readTree_of_read {text : String} {tree : Node} (h : Json.read text = .ok tree.toJson) :
    readTree text = .ok tree.unplaced := by
  rw [readTree, h]
  dsimp only
  rw [Node.ofJson_toJson]

/-! ## Running it -/

/-- A run without a trace. -/
theorem execute_zero (s : Surroundings) (program : Exec Unit) :
    s.execute 0 program =
      let r := program.run (.start s.limits 0 s.seed s.input)
      match r.1 with
      | .ok () => .success r.2.output []
      | .error stop => .failure (.stop stop) r.2.output [] := rfl

/-- **A tree without places runs as the program does.** -/
theorem execute_unplaced {s s' : Surroundings} (hseed : s'.seed = s.seed)
    (hinput : s'.input = s.input) (hlimits : s'.limits = s.limits) (fuel : Nat)
    (tokens : List Token) (program : Node) :
    s'.execute 0 (Exec.runProgram fuel program.unplaced) =
      s.execute 0 (Exec.runTokens fuel tokens program) := by
  let start := Machine.start s.limits 0 s.seed s.input
  have htokens := Exec.run_runTokens (m := start) (by decide : (0 : Int) < 1) fuel tokens program
  have hplaces : (Exec.runProgram fuel program.unplaced).run start = _ :=
    Exec.runProgram_unplaced fuel program start
  rw [execute_zero, execute_zero, hseed, hinput, hlimits, htokens, hplaces]
  rfl

/-- A file that holds a program is run as that program. -/
theorem runFile_of_read {p : Path} {source : String} {tokens : List Token} {program : Node}
    (hsource : s.read p = .ok source) (hparse : parseSource source = .ok (tokens, program))
    (verbosity : Nat) :
    s.runFile verbosity p = s.execute verbosity (Exec.runTokens s.fuel tokens program) := by
  have hparsed : (do ofSource (parseSource (← s.read p))) = Except.ok (tokens, program) := by
    rw [hsource]
    exact congrArg ofSource hparse
  rw [runFile, hparsed]
  rfl

/-- A file that holds a tree is run as that tree without its places. -/
theorem runTree_of_read {p : Path} {text : String} {tree : Node} (htext : s.read p = .ok text)
    (hread : Json.read text = .ok tree.toJson) (verbosity : Nat) :
    s.runTree verbosity p = s.execute verbosity (Exec.runProgram s.fuel tree.unplaced) := by
  have htree : (do readTree (← s.read p)) = Except.ok tree.unplaced := by
    rw [htext]
    exact readTree_of_read hread
  rw [runTree, htree]
  rfl

/-- A file that holds the text of a program's tree runs as a file that holds the program. -/
theorem runTree_eq_runFile (s s' : Surroundings) (hseed : s'.seed = s.seed)
    (hinput : s'.input = s.input) (hlimits : s'.limits = s.limits) (hfuel : s'.fuel = s.fuel)
    {p q : Path} {source : String} {tokens : List Token} {program : Node}
    (hsource : s.read p = .ok source)
    (hparse : parseSource source = .ok (tokens, program))
    (htree : s'.files q = .ok (.file (Text.encodeUtf8 program.toJson.pretty))) :
    s'.runTree 0 q = s.runFile 0 p := by
  have htext := read_of_encoded htree (Json.return_not_mem_pretty _)
  rw [runTree_of_read htext (read_pretty_of_parseSource hparse), runFile_of_read hsource hparse,
    hfuel]
  exact execute_unplaced hseed hinput hlimits s.fuel tokens program

end Surroundings

/-! ## A program that greets -/

/-- The tree of a program with one call. -/
def greeting : Node := .block [.call "output" [.literal (.string "a")]]

/-- What a program with one call answers, and what is written for it. -/
theorem answers_greeting (s : Surroundings) {p : String} (hplain : lone p = .ok .plain)
    (hne : p ≠ "")
    (hsource : s.files (.ofString p) = .ok (.file (Text.encodeUtf8 "output(\"a\");")))
    (hwritable : s.checkWritable (treePath (.ofString p)) = .ok ()) (hfuel : s.fuel = 20) :
    (s.answer ["--emit-ast", p]).written =
        [(treePath (.ofString p), greeting.toJson.pretty)] ∧
      s.answer [p] = .success "a\n" [] := by
  have htokens : tokenize "output(\"a\");" = .ok [⟨.identifier, "output", ⟨1, 1⟩⟩,
      ⟨.leftParen, "(", ⟨1, 7⟩⟩, ⟨.string, "a", ⟨1, 8⟩⟩, ⟨.rightParen, ")", ⟨1, 11⟩⟩,
      ⟨.endStatement, ";", ⟨1, 12⟩⟩] := by decide +kernel
  have hread : s.read (.ofString p) = .ok "output(\"a\");" := read_of_encoded hsource (by decide)
  have hparse : (parseSource "output(\"a\");").map Prod.snd = .ok greeting := by
    rw [parseSource, htokens]
    rfl
  obtain ⟨⟨tokens, program⟩, hparse, hprogram⟩ := exists_of_map_eq_ok hparse
  obtain rfl : program = greeting := hprogram
  constructor
  · have hemitted : (do
        let program ← ofSource (parseProgram (← s.read (.ofString p)))
        s.checkWritable (treePath (.ofString p))
        return program) = Except.ok greeting := by
      rw [hread]
      change (ofSource (parseProgram _) >>= fun program =>
        s.checkWritable (treePath (.ofString p)) >>= fun _ => pure program) = _
      rw [parseProgram, hparse, hwritable]
      rfl
    rw [answer, readArguments_emitAst, valueOf, hplain]
    change (s.perform ⟨0, false, some p, none, none⟩).written = _
    rw [perform, given_of_ne hne]
    change (s.emitFile (.ofString p)).written = _
    rw [emitFile, hemitted]
    rfl
  · rw [answer_plain hplain hne, runFile_of_read hread hparse, hfuel, execute_zero,
      Exec.run_runTokens (by decide : (0 : Int) < 1)]
    rfl

theorem Directory.files_eq_walk (d : Directory) {p : Path} (hnull : '\x00' ∉ p.text.toList)
    (hsize : p.text.utf8ByteSize ≤ maxPathSize) :
    d.files p = d.walk (if p.root = "" then some [] else none) p.steps := by
  rw [files, String.contains_char_eq, if_neg (by simpa using hnull), if_neg (Nat.not_lt.mpr hsize)]

/-! ## A tree answers as its program does -/

/-- **A tree that was written answers as its program does.**  If the tree of a program is written
to the program's name with the ending, then running that file gives the same outputs and the same
end as running the program, with the same input.  The text written is read as the very document it
was written for.

The files may have changed in between, but for the one written.  The two runs may draw different
random numbers, as long as the answer of the program does not depend on which.  The one exception
is a name that starts with a dash and has no space in it: with the ending it is taken for an
option, so that the option in front of it lacks its value. -/
theorem written_tree_answers_alike (s s' : Surroundings) (p text : String)
    (hwritten : (s.answer ["--emit-ast", p]).written = [(.ofString (p ++ ".ast.json"), text)])
    (hfile : s'.files (.ofString (p ++ ".ast.json")) = .ok (.file (Text.encodeUtf8 text)))
    (hinput : s'.input = s.input) (hlimits : s'.limits = s.limits) (hfuel : s'.fuel = s.fuel)
    (hseed : { s with seed := s'.seed }.answer [p] = s.answer [p]) :
    (∃ source tokens program, s.read (.ofString p) = .ok source ∧
      parseSource source = .ok (tokens, program) ∧ text = program.toJson.pretty ∧
      Json.read text = .ok program.toJson) ∧
    s'.answer ["--ast", p ++ ".ast.json"] =
      if p.toList.head? = some '-' ∧ ' ' ∉ p.toList then .misuse (.missingValue .ast)
      else s.answer [p] := by
  obtain ⟨hplain, hne, hanswer⟩ :=
    of_written (s := s) (by rw [hwritten]; exact List.cons_ne_nil _ _)
  rw [hanswer] at hwritten
  obtain ⟨source, tokens, program, hsource, hparse, hemitted⟩ :=
    written_emitFile (s := s) (by rw [hwritten]; exact List.cons_ne_nil _ _)
  obtain ⟨-, rfl⟩ := Prod.mk.inj (List.singleton_inj.mp (hwritten.symm.trans hemitted))
  refine ⟨⟨source, tokens, program, hsource, hparse, rfl, read_pretty_of_parseSource hparse⟩, ?_⟩
  have hextended : p ++ ".ast.json" ≠ "" := fun heq => by
    have hlast := getLast?_extended p
    rw [heq] at hlast
    cases hlast
  have hrun : s'.runTree 0 (.ofString (p ++ ".ast.json")) =
      { s with seed := s'.seed }.runFile 0 (.ofString p) :=
    runTree_eq_runFile { s with seed := s'.seed } s' rfl hinput hlimits hfuel hsource hparse
      hfile
  rw [answer_tree (lone_extended hplain) hextended, ← hseed, answer_plain hplain hne, hrun]
  split_ifs with hdash hsort hsort
  · cases hsort
  · rfl
  · rfl
  · exact absurd rfl hsort

/-- A name with a dash and a space: its tree's file is run, with another seed and where that file is
all that is left. -/
theorem written_tree_answers_alike_spaced :
    let program : List String × Entry := (["-5 x"], .file (Text.encodeUtf8 "output(\"a\");"))
    let tree : Entry := .file (Text.encodeUtf8 greeting.toJson.pretty)
    let s : Surroundings := ⟨Directory.files [program], [], 0, .usual, 20⟩
    let s' : Surroundings := ⟨Directory.files [(["-5 x.ast.json"], tree)], [], 1, .usual, 20⟩
    (s.answer ["--emit-ast", "-5 x"]).written =
        [(.ofString "-5 x.ast.json", greeting.toJson.pretty)] ∧
      s'.files (.ofString "-5 x.ast.json") = .ok tree ∧
      { s with seed := 1 }.answer ["-5 x"] = s.answer ["-5 x"] ∧
      s'.answer ["--ast", "-5 x.ast.json"] = s.answer ["-5 x"] ∧
      s.answer ["-5 x"] = .success "a\n" [] := by
  intro program tree s s'
  have hsource : s.files (.ofString "-5 x") = .ok program.2 :=
    Directory.files_eq_walk _ (by decide) (by decide)
  have hmissing : s.files (.ofString "-5 x.ast.json") = .error .missing :=
    Directory.files_eq_walk _ (by decide) (by decide)
  have htree : s'.files (.ofString "-5 x.ast.json") = .ok tree :=
    Directory.files_eq_walk _ (by decide) (by decide)
  have hwritable : s.checkWritable (.ofString "-5 x.ast.json") = .ok () := by
    rw [checkWritable, Files.checkWritable, hmissing]
  obtain ⟨hwritten, hanswer⟩ :=
    answers_greeting s (p := "-5 x") rfl (by decide) hsource hwritable rfl
  have hseed : { s with seed := 1 }.answer ["-5 x"] = s.answer ["-5 x"] := by
    rw [hanswer]
    exact (answers_greeting { s with seed := 1 } (p := "-5 x") rfl (by decide) hsource hwritable
      rfl).2
  have halike := (written_tree_answers_alike s s' "-5 x" _ hwritten htree rfl rfl rfl hseed).2
  rw [if_neg (by decide)] at halike
  exact ⟨hwritten, htree, hseed, halike, hanswer⟩

/-- **A name with a dash that is no option, and a tree's file that is taken for one.**  The program
runs and its tree is written, but the file is not run. -/
theorem written_tree_taken_for_option :
    let program : List String × Entry := (["-5"], .file (Text.encodeUtf8 "output(\"a\");"))
    let tree : List String × Entry :=
      (["-5.ast.json"], .file (Text.encodeUtf8 greeting.toJson.pretty))
    let s : Surroundings := ⟨Directory.files [program], [], 0, .usual, 20⟩
    let s' : Surroundings := ⟨Directory.files [program, tree], [], 0, .usual, 20⟩
    (s.answer ["--emit-ast", "-5"]).written =
        [(.ofString "-5.ast.json", greeting.toJson.pretty)] ∧
      s'.files (.ofString "-5.ast.json") = .ok tree.2 ∧
      s.answer ["-5"] = .success "a\n" [] ∧ s'.answer ["-5"] = .success "a\n" [] ∧
      s'.answer ["--ast", "-5.ast.json"] = .misuse (.missingValue .ast) ∧
      s'.answer ["--ast", "-5.ast.json"] ≠ s.answer ["-5"] := by
  intro program tree s s'
  have hsource : s.files (.ofString "-5") = .ok program.2 :=
    Directory.files_eq_walk _ (by decide) (by decide)
  have hsource' : s'.files (.ofString "-5") = .ok program.2 :=
    Directory.files_eq_walk _ (by decide) (by decide)
  have hmissing : s.files (.ofString "-5.ast.json") = .error .missing :=
    Directory.files_eq_walk _ (by decide) (by decide)
  have htree : s'.files (.ofString "-5.ast.json") = .ok tree.2 :=
    Directory.files_eq_walk _ (by decide) (by decide)
  have hwritable : s.checkWritable (.ofString "-5.ast.json") = .ok () := by
    rw [checkWritable, Files.checkWritable, hmissing]
  have hwritable' : s'.checkWritable (.ofString "-5.ast.json") = .ok () := by
    rw [checkWritable, Files.checkWritable, htree]
  obtain ⟨hwritten, hanswer⟩ := answers_greeting s (p := "-5") rfl (by decide) hsource hwritable rfl
  obtain ⟨-, hanswer'⟩ := answers_greeting s' (p := "-5") rfl (by decide) hsource' hwritable' rfl
  have hmisuse : s'.answer ["--ast", "-5.ast.json"] = .misuse (.missingValue .ast) := rfl
  refine ⟨hwritten, htree, hanswer, hanswer', hmisuse, ?_⟩
  rw [hmisuse, hanswer]
  exact fun heq => absurd (congrArg Report.ending heq) nofun

end Scrawl.CommandLine
