import Scrawl.Proofs.Machine.Fuel
import Scrawl.Proofs.Machine.Places
import Scrawl.Proofs.Parser.Concatenation
import Scrawl.Proofs.Parser.Places
import Scrawl.Proofs.Parser.Trees
import Scrawl.Proofs.Token.Layout

/-!
# Proofs/Machine/Session — programs one after the other on one machine

`InTurn` says what it means to do things one after the other until one fails.  The statements of a
block are carried out in turn, and so are the programs of a **session**; where no message is shown,
nothing happens between two programs of a session.  So a session of two programs is a run of their
statements together (`runs_append_iff`), and a run of the text that holds one below the other,
up to the places of operators.
-/

namespace Scrawl

/-! ## In turn -/

/-- **One after the other, until one fails.**  `E i m outcome m'` says how `i` ends on `m`. -/
inductive InTurn {ι : Type} (E : ι → Machine → Except Fault Unit → Machine → Prop) :
    List ι → Machine → Except Fault Unit → Machine → Prop where
  | nil (m : Machine) : InTurn E [] m (.ok ()) m
  | fail {i : ι} {is : List ι} {m m' : Machine} {fault : Fault} :
    E i m (.error fault) m' → InTurn E (i :: is) m (.error fault) m'
  | next {i : ι} {is : List ι} {m m₁ m' : Machine} {outcome : Except Fault Unit} :
    E i m (.ok ()) m₁ → InTurn E is m₁ outcome m' → InTurn E (i :: is) m outcome m'

namespace InTurn

variable {ι : Type} {E : ι → Machine → Except Fault Unit → Machine → Prop} {i : ι}
  {is js : List ι} {m m' m'' : Machine} {outcome outcome' : Except Fault Unit}

theorem cons_iff : InTurn E (i :: is) m outcome m' ↔
    (∃ fault, outcome = .error fault ∧ E i m (.error fault) m') ∨
      ∃ m₁, E i m (.ok ()) m₁ ∧ InTurn E is m₁ outcome m' := by
  constructor
  · intro h
    cases h with
    | fail h => exact .inl ⟨_, rfl, h⟩
    | next h h' => exact .inr ⟨_, h, h'⟩
  · rintro (⟨fault, rfl, h⟩ | ⟨m₁, h, h'⟩)
    · exact .fail h
    · exact .next h h'

theorem singleton_iff : InTurn E [i] m outcome m' ↔ E i m outcome m' := by
  rw [cons_iff]
  constructor
  · rintro (⟨fault, rfl, h⟩ | ⟨m₁, h, h'⟩)
    · exact h
    · cases h'
      exact h
  · intro h
    cases outcome with
    | error fault => exact .inl ⟨fault, rfl, h⟩
    | ok _ => exact .inr ⟨m', h, .nil m'⟩

/-- **What is done in turn may be cut anywhere.** -/
theorem append_iff : InTurn E (is ++ js) m outcome m' ↔
    (∃ fault, outcome = .error fault ∧ InTurn E is m (.error fault) m') ∨
      ∃ m₁, InTurn E is m (.ok ()) m₁ ∧ InTurn E js m₁ outcome m' := by
  induction is generalizing m with
  | nil =>
    constructor
    · exact fun h => .inr ⟨m, .nil m, h⟩
    · rintro (⟨fault, rfl, h⟩ | ⟨m₁, h, h'⟩)
      · cases h
      · cases h
        exact h'
  | cons i is ih =>
    rw [List.cons_append, cons_iff]
    constructor
    · rintro (⟨fault, rfl, h⟩ | ⟨m₁, h, h'⟩)
      · exact .inl ⟨fault, rfl, .fail h⟩
      · obtain ⟨fault, rfl, hfail⟩ | ⟨m₂, hok, hrest⟩ := ih.mp h'
        · exact .inl ⟨fault, rfl, .next h hfail⟩
        · exact .inr ⟨m₂, .next h hok, hrest⟩
    · rintro (⟨fault, rfl, h⟩ | ⟨m₂, h, hrest⟩)
      · cases h with
        | fail h => exact .inl ⟨fault, rfl, h⟩
        | next h h' => exact .inr ⟨_, h, ih.mpr (.inl ⟨fault, rfl, h'⟩)⟩
      · cases h with
        | next h h' => exact .inr ⟨_, h, ih.mpr (.inr ⟨m₂, h', hrest⟩)⟩

/-- Where each part ends in one way only, so does the whole. -/
theorem unique (hE : ∀ i m o₁ m₁ o₂ m₂, E i m o₁ m₁ → E i m o₂ m₂ → o₁ = o₂ ∧ m₁ = m₂)
    (h : InTurn E is m outcome m') (h' : InTurn E is m outcome' m'') :
    outcome = outcome' ∧ m' = m'' := by
  induction h with
  | nil m =>
    cases h'
    exact ⟨rfl, rfl⟩
  | fail h =>
    cases h' with
    | fail h' => exact hE _ _ _ _ _ _ h h'
    | next h' _ => cases (hE _ _ _ _ _ _ h h').1
  | next h _ ih =>
    cases h' with
    | fail h' => cases (hE _ _ _ _ _ _ h h').1
    | next h' hrest =>
      obtain ⟨-, rfl⟩ := hE _ _ _ _ _ _ h h'
      exact ih hrest

end InTurn

namespace Machine

variable {m m₁ m₂ : Machine} {program : Node} {programs : List Node}
  {outcome o₁ o₂ : Except Fault Unit}

/-- **A session**: programs that run one after the other on a machine, until one fails. -/
def Runs (m : Machine) (programs : List Node) (outcome : Except Fault Unit) (m' : Machine) : Prop :=
  InTurn (fun program => Exec.Ends (Exec.runProgram · program)) programs m outcome m'

theorem runs_singleton_iff :
    m.Runs [program] outcome m₁ ↔ Exec.Ends (Exec.runProgram · program) m outcome m₁ :=
  InTurn.singleton_iff

/-- An amount of fuel that lasts shows how a program ends. -/
theorem runs_of_run {fuel : Nat}
    (h : ((Exec.runProgram fuel program).run m).1 = outcome.mapError .fault) :
    m.Runs [program] outcome ((Exec.runProgram fuel program).run m).2 :=
  runs_singleton_iff.mpr ⟨fuel, Prod.ext h rfl⟩

theorem runs_cons_iff : m.Runs (program :: programs) outcome m₂ ↔
    (∃ fault, outcome = .error fault ∧ m.Runs [program] (.error fault) m₂) ∨
      ∃ m₁, m.Runs [program] (.ok ()) m₁ ∧ m₁.Runs programs outcome m₂ := by
  simp only [runs_singleton_iff]
  exact InTurn.cons_iff

/-- **A session ends in one way only.** -/
theorem Runs.unique (h : m.Runs programs o₁ m₁) (h' : m.Runs programs o₂ m₂) :
    o₁ = o₂ ∧ m₁ = m₂ := by
  refine InTurn.unique (fun program _ _ _ _ _ h h' => ?_) h h'
  exact h.unique (Exec.steady_runProgram program) h'

end Machine

/-! ## Machines that show nothing -/

namespace Machine

/-- Messages are let through as before, and to the same place. -/
structure SameSettings (m m' : Machine) : Prop where
  verbosity : m'.verbosity = m.verbosity
  tracing : m'.tracing = m.tracing

instance : IsPreorder Machine SameSettings where
  refl _ := ⟨rfl, rfl⟩
  trans _ _ _ h h' := ⟨h'.verbosity.trans h.verbosity, h'.tracing.trans h.tracing⟩

theorem blind_sameSettings : Blind SameSettings := fun _ _ _ _ _ => ⟨rfl, rfl⟩

/-- **A machine that shows no messages**, with its trace closed. -/
structure Quiet (m : Machine) : Prop where
  verbosity : m.verbosity ≤ 0
  tracing : m.tracing = false

theorem Quiet.of_sameSettings {m m' : Machine} (h : m.Quiet) (hs : m.SameSettings m') :
    m'.Quiet := ⟨hs.verbosity ▸ h.verbosity, hs.tracing ▸ h.tracing⟩

/-- There is no trace to close. -/
theorem Quiet.closeTrace {m : Machine} (h : m.Quiet) : m.closeTrace = m := by
  rw [Machine.closeTrace, ← h.tracing]

end Machine

namespace Exec

open Machine (SameSettings)

/-- **No step of a run changes the settings.** -/
theorem uniform_sameSettings : Uniform fun _ x _ => Within SameSettings x where
  pure _ := .pure _
  fail _ := .fail _
  exhausted _ := .throw _
  bind := .bind
  nesting h := .bind .get fun m => h m.callDepth m.limits
  function name _ _ h := .bind .get fun m => h (m.scope.getFunction? name)
  say _ := .say_of_blind Machine.blind_sameSettings _ _
  sayLazily _ := .sayLazily_of_blind Machine.blind_sameSettings _ _
  lookup name := .lookup name
  assign name v := fun m => by
    rw [run_assign]
    cases m.scope.set name v <;> exact ⟨rfl, rfl⟩
  declare name v := .modify fun m => ⟨rfl, rfl⟩
  declareFunction name d := .modify fun m => ⟨rfl, rfl⟩
  inFrame h := fun m => ⟨(h _).verbosity, (h _).tracing⟩
  inCall h := fun m => ⟨(h _).verbosity, (h _).tracing⟩
  builtin b arguments _ := .builtin_of_blind Machine.blind_sameSettings _ b arguments

variable {m m' : Machine} {n program : Node} {ns ms : List Node} {outcome : Except Fault Unit}

/-- A quiet machine stays so. -/
theorem quiet_of_ends (hm : m.Quiet) (h : Ends (visit · n) m outcome m') : m'.Quiet := by
  obtain ⟨fuel, hrun⟩ := h
  have hsettings := (uniform_sameSettings.related (Nat.le_refl fuel)).visit n m
  rw [hrun] at hsettings
  exact hm.of_sameSettings hsettings

/-! ## Blocks and programs -/

/-- **Statements are carried out in turn.** -/
theorem ends_visitAll_iff : Ends (visitAll · ns) m outcome m' ↔
    InTurn (fun n => Ends (visit · n)) ns m outcome m' := by
  induction ns generalizing m with
  | nil =>
    rw [Ends.succ_iff (by rw [visitAll])]
    simp only [visitAll]
    constructor
    · rintro ⟨fuel, hrun⟩
      obtain ⟨houtcome, rfl⟩ := Prod.mk.inj hrun
      cases outcome with
      | error fault => cases houtcome
      | ok _ => exact .nil m
    · rintro ⟨⟩
      exact ⟨0, rfl⟩
  | cons n rest ih =>
    rw [Ends.succ_iff (by rw [visitAll])]
    simp only [visitAll]
    rw [Ends.bind_iff (steady_visit n) fun _ => steady_visitAll rest, InTurn.cons_iff]
    simp only [ih]
    constructor
    · rintro (hfail | ⟨_, m₁, h, h'⟩)
      · exact .inl hfail
      · exact .inr ⟨m₁, h, h'⟩
    · rintro (hfail | ⟨m₁, h, h'⟩)
      · exact .inl hfail
      · exact .inr ⟨(), m₁, h, h'⟩

/-- …also those of a block, where that is not announced. -/
theorem ends_block_iff (hm : m.Quiet) : Ends (visit · (.block ns)) m outcome m' ↔
    InTurn (fun n => Ends (visit · n)) ns m outcome m' := by
  have hannounce : (announce "Visiting: " (.block ns)).run m = (.ok (), m) := by
    rw [announce, sayLazily, run_bind]
    have hverbosity := hm.verbosity
    change ((if (3 : Int) ≤ m.verbosity then _ else pure () : Exec Unit)).run m = _
    rw [if_neg (by omega)]
    rfl
  have hvisit (fuel : Nat) : (visit (fuel + 1) (.block ns)).run m = (visitAll fuel ns).run m := by
    rw [visit]
    change (announce "Visiting: " (.block ns) >>= fun _ => visitAll fuel ns).run m = _
    rw [run_bind, hannounce]
  rw [← ends_visitAll_iff, Ends.succ_iff (by rw [visit])]
  simp only [Ends, hvisit]

/-- …and then those of a program. -/
theorem runs_block_iff (hm : m.Quiet) : m.Runs [.block ns] outcome m' ↔
    ∃ m₁, InTurn (fun n => Ends (visit · n)) ns m outcome m₁ ∧
      leave m₁ (outcome.mapError .fault) = m' := by
  rw [Machine.runs_singleton_iff, ends_runProgram_iff]
  simp only [ends_block_iff hm]

/-- **Two programs in turn are one program with the statements of both.** -/
theorem runs_append_iff (hm : m.Quiet) :
    m.Runs [.block (ns ++ ms)] outcome m' ↔ m.Runs [.block ns, .block ms] outcome m' := by
  have hquiet {m₁ : Machine} (h : InTurn (fun n => Ends (visit · n)) ns m (.ok ()) m₁) :
      m₁.Quiet := quiet_of_ends hm ((ends_block_iff hm).mpr h)
  -- A program that does not fail leaves the machine as its statements did.
  have hleave {m₁ : Machine} (h : InTurn (fun n => Ends (visit · n)) ns m (.ok ()) m₁) :
      leave m₁ (Except.mapError Stop.fault (.ok ())) = m₁ := (hquiet h).closeTrace
  rw [runs_block_iff hm, Machine.runs_cons_iff]
  constructor
  · rintro ⟨m₂, h, rfl⟩
    obtain ⟨fault, rfl, hfail⟩ | ⟨m₁, hok, hrest⟩ := InTurn.append_iff.mp h
    · exact .inl ⟨fault, rfl, (runs_block_iff hm).mpr ⟨m₂, hfail, rfl⟩⟩
    · refine .inr ⟨m₁, (runs_block_iff hm).mpr ⟨m₁, hok, hleave hok⟩, ?_⟩
      exact (runs_block_iff (hquiet hok)).mpr ⟨m₂, hrest, rfl⟩
  · rintro (⟨fault, rfl, h⟩ | ⟨m₁, h, hrest⟩)
    · obtain ⟨m₂, hfail, rfl⟩ := (runs_block_iff hm).mp h
      exact ⟨m₂, InTurn.append_iff.mpr (.inl ⟨fault, rfl, hfail⟩), rfl⟩
    · obtain ⟨m₂, hok, rfl⟩ := (runs_block_iff hm).mp h
      rw [hleave hok] at hrest
      obtain ⟨m₃, hlast, rfl⟩ := (runs_block_iff (hquiet hok)).mp hrest
      exact ⟨m₃, InTurn.append_iff.mpr (.inr ⟨m₂, hok, hlast⟩), rfl⟩

/-- **Programs that differ only in places end alike**, places apart. -/
theorem exists_runs_unplaced {program' : Node} (hp : program'.unplaced = program.unplaced)
    (h : m.Runs [program] outcome m') :
    ∃ m'', m.Runs [program'] outcome m'' ∧ m''.unplaced = m'.unplaced := by
  obtain ⟨fuel, hrun⟩ := Machine.runs_singleton_iff.mp h
  have hmirror := runProgram_unplaced fuel program m
  rw [← hp, runProgram_unplaced fuel program' m, hrun] at hmirror
  obtain ⟨hresult, hplaces⟩ := Prod.mk.inj hmirror
  exact ⟨_, Machine.runs_of_run hresult, hplaces⟩

/-- …also as the last of two programs. -/
theorem exists_runs_pair_unplaced {p q q' : Node} (hq : q'.unplaced = q.unplaced)
    (h : m.Runs [p, q] outcome m') :
    ∃ m'', m.Runs [p, q'] outcome m'' ∧ m''.unplaced = m'.unplaced := by
  obtain ⟨fault, rfl, hfail⟩ | ⟨m₁, hok, hlast⟩ := Machine.runs_cons_iff.mp h
  · exact ⟨m', Machine.runs_cons_iff.mpr (.inl ⟨fault, rfl, hfail⟩), rfl⟩
  · obtain ⟨m'', hlast', hplaces⟩ := exists_runs_unplaced hq hlast
    exact ⟨m'', Machine.runs_cons_iff.mpr (.inr ⟨m₁, hok, hlast'⟩), hplaces⟩

end Exec

/-! ## Texts one below the other -/

/-- **A text below another adds its statements**, in other places. -/
theorem exists_parseProgram_lineBreak {above below : String} {p q : Node}
    (habove : parseProgram above = .ok p) (hbelow : parseProgram below = .ok q) :
    ∃ ns ms, p = .block ns ∧ (Node.block ms).unplaced = q.unplaced ∧
      parseProgram (above ++ "\n" ++ below) = .ok (.block (ns ++ ms)) := by
  obtain ⟨tokens, htokens, hp⟩ := parseProgram_eq_ok_iff.mp habove
  obtain ⟨tokens', htokens', hq⟩ := parseProgram_eq_ok_iff.mp hbelow
  have hjoined := tokenize_lineBreak htokens htokens'
  -- Further down, the tokens of the second text have the same tree up to places.
  generalize above.toList.count '\n' + 1 = lines at hjoined
  obtain ⟨q', hq', hplaces⟩ : ∃ q', parse (tokens'.map (Token.lowered lines)) = .ok q' ∧
      q'.unplaced = q.unplaced := by
    have hparse : ParseError.forget Node.unplaced (parse (tokens'.map (Token.lowered lines))) =
        ParseError.forget Node.unplaced (parse tokens') :=
      parse_unplaced (by rw [List.map_map]; rfl)
    rw [hq] at hparse
    cases hlowered : parse (tokens'.map (Token.lowered lines)) with
    | error e =>
      rw [hlowered] at hparse
      cases hparse
    | ok q' =>
      rw [hlowered] at hparse
      exact ⟨q', rfl, Except.ok.inj hparse⟩
  obtain ⟨ns, rfl⟩ := exists_block_of_parse hp
  obtain ⟨ms, rfl⟩ := exists_block_of_parse hq'
  refine ⟨ns, ms, rfl, hplaces, parseProgram_eq_ok_iff.mpr ⟨_, hjoined, ?_⟩⟩
  exact parse_eq_ok_iff.mpr
    (exists_settles_append (parse_eq_ok_iff.mp hp) (parse_eq_ok_iff.mp hq'))

/-- **A session agrees with a run of the whole text.**  Where two texts are programs, the text that
holds one below the other is one, and on a machine that shows no messages it ends just when the two
programs do that run one after the other, the second only if the first has not failed.  The outcome
is the same then, and so are the machines, but for the places of operators in the functions they
hold; whatever the console, the variables and the random numbers were at the start.  Where the first
program fails, the whole text does, with the same fault and on the same machine. -/
theorem session_agrees {above below : String} {p q : Node} (habove : parseProgram above = .ok p)
    (hbelow : parseProgram below = .ok q) :
    ∃ program, parseProgram (above ++ "\n" ++ below) = .ok program ∧
      ∀ m : Machine, m.Quiet →
        ((∃ outcome m', m.Runs [program] outcome m') ↔ ∃ outcome m', m.Runs [p, q] outcome m') ∧
        (∀ o₁ m₁ o₂ m₂, m.Runs [program] o₁ m₁ → m.Runs [p, q] o₂ m₂ →
          o₁ = o₂ ∧ m₁.unplaced = m₂.unplaced) ∧
        ∀ fault m', m.Runs [p] (.error fault) m' → m.Runs [program] (.error fault) m' := by
  obtain ⟨ns, ms, rfl, hplaces, hprogram⟩ := exists_parseProgram_lineBreak habove hbelow
  refine ⟨_, hprogram, fun m hm => ?_⟩
  simp only [Exec.runs_append_iff hm]
  refine ⟨⟨?_, ?_⟩, ?_, ?_⟩
  · rintro ⟨outcome, m', h⟩
    obtain ⟨m'', h', -⟩ := Exec.exists_runs_pair_unplaced hplaces.symm h
    exact ⟨outcome, m'', h'⟩
  · rintro ⟨outcome, m', h⟩
    obtain ⟨m'', h', -⟩ := Exec.exists_runs_pair_unplaced hplaces h
    exact ⟨outcome, m'', h'⟩
  · intro o₁ m₁ o₂ m₂ h₁ h₂
    obtain ⟨m₂', h₂', hm₂⟩ := Exec.exists_runs_pair_unplaced hplaces h₂
    obtain ⟨rfl, rfl⟩ := h₁.unique h₂'
    exact ⟨rfl, hm₂⟩
  · intro fault m' h
    exact Machine.runs_cons_iff.mpr (.inl ⟨fault, rfl, h⟩)

/-- A variable, and below it a function that uses it, a call of it and one of nothing. -/
theorem session_agrees_undefined_call :
    let above := "var a=\"x\";"
    let below := "function f()\x7breturn a+\"y\";\x7doutput(f());g();"
    let p : Node := .block [.variable "a" (.binary ⟨.assign, "=", ⟨1, 6⟩⟩ (.reference "a")
      (.literal (.string "x"))) true]
    let q : Node := .block [.function "f" [] (.block [.unary ⟨.returnWord, "return", ⟨1, 14⟩⟩
        (.binary ⟨.add, "+", ⟨1, 22⟩⟩ (.reference "a") (.literal (.string "y")))]) true,
      .call "output" [.call "f" []], .call "g" []]
    parseProgram above = .ok p ∧ parseProgram below = .ok q ∧
      ∃ program m', parseProgram (above ++ "\n" ++ below) = .ok program ∧
        (Machine.start .usual 0 0 []).Runs [program] (.error (.undefined .function "g")) m' ∧
        m'.output = "xy\n" := by
  intro above below p q
  have habove : parseProgram above = .ok p := by
    have htokens : tokenize above = .ok [⟨.varWord, "var", ⟨1, 1⟩⟩, ⟨.identifier, "a", ⟨1, 5⟩⟩,
        ⟨.assign, "=", ⟨1, 6⟩⟩, ⟨.string, "x", ⟨1, 7⟩⟩, ⟨.endStatement, ";", ⟨1, 10⟩⟩] := by
      decide +kernel
    exact parseProgram_eq_ok_iff.mpr ⟨_, htokens, rfl⟩
  have hbelow : parseProgram below = .ok q := by
    have htokens : tokenize below = .ok [⟨.functionWord, "function", ⟨1, 1⟩⟩,
        ⟨.identifier, "f", ⟨1, 10⟩⟩, ⟨.leftParen, "(", ⟨1, 11⟩⟩, ⟨.rightParen, ")", ⟨1, 12⟩⟩,
        ⟨.leftBrace, "\x7b", ⟨1, 13⟩⟩, ⟨.returnWord, "return", ⟨1, 14⟩⟩,
        ⟨.identifier, "a", ⟨1, 21⟩⟩, ⟨.add, "+", ⟨1, 22⟩⟩, ⟨.string, "y", ⟨1, 23⟩⟩,
        ⟨.endStatement, ";", ⟨1, 26⟩⟩, ⟨.rightBrace, "\x7d", ⟨1, 27⟩⟩,
        ⟨.identifier, "output", ⟨1, 28⟩⟩, ⟨.leftParen, "(", ⟨1, 34⟩⟩, ⟨.identifier, "f", ⟨1, 35⟩⟩,
        ⟨.leftParen, "(", ⟨1, 36⟩⟩, ⟨.rightParen, ")", ⟨1, 37⟩⟩, ⟨.rightParen, ")", ⟨1, 38⟩⟩,
        ⟨.endStatement, ";", ⟨1, 39⟩⟩, ⟨.identifier, "g", ⟨1, 40⟩⟩, ⟨.leftParen, "(", ⟨1, 41⟩⟩,
        ⟨.rightParen, ")", ⟨1, 42⟩⟩, ⟨.endStatement, ";", ⟨1, 43⟩⟩] := by
      decide +kernel
    exact parseProgram_eq_ok_iff.mpr ⟨_, htokens, rfl⟩
  refine ⟨habove, hbelow, ?_⟩
  obtain ⟨m₁, m₂, hfirst, hsecond, houtput⟩ : ∃ m₁ m₂,
      (Machine.start .usual 0 0 []).Runs [p] (.ok ()) m₁ ∧
      m₁.Runs [q] (.error (.undefined .function "g")) m₂ ∧ m₂.output = "xy\n" := by
    have hfirst : ((Exec.runProgram 20 p).run (.start .usual 0 0 [])).1 = .ok () := by
      decide +kernel
    have hsecond : ((Exec.runProgram 20 q).run
        ((Exec.runProgram 20 p).run (.start .usual 0 0 [])).2).1 =
        .error (.fault (.undefined .function "g")) := by decide +kernel
    refine ⟨_, _, Machine.runs_of_run hfirst, Machine.runs_of_run hsecond, ?_⟩
    decide +kernel
  have hboth := Machine.runs_cons_iff.mpr (.inr ⟨m₁, hfirst, hsecond⟩)
  obtain ⟨program, hprogram, hagrees⟩ := session_agrees habove hbelow
  obtain ⟨hends, hsame, -⟩ := hagrees (.start .usual 0 0 []) ⟨by decide, rfl⟩
  obtain ⟨outcome, m', hrun⟩ := hends.mpr ⟨_, m₂, hboth⟩
  obtain ⟨rfl, hplaces⟩ := hsame _ _ _ _ hrun hboth
  have hprinted : m'.unplaced.output = m₂.unplaced.output := congrArg Machine.output hplaces
  exact ⟨program, m', hprogram, hrun, hprinted.trans houtput⟩

end Scrawl
