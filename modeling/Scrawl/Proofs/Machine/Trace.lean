import Scrawl.Proofs.Machine.Console
import Scrawl.Proofs.Machine.Faults
import Scrawl.Proofs.Machine.Fuel
import Scrawl.Proofs.Node.Drawing
import Scrawl.Proofs.Node.Levels

/-!
# Proofs/Machine/Trace — tracing changes nothing but the trace

A run at a lower verbosity does what it does at a higher one, and its trace is what is left of the
other without the messages that are not let through (`Exec.uniform_lowers`).  The one thing that a
message can change is to have no text: a run that stops there could go on without it, so such runs
are left out (`Exec.Spared`).  Before the run there are two more: the file of the trace has to be
opened, and the tree has to be drawn (`Machine.Shows`).
-/

namespace Scrawl

namespace Machine

variable {d : Int} {m m' : Machine}

/-- **A machine at a lower verbosity**, with those messages of its trace that are let through
there. -/
def lowered (d : Int) (m : Machine) : Machine :=
  { m with verbosity := d, tracing := m.tracing && decide (0 < d),
           trace := m.trace.filter (·.level ≤ d) }

/-- **A machine in a run whose verbosity can be lowered**: messages go to the trace if any are let
through, and those that are there have headings. -/
structure Traces (d : Int) (m : Machine) : Prop where
  le : d ≤ m.verbosity
  tracing : 0 < m.verbosity → m.tracing = true
  isHeaded : ∀ entry ∈ m.trace, entry.IsHeaded

namespace Traces

theorem of_eq (h : m.Traces d) (hverbosity : m'.verbosity = m.verbosity)
    (htracing : m'.tracing = m.tracing) (htrace : m'.trace = m.trace) : m'.Traces d :=
  ⟨hverbosity ▸ h.le, hverbosity ▸ htracing ▸ h.tracing, htrace ▸ h.isHeaded⟩

variable {level : Int} {text : String}

/-- A message with a heading leaves such a machine. -/
theorem say (h : m.Traces d) (ht : TraceEntry.IsHeaded ⟨level, text⟩) :
    (m.say level text).Traces d := by
  unfold Machine.say
  split
  · exact h
  · split
    · refine ⟨h.le, h.tracing, fun entry he => ?_⟩
      obtain he | rfl := Array.mem_push.mp he
      · exact h.isHeaded entry he
      · exact ht
    · exact h.of_eq rfl rfl rfl

/-- **A message comes through at the lower verbosity, or is dropped there.** -/
theorem say_lowered (h : m.Traces d) (ht : TraceEntry.IsHeaded ⟨level, text⟩) :
    (m.lowered d).say level text = (m.say level text).lowered d := by
  have hpos : 0 < level := ht.level_pos
  have hle := h.le
  have hverbosity : (m.lowered d).verbosity = d := rfl
  by_cases hhigh : m.verbosity < level
  · rw [Machine.say, Machine.say, if_pos hhigh, if_pos (by omega)]
  · have htracing : m.tracing = true := h.tracing (by omega)
    rw [Machine.say.eq_def level text m, if_neg hhigh, if_pos htracing]
    let lowers (trace : Array TraceEntry) : Machine := { m.lowered d with trace := trace }
    by_cases hlow : level ≤ d
    · have hkept : (m.lowered d).tracing = true := by
        rw [lowered, htracing, decide_eq_true (show 0 < d by omega)]
        rfl
      have hfilter : (m.trace.push ⟨level, text⟩).filter (·.level ≤ d) =
          (m.trace.filter (·.level ≤ d)).push ⟨level, text⟩ :=
        Array.filter_push_of_pos (decide_eq_true hlow) (Array.size_push _)
      rw [Machine.say, if_neg (by omega), if_pos hkept]
      exact congrArg lowers hfilter.symm
    · have hfilter : (m.trace.push ⟨level, text⟩).filter (·.level ≤ d) =
          m.trace.filter (·.level ≤ d) :=
        Array.filter_push_of_neg (by simpa using hlow) (Array.size_push _)
      rw [Machine.say, if_pos (by omega)]
      exact congrArg lowers hfilter.symm

end Traces

/-- The console is no part of the trace. -/
theorem sharesConsole_lowered (d : Int) : SharesConsole fun m m' => m' = m.lowered d where
  console_eq h := h ▸ rfl
  withConsole h _ := h ▸ rfl

end Machine

namespace Exec

variable {α β : Type} {d : Int}

/-- **An end that does not lie with a text**: the fuel has lasted, and everything could be
written. -/
def Spared : Except Stop α → Prop
  | .ok _ => True
  | .error (.fault f) => ¬f.IsUnwritable
  | .error .exhausted => False

/-- **One computation does at a lower verbosity what another does**, if the end of that one is
spared. -/
structure Lowers (d : Int) (x y : Exec α) : Prop where
  keeps : ∀ m : Machine, m.Traces d → (x.run m).2.Traces d
  run_eq : ∀ m : Machine, m.Traces d → Spared (x.run m).1 →
    y.run (m.lowered d) = ((x.run m).1, (x.run m).2.lowered d)

namespace Lowers

theorem ofFault : ∀ x : Except Fault α, Lowers d (Exec.ofFault x) (Exec.ofFault x)
  | .ok _ => ⟨fun _ hm => hm, fun _ _ _ => rfl⟩
  | .error _ => ⟨fun _ hm => hm, fun _ _ _ => rfl⟩

/-- **Computations in turn are lowered in turn**: where the whole is spared, so is each part. -/
theorem bind {x y : Exec α} {f g : α → Exec β} (h : Lowers d x y)
    (hf : ∀ a, Lowers d (f a) (g a)) : Lowers d (x >>= f) (y >>= g) := by
  constructor
  · intro m hm
    have hkeeps := h.keeps m hm
    rw [run_bind]
    generalize x.run m = r at hkeeps ⊢
    obtain ⟨e | a, m'⟩ := r
    · exact hkeeps
    · exact (hf a).keeps m' hkeeps
  · intro m hm hs
    have hkeeps := h.keeps m hm
    have hrun := h.run_eq m hm
    rw [run_bind] at hs ⊢
    rw [run_bind]
    generalize x.run m = r at hkeeps hrun hs ⊢
    obtain ⟨e | a, m'⟩ := r
    · have hs : Spared (.error e : Except Stop α) := by
        obtain f | _ := e <;> exact hs
      rw [hrun hs]
    · rw [hrun trivial]
      exact (hf a).run_eq m' hkeeps hs

theorem say {level : Int} {text : String} (ht : TraceEntry.IsHeaded ⟨level, text⟩) :
    Lowers d (Exec.say level text) (Exec.say level text) where
  keeps _ hm := hm.say ht
  run_eq _ hm _ := congrArg (fun m => (Except.ok (), m)) (hm.say_lowered ht)

/-- A message that is not made at the lower verbosity is one that could be made at the higher. -/
theorem sayLazily {level : Int} {text : Scope → Except Fault String} (h : Reports level text) :
    Lowers d (Exec.sayLazily level fun m => text m.scope)
      (Exec.sayLazily level fun m => text m.scope) := by
  constructor
  · intro m hm
    cases ht : text m.scope with
    | ok t =>
      rw [run_sayLazily_of_ok ht]
      exact hm.say (h.isHeaded ht)
    | error f =>
      by_cases hlt : m.verbosity < level
      · rw [run_sayLazily_of_lt hlt]
        exact hm
      · rw [run_sayLazily_of_error ht (by omega)]
        exact hm
  · intro m hm hs
    have hscope : (m.lowered d).scope = m.scope := rfl
    cases ht : text m.scope with
    | ok t =>
      rw [run_sayLazily_of_ok ht, run_sayLazily_of_ok (hscope ▸ ht),
        hm.say_lowered (h.isHeaded ht)]
    | error f =>
      -- A text that fails is not made here, or else the end is not spared.
      by_cases hlt : m.verbosity < level
      · have hlow : (m.lowered d).verbosity < level := lt_of_le_of_lt hm.le hlt
        rw [run_sayLazily_of_lt hlt, run_sayLazily_of_lt hlow]
      · rw [run_sayLazily_of_error ht (by omega)] at hs
        exact absurd (h.failsOnly _ f ht) hs

/-- An assignment takes no notice of the trace. -/
theorem assign (name : String) (v : Value) :
    Lowers d (Exec.assign name v) (Exec.assign name v) := by
  constructor
  · intro m hm
    rw [run_assign]
    cases m.scope.set name v <;> exact hm.of_eq rfl rfl rfl
  · intro m _ _
    have hscope : (m.lowered d).scope = m.scope := rfl
    rw [run_assign, run_assign, hscope]
    cases m.scope.set name v <;> rfl

theorem inFrame {x y : Exec α} (h : Lowers d x y) :
    Lowers d (Exec.inFrame x) (Exec.inFrame y) where
  keeps m hm := (h.keeps { m with scope := m.scope.push } (hm.of_eq rfl rfl rfl)).of_eq rfl rfl rfl
  run_eq m hm hs :=
    congrArg (fun r : Except Stop α × Machine =>
      (r.1, ({ r.2 with scope := r.2.scope.drop } : Machine)))
      (h.run_eq { m with scope := m.scope.push } (hm.of_eq rfl rfl rfl) hs)

theorem inCall {x y : Exec α} (h : Lowers d x y) :
    Lowers d (Exec.inCall x) (Exec.inCall y) where
  keeps m hm := (h.inFrame.keeps { m with callDepth := m.callDepth + 1 }
    (hm.of_eq rfl rfl rfl)).of_eq rfl rfl rfl
  run_eq m hm hs :=
    congrArg (fun r : Except Stop α × Machine =>
      (r.1, ({ r.2 with callDepth := r.2.callDepth - 1 } : Machine)))
      (h.inFrame.run_eq { m with callDepth := m.callDepth + 1 } (hm.of_eq rfl rfl rfl) hs)

/-- A builtin uses the console, and more fuel draws what less drew. -/
theorem builtin {fuel fuel' : Nat} (hle : fuel ≤ fuel') (b : Builtin) (arguments : List Value) :
    Lowers d (b.call fuel arguments) (b.call fuel' arguments) := by
  have hconsole := OnConsole.builtin fuel b arguments
  constructor
  · intro m hm
    obtain ⟨f, hf, -⟩ := hconsole
    rw [hf]
    exact hm.of_eq rfl rfl rfl
  · intro m _ hs
    obtain ⟨hresult, hmachine⟩ := hconsole.run_related (Machine.sharesConsole_lowered d)
      (m := m) rfl
    have hlasts : ((b.call fuel arguments).run (m.lowered d)).1 ≠ .error .exhausted := by
      intro he
      rw [hresult] at he
      rw [he] at hs
      exact hs
    rw [Extends.builtin hle b arguments _ hlasts]
    exact Prod.ext hresult hmachine

end Lowers

end Exec

namespace Machine

/-- **A machine that has shown what it is about to run**: the tokens and the drawing of the tree. -/
def showing (tokens : List Token) (drawing : String) (m : Machine) : Machine :=
  (m.say 1 ("Tokens: " ++ " ".intercalate (tokens.map Token.lexeme))).say 1 ("AST:\n" ++ drawing)

variable {d : Int} {m : Machine} (tokens : List Token) (drawing : String)

theorem isHeaded_tokens :
    TraceEntry.IsHeaded ⟨1, "Tokens: " ++ " ".intercalate (tokens.map Token.lexeme)⟩ :=
  isHeaded_append (by decide) _

theorem isHeaded_drawing : TraceEntry.IsHeaded ⟨1, "AST:\n" ++ drawing⟩ :=
  isHeaded_append (by decide) drawing

/-- The tokens and the drawing have headings. -/
theorem Traces.showing (h : m.Traces d) : (m.showing tokens drawing).Traces d :=
  (h.say (isHeaded_tokens tokens)).say (isHeaded_drawing drawing)

/-- The two messages, where they are let through. -/
def preamble (verbosity : Int) (tokens : List Token) (drawing : String) : Array TraceEntry :=
  if 1 ≤ verbosity then
    #[⟨1, "Tokens: " ++ " ".intercalate (tokens.map Token.lexeme)⟩, ⟨1, "AST:\n" ++ drawing⟩]
  else #[]

/-- Before its run, a machine shows nothing else. -/
theorem start_showing (limits : Limits) (verbosity seed : Int) (input : List String) :
    (start limits verbosity seed input).showing tokens drawing =
      (start limits verbosity seed input).withTrace (preamble verbosity tokens drawing) := by
  unfold showing preamble
  by_cases h : 1 ≤ verbosity
  · have htracing : (start limits verbosity seed input).tracing = true :=
      decide_eq_true (show 0 < verbosity by omega)
    have hsay (trace : Array TraceEntry) (text : String) :
        ((start limits verbosity seed input).withTrace trace).say 1 text =
          (start limits verbosity seed input).withTrace (trace.push ⟨1, text⟩) :=
      (if_neg (show ¬verbosity < 1 by omega)).trans (if_pos htracing)
    rw [if_pos h]
    exact (congrArg (Machine.say 1 _) (hsay #[] _)).trans (hsay _ _)
  · have hsay (text : String) : (start limits verbosity seed input).say 1 text =
        start limits verbosity seed input := if_pos (show verbosity < 1 by omega)
    rw [hsay, hsay, if_neg h]
    rfl

theorem Sound.showing (h : m.Sound) : (m.showing tokens drawing).Sound :=
  h.of_scope (by rw [Machine.showing, scope_say, scope_say])

/-- **A tree that a machine can show**, if it shows trees at all. -/
def Shows (m : Machine) (n : Node) : Prop := 1 ≤ m.verbosity → n.levels ≤ m.limits.levels

/-- What is not shown is asked for and has too many levels. -/
theorem not_shows_iff {n : Node} :
    ¬m.Shows n ↔ 1 ≤ m.verbosity ∧ m.limits.levels < n.levels := by
  rw [Shows, Classical.not_imp, Nat.not_le]

/-- A tree with fewer levels can be shown as well. -/
theorem Shows.of_le {n n' : Node} (h : m.Shows n) (hle : n'.levels ≤ n.levels) : m.Shows n' :=
  fun hv => Nat.le_trans hle (h hv)

/-! ## Opening the trace -/

variable {ε : Type} {file : Except ε Unit} {limits : Limits} {verbosity seed : Int}
  {input : List String}

/-- **A machine is there unless the file of its trace cannot be opened.** -/
theorem opened_eq_ok_iff : opened file limits verbosity seed input = .ok m ↔
    (0 < verbosity → file = .ok ()) ∧ m = start limits verbosity seed input := by
  unfold opened
  split
  case isTrue h =>
    obtain e | ⟨⟩ := file
    · exact iff_of_false (by rintro ⟨⟩) fun hm => by cases hm.1 h
    · exact ⟨fun hm => ⟨fun _ => rfl, (Except.ok.inj hm).symm⟩, fun hm => congrArg _ hm.2.symm⟩
  case isFalse h =>
    exact ⟨fun hm => ⟨(absurd · h), (Except.ok.inj hm).symm⟩, fun hm => congrArg _ hm.2.symm⟩

/-- **No machine is opened** when the trace is asked for and has no file. -/
theorem opened_eq_error_iff {e : ε} : opened file limits verbosity seed input = .error e ↔
    0 < verbosity ∧ file = .error e := by
  unfold opened
  split
  case isTrue h =>
    obtain e' | ⟨⟩ := file
    · exact ⟨fun he => ⟨h, congrArg _ (Except.error.inj he)⟩, fun he => congrArg _
        (Except.error.inj he.2)⟩
    · exact iff_of_false (by rintro ⟨⟩) (by rintro ⟨-, ⟨⟩⟩)
  case isFalse h => exact iff_of_false (by rintro ⟨⟩) fun he => h he.1

end Machine

namespace Exec

/-- **A program that can be shown is shown and then run.** -/
theorem run_runTokens_of_shows {program : Node} {drawing : String}
    (h : program.draw = .ok drawing) {m : Machine} (hshows : m.Shows program) (fuel : Nat)
    (tokens : List Token) :
    (runTokens fuel tokens program).run m =
      (runProgram fuel program).run (m.showing tokens drawing) := by
  rw [runTokens, run_bind, run_sayLazily_of_ok rfl, Machine.showing]
  dsimp only
  generalize hm' : m.say 1 ("Tokens: " ++ " ".intercalate (tokens.map Token.lexeme)) = m'
  have hlimits : m'.limits = m.limits := hm' ▸ Machine.limits_say ..
  have hverbosity : m'.verbosity = m.verbosity := hm' ▸ Machine.verbosity_say ..
  by_cases hv : 1 ≤ m.verbosity
  · have hdraw : (program.drawWithin m'.limits.levels).map ("AST:\n" ++ ·) =
        .ok ("AST:\n" ++ drawing) := by
      rw [hlimits, Node.drawWithin_of_le (hshows hv), h]
      rfl
    rw [run_bind, run_sayLazily_of_ok hdraw]
  · have hlt : m'.verbosity < 1 := by omega
    rw [run_bind, run_sayLazily_of_lt hlt, Machine.say, if_pos hlt]

/-- **A program that cannot be shown is not run.** -/
theorem run_runTokens_of_not_shows {program : Node} {m : Machine} (h : ¬m.Shows program)
    (fuel : Nat) (tokens : List Token) :
    (runTokens fuel tokens program).run m = (.error (.fault .tooManyLevels),
      m.say 1 ("Tokens: " ++ " ".intercalate (tokens.map Token.lexeme))) := by
  obtain ⟨hv, hlevels⟩ := Machine.not_shows_iff.mp h
  rw [runTokens, run_bind, run_sayLazily_of_ok rfl]
  dsimp only
  generalize hm' : m.say 1 ("Tokens: " ++ " ".intercalate (tokens.map Token.lexeme)) = m'
  have hverbosity : m'.verbosity = m.verbosity := hm' ▸ Machine.verbosity_say ..
  have hdraw : (program.drawWithin m'.limits.levels).map ("AST:\n" ++ ·) =
      .error .tooManyLevels := by
    rw [← hm', Machine.limits_say, Node.drawWithin_of_lt hlevels]
    rfl
  rw [run_bind, run_sayLazily_of_error hdraw (hverbosity ▸ hv)]

/-- **Running tokens is running the program** once they are shown. -/
theorem ends_runTokens_iff {program : Node} {drawing : String} (h : program.draw = .ok drawing)
    (tokens : List Token) {limits : Limits} {verbosity seed : Int} {input : List String}
    (hshows : (Machine.start limits verbosity seed input).Shows program)
    {outcome : Except Fault Unit} {m : Machine} :
    Ends (runTokens · tokens program) (.start limits verbosity seed input) outcome m ↔
      Ends (runProgram · program) ((Machine.start limits verbosity seed input).withTrace
        (Machine.preamble verbosity tokens drawing)) outcome m := by
  simp only [Ends, run_runTokens_of_shows h hshows, Machine.start_showing]

end Exec

/-! ## Source texts -/

section

variable {ε : Type} {file : Except ε Unit} {limits : Limits} {verbosity seed : Int}
  {input : List String} {source : String} {tokens : List Token} {program : Node}
  (hparse : parseSource source = .ok (tokens, program))

include hparse

/-- A text that parses is run once there is a machine. -/
theorem runSource_of_parse (fuel : Nat) (machine : Except ε Machine) :
    runSource fuel source machine = .ok (machine.map (Exec.runTokens fuel tokens program).run) := by
  rw [runSource, hparse]
  rfl

/-- A text that is run is run on the machine before its run. -/
theorem runSource_opened_iff (fuel : Nat) (r : Except Stop Unit × Machine) :
    runSource fuel source (Machine.opened file limits verbosity seed input) = .ok (.ok r) ↔
      (0 < verbosity → file = .ok ()) ∧
        (Exec.runTokens fuel tokens program).run (.start limits verbosity seed input) = r := by
  rw [runSource_of_parse hparse]
  cases hopened : Machine.opened file limits verbosity seed input with
  | error e =>
    obtain ⟨hv, rfl⟩ := Machine.opened_eq_error_iff.mp hopened
    exact iff_of_false (by rintro ⟨⟩) fun h => by cases h.1 hv
  | ok m =>
    obtain ⟨hfile, rfl⟩ := Machine.opened_eq_ok_iff.mp hopened
    exact ⟨fun h => ⟨hfile, Except.ok.inj (Except.ok.inj h)⟩, fun h => by rw [← h.2]; rfl⟩

end

end Scrawl
