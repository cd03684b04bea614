import Scrawl.Text.Digit
import Scrawl.Text.Quoted

/-!
# CommandLine/Arguments — what the arguments ask for

Options may stand anywhere before a `--`, may be shortened to a start that no other option shares,
and may have their value attached with an equals sign; short ones may be written together.  Of the
other arguments the first is the program and the rest are not wanted.  All arguments are told apart
(`classify`) before any of them takes effect (`take`).
-/

namespace Scrawl.CommandLine

/-- The options. -/
inductive Flag where
  | help | verbose | tree | emitAst | ast
deriving DecidableEq, Repr, Inhabited

namespace Flag

/-- The spellings of the options. -/
def spellings : List (String × Flag) := [
  ("-h", .help), ("--help", .help), ("-v", .verbose), ("--tree", .tree), ("--emit-ast", .emitAst),
  ("--ast", .ast)]

/-- The option with a spelling. -/
def ofSpelling? (spelling : String) : Option Flag := spellings.lookup spelling

/-- What messages call an option. -/
def name : Flag → String
  | .help => "-h/--help"
  | .verbose => "-v"
  | .tree => "--tree"
  | .emitAst => "--emit-ast"
  | .ast => "--ast"

/-- An option that takes a value. -/
def takesValue : Flag → Bool
  | .emitAst | .ast => true
  | _ => false

/-- The options of which at most one may be given. -/
def exclusive : List Flag := [.tree, .emitAst, .ast]

end Flag

/-- Why the arguments make no sense. -/
inductive UsageError where
  | ambiguous (argument : String) (spellings : List String)
  | ignoredValue (flag : Flag) (value : String)
  | missingValue (flag : Flag)
  | conflict (flag other : Flag)
  | unrecognized (arguments : List String)
  | missingProgram
deriving DecidableEq, Repr

/-- The wording of a usage error. -/
def UsageError.message : UsageError → String
  | .ambiguous argument spellings =>
    s!"ambiguous option: {argument} could match " ++ ", ".intercalate spellings
  | .ignoredValue flag value =>
    s!"argument {flag.name}: ignored explicit argument {Text.quoted value}"
  | .missingValue flag => s!"argument {flag.name}: expected one argument"
  | .conflict flag other => s!"argument {flag.name}: not allowed with argument {other.name}"
  | .unrecognized arguments => "unrecognized arguments: " ++ " ".intercalate arguments
  | .missingProgram => "missing program file; or use --emit-ast/--ast"

/-! ## Telling arguments apart -/

/-- **The sort of an argument.** -/
inductive Argument where
  /-- Not an option. -/
  | plain
  /-- The mark behind which there are no options. -/
  | separator
  /-- Looks like an option and is none. -/
  | unknown
  /-- An option, whether written with one dash, and the text attached to it. -/
  | option (flag : Flag) (short : Bool) (attached : Option String)
deriving DecidableEq, Repr

/-- A text cut at its first equals sign. -/
def cutEquals (cs : List Char) : List Char × Option (List Char) :=
  match cs.dropWhile (· != '=') with
  | [] => (cs, none)
  | _ :: value => (cs.takeWhile (· != '='), some value)

/-- A dash and a number, with or without a point; a line feed may follow. -/
def looksNegative (cs : List Char) : Bool :=
  match if cs.getLast? = some '\n' then cs.dropLast else cs with
  | '-' :: rest =>
    match rest.dropWhile Text.isDecimal with
    | [] => !rest.isEmpty
    | '.' :: digits => !digits.isEmpty && digits.all Text.isDecimal
    | _ => false
  | _ => false

/-- The options whose spellings an argument is a start of, with what is attached to them. -/
def candidates (cs : List Char) : List (String × Argument) :=
  match cs with
  | '-' :: '-' :: _ =>
    let (start, value) := cutEquals cs
    Flag.spellings.filterMap fun (spelling, flag) =>
      if start.isPrefixOf spelling.toList then
        some (spelling, .option flag false (value.map String.ofList))
      else none
  | _ =>
    Flag.spellings.filterMap fun (spelling, flag) =>
      if spelling.toList = cs.take 2 then
        some (spelling, .option flag true (some (String.ofList (cs.drop 2))))
      else none

/-- An argument that starts with a dash and is no exact spelling. -/
def classifyDashed (argument : String) : Except UsageError Argument :=
  let cs := argument.toList
  match candidates cs with
  | [(_, option)] => .ok option
  | [] =>
    if looksNegative cs || cs.contains ' ' then .ok .plain else .ok .unknown
  | several => .error (.ambiguous argument (several.map (·.1)))

/-- **The sort of an argument** in front of any `--`. -/
def classify (argument : String) : Except UsageError Argument :=
  let cs := argument.toList
  if cs.head? ≠ some '-' || cs.length = 1 then .ok .plain
  else
    let isShort := (cs.drop 1).head? ≠ some '-'
    match Flag.ofSpelling? argument, cutEquals cs with
    | some flag, _ => .ok (.option flag isShort none)
    | none, (start, some value) =>
      match Flag.ofSpelling? (String.ofList start) with
      | some flag => .ok (.option flag isShort (some (String.ofList value)))
      | none => classifyDashed argument
    | none, (_, none) => classifyDashed argument

/-- The sorts of all arguments. -/
def classifyAll : List String → Except UsageError (List (String × Argument))
  | [] => .ok []
  | "--" :: rest => .ok (("--", .separator) :: rest.map fun argument => (argument, .plain))
  | argument :: rest => do
    let sort ← classify argument
    return (argument, sort) :: (← classifyAll rest)

/-! ## What they ask for -/

/-- **What the arguments ask for.** -/
structure Arguments where
  verbosity : Nat
  tree : Bool
  emitAst : Option String
  ast : Option String
  program : Option String
deriving DecidableEq, Repr

/-- The state of going through the arguments. -/
structure Reading where
  arguments : Arguments
  /-- The exclusive options that were given. -/
  given : List Flag
  /-- The program was seen. -/
  hasProgram : Bool
  /-- The arguments that nobody wants. -/
  extras : List String
deriving DecidableEq, Repr

/-- Before the first argument. -/
def Reading.start : Reading := ⟨⟨0, false, none, none, none⟩, [], false, []⟩

/-- What going through the arguments can end in early. -/
inductive Early where
  | help
  | usage (error : UsageError)
deriving DecidableEq, Repr

/-- One option takes effect. -/
def Reading.apply (r : Reading) (flag : Flag) (value : String) : Except Early Reading := do
  let r ← if flag ∈ Flag.exclusive then
      match Flag.exclusive.find? (fun other => other ≠ flag && other ∈ r.given) with
      | some other => .error (.usage (.conflict flag other))
      | none => .ok { r with given := flag :: r.given }
    else .ok r
  match flag with
  | .help => .error .help
  | .verbose => return { r with arguments.verbosity := r.arguments.verbosity + 1 }
  | .tree => return { r with arguments.tree := true }
  | .emitAst => return { r with arguments.emitAst := some value }
  | .ast => return { r with arguments.ast := some value }

/-- Options that take no value, one after the other. -/
def Reading.applyAll (r : Reading) (flags : List Flag) : Except Early Reading :=
  flags.foldlM (fun r flag => r.apply flag "") r

/-- What an option with the text attached to it stands for. -/
inductive Cluster where
  /-- Options without a value. -/
  | flags (flags : List Flag)
  /-- Options without a value, and one with its value. -/
  | valued (flags : List Flag) (flag : Flag) (value : String)
  /-- Options without a value, and one whose value is still to come. -/
  | awaiting (flags : List Flag) (flag : Flag)
deriving DecidableEq, Repr

/-- A cluster with one more option in front. -/
def Cluster.cons (flag : Flag) : Cluster → Cluster
  | .flags others => .flags (flag :: others)
  | .valued others last value => .valued (flag :: others) last value
  | .awaiting others last => .awaiting (flag :: others) last

/-- The value that an attached text stands for: two dashes end the options even there, and leave
nothing. -/
def attachedValue (text : String) : String := if text = "--" then "" else text

/-- **Takes apart what is written behind a short option**: each character names another option, up
to one that takes the rest as its value. -/
def cluster (flag : Flag) : List Char → Except UsageError Cluster
  | [] => .ok (if flag.takesValue then .awaiting [] flag else .flags [flag])
  | c :: rest =>
    if flag.takesValue then .ok (.valued [] flag (attachedValue (String.ofList (c :: rest))))
    else
      match Flag.ofSpelling? (String.ofList ['-', c]) with
      | none => .error (.ignoredValue flag (String.ofList (c :: rest)))
      | some next => (cluster next rest).map (.cons flag)

/-- **What an option and the text attached to it stand for.**  Only a short option without a value
can have other options attached, behind an equals sign or directly. -/
def expand (flag : Flag) (short : Bool) : Option String → Except UsageError Cluster
  | none => cluster flag []
  | some text =>
    if flag.takesValue then .ok (.valued [] flag (attachedValue text))
    else if short && text ≠ "" then cluster flag text.toList
    else .error (.ignoredValue flag text)

/-- An early end for a usage error. -/
def orUsage {α : Type} : Except UsageError α → Except Early α
  | .ok a => .ok a
  | .error e => .error (.usage e)

/-- The value of an option from the arguments behind it. -/
def nextValue (flag : Flag) : List (String × Argument) →
    Except Early (String × List (String × Argument))
  | (value, .plain) :: rest => .ok (value, rest)
  | _ => .error (.usage (.missingValue flag))

/-- One option and its value, with the arguments behind it. -/
def Reading.option (r : Reading) (flag : Flag) (short : Bool) (attached : Option String)
    (rest : List (String × Argument)) : Except Early (Reading × List (String × Argument)) := do
  match ← orUsage (expand flag short attached) with
  | .flags flags => return (← r.applyAll flags, rest)
  | .valued flags last value => return (← (← r.applyAll flags).apply last value, rest)
  | .awaiting flags last =>
    let (value, rest) ← nextValue last rest
    return (← (← r.applyAll flags).apply last value, rest)

/-- The arguments behind the last option: the program, if it is still to come, and what nobody
wants. -/
def Reading.finish (r : Reading) (rest : List String) : Reading :=
  if r.hasProgram then { r with extras := r.extras ++ rest }
  else
    let (program, extras) := match rest with
      | "--" :: program :: extras => (some program, extras)
      | ["--"] => (none, [])
      | program :: "--" :: extras => (some program, extras)
      | program :: extras => (some program, extras)
      | [] => (none, [])
    { r with arguments.program := program, hasProgram := true, extras := r.extras ++ extras }

/-- An argument that is an option or looks like one. -/
def Argument.isOption : Argument → Bool
  | .unknown | .option .. => true
  | _ => false

/-- **Goes through the arguments.**  The fuel bounds their number. -/
def Reading.take : Nat → Reading → List (String × Argument) → Except Early Reading
  | 0, r, _ => .ok r
  | fuel + 1, r, items =>
    if !items.any (·.2.isOption) then .ok (r.finish (items.map (·.1)))
    else
      match items with
      | [] => .ok r
      | (argument, .unknown) :: rest =>
        Reading.take fuel { r with extras := r.extras ++ [argument] } rest
      | (_, .option flag short attached) :: rest => do
        let (r, rest) ← r.option flag short attached rest
        Reading.take fuel r rest
      | (argument, _) :: rest =>
        if r.hasProgram then Reading.take fuel { r with extras := r.extras ++ [argument] } rest
        else
          Reading.take fuel { r with arguments.program := some argument, hasProgram := true } rest

/-- **What a list of arguments asks for.** -/
def readArguments (arguments : List String) : Except Early Arguments := do
  let items ← orUsage (classifyAll arguments)
  let r ← Reading.take (items.length + 1) .start items
  if r.extras.isEmpty then return r.arguments
  else throw (.usage (.unrecognized r.extras))

end Scrawl.CommandLine
