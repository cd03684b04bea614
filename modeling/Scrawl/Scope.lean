import Scrawl.Entries
import Scrawl.Fault

/-!
# Scope — frames over an arena of slots

A scope is a stack of frames over one array of values, the **slots**.  A frame maps names to
handles, which are indices into the slots, and to functions.  Frames come and go in stack order, so
the slots of a frame lie above its base and popping it cuts the array there.  A name means what the
innermost frame that knows it says.
-/

namespace Scrawl

/-- A function as it was defined. -/
structure Definition where
  parameters : List Node
  body : Node
deriving Inhabited

/-- One level of a scope.  Names stand in the order in which they first came. -/
structure Frame where
  /-- How many slots there were when the frame was pushed. -/
  base : Nat
  /-- The handles of the names. -/
  handles : List (String × Nat)
  functions : List (String × Definition)
deriving Inhabited

/-- A frame with nothing in it. -/
def Frame.empty (base : Nat) : Frame := ⟨base, [], []⟩

/-- **A stack of frames with their values.**  There is always a global frame. -/
structure Scope where
  slots : Array Value
  globals : Frame
  /-- The frames above the global one, innermost first. -/
  locals : List Frame
deriving Inhabited

namespace Scope

/-- Only the global frame, with nothing in it. -/
def empty : Scope := ⟨#[], .empty 0, []⟩

/-- How many frames there are above the global one. -/
def depth (s : Scope) : Nat := s.locals.length

/-- All frames, the global one first. -/
def frames (s : Scope) : List Frame := s.globals :: s.locals.reverse

/-- The innermost frame. -/
def top (s : Scope) : Frame := s.locals.head?.getD s.globals

/-- A change of the innermost frame. -/
def modifyTop (f : Frame → Frame) (s : Scope) : Scope :=
  match s.locals with
  | [] => { s with globals := f s.globals }
  | frame :: rest => { s with locals := f frame :: rest }

/-- The first answer of a frame, from the innermost outwards. -/
def search {α : Type} (f : Frame → Option α) (s : Scope) : Option α :=
  (s.locals.findSome? f).or (f s.globals)

/-- A new innermost frame. -/
def push (s : Scope) : Scope := { s with locals := .empty s.slots.size :: s.locals }

/-- Without the innermost frame and its slots; the global frame stays. -/
def drop (s : Scope) : Scope :=
  match s.locals with
  | [] => s
  | frame :: rest => { s with slots := s.slots.shrink frame.base, locals := rest }

/-- **Pops the innermost frame**, which must not be the global one. -/
def pop (s : Scope) : Except Fault Scope :=
  if s.locals.isEmpty then .error .globalFrame else .ok s.drop

/-- The global frame alone. -/
def unwind (s : Scope) : Scope :=
  match s.locals.getLast? with
  | none => s
  | some frame => { s with slots := s.slots.shrink frame.base, locals := [] }

/-- **Binds a name in the innermost frame** and gives its handle; a name bound there before keeps
the handle and gets the new value. -/
def declare (name : String) (v : Value) (s : Scope) : Nat × Scope :=
  match s.top.handles.lookup name with
  | some handle => (handle, { s with slots := s.slots.setIfInBounds handle v })
  | none =>
    let handle := s.slots.size
    let bind (frame : Frame) : Frame :=
      { frame with handles := frame.handles ++ [(name, handle)] }
    (handle, { s.modifyTop bind with slots := s.slots.push v })

/-- The handle of a name. -/
def resolve? (name : String) (s : Scope) : Option Nat := s.search (·.handles.lookup name)

/-- **The value of a name.** -/
def get (name : String) (s : Scope) : Except Fault Value :=
  match (s.resolve? name).bind (s.slots[·]?) with
  | some v => .ok v
  | none => .error (.undefined .variable name)

/-- **Gives the binding of a name a new value.** -/
def set (name : String) (v : Value) (s : Scope) : Except Fault Scope :=
  match s.resolve? name with
  | some handle => .ok { s with slots := s.slots.setIfInBounds handle v }
  | none => .error (.undefined .variable name)

/-- Defines a function in the innermost frame. -/
def declareFunction (name : String) (d : Definition) (s : Scope) : Scope :=
  s.modifyTop fun frame => { frame with functions := putEntry name d frame.functions }

/-- The definition of a function. -/
def getFunction? (name : String) (s : Scope) : Option Definition :=
  s.search (·.functions.lookup name)

/-! ## Dumps -/

/-- A variable with its value. -/
def dumpVariable (s : Scope) (entry : String × Nat) : Except Fault String := do
  let text ← Fault.ofNumber (s.slots[entry.2]?.getD .void).write
  return "\x7b " ++ entry.1 ++ ": " ++ Text.quoted text ++ " \x7d"

/-- A frame with its level. -/
def dumpFrame (s : Scope) (level : Nat) (frame : Frame) : Except Fault String := do
  let bound ← frame.handles.mapM s.dumpVariable
  let functions := frame.functions.map fun entry => "\x7b function " ++ entry.1 ++ " \x7d"
  let entries := bound ++ functions
  return s!"Level {level}: " ++ (if entries.isEmpty then "Empty" else ", ".intercalate entries)

/-- **All frames with their values**, a line each. -/
def dump (s : Scope) : Except Fault String := do
  let lines ← s.frames.zipIdx.mapM fun (frame, level) => s.dumpFrame level frame
  return "\n".intercalate lines

end Scope

end Scrawl
