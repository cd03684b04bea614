import Scrawl.Machine.Run
import Scrawl.Proofs.Value.Failures

/-!
# Proofs/Machine/Messages — what a run says

Every message of a run starts with one of a few **headings**, and the heading goes with its level.
A message may turn out to have no text, but only because something in it cannot be written
(`Fault.IsUnwritable`).
-/

namespace Scrawl

/-- **What messages start with**, with their levels: the first shows what is run, the second what is
defined and called, and the third every node and the scope of every call. -/
def headings : List (Int × String) :=
  [(1, "Tokens: "), (1, "AST:\n"),
    (2, "declare "), (2, "define function "), (2, "call "), (2, "return "),
    (3, "Visiting: "), (3, "Evaluating: "), (3, "Scope:\n")]

/-- A message that starts as those of its level do. -/
def TraceEntry.IsHeaded (entry : TraceEntry) : Prop :=
  ∃ heading, (entry.level, heading) ∈ headings ∧ ∃ rest, entry.text = heading ++ rest

/-- All levels are positive. -/
theorem TraceEntry.IsHeaded.level_pos {entry : TraceEntry} (h : entry.IsHeaded) :
    0 < entry.level := by
  have hall : ∀ heading ∈ headings, 0 < heading.1 := by decide
  obtain ⟨_, hmem, -⟩ := h
  exact hall _ hmem

theorem isHeaded_append {level : Int} {heading : String} (hh : (level, heading) ∈ headings)
    (rest : String) : TraceEntry.IsHeaded ⟨level, heading ++ rest⟩ := ⟨heading, hh, rest, rfl⟩

theorem isHeaded_define (name : String) :
    TraceEntry.IsHeaded ⟨2, "define function " ++ name⟩ := isHeaded_append (by decide) name

/-- The message of a call starts as those of its level do, whatever its arguments are. -/
theorem isHeaded_call (name : String) (texts : List String) :
    TraceEntry.IsHeaded ⟨2, "call " ++ name ++ "(" ++ ", ".intercalate texts ++ ")"⟩ := by
  simp only [String.append_assoc]
  exact isHeaded_append (by decide) _

/-- **A fault of writing something out**: an integer that is too long, or a node without a label. -/
def Fault.IsUnwritable : Fault → Prop
  | .number .tooLongToWrite | .lacking .. => True
  | _ => False

/-- **A label fails in two ways only**: for a number too long to write, or where the node has
none. -/
theorem Node.failsOnly_label (n : Node) : FailsOnly Fault.IsUnwritable n.label := by
  unfold Node.label
  split
  case h_5 v _ => exact (v.failsOnly_write.mono fun _ h => h ▸ trivial).map _
  case h_6 | h_12 | h_13 => exact .error trivial
  all_goals exact .ok _

/-- The label of a literal fails for a number too long to write alone. -/
theorem Node.failsOnly_label_literal (v : Value) :
    FailsOnly (· = .number .tooLongToWrite) (Node.literal v).label := by
  by_cases hs : ∃ s, v = .string s
  · obtain ⟨s, rfl⟩ := hs
    exact .ok _
  · rw [Node.literal, label]
    · exact v.failsOnly_write.map _
    · exact fun s hv => hs ⟨s, hv⟩

/-- **A text about a scope that a run may say at a level.** -/
structure Reports (level : Int) (text : Scope → Except Fault String) : Prop where
  failsOnly : ∀ s, FailsOnly Fault.IsUnwritable (text s)
  isHeaded : ∀ {s t}, text s = .ok t → TraceEntry.IsHeaded ⟨level, t⟩

namespace Reports

variable {level : Int} {heading : String} (hh : (level, heading) ∈ headings)

include hh

/-- A text under a heading may be said where the text itself fails as texts do. -/
theorem map {text : Scope → Except Fault String}
    (h : ∀ s, FailsOnly Fault.IsUnwritable (text s)) :
    Reports level fun s => (text s).map (heading ++ ·) where
  failsOnly s := (h s).map _
  isHeaded ht := by
    obtain ⟨rest, -, rfl⟩ := exists_of_map_eq_ok ht
    exact isHeaded_append hh rest

/-- The message about a value may be said, under the heading and the name. -/
theorem value (name : String) (v : Value) :
    Reports level fun _ => Exec.valueMessage (heading ++ name ++ ": ") v where
  failsOnly _ := (v.failsOnly_write.mono fun _ h => h ▸ trivial).map _
  isHeaded ht := by
    obtain ⟨text, -, rfl⟩ := exists_of_map_eq_ok ht
    simp only [String.append_assoc]
    exact isHeaded_append hh _

end Reports

theorem reports_label {heading : String} (hh : (3, heading) ∈ headings) (n : Node) :
    Reports 3 fun _ => n.label.map (heading ++ ·) := .map hh fun _ => n.failsOnly_label

/-- The dump of a scope may be said. -/
theorem reports_dump : Reports 3 fun s => s.dump.map ("Scope:\n" ++ ·) :=
  .map (by decide) fun s => s.failsOnly_dump.mono fun _ h => h ▸ trivial

end Scrawl
