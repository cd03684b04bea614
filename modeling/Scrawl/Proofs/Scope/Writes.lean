import Scrawl.Proofs.Scope.Layers

/-!
# Proofs/Scope/Writes — what a write does to a scope

A write goes to one place: the slot that a name has, or a new slot at the end, with a name for it in
the innermost frame.  In an arena no other name has another value afterwards.  Names that are bound
one after the other, as the parameters of a call are, have the value that they got last
(`Scope.get_declareAll`).
-/

namespace Scrawl

namespace Scope

/-- A scope with a new variable of the innermost frame, in a new slot at the end. -/
def extended (name : String) (v : Value) (s : Scope) : Scope :=
  { s.modifyTop fun frame => { frame with handles := frame.handles ++ [(name, s.slots.size)] } with
    slots := s.slots.push v }

/-- Names bound in the innermost frame, from left to right. -/
def declareAll (bindings : List (String × Value)) (s : Scope) : Scope :=
  bindings.foldl (fun s binding => (s.declare binding.1 binding.2).2) s

/-- The innermost frame is asked first. -/
theorem resolve?_of_top {s : Scope} {x : String} {handle : Nat}
    (h : s.top.handles.lookup x = some handle) : s.resolve? x = some handle := by
  obtain ⟨slots, globals, locals⟩ := s
  cases locals with
  | nil => exact h
  | cons frame rest =>
    have h : frame.handles.lookup x = some handle := h
    rw [resolve?, search, List.findSome?_cons, h]
    rfl

/-- An assignment goes to the slot of the name. -/
theorem set_eq_store {s : Scope} {x : String} {handle : Nat} (h : s.resolve? x = some handle)
    (v : Value) : s.set x v = .ok (s.store handle v) := by
  rw [set, h]
  rfl

/-- A name that the innermost frame has keeps its slot. -/
theorem declare_of_bound {s : Scope} {x : String} {handle : Nat}
    (h : s.top.handles.lookup x = some handle) (v : Value) :
    (s.declare x v).2 = s.store handle v := by
  rw [declare, h]
  rfl

/-- A name that it does not have gets a new one. -/
theorem declare_of_new {s : Scope} {x : String} (h : s.top.handles.lookup x = none) (v : Value) :
    (s.declare x v).2 = s.extended x v := by
  rw [declare, h]
  rfl

/-- A variable that has a value has a slot. -/
theorem exists_slot_of_get {s : Scope} {x : String} {v : Value} (h : s.get x = .ok v) :
    ∃ handle, s.resolve? x = some handle ∧ handle < s.slots.size := by
  unfold get at h
  split at h
  · rename_i hbind
    obtain ⟨handle, hx, hslot⟩ := Option.bind_eq_some_iff.mp hbind
    exact ⟨handle, hx, (Array.getElem?_eq_some_iff.mp hslot).1⟩
  · cases h

section Arena

variable {s : Scope} {a : Layers} (ha : s = a.arena) {x : String} {handle : Nat} {v : Value}

include ha

theorem lt_size_of_resolve? (h : s.resolve? x = some handle) : handle < s.slots.size := by
  subst ha
  rw [Layers.resolve?_arena] at h
  rw [Layers.size_slots_arena]
  exact Layers.place?_lt h

/-- **A write is seen under its own name only.** -/
theorem get_store (h : s.resolve? x = some handle) (y : String) :
    (s.store handle v).get y = if y = x then .ok v else s.get y := by
  subst ha
  rw [Layers.resolve?_arena] at h
  obtain ⟨b, hb, harena⟩ := Layers.assign?_arena v h
  rw [← harena, Layers.get_arena, Layers.get_arena, Layers.get_assign? y hb]

/-- …and so is a declaration, in an old slot or in a new one. -/
theorem get_declare (x : String) (v : Value) (y : String) :
    (s.declare x v).2.get y = if y = x then .ok v else s.get y := by
  subst ha
  rw [Layers.declare_arena, Layers.get_arena, Layers.get_arena, Layers.get_bind]

theorem get_push (y : String) : s.push.get y = s.get y := by
  subst ha
  rw [Layers.push_arena, Layers.get_arena, Layers.get_arena]
  rfl

end Arena

/-- Declaring names takes no binding away. -/
theorem grows_declareAll (bindings : List (String × Value)) (s : Scope) :
    s.Grows (s.declareAll bindings) := by
  induction bindings generalizing s with
  | nil => exact .refl s
  | cons binding rest ih => exact (s.grows_declare binding.1 binding.2).trans (ih _)

/-- **Among bindings of one name the last one holds.** -/
theorem get_declareAll (bindings : List (String × Value)) {s : Scope} {a : Layers}
    (ha : s = a.arena) (y : String) :
    (s.declareAll bindings).get y =
      match bindings.reverse.lookup y with
      | some v => .ok v
      | none => s.get y := by
  induction bindings generalizing s a with
  | nil => rfl
  | cons binding rest ih =>
    obtain ⟨x, v⟩ := binding
    have harena : (s.declare x v).2 = (a.modifyTop (.bind x v)).arena := by
      rw [ha, Layers.declare_arena]
    refine (ih harena).trans ?_
    rw [get_declare ha, List.reverse_cons, List.lookup_append]
    cases rest.reverse.lookup y with
    | some w => rfl
    | none =>
      rw [Option.none_or, List.lookup_cons]
      by_cases h : y = x
      · rw [if_pos h, h, beq_self_eq_true]
      · rw [if_neg h, beq_false_of_ne h]
        rfl

end Scope

end Scrawl
