import Scrawl.Scope

/-!
# Proofs/Scope/Frames — how a scope may change

Two relations between a scope and a later one.  `Scope.Same` leaves every frame alone and only lets
the contents of slots change; `Scope.Grows` also lets the innermost frame take in new variables, in
new slots, and functions.  What lives in a frame of its own can only leave the scope the same
(`Scope.Grows.same_drop`): whatever a pushed frame took in is gone when it is dropped.
-/

namespace Scrawl

/-! ## The innermost frame and those below it -/

namespace Scope

/-- The frames below the innermost one, the next first. -/
def outer (s : Scope) : List Frame :=
  match s.locals with
  | [] => []
  | _ :: rest => rest ++ [s.globals]

@[simp] theorem outer_push (s : Scope) : s.push.outer = s.locals ++ [s.globals] := rfl

@[simp] theorem top_modifyTop (f : Frame → Frame) (s : Scope) : (s.modifyTop f).top = f s.top := by
  obtain ⟨slots, globals, locals⟩ := s
  cases locals <;> rfl

/-- A change of the innermost frame leaves those below it alone. -/
@[simp] theorem outer_modifyTop (f : Frame → Frame) (s : Scope) :
    (s.modifyTop f).outer = s.outer := by
  obtain ⟨slots, globals, locals⟩ := s
  cases locals <;> rfl

@[simp] theorem slots_modifyTop (f : Frame → Frame) (s : Scope) :
    (s.modifyTop f).slots = s.slots := by
  obtain ⟨slots, globals, locals⟩ := s
  cases locals <;> rfl

@[simp] theorem top_withSlots (s : Scope) (slots : Array Value) :
    ({ s with slots := slots } : Scope).top = s.top := rfl

@[simp] theorem outer_withSlots (s : Scope) (slots : Array Value) :
    ({ s with slots := slots } : Scope).outer = s.outer := rfl

/-- A scope with frames below the innermost one has pushed it. -/
theorem locals_eq_of_outer {s : Scope} {frames : List Frame} {globals : Frame}
    (h : s.outer = frames ++ [globals]) : s.locals = s.top :: frames ∧ s.globals = globals := by
  obtain ⟨slots, g, locals⟩ := s
  cases locals with
  | nil => simp [outer] at h
  | cons frame rest =>
    obtain ⟨rfl, hg⟩ := List.append_inj' h rfl
    obtain rfl : g = globals := List.singleton_inj.mp hg
    exact ⟨rfl, rfl⟩

end Scope

/-! ## Growing frames -/

/-- **A frame that takes in variables and functions.**  Variables that are there keep their
handles; functions may get another definition. -/
structure Frame.Grows (f g : Frame) : Prop where
  base : g.base = f.base
  handles : f.handles <+: g.handles
  functions : f.functions.map Prod.fst <+: g.functions.map Prod.fst

namespace Frame.Grows

theorem refl (f : Frame) : f.Grows f := ⟨rfl, List.prefix_rfl, List.prefix_rfl⟩

theorem trans {f g h : Frame} (hfg : f.Grows g) (hgh : g.Grows h) : f.Grows h where
  base := hgh.base.trans hfg.base
  handles := hfg.handles.trans hgh.handles
  functions := hfg.functions.trans hgh.functions

end Frame.Grows

/-- Defining a function puts its name behind the others, unless it is there. -/
theorem prefix_map_fst_putEntry {α : Type} (name : String) (a : α) :
    ∀ entries : List (String × α),
      entries.map Prod.fst <+: (putEntry name a entries).map Prod.fst
  | [] => List.nil_prefix
  | (n, b) :: rest => by
      rw [putEntry]
      split
      · exact List.prefix_rfl
      · exact (List.prefix_cons_inj n).mpr (prefix_map_fst_putEntry name a rest)

/-! ## The two relations -/

namespace Scope

/-- **Every frame is as it was**, over as many slots. -/
structure Same (s t : Scope) : Prop where
  globals : t.globals = s.globals
  locals : t.locals = s.locals
  size : t.slots.size = s.slots.size

/-- **The frames below the innermost one are as they were**, and that one has only grown, by a slot
for each new variable. -/
structure Grows (s t : Scope) : Prop where
  outer : t.outer = s.outer
  top : s.top.Grows t.top
  size : t.slots.size + s.top.handles.length = s.slots.size + t.top.handles.length

theorem Same.refl (s : Scope) : s.Same s := ⟨rfl, rfl, rfl⟩

theorem Same.trans {s t u : Scope} (hst : s.Same t) (htu : t.Same u) : s.Same u where
  globals := htu.globals.trans hst.globals
  locals := htu.locals.trans hst.locals
  size := htu.size.trans hst.size

theorem Grows.refl (s : Scope) : s.Grows s := ⟨rfl, .refl _, rfl⟩

/-- **What grows twice has grown**, by the slots of both. -/
theorem Grows.trans {s t u : Scope} (hst : s.Grows t) (htu : t.Grows u) : s.Grows u where
  outer := htu.outer.trans hst.outer
  top := hst.top.trans htu.top
  size := by
    have h1 := hst.size
    have h2 := htu.size
    omega

/-- A scope that is the same has grown by nothing. -/
theorem Same.grows {s t : Scope} (h : s.Same t) : s.Grows t := by
  have htop : t.top = s.top := by rw [Scope.top, Scope.top, h.locals, h.globals]
  refine ⟨?_, htop ▸ .refl _, ?_⟩
  · rw [Scope.outer, Scope.outer, h.locals, h.globals]
  · rw [htop, h.size]

/-- New contents for a slot leave the frames the same. -/
theorem same_setIfInBounds (s : Scope) (handle : Nat) (v : Value) :
    s.Same { s with slots := s.slots.setIfInBounds handle v } :=
  ⟨rfl, rfl, Array.size_setIfInBounds⟩

/-- **Declaring a name** grows the scope: a slot is added exactly when the innermost frame did not
know the name. -/
theorem grows_declare (name : String) (v : Value) (s : Scope) : s.Grows (s.declare name v).2 := by
  unfold declare
  split
  · exact (same_setIfInBounds s _ v).grows
  · refine ⟨by simp, ⟨by simp, by simp, by simp⟩, ?_⟩
    simp only [top_withSlots, top_modifyTop, Array.size_push, List.length_append,
      List.length_singleton]
    omega

/-- An assignment changes a slot and no frame. -/
theorem same_set {name : String} {v : Value} {s t : Scope} (h : s.set name v = .ok t) :
    s.Same t := by
  unfold set at h
  split at h
  · cases h
    exact same_setIfInBounds s _ v
  · cases h

/-- A function goes to the innermost frame and takes no slot. -/
theorem grows_declareFunction (name : String) (d : Definition) (s : Scope) :
    s.Grows (s.declareFunction name d) := by
  refine ⟨outer_modifyTop _ s, ?_, ?_⟩
  · rw [declareFunction, top_modifyTop]
    exact ⟨rfl, List.prefix_rfl, prefix_map_fst_putEntry name d _⟩
  · rw [declareFunction, top_modifyTop, slots_modifyTop]

/-- A frame that was pushed is there to be popped. -/
theorem Grows.pop_eq {s t : Scope} (h : s.push.Grows t) : t.pop = .ok t.drop := by
  obtain ⟨hlocals, -⟩ := locals_eq_of_outer (h.outer.trans (outer_push s))
  rw [pop, hlocals]
  rfl

/-- **A frame of its own leaves no trace**: what has grown in a pushed frame goes with it. -/
theorem Grows.same_drop {s t : Scope} (h : s.push.Grows t) : s.Same t.drop := by
  obtain ⟨hlocals, hglobals⟩ := locals_eq_of_outer (h.outer.trans (outer_push s))
  have hbase : t.top.base = s.slots.size := h.top.base
  have hsize : t.slots.size = s.slots.size + t.top.handles.length := h.size
  have hdrop : t.drop = { t with slots := t.slots.shrink t.top.base, locals := s.locals } := by
    rw [drop, hlocals]
  rw [hdrop]
  refine ⟨hglobals, rfl, ?_⟩
  rw [Array.size_shrink, hbase]
  omega

end Scope

end Scrawl
