import Mathlib.Logic.Basic
import Scrawl.Proofs.Scope.Frames

/-!
# Proofs/Scope/Layers — a scope is a stack of maps

`Layers` is the plain picture of a scope: maps from names to values and functions, one on top of the
other, with no slots and no handles.  `Layers.arena` lays the maps out over slots, each above the
one below it, and every request to layers is answered as their arena answers it
(`Layers.arena_perform`).  So a scope that starts empty is an arena at all times, and what it says
and what its slots hold is what the layers say and hold (`scope_refines_layers`).
-/

namespace Scrawl

/-! ## Places in lists of entries -/

section

variable {α : Type} {name : String}

/-- The place of a name among entries; that behind the last if there is none. -/
def entryPlace (name : String) (entries : List (String × α)) : Nat :=
  entries.findIdx (name == ·.1)

/-- Entries with numbers in place of what their names stand for. -/
def numberFrom : Nat → List (String × α) → List (String × Nat)
  | _, [] => []
  | k, (n, _) :: rest => (n, k) :: numberFrom (k + 1) rest

theorem entryPlace_cons_self (a : α) (rest : List (String × α)) :
    entryPlace name ((name, a) :: rest) = 0 := by
  simp [entryPlace, List.findIdx_cons]

theorem entryPlace_cons_ne {n : String} (h : n ≠ name) (a : α) (rest : List (String × α)) :
    entryPlace name ((n, a) :: rest) = entryPlace name rest + 1 := by
  simp [entryPlace, List.findIdx_cons, beq_false_of_ne h.symm]

/-- A name is looked up by its place. -/
theorem lookup_eq_getElem?_entryPlace : ∀ entries : List (String × α),
    entries.lookup name = (entries.map Prod.snd)[entryPlace name entries]?
  | [] => rfl
  | (n, a) :: rest => by
      by_cases h : n = name
      · subst h
        simp [entryPlace_cons_self]
      · rw [List.lookup_cons, beq_false_of_ne (Ne.symm h), lookup_eq_getElem?_entryPlace rest,
          entryPlace_cons_ne h, List.map_cons, List.getElem?_cons_succ]

theorem isSome_lookup (entries : List (String × α)) :
    (entries.lookup name).isSome ↔ entryPlace name entries < entries.length := by
  simp [lookup_eq_getElem?_entryPlace]

/-- **A name that is there has the number of its place.** -/
theorem lookup_numberFrom : ∀ (k : Nat) (entries : List (String × α)),
    (numberFrom k entries).lookup name =
      if entryPlace name entries < entries.length then some (k + entryPlace name entries) else none
  | _, [] => rfl
  | k, (n, a) :: rest => by
      by_cases h : n = name
      · subst h
        simp [numberFrom, entryPlace_cons_self]
      · rw [numberFrom, List.lookup_cons, beq_false_of_ne (Ne.symm h),
          lookup_numberFrom (k + 1) rest, entryPlace_cons_ne h]
        simp [Nat.add_assoc, Nat.add_comm 1]

theorem lookup_numberFrom_eq_none (k : Nat) (entries : List (String × α)) :
    (numberFrom k entries).lookup name = none ↔ entries.lookup name = none := by
  rw [← Option.not_isSome_iff_eq_none (o := entries.lookup name), isSome_lookup, lookup_numberFrom]
  simp

/-- An entry is replaced in its place, or added at the end. -/
theorem map_snd_putEntry (a : α) : ∀ entries : List (String × α),
    (putEntry name a entries).map Prod.snd =
      if entryPlace name entries < entries.length
      then (entries.map Prod.snd).set (entryPlace name entries) a
      else entries.map Prod.snd ++ [a]
  | [] => rfl
  | (n, b) :: rest => by
      by_cases h : n = name
      · subst h
        simp [putEntry, entryPlace_cons_self]
      · rw [putEntry, if_neg h, List.map_cons, map_snd_putEntry a rest, entryPlace_cons_ne h]
        by_cases hlt : entryPlace name rest < rest.length <;> simp [hlt]

/-- Replacing an entry leaves the numbers as they are. -/
theorem numberFrom_putEntry (a : α) : ∀ (k : Nat) (entries : List (String × α)),
    numberFrom k (putEntry name a entries) =
      if entryPlace name entries < entries.length then numberFrom k entries
      else numberFrom k entries ++ [(name, k + entries.length)]
  | _, [] => rfl
  | k, (n, b) :: rest => by
      by_cases h : n = name
      · subst h
        simp [putEntry, numberFrom, entryPlace_cons_self]
      · rw [putEntry, if_neg h, numberFrom, numberFrom_putEntry a (k + 1) rest,
          entryPlace_cons_ne h]
        by_cases hlt : entryPlace name rest < rest.length <;>
          simp [hlt, numberFrom, Nat.add_assoc, Nat.add_comm 1]

end

/-! ## Layers -/

/-- **A map of variables and one of functions.** -/
structure Layer where
  bindings : List (String × Value)
  functions : List (String × Definition)
deriving Inhabited

/-- A layer in which a name has a value. -/
def Layer.bind (name : String) (v : Value) (l : Layer) : Layer :=
  { l with bindings := putEntry name v l.bindings }

/-- **Layers on top of each other**, with a global one at the bottom. -/
inductive Layers where
  | global (l : Layer)
  | inner (l : Layer) (below : Layers)
deriving Inhabited

namespace Layers

/-- The global layer alone, with nothing in it. -/
def empty : Layers := .global ⟨[], []⟩

/-- The innermost layer. -/
def top : Layers → Layer
  | .global l => l
  | .inner l _ => l

/-- A change of the innermost layer. -/
def modifyTop (f : Layer → Layer) : Layers → Layers
  | .global l => .global (f l)
  | .inner l below => .inner (f l) below

/-- How many variables there are. -/
def size : Layers → Nat
  | .global l => l.bindings.length
  | .inner l below => below.size + l.bindings.length

/-- How many variables there are below the innermost layer. -/
def sizeBelow : Layers → Nat
  | .global _ => 0
  | .inner _ below => below.size

/-- The first answer of a layer, from the innermost outwards. -/
def search {α : Type} (f : Layer → Option α) : Layers → Option α
  | .global l => f l
  | .inner l below => (f l).or (below.search f)

/-- The layers with a new value for the innermost variable of a name, if there is one. -/
def assign? (name : String) (v : Value) : Layers → Option Layers
  | .global l =>
    if (l.bindings.lookup name).isSome then some (.global (l.bind name v)) else none
  | .inner l below =>
    if (l.bindings.lookup name).isSome then some (.inner (l.bind name v) below)
    else (below.assign? name v).map (.inner l)

/-- Pops the innermost layer, which must not be the global one. -/
def pop : Layers → Except Fault Layers
  | .global _ => .error .globalFrame
  | .inner _ below => .ok below

/-- The value of a name. -/
def get (name : String) (a : Layers) : Except Fault Value :=
  match a.search (·.bindings.lookup name) with
  | some v => .ok v
  | none => .error (.undefined .variable name)

/-- Gives the innermost variable of a name a new value. -/
def set (name : String) (v : Value) (a : Layers) : Except Fault Layers :=
  match a.assign? name v with
  | some b => .ok b
  | none => .error (.undefined .variable name)

end Layers

/-! ## Requests -/

/-- **What can be asked of a scope.** -/
inductive Request where
  | push
  | pop
  | declare (name : String) (v : Value)
  | get (name : String)
  | set (name : String) (v : Value)
  | declareFunction (name : String) (d : Definition)
  | getFunction (name : String)

/-- What a request that is met gives back. -/
inductive Answer where
  | done
  | handle (n : Nat)
  | value (v : Value)
  | function (d : Option Definition)

/-- A change that may fail, with what was there before as the outcome of a failure. -/
def orKeep {σ : Type} (s : σ) : Except Fault σ → Except Fault Answer × σ
  | .ok t => (.ok .done, t)
  | .error e => (.error e, s)

/-- **A request to a scope**; one that fails leaves the scope as it was. -/
def Scope.perform (s : Scope) : Request → Except Fault Answer × Scope
  | .push => (.ok .done, s.push)
  | .pop => orKeep s s.pop
  | .declare name v => (.ok (.handle (s.declare name v).1), (s.declare name v).2)
  | .get name => ((s.get name).map .value, s)
  | .set name v => orKeep s (s.set name v)
  | .declareFunction name d => (.ok .done, s.declareFunction name d)
  | .getFunction name => (.ok (.function (s.getFunction? name)), s)

/-- **The same request to layers.**  Variables are numbered from the bottom up, in the order in
which the names of a layer first came. -/
def Layers.perform (a : Layers) : Request → Except Fault Answer × Layers
  | .push => (.ok .done, .inner ⟨[], []⟩ a)
  | .pop => orKeep a a.pop
  | .declare name v =>
    (.ok (.handle (a.sizeBelow + entryPlace name a.top.bindings)), a.modifyTop (.bind name v))
  | .get name => ((a.get name).map .value, a)
  | .set name v => orKeep a (a.set name v)
  | .declareFunction name d =>
    (.ok .done, a.modifyTop fun l => { l with functions := putEntry name d l.functions })
  | .getFunction name => (.ok (.function (a.search (·.functions.lookup name))), a)

/-! ## Arenas -/

/-- The frame of a layer, with its variables in the slots from a base on. -/
def Layer.frame (base : Nat) (l : Layer) : Frame :=
  ⟨base, numberFrom base l.bindings, l.functions⟩

/-- A scope with another value in a slot. -/
def Scope.store (handle : Nat) (v : Value) (s : Scope) : Scope :=
  { s with slots := s.slots.setIfInBounds handle v }

namespace Layers

variable {α : Type} {name : String} {l : Layer} {below : Layers}

/-- All values, from the bottom up. -/
def values : Layers → List Value
  | .global l => l.bindings.map Prod.snd
  | .inner l below => below.values ++ l.bindings.map Prod.snd

/-- The frame of the global layer. -/
def globals : Layers → Frame
  | .global l => l.frame 0
  | .inner _ below => below.globals

/-- The frames of the other layers, innermost first. -/
def locals : Layers → List Frame
  | .global _ => []
  | .inner l below => l.frame below.size :: below.locals

/-- **Layers laid out over slots.** -/
def arena (a : Layers) : Scope := ⟨a.values.toArray, a.globals, a.locals⟩

@[simp] theorem length_values : ∀ a : Layers, a.values.length = a.size
  | .global l => by rw [values, List.length_map, size]
  | .inner l below => by rw [values, List.length_append, length_values below, List.length_map, size]

@[simp] theorem size_slots_arena (a : Layers) : a.arena.slots.size = a.size := by
  rw [arena, List.size_toArray, length_values]

@[simp] theorem top_arena : ∀ a : Layers, a.arena.top = a.top.frame a.sizeBelow
  | .global _ => rfl
  | .inner _ _ => rfl

theorem size_eq : ∀ a : Layers, a.size = a.sizeBelow + a.top.bindings.length
  | .global _ => (Nat.zero_add _).symm
  | .inner _ _ => rfl

/-- A search through an arena starts with the innermost frame. -/
theorem search_arena_inner (f : Frame → Option α) :
    (inner l below).arena.search f = (f (l.frame below.size)).or (below.arena.search f) := by
  rw [Scope.search, Scope.search]
  change (List.findSome? f (l.frame below.size :: below.locals)).or (f below.globals) =
    (f (l.frame below.size)).or ((below.locals.findSome? f).or (f below.globals))
  rw [List.findSome?_cons]
  cases f (l.frame below.size) <;> rfl

/-- **Functions** are found in an arena where they are in the layers. -/
theorem search_arena {f : Frame → Option α} {g : Layer → Option α}
    (h : ∀ base l, f (l.frame base) = g l) : ∀ a : Layers, a.arena.search f = a.search g
  | .global l => h 0 l
  | .inner l below => by rw [search_arena_inner, search_arena h below, h, search]

/-- A frame pushed is an empty layer on top. -/
theorem push_arena (a : Layers) : a.arena.push = (inner ⟨[], []⟩ a).arena := by
  rw [Scope.push, size_slots_arena]
  simp [arena, values, globals, locals, Layer.frame, numberFrom, Frame.empty]

/-- **Dropping a frame** cuts off the slots of its layer and no others. -/
theorem drop_arena (l : Layer) (below : Layers) : (inner l below).arena.drop = below.arena := by
  have hslots : (inner l below).values.toArray.shrink below.size = below.values.toArray := by
    apply Array.toList_inj.mp
    rw [Array.toList_shrink, values, ← length_values below]
    simp
  rw [Scope.drop]
  change Scope.mk ((inner l below).values.toArray.shrink below.size) below.globals below.locals = _
  rw [hslots, arena]

/-- A variable that is there gets a value in its slot. -/
theorem arena_bind (v : Value) : ∀ a : Layers,
    entryPlace name a.top.bindings < a.top.bindings.length →
      (a.modifyTop (.bind name v)).arena =
        a.arena.store (a.sizeBelow + entryPlace name a.top.bindings) v
  | .global l, h => by
      have h : entryPlace name l.bindings < l.bindings.length := h
      simp [modifyTop, arena, values, globals, locals, Layer.frame, Layer.bind, top, sizeBelow,
        map_snd_putEntry, numberFrom_putEntry, h, Scope.store]
  | .inner l below, h => by
      have h : entryPlace name l.bindings < l.bindings.length := h
      simp [modifyTop, arena, values, globals, locals, Layer.frame, Layer.bind, top, sizeBelow,
        map_snd_putEntry, numberFrom_putEntry, h, Scope.store]

/-- …and one that is new gets a slot of its own at the end. -/
theorem arena_bind_new (v : Value) : ∀ a : Layers,
    ¬ entryPlace name a.top.bindings < a.top.bindings.length →
      (a.modifyTop (.bind name v)).arena = { a.arena.modifyTop fun frame =>
          { frame with handles :=
            frame.handles ++ [(name, a.sizeBelow + a.top.bindings.length)] } with
        slots := a.arena.slots.push v }
  | .global l, h => by
      have h : ¬ entryPlace name l.bindings < l.bindings.length := h
      simp [modifyTop, arena, values, globals, locals, Layer.frame, Layer.bind, top, sizeBelow,
        map_snd_putEntry, numberFrom_putEntry, h, Scope.modifyTop]
  | .inner l below, h => by
      have h : ¬ entryPlace name l.bindings < l.bindings.length := h
      simp [modifyTop, arena, values, globals, locals, Layer.frame, Layer.bind, top, sizeBelow,
        map_snd_putEntry, numberFrom_putEntry, h, Scope.modifyTop]

/-- **Declaring a name** in an arena: a variable that is new gets a slot at the end. -/
theorem declare_arena (name : String) (v : Value) (a : Layers) :
    a.arena.declare name v = (a.sizeBelow + entryPlace name a.top.bindings,
      (a.modifyTop (.bind name v)).arena) := by
  have hlookup : a.arena.top.handles.lookup name = _ :=
    (congrArg (·.handles.lookup name) (top_arena a)).trans (lookup_numberFrom _ _)
  by_cases h : entryPlace name a.top.bindings < a.top.bindings.length
  · rw [if_pos h] at hlookup
    rw [Scope.declare, hlookup, arena_bind v a h]
    rfl
  · rw [if_neg h] at hlookup
    have hplace : entryPlace name a.top.bindings = a.top.bindings.length :=
      Nat.le_antisymm List.findIdx_le_length (Nat.le_of_not_lt h)
    rw [Scope.declare, hlookup]
    dsimp only
    rw [size_slots_arena, size_eq, hplace]
    exact Prod.ext rfl (arena_bind_new v a h).symm

/-- The slot of the innermost variable of a name. -/
def place? (name : String) : Layers → Option Nat
  | .global l =>
    if entryPlace name l.bindings < l.bindings.length then some (entryPlace name l.bindings)
    else none
  | .inner l below =>
    (if entryPlace name l.bindings < l.bindings.length
      then some (below.size + entryPlace name l.bindings) else none).or (below.place? name)

/-- **A handle is the place of a name**, counted from the bottom. -/
theorem resolve?_arena (name : String) : ∀ a : Layers, a.arena.resolve? name = a.place? name
  | .global l => by
      change (numberFrom 0 l.bindings).lookup name = _
      rw [lookup_numberFrom, Nat.zero_add, place?]
  | .inner l below => by
      rw [Scope.resolve?, search_arena_inner]
      change ((numberFrom below.size l.bindings).lookup name).or (below.arena.resolve? name) = _
      rw [lookup_numberFrom, resolve?_arena name below, place?]

theorem place?_lt : ∀ {a : Layers} {handle : Nat}, a.place? name = some handle → handle < a.size
  | .global l, handle, h => by
      rw [place?] at h
      split at h
      · obtain rfl := Option.some.inj h
        assumption
      · cases h
  | .inner l below, handle, h => by
      rw [place?] at h
      split at h
      · obtain rfl := Option.some.inj h
        rw [size]
        omega
      · have := place?_lt h
        rw [size]
        omega

/-- The content of a name's slot is its value. -/
theorem getElem?_place? (name : String) : ∀ a : Layers,
    (a.place? name).bind (a.values[·]?) = a.search (·.bindings.lookup name)
  | .global l => by
      rw [place?, search, lookup_eq_getElem?_entryPlace, values]
      split
      · rfl
      · rename_i h
        rw [List.getElem?_eq_none (by simpa using h)]
        rfl
  | .inner l below => by
      rw [place?, search, lookup_eq_getElem?_entryPlace, ← getElem?_place? name below, values]
      split
      · rename_i h
        have hlt : entryPlace name l.bindings < (l.bindings.map Prod.snd).length := by simpa using h
        rw [List.getElem?_eq_getElem hlt]
        simp [h]
      · rename_i h
        rw [List.getElem?_eq_none (by simpa using h), Option.none_or, Option.none_or]
        refine Option.bind_congr fun handle hh => ?_
        rw [List.getElem?_append_left (by simpa using place?_lt hh)]

/-- The value of a name in an arena is its value in the layers. -/
theorem get_arena (name : String) (a : Layers) : a.arena.get name = a.get name := by
  have hslots : (a.place? name).bind (a.arena.slots[·]?) = a.search (·.bindings.lookup name) := by
    simp only [← getElem?_place?, arena, List.getElem?_toArray]
  rcases h : a.search (·.bindings.lookup name) with _ | v
  · rw [Scope.get, resolve?_arena, hslots, get, h]
  · rw [Scope.get, resolve?_arena, hslots, get, h]

/-- Another value below the innermost layer leaves the frame and the slots of that layer alone. -/
theorem arena_inner_store {b : Layers} {handle : Nat} {v : Value} (hlt : handle < below.size)
    (h : b.arena = below.arena.store handle v) :
    (inner l b).arena = (inner l below).arena.store handle v := by
  obtain ⟨hslots, hglobals, hlocals⟩ := Scope.mk.inj h
  have hvalues : b.values = below.values.set handle v := by
    have hlist := congrArg Array.toList hslots
    simpa [arena] using hlist
  have hsize : b.size = below.size := by
    rw [← length_values, hvalues, List.length_set, length_values]
  have hset : (below.values ++ l.bindings.map Prod.snd).set handle v =
      below.values.set handle v ++ l.bindings.map Prod.snd :=
    List.set_append_left _ _ (by simpa using hlt)
  have hg : b.globals = below.globals := hglobals
  have hl : b.locals = below.locals := hlocals
  simp [arena, Scope.store, values, globals, locals, hvalues, hsize, hset, hg, hl]

/-- **Giving a name a new value** in an arena: the slot of its innermost variable gets it. -/
theorem assign?_arena (v : Value) : ∀ {a : Layers} {handle : Nat}, a.place? name = some handle →
    ∃ b, a.assign? name v = some b ∧ b.arena = a.arena.store handle v
  | .global l, handle, h => by
      rw [place?] at h
      split at h
      · rename_i hlt
        obtain rfl := Option.some.inj h
        refine ⟨.global (l.bind name v), ?_, ?_⟩
        · rw [assign?, if_pos ((isSome_lookup _).mpr hlt)]
        · rw [← Nat.zero_add (entryPlace name l.bindings)]
          exact arena_bind v (.global l) hlt
      · cases h
  | .inner l below, handle, h => by
      rw [place?] at h
      split at h
      · rename_i hlt
        obtain rfl := Option.some.inj h
        refine ⟨.inner (l.bind name v) below, ?_, arena_bind v (.inner l below) hlt⟩
        rw [assign?, if_pos ((isSome_lookup _).mpr hlt)]
      · rename_i hlt
        rw [Option.none_or] at h
        obtain ⟨b, hb, harena⟩ := assign?_arena v h
        refine ⟨.inner l b, ?_, arena_inner_store (place?_lt h) harena⟩
        rw [assign?, if_neg (mt (isSome_lookup _).mp hlt), hb]
        rfl

theorem assign?_eq_none (v : Value) : ∀ {a : Layers}, a.place? name = none →
    a.assign? name v = none
  | .global l, h => by
      rw [place?] at h
      split at h
      · cases h
      · rename_i hlt
        rw [assign?, if_neg (mt (isSome_lookup _).mp hlt)]
  | .inner l below, h => by
      rw [place?] at h
      split at h
      · cases h
      · rename_i hlt
        rw [assign?, if_neg (mt (isSome_lookup _).mp hlt), assign?_eq_none v h]
        rfl

/-- **An assignment in an arena is one in the layers.** -/
theorem set_arena (name : String) (v : Value) (a : Layers) :
    a.arena.set name v = (a.set name v).map arena := by
  rw [Scope.set, resolve?_arena, set]
  cases h : a.place? name with
  | none =>
    rw [assign?_eq_none v h]
    rfl
  | some handle =>
    obtain ⟨b, hb, harena⟩ := assign?_arena v h
    rw [hb]
    exact congrArg Except.ok harena.symm

/-- A frame popped is the top layer gone. -/
theorem pop_arena : ∀ a : Layers, a.arena.pop = a.pop.map arena
  | .global _ => rfl
  | .inner l below => congrArg Except.ok (drop_arena l below)

theorem declareFunction_arena (name : String) (d : Definition) : ∀ a : Layers,
    a.arena.declareFunction name d =
      (a.modifyTop fun l => { l with functions := putEntry name d l.functions }).arena
  | .global _ => rfl
  | .inner _ _ => rfl

theorem getFunction?_arena (name : String) (a : Layers) :
    a.arena.getFunction? name = a.search (·.functions.lookup name) :=
  search_arena (fun _ _ => rfl) a

/-- **Layers answer every request as their arena does.** -/
theorem arena_perform (a : Layers) (o : Request) :
    a.arena.perform o = ((a.perform o).1, (a.perform o).2.arena) := by
  have hkeep (x : Except Fault Layers) :
      orKeep a.arena (x.map arena) = ((orKeep a x).1, (orKeep a x).2.arena) := by
    cases x <;> rfl
  rcases o with _ | _ | ⟨name, v⟩ | name | ⟨name, v⟩ | ⟨name, d⟩ | name
  · rw [Scope.perform, push_arena]
    rfl
  · rw [Scope.perform, pop_arena, hkeep]
    rfl
  · rw [Scope.perform, declare_arena]
    rfl
  · rw [Scope.perform, get_arena]
    rfl
  · rw [Scope.perform, set_arena, hkeep]
    rfl
  · rw [Scope.perform, declareFunction_arena]
    rfl
  · rw [Scope.perform, getFunction?_arena]
    rfl

end Layers

/-! ## The layers of a scope -/

/-- **The layer of a frame**: each name with the content of its slot; none if a slot is missing. -/
def Frame.layer? (slots : Array Value) (f : Frame) : Option Layer :=
  (f.handles.mapM fun entry => slots[entry.2]?.map (entry.1, ·)).map (⟨·, f.functions⟩)

/-- The layers of the local frames on top of that of the global one. -/
def layersOf (slots : Array Value) (globals : Frame) : List Frame → Option Layers
  | [] => (globals.layer? slots).map .global
  | frame :: rest => do return .inner (← frame.layer? slots) (← layersOf slots globals rest)

/-- **The layers of a scope.** -/
def Scope.layers? (s : Scope) : Option Layers := layersOf s.slots s.globals s.locals

theorem mapM_numberFrom (slots : Array Value) : ∀ (k : Nat) (entries : List (String × Value)),
    (∀ i, i < entries.length → slots[k + i]? = (entries.map Prod.snd)[i]?) →
      (numberFrom k entries).mapM (fun entry => slots[entry.2]?.map (entry.1, ·)) = some entries
  | _, [], _ => rfl
  | k, (n, v) :: rest, h => by
      have hfirst : slots[k]? = some v := h 0 (Nat.succ_pos _)
      have hrest := mapM_numberFrom slots (k + 1) rest fun i hi => by
        have := h (i + 1) (Nat.succ_lt_succ hi)
        rwa [← Nat.add_assoc, Nat.add_right_comm] at this
      rw [numberFrom, List.mapM_cons, hfirst, hrest]
      rfl

theorem Layer.layer?_frame {slots : Array Value} {base : Nat} {l : Layer}
    (h : ∀ i, i < l.bindings.length → slots[base + i]? = (l.bindings.map Prod.snd)[i]?) :
    (l.frame base).layer? slots = some l := by
  rw [Frame.layer?, Layer.frame, mapM_numberFrom slots base l.bindings h]
  rfl

/-- Slots that hold the values of layers hold those of the layers below, and above them those of the
innermost one. -/
theorem Layers.getElem?_values_inner {slots : Array Value} {l : Layer} {below : Layers}
    (h : ∀ i, i < (inner l below).size → slots[i]? = (inner l below).values[i]?) :
    (∀ i, i < below.size → slots[i]? = below.values[i]?) ∧
      ∀ i, i < l.bindings.length → slots[below.size + i]? = (l.bindings.map Prod.snd)[i]? := by
  refine ⟨fun i hi => ?_, fun i hi => ?_⟩
  · rw [h i (Nat.lt_add_right _ hi), values, List.getElem?_append_left (by simpa using hi)]
  · rw [h _ (Nat.add_lt_add_left hi _), values, List.getElem?_append_right (by simp),
      length_values, Nat.add_sub_cancel_left]

/-- The layers can be read off an arena. -/
theorem Layers.layersOf_eq {slots : Array Value} : ∀ {a : Layers},
    (∀ i, i < a.size → slots[i]? = a.values[i]?) → layersOf slots a.globals a.locals = some a
  | .global l, h => by
      have hlayer : (l.frame 0).layer? slots = some l :=
        Layer.layer?_frame fun i hi => by rw [Nat.zero_add]; exact h i hi
      rw [globals, locals, layersOf, hlayer]
      rfl
  | .inner l below, h => by
      obtain ⟨hbelow, hl⟩ := getElem?_values_inner h
      rw [globals, locals, layersOf, Layer.layer?_frame hl, Layers.layersOf_eq hbelow]
      rfl

/-- **An arena has the layers it was made of.** -/
theorem Layers.layers?_arena (a : Layers) : a.arena.layers? = some a :=
  layersOf_eq fun _ _ => List.getElem?_toArray

/-! ## Runs of requests -/

/-- **A run of requests**: after each, its outcome and the state. -/
def history {σ : Type} (perform : σ → Request → Except Fault Answer × σ) :
    σ → List Request → List (Except Fault Answer × σ)
  | _, [] => []
  | s, o :: rest => perform s o :: history perform (perform s o).2 rest

/-- The state after a run. -/
def Scope.after (requests : List Request) : Scope :=
  requests.foldl (fun s o => (s.perform o).2) .empty

/-- **A run on an arena** goes through the arenas of the run on its layers. -/
theorem history_arena : ∀ (requests : List Request) (a : Layers),
    history Scope.perform a.arena requests =
      (history Layers.perform a requests).map fun r => (r.1, r.2.arena)
  | [], _ => rfl
  | o :: rest, a => by
      rw [history, a.arena_perform o, history_arena rest, history, List.map_cons]

/-- …and ends in an arena. -/
theorem foldl_arena : ∀ (requests : List Request) (a : Layers),
    requests.foldl (fun s o => (s.perform o).2) a.arena =
      (requests.foldl (fun a o => (a.perform o).2) a).arena
  | [], _ => rfl
  | o :: rest, a => by
      rw [List.foldl_cons, a.arena_perform o, foldl_arena rest, List.foldl_cons]

/-- **Requests leave an arena behind**, that of the layers they leave. -/
theorem Scope.after_eq_arena (requests : List Request) :
    after requests = (requests.foldl (fun a o => (a.perform o).2) Layers.empty).arena :=
  foldl_arena requests .empty

/-- One run after the other. -/
theorem Scope.after_append {requests : List Request} {a : Layers}
    (h : after requests = a.arena) (more : List Request) :
    after (requests ++ more) = (more.foldl (fun a o => (a.perform o).2) a).arena := by
  rw [after, List.foldl_append]
  change more.foldl _ (after requests) = _
  rw [h, foldl_arena]

/-! ## What a pop uncovers -/

/-- An entry is found under its own name only. -/
theorem lookup_putEntry {α : Type} (name other : String) (a : α) : ∀ entries : List (String × α),
    (putEntry name a entries).lookup other =
      if other = name then some a else entries.lookup other
  | [] => by
      rw [putEntry, List.lookup_cons]
      by_cases h : other = name
      · simp [h]
      · simp [h, beq_false_of_ne h]
  | (n, b) :: rest => by
      rw [putEntry]
      split
      · rename_i hn
        subst hn
        by_cases h : other = n
        · simp [h]
        · simp [h, List.lookup_cons, beq_false_of_ne h]
      · rename_i hn
        rw [List.lookup_cons, List.lookup_cons, lookup_putEntry name other a rest]
        by_cases h : other = n
        · subst h
          simp [hn]
        · simp [beq_false_of_ne h]

namespace Layers

variable {name : String} {v : Value}

/-- A name bound on top is found first. -/
theorem search_bind (other : String) : ∀ a : Layers,
    (a.modifyTop (.bind name v)).search (·.bindings.lookup other) =
      if other = name then some v else a.search (·.bindings.lookup other)
  | .global l => lookup_putEntry name other v l.bindings
  | .inner l below => by
      change ((putEntry name v l.bindings).lookup other).or _ = _
      rw [lookup_putEntry, search]
      split <;> rfl

/-- **A new value for a name** is the value of that name and of no other. -/
theorem search_assign? (other : String) : ∀ {a b : Layers}, a.assign? name v = some b →
    b.search (·.bindings.lookup other) =
      if other = name then some v else a.search (·.bindings.lookup other)
  | .global l, b, h => by
      rw [assign?] at h
      split at h
      · obtain rfl := Option.some.inj h
        exact search_bind other (.global l)
      · cases h
  | .inner l below, b, h => by
      rw [assign?] at h
      split at h
      · obtain rfl := Option.some.inj h
        exact search_bind other (.inner l below)
      · rename_i hnone
        obtain ⟨b', hb', rfl⟩ := Option.map_eq_some_iff.mp h
        rw [search, search, search_assign? other hb']
        by_cases hother : other = name
        · rw [if_pos hother, if_pos hother, hother, Option.not_isSome_iff_eq_none.mp hnone,
            Option.none_or]
        · rw [if_neg hother, if_neg hother]

theorem get_eq_of_search {other : String} {a b : Layers}
    (h : b.search (·.bindings.lookup other) =
      if other = name then some v else a.search (·.bindings.lookup other)) :
    b.get other = if other = name then .ok v else a.get other := by
  rw [get, get, h]
  by_cases hother : other = name
  · rw [if_pos hother, if_pos hother]
  · rw [if_neg hother, if_neg hother]

/-- **An assignment is seen under its own name only**, in whichever layer it lands. -/
theorem get_assign? (other : String) {a b : Layers} (h : a.assign? name v = some b) :
    b.get other = if other = name then .ok v else a.get other :=
  get_eq_of_search (search_assign? other h)

/-- **A name bound in the innermost layer** has its value, and every other name the one it had. -/
theorem get_bind (other : String) (a : Layers) :
    (a.modifyTop (.bind name v)).get other = if other = name then .ok v else a.get other :=
  get_eq_of_search (search_bind other a)

end Layers

/-- **What a pop uncovers after a new value for a name**: the layers below, in which the name has
the new value if the innermost layer does not bind it and one of them does. -/
theorem Layers.get_set_pop (l : Layer) (below : Layers) (name : String) (v : Value)
    (other : String) :
    (((inner l below).perform (.set name v)).2.perform .pop).2.get other =
      if other = name ∧ l.bindings.lookup name = none ∧ ((inner l below).place? name).isSome
      then .ok v else below.get other := by
  have hset : ((inner l below).perform (.set name v)).2 =
      ((inner l below).assign? name v).getD (inner l below) := by
    rw [perform, set]
    cases (inner l below).assign? name v <;> rfl
  rw [hset, assign?]
  by_cases hl : (l.bindings.lookup name).isSome
  · rw [if_pos hl, if_neg fun h => by simp [h.2.1] at hl]
    rfl
  · have hplace : (inner l below).place? name = below.place? name := by
      rw [place?, if_neg (mt (isSome_lookup _).mpr hl), Option.none_or]
    rw [if_neg hl, hplace]
    cases hhandle : below.place? name with
    | none =>
      rw [assign?_eq_none v hhandle, if_neg (by simp)]
      rfl
    | some handle =>
      obtain ⟨b, hb, -⟩ := assign?_arena v hhandle
      rw [hb]
      change b.get other = _
      rw [get_assign? other hb]
      simp [Option.not_isSome_iff_eq_none.mp hl]

/-- **A scope does what a stack of maps does.**  For every run of requests from the empty scope,
each has the outcome that it has on layers, and leaves the scope with the same layers.

In particular, what a pop uncovers is what the frames below hold: a declaration in the innermost
frame does not change it, and a new value for a name does only if the name is not bound in that
frame, and then it is the value that the name has again. -/
theorem scope_refines_layers (requests : List Request) :
    ((history Scope.perform .empty requests).map fun r => (r.1, r.2.layers?)) =
        (history Layers.perform .empty requests).map (fun r => (r.1, some r.2)) ∧
      ((Scope.after requests).locals ≠ [] → ∀ name v other,
        (Scope.after (requests ++ [.declare name v, .pop])).get other =
            (Scope.after (requests ++ [.pop])).get other ∧
        (Scope.after (requests ++ [.set name v, .pop])).get other =
          if other = name ∧ (Scope.after requests).top.handles.lookup name = none ∧
              ((Scope.after requests).resolve? name).isSome then .ok v
          else (Scope.after (requests ++ [.pop])).get other) := by
  refine ⟨?_, fun hlocals name v other => ?_⟩
  · have hempty : Scope.empty = Layers.empty.arena := rfl
    rw [hempty, history_arena, List.map_map]
    refine List.map_congr_left fun r _ => ?_
    exact congrArg (r.1, ·) (Layers.layers?_arena r.2)
  · have hafter := Scope.after_eq_arena requests
    generalize requests.foldl (fun a o => (a.perform o).2) Layers.empty = a at hafter
    obtain l | ⟨l, below⟩ := a
    · rw [hafter] at hlocals
      exact absurd rfl hlocals
    · rw [Scope.after_append hafter, Scope.after_append hafter, Scope.after_append hafter,
        Layers.get_arena, Layers.get_arena, Layers.get_arena, hafter]
      refine ⟨rfl, ?_⟩
      refine (Layers.get_set_pop l below name v other).trans (if_congr ?_ rfl rfl)
      rw [Layers.resolve?_arena, ← lookup_numberFrom_eq_none below.size]
      exact Iff.rfl

/-- A shadowed variable reappears with the value that was last set through it. -/
theorem scope_refines_layers_shadowed :
    (Scope.after [.declare "x" (.int 1), .push, .set "x" (.int 2), .declare "x" (.int 3),
      .pop]).get "x" = .ok (.int 2) := by
  have hset := ((scope_refines_layers [.declare "x" (.int 1), .push]).2 (by nofun)
    "x" (.int 2) "x").2
  have hdeclare := ((scope_refines_layers [.declare "x" (.int 1), .push, .set "x" (.int 2)]).2
    (by nofun) "x" (.int 3) "x").1
  exact hdeclare.trans (hset.trans (if_pos ⟨rfl, rfl, rfl⟩))

end Scrawl
