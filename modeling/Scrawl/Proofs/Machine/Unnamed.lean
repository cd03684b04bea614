import Scrawl.Proofs.Machine.Faults
import Scrawl.Proofs.Machine.Pervasive

/-!
# Proofs/Machine/Unnamed — a variable that a program does not name

A global variable that came first takes the lowest slot, so that every other variable moves up by
one.  In the layers nothing moves: there is one entry more in the global one (`Layers.withGlobal`),
and every operation on other names commutes with adding it.  A run over other names therefore does
the same with it as without it (`Exec.pervasive_agrees`), and leaves it as it was
(`unnamed_global_unchanged`).
-/

namespace Scrawl

/-! ## Layers with one variable more -/

namespace Layers

/-- **Layers with one global variable more**, which comes before all others. -/
def withGlobal (x : String) (v : Value) : Layers → Layers
  | .global l => .global { l with bindings := (x, v) :: l.bindings }
  | .inner l below => .inner l (below.withGlobal x v)

variable {x y : String} {v w : Value}

/-- A variable more is no function more. -/
theorem search_functions_withGlobal (name : String) : ∀ a : Layers,
    (a.withGlobal x v).search (·.functions.lookup name) = a.search (·.functions.lookup name)
  | .global _ => rfl
  | .inner l below => congrArg (l.functions.lookup name).or (search_functions_withGlobal name below)

/-- **Another name is found where it was.** -/
theorem search_withGlobal (h : y ≠ x) : ∀ a : Layers,
    (a.withGlobal x v).search (·.bindings.lookup y) = a.search (·.bindings.lookup y)
  | .global l => by
      change List.lookup y ((x, v) :: l.bindings) = l.bindings.lookup y
      rw [List.lookup_cons, beq_false_of_ne h]
  | .inner l below => congrArg (l.bindings.lookup y).or (search_withGlobal h below)

theorem get_withGlobal (h : y ≠ x) (a : Layers) : (a.withGlobal x v).get y = a.get y := by
  rw [get, get, search_withGlobal h]

/-- Another name is bound as if the variable were not there. -/
theorem bind_withGlobal (h : y ≠ x) : ∀ a : Layers,
    (a.withGlobal x v).modifyTop (.bind y w) = (a.modifyTop (.bind y w)).withGlobal x v
  | .global l => by
      simp only [withGlobal, modifyTop, Layer.bind, putEntry, if_neg h.symm]
  | .inner _ _ => rfl

theorem declareFunction_withGlobal (name : String) (d : Definition) : ∀ a : Layers,
    (a.withGlobal x v).modifyTop (fun l => { l with functions := putEntry name d l.functions }) =
      (a.modifyTop fun l => { l with functions := putEntry name d l.functions }).withGlobal x v
  | .global _ => rfl
  | .inner _ _ => rfl

/-- An assignment to another name lands in the layer it would, or in none. -/
theorem assign?_withGlobal (h : y ≠ x) : ∀ a : Layers,
    (a.withGlobal x v).assign? y w = (a.assign? y w).map (withGlobal x v)
  | .global l => by
      rw [withGlobal, assign?, assign?, List.lookup_cons, beq_false_of_ne h]
      dsimp only
      split
      · exact congrArg some (bind_withGlobal h (.global l))
      · rfl
  | .inner l below => by
      rw [withGlobal, assign?, assign?, assign?_withGlobal h below]
      split
      · rfl
      · rw [Option.map_map, Option.map_map]
        rfl

theorem set_withGlobal (h : y ≠ x) (a : Layers) :
    (a.withGlobal x v).set y w = (a.set y w).map (withGlobal x v) := by
  rw [set, set, assign?_withGlobal h]
  cases a.assign? y w <;> rfl

end Layers

/-! ## Unwinding -/

namespace Layers

/-- The global layer alone. -/
def bottom : Layers → Layers
  | .global l => .global l
  | .inner _ below => below.bottom

/-- The variable stays when the layers above it go. -/
theorem bottom_withGlobal {x : String} {v : Value} : ∀ a : Layers,
    (a.withGlobal x v).bottom = a.bottom.withGlobal x v
  | .global _ => rfl
  | .inner _ below => below.bottom_withGlobal

theorem Defines.bottom {P : Definition → Prop} : ∀ {a : Layers}, a.Defines P → a.bottom.Defines P
  | .global _, h => h
  | .inner _ _, h => h.2.bottom

/-- A frame starts at a slot that is there, or at the next one. -/
theorem base_le_size : ∀ {a : Layers} {f : Frame}, f ∈ a.locals → f.base ≤ a.size
  | .inner l below, f, hf => by
      rw [size]
      rcases List.mem_cons.mp hf with rfl | hf
      · exact Nat.le_add_right _ _
      · exact Nat.le_add_right_of_le (base_le_size hf)

/-- **Unwinding an arena** cuts off the slots of all layers but the global one. -/
theorem unwind_arena (a : Layers) : a.arena.unwind = a.bottom.arena := by
  induction a with
  | global l => rfl
  | inner l below ih =>
    rw [bottom, ← ih]
    cases hlast : below.locals.getLast? with
    | none =>
      cases below with
      | global l' => exact drop_arena l (.global l')
      | inner l' below => cases List.getLast?_eq_none_iff.mp hlast
    | some f =>
      -- The frame that came first is one of those below, so its base is among their slots.
      have hbase : f.base ≤ below.values.length := by
        rw [length_values]
        exact base_le_size (List.mem_of_getLast? hlast)
      have hslots : (inner l below).values.toArray.shrink f.base =
          below.values.toArray.shrink f.base := by
        apply Array.toList_inj.mp
        simp [values, List.take_append_of_le_length hbase]
      have hlast' : (inner l below).locals.getLast? = some f := by
        rw [locals, List.getLast?_cons, hlast]
        rfl
      simp only [Scope.unwind, arena, globals, hlast, hlast', hslots]

end Layers

/-! ## The values of a frame -/

/-- **The value of a name in a frame**, which is counted from the global one on. -/
def Scope.valueIn (s : Scope) (level : Nat) (name : String) : Option Value :=
  s.frames[level]?.bind fun f => (f.handles.lookup name).bind (s.slots[·]?)

namespace Layers

/-- The layers, the global one first. -/
def toList : Layers → List Layer
  | .global l => [l]
  | .inner l below => below.toList ++ [l]

/-- An arena has a frame for each layer. -/
theorem length_frames_arena : ∀ a : Layers, a.arena.frames.length = a.toList.length
  | .global _ => rfl
  | .inner l below => by
      rw [frames_arena_inner, toList, List.length_append, List.length_append,
        length_frames_arena below]
      rfl

/-- The variables of a layer have their values in the slots of its frame. -/
theorem lookup_frame {slots : Array Value} {base : Nat} {l : Layer} (name : String)
    (h : ∀ i, i < l.bindings.length → slots[base + i]? = (l.bindings.map Prod.snd)[i]?) :
    ((l.frame base).handles.lookup name).bind (slots[·]?) = l.bindings.lookup name := by
  change ((numberFrom base l.bindings).lookup name).bind _ = _
  rw [lookup_numberFrom, lookup_eq_getElem?_entryPlace]
  split
  · exact h _ ‹_›
  · rename_i hge
    rw [List.getElem?_eq_none (by simpa using hge)]
    rfl

/-- **The value of a name in a frame of an arena is that in its layer.** -/
theorem valueIn_arena (a : Layers) (level : Nat) (name : String) :
    a.arena.valueIn level name = a.toList[level]?.bind (·.bindings.lookup name) := by
  -- The slots of the layers below are only the lower part of all slots.
  suffices h : ∀ {slots : Array Value} {a : Layers}, (∀ i, i < a.size → slots[i]? = a.values[i]?) →
      a.arena.frames[level]?.bind (fun f => (f.handles.lookup name).bind (slots[·]?)) =
        a.toList[level]?.bind (·.bindings.lookup name) from
    h fun _ _ => List.getElem?_toArray
  intro slots a hslots
  induction a with
  | global l =>
    change [l.frame 0][level]?.bind _ = [l][level]?.bind _
    cases level with
    | zero => exact lookup_frame name fun i hi => by rw [Nat.zero_add]; exact hslots i hi
    | succ level => rfl
  | inner l below ih =>
    obtain ⟨hbelow, hl⟩ := getElem?_values_inner hslots
    rw [frames_arena_inner, toList]
    rcases Nat.lt_trichotomy level below.toList.length with hlt | heq | hgt
    · rw [List.getElem?_append_left (by rwa [length_frames_arena]), List.getElem?_append_left hlt]
      exact ih hbelow
    · subst heq
      rw [← length_frames_arena, List.getElem?_concat_length, length_frames_arena,
        List.getElem?_concat_length]
      exact lookup_frame name hl
    · rw [List.getElem?_eq_none, List.getElem?_eq_none]
      · rfl
      · rw [List.length_append]
        exact hgt
      · rw [List.length_append, length_frames_arena]
        exact hgt

theorem length_toList_withGlobal {x : String} {v : Value} : ∀ a : Layers,
    (a.withGlobal x v).toList.length = a.toList.length
  | .global _ => rfl
  | .inner l below => by
      rw [withGlobal, toList, toList, List.length_append, List.length_append,
        length_toList_withGlobal below]

/-- **Every other name has the same value in the same layer.** -/
theorem valueIn_withGlobal {x y : String} {v : Value} (h : y ≠ x) (a : Layers) (level : Nat) :
    (a.withGlobal x v).arena.valueIn level y = a.arena.valueIn level y := by
  rw [valueIn_arena, valueIn_arena]
  induction a with
  | global l =>
    change [_][level]?.bind _ = [l][level]?.bind _
    cases level with
    | zero =>
      change List.lookup y ((x, v) :: l.bindings) = l.bindings.lookup y
      rw [List.lookup_cons, beq_false_of_ne h]
    | succ level => rfl
  | inner l below ih =>
    rw [withGlobal, toList, toList, List.getElem?_append, List.getElem?_append,
      length_toList_withGlobal]
    split
    · exact ih
    · rfl

/-- The variable has the first slot of all, with its value in it. -/
theorem lookup_globals_withGlobal (x : String) (v : Value) : ∀ a : Layers,
    (a.withGlobal x v).arena.globals.handles.lookup x = some 0 ∧
      (a.withGlobal x v).arena.slots[0]? = some v
  | .global l => ⟨by simp [withGlobal, arena, globals, Layer.frame, numberFrom], rfl⟩
  | .inner l below => by
      obtain ⟨hhandle, hslot⟩ := lookup_globals_withGlobal x v below
      refine ⟨hhandle, ?_⟩
      have hslot : (below.withGlobal x v).values[0]? = some v :=
        List.getElem?_toArray.symm.trans hslot
      change ((below.withGlobal x v).values ++ _).toArray[0]? = some v
      rw [List.getElem?_toArray,
        List.getElem?_append_left (List.getElem?_eq_some_iff.mp hslot).1, hslot]

end Layers

/-! ## Machines with one variable more -/

namespace Machine

/-- **A machine with one global variable more**, which none of its functions names.  Neither machine
shows its scope. -/
structure WithGlobal (x : String) (v : Value) (m m' : Machine) : Prop where
  layers : ∃ a : Layers, m.scope = a.arena ∧ a.Defines (Definition.Names (· ≠ x)) ∧
    m' = { m with scope := (a.withGlobal x v).arena }
  verbosity : m.verbosity < 3

namespace WithGlobal

variable {x y : String} {v w : Value} {m m' : Machine} (h : m.WithGlobal x v m')

include h

theorem nesting_eq : (m'.callDepth, m'.limits) = (m.callDepth, m.limits) := by
  obtain ⟨⟨a, -, -, rfl⟩, -⟩ := h
  rfl

theorem verbosity_eq : m'.verbosity = m.verbosity := by
  obtain ⟨⟨a, -, -, rfl⟩, -⟩ := h
  rfl

theorem trace_eq : m'.trace = m.trace := by
  obtain ⟨⟨a, -, -, rfl⟩, -⟩ := h
  rfl

/-- The variable has the lowest slot, with its value in it. -/
theorem lookup_self :
    m'.scope.globals.handles.lookup x = some 0 ∧ m'.scope.slots[0]? = some v := by
  obtain ⟨⟨a, -, -, rfl⟩, -⟩ := h
  exact a.lookup_globals_withGlobal x v

theorem length_frames_eq : m'.scope.frames.length = m.scope.frames.length := by
  obtain ⟨⟨a, ha, -, rfl⟩, -⟩ := h
  rw [ha, Layers.length_frames_arena, Layers.length_frames_arena, Layers.length_toList_withGlobal]

theorem valueIn_eq (hy : y ≠ x) (level : Nat) :
    m'.scope.valueIn level y = m.scope.valueIn level y := by
  obtain ⟨⟨a, ha, -, rfl⟩, -⟩ := h
  rw [ha]
  exact Layers.valueIn_withGlobal hy a level

/-- A function is the same on both sides. -/
theorem getFunction?_eq (name : String) :
    m'.scope.getFunction? name = m.scope.getFunction? name := by
  obtain ⟨⟨a, ha, -, rfl⟩, -⟩ := h
  rw [ha, Layers.getFunction?_arena, Layers.getFunction?_arena,
    Layers.search_functions_withGlobal]

/-- **No function of the machine names the variable**, and so no body that is called does. -/
theorem names {name : String} {d : Definition} (hd : m.scope.getFunction? name = some d) :
    d.Names (· ≠ x) := by
  obtain ⟨⟨a, ha, hdefines, rfl⟩, -⟩ := h
  rw [ha, Layers.getFunction?_arena] at hd
  exact hdefines.search hd

theorem get_eq (hy : y ≠ x) : m'.scope.get y = m.scope.get y := by
  obtain ⟨⟨a, ha, -, rfl⟩, -⟩ := h
  rw [ha, Layers.get_arena, Layers.get_arena, Layers.get_withGlobal hy]

/-- A message is the same on both. -/
theorem say (level : Int) (text : String) :
    (m.say level text).WithGlobal x v (m'.say level text) := by
  obtain ⟨⟨a, ha, hdefines, rfl⟩, hverbosity⟩ := h
  unfold Machine.say
  dsimp only
  split
  · exact ⟨⟨a, ha, hdefines, rfl⟩, hverbosity⟩
  · split
    · exact ⟨⟨a, ha, hdefines, rfl⟩, hverbosity⟩
    · exact ⟨⟨a, ha, hdefines, rfl⟩, hverbosity⟩

theorem push : ({ m with scope := m.scope.push } : Machine).WithGlobal x v
    { m' with scope := m'.scope.push } := by
  obtain ⟨⟨a, ha, hdefines, rfl⟩, hverbosity⟩ := h
  refine ⟨⟨.inner ⟨[], []⟩ a, ?_, ⟨nofun, hdefines⟩, ?_⟩, hverbosity⟩
  · exact (congrArg Scope.push ha).trans a.push_arena
  · exact congrArg (fun s => { m with scope := s }) (a.withGlobal x v).push_arena

theorem drop : ({ m with scope := m.scope.drop } : Machine).WithGlobal x v
    { m' with scope := m'.scope.drop } := by
  obtain ⟨⟨a, ha, hdefines, rfl⟩, hverbosity⟩ := h
  obtain l | ⟨l, below⟩ := a
  · exact ⟨⟨.global l, congrArg Scope.drop ha, hdefines, rfl⟩, hverbosity⟩
  · refine ⟨⟨below, (congrArg Scope.drop ha).trans (Layers.drop_arena l below), hdefines.2, ?_⟩,
      hverbosity⟩
    exact congrArg (fun s => { m with scope := s }) (Layers.drop_arena l (below.withGlobal x v))

theorem callDepth (f : Nat → Nat) :
    ({ m with callDepth := f m.callDepth } : Machine).WithGlobal x v
      { m' with callDepth := f m'.callDepth } := by
  obtain ⟨⟨a, ha, hdefines, rfl⟩, hverbosity⟩ := h
  exact ⟨⟨a, ha, hdefines, rfl⟩, hverbosity⟩

theorem declare (hy : y ≠ x) (w : Value) :
    ({ m with scope := (m.scope.declare y w).2 } : Machine).WithGlobal x v
      { m' with scope := (m'.scope.declare y w).2 } := by
  obtain ⟨⟨a, ha, hdefines, rfl⟩, hverbosity⟩ := h
  refine ⟨⟨a.modifyTop (.bind y w), ?_, hdefines.bind y w, ?_⟩, hverbosity⟩
  · change (m.scope.declare y w).2 = _
    rw [ha, Layers.declare_arena]
  · rw [Layers.declare_arena, Layers.bind_withGlobal hy]

theorem declareFunction (name : String) {d : Definition} (hd : d.Names (· ≠ x)) :
    ({ m with scope := m.scope.declareFunction name d } : Machine).WithGlobal x v
      { m' with scope := m'.scope.declareFunction name d } := by
  obtain ⟨⟨a, ha, hdefines, rfl⟩, hverbosity⟩ := h
  refine ⟨⟨_, ?_, hdefines.declareFunction name hd, ?_⟩, hverbosity⟩
  · exact (congrArg (Scope.declareFunction name d) ha).trans (Layers.declareFunction_arena name d a)
  · rw [Layers.declareFunction_arena, Layers.declareFunction_withGlobal]

/-- **Another value for another name** is set on both, or on neither. -/
theorem set (hy : y ≠ x) (w : Value) :
    (∃ f, m.scope.set y w = .error f ∧ m'.scope.set y w = .error f) ∨
      ∃ s s', m.scope.set y w = .ok s ∧ m'.scope.set y w = .ok s' ∧
        ({ m with scope := s } : Machine).WithGlobal x v { m' with scope := s' } := by
  obtain ⟨⟨a, ha, hdefines, rfl⟩, hverbosity⟩ := h
  rw [ha, Layers.set_arena, Layers.set_arena, Layers.set_withGlobal hy, Layers.set]
  cases hb : a.assign? y w with
  | none => exact .inl ⟨_, rfl, rfl⟩
  | some b => exact .inr ⟨_, _, rfl, rfl, ⟨b, rfl, hdefines.assign? hb, rfl⟩, hverbosity⟩

/-- Both sides unwind to a global frame, and the variable is in it. -/
theorem unwind : m.unwind.WithGlobal x v m'.unwind := by
  obtain ⟨⟨a, ha, hdefines, rfl⟩, hverbosity⟩ := h
  refine ⟨⟨a.bottom, (congrArg Scope.unwind ha).trans a.unwind_arena, hdefines.bottom, ?_⟩,
    hverbosity⟩
  rw [Machine.unwind, Layers.unwind_arena, Layers.bottom_withGlobal]
  rfl

theorem closeTrace : m.closeTrace.WithGlobal x v m'.closeTrace := by
  obtain ⟨⟨a, ha, hdefines, rfl⟩, hverbosity⟩ := h
  exact ⟨⟨a, ha, hdefines, rfl⟩, hverbosity⟩

/-- Both sides end their run alike, unwound or not. -/
theorem leave (result : Except Stop Unit) :
    (Exec.leave m result).WithGlobal x v (Exec.leave m' result) := by
  unfold Exec.leave
  split
  · exact h.unwind.closeTrace
  · exact h.closeTrace

end WithGlobal

/-- The two machines have the same console. -/
theorem sharesConsole_withGlobal (x : String) (v : Value) : SharesConsole (WithGlobal x v) where
  console_eq h := by
    obtain ⟨⟨a, -, -, rfl⟩, -⟩ := h
    rfl
  withConsole h c := by
    obtain ⟨⟨a, ha, hdefines, rfl⟩, hverbosity⟩ := h
    exact ⟨⟨a, ha, hdefines, rfl⟩, hverbosity⟩

end Machine

/-! ## Runs that agree -/

namespace Exec

variable {α β : Type}

/-- **A computation does the same on related machines**, and leaves related machines behind. -/
def Agrees (R : Machine → Machine → Prop) (y : Exec α) : Prop :=
  ∀ ⦃m m' : Machine⦄, R m m' → (y.run m').1 = (y.run m).1 ∧ R (y.run m).2 (y.run m').2

namespace Agrees

variable {R : Machine → Machine → Prop}

theorem pure (a : α) : Agrees R (Pure.pure a : Exec α) := fun _ _ h => ⟨rfl, h⟩

theorem throw (e : Stop) : Agrees R (throw e : Exec α) := fun _ _ h => ⟨rfl, h⟩

/-- A change that keeps the relation agrees. -/
theorem modify {f : Machine → Machine} (hf : ∀ {m m'}, R m m' → R (f m) (f m')) :
    Agrees R (modify f : Exec Unit) := fun _ _ h => ⟨rfl, hf h⟩

theorem ofFault (x : Except Fault α) : Agrees R (ofFault x) := by
  obtain f | a := x
  · exact .throw _
  · exact .pure a

/-- **Computations in turn agree in turn.** -/
theorem bind {y : Exec α} {f : α → Exec β} (hy : Agrees R y) (hf : ∀ a, Agrees R (f a)) :
    Agrees R (y >>= f) := by
  intro m m' h
  obtain ⟨hresult, hafter⟩ := hy h
  rw [run_bind, run_bind]
  generalize y.run m = r at hresult hafter ⊢
  generalize y.run m' = r' at hresult hafter ⊢
  obtain ⟨e | a, m₁⟩ := r
  · obtain ⟨_, m₁'⟩ := r'
    cases hresult
    exact ⟨rfl, hafter⟩
  · obtain ⟨_, m₁'⟩ := r'
    cases hresult
    exact hf a hafter

/-- A part of the machine on which related machines do not differ. -/
theorem get_bind {γ : Type} {g : Machine → γ} (hg : ∀ {m m'}, R m m' → g m' = g m)
    {f : γ → Exec α} (hf : ∀ c, Agrees R (f c)) : Agrees R (get >>= fun m => f (g m)) := by
  intro m m' h
  change ((f (g m')).run m').1 = ((f (g m)).run m).1 ∧
    R ((f (g m)).run m).2 ((f (g m')).run m').2
  rw [hg h]
  exact hf (g m) h

end Agrees

open Machine (WithGlobal)

variable {x y : String} {v : Value}

theorem agrees_say (level : Int) (text : String) :
    Agrees (WithGlobal x v) (say level text) := .modify fun h => h.say level text

/-- A message that is not about the scope. -/
theorem agrees_sayLazily (level : Int) (text : Limits → Except Fault String) :
    Agrees (WithGlobal x v) (sayLazily level fun m => text m.limits) := by
  refine .get_bind (g := fun m => (m.verbosity, m.limits))
    (f := fun c => if level ≤ c.1 then ofFault (text c.2) >>= say level else Pure.pure ())
    (fun h => Prod.ext h.verbosity_eq (Prod.mk.inj h.nesting_eq).2) fun c => ?_
  split
  · exact .bind (.ofFault (text c.2)) fun t => agrees_say level t
  · exact .pure ()

/-- The scope differs, but neither machine shows it. -/
theorem agrees_dump :
    Agrees (WithGlobal x v) (sayLazily 3 fun m => m.scope.dump.map ("Scope:\n" ++ ·)) := by
  intro m m' h
  rw [run_sayLazily_of_lt h.verbosity, run_sayLazily_of_lt (h.verbosity_eq ▸ h.verbosity)]
  exact ⟨rfl, h⟩

/-- A function that is found names the variable no more than the program does. -/
theorem agrees_function (name : String) {f : Option Definition → Exec α}
    (hnone : Agrees (WithGlobal x v) (f none))
    (hsome : ∀ d : Definition, d.Names (· ≠ x) → Agrees (WithGlobal x v) (f (some d))) :
    Agrees (WithGlobal x v) (get >>= fun m => f (m.scope.getFunction? name)) := by
  intro m m' h
  change ((f (m'.scope.getFunction? name)).run m').1 = ((f (m.scope.getFunction? name)).run m).1 ∧
    WithGlobal x v ((f (m.scope.getFunction? name)).run m).2
      ((f (m'.scope.getFunction? name)).run m').2
  rw [h.getFunction?_eq]
  cases hd : m.scope.getFunction? name with
  | none => exact hnone h
  | some d => exact hsome d (h.names hd) h

/-- Another name has the same value. -/
theorem agrees_lookup (hy : y ≠ x) : Agrees (WithGlobal x v) (lookup y) :=
  .get_bind (g := fun m => m.scope.get y) (fun h => h.get_eq hy) .ofFault

/-- Another name is assigned to, or unbound, on both sides. -/
theorem agrees_assign (hy : y ≠ x) (w : Value) : Agrees (WithGlobal x v) (assign y w) := by
  intro m m' h
  rw [run_assign, run_assign]
  obtain ⟨f, hs, hs'⟩ | ⟨s, s', hs, hs', hset⟩ := h.set hy w
  · rw [hs, hs']
    exact ⟨rfl, h⟩
  · rw [hs, hs']
    exact ⟨rfl, hset⟩

theorem Agrees.inFrame {z : Exec α} (hz : Agrees (WithGlobal x v) z) :
    Agrees (WithGlobal x v) (inFrame z) := by
  intro m m' h
  obtain ⟨hresult, hafter⟩ := hz h.push
  exact ⟨hresult, hafter.drop⟩

/-- A call of its own is a frame of its own, counted on both sides. -/
theorem Agrees.inCall {z : Exec α} (hz : Agrees (WithGlobal x v) z) :
    Agrees (WithGlobal x v) (inCall z) := by
  intro m m' h
  obtain ⟨hresult, hafter⟩ := hz.inFrame (h.callDepth (· + 1))
  exact ⟨hresult, hafter.callDepth (· - 1)⟩

/-- **A run that names other variables does the same with one variable more.** -/
theorem pervasive_agrees (x : String) (v : Value) :
    Pervasive (· ≠ x) fun _ y _ => Agrees (WithGlobal x v) y where
  pure := .pure
  fail _ := .throw _
  exhausted _ := .throw _
  bind := .bind
  nesting h := .get_bind (fun h => h.nesting_eq) fun nesting => h nesting.1 nesting.2
  function name _ _ := agrees_function name
  say _ := agrees_say _ _
  report _ := agrees_sayLazily _ fun _ => _
  dump := agrees_dump
  lookup := agrees_lookup
  assign w hy := agrees_assign hy w
  declare w hy := .modify fun h => h.declare hy w
  declareFunction name _ hd := .modify fun h => h.declareFunction name hd
  inFrame := .inFrame
  inCall := .inCall
  builtin b arguments _ := fun _ _ h =>
    (OnConsole.builtin _ b arguments).run_related (Machine.sharesConsole_withGlobal x v) h

/-- **A run of a program that does not name the variable agrees**, the drawing of its tree
included. -/
theorem agrees_runTokens {program : Node} (h : program.Names (· ≠ x)) (fuel : Nat)
    (tokens : List Token) : Agrees (WithGlobal x v) (runTokens fuel tokens program) := by
  refine .bind (agrees_sayLazily 1 fun _ => _) fun _ => .bind (agrees_sayLazily 1
    fun limits => (program.drawWithin limits.levels).map ("AST:\n" ++ ·)) fun _ => ?_
  intro m m' hm
  have hvisit := ((pervasive_agrees x v).pervades (Nat.le_refl fuel)).visit h
  obtain ⟨hresult, hafter⟩ := hvisit hm
  rw [run_runProgram, run_runProgram]
  refine ⟨hresult, ?_⟩
  dsimp only
  rw [hresult]
  exact hafter.leave _

end Exec

/-- The first variable of a new machine. -/
theorem Machine.withGlobal_start {verbosity : Int} (h : verbosity < 3) (limits : Limits)
    (seed : Int) (input : List String) (x : String) (v : Value) :
    let m := start limits verbosity seed input
    m.WithGlobal x v { m with scope := (m.scope.declare x v).2 } :=
  ⟨⟨.empty, rfl, nofun, rfl⟩, h⟩

/-- **A program never reads or changes a variable it does not name.**  Take any tree, in particular
that of a program, and a name that no variable or parameter in it has; declare the name on a new
machine, and run the tree there and on one without it, at a level that does not show the scope.  The
runs end the same way, with the same error if there is one; they print, read, draw and trace the
same.  The variable still has its handle, with the same value in its slot, and every other name has
the same value in the same frame. -/
theorem unnamed_global_unchanged {x : String} {program : Node} (hx : x ∉ program.variableNames)
    (v : Value) {verbosity : Int} (hverbosity : verbosity < 3) (limits : Limits) (seed : Int)
    (input : List String) (fuel : Nat) (tokens : List Token) :
    let m := Machine.start limits verbosity seed input
    let (handle, scope) := m.scope.declare x v
    let without := (Exec.runTokens fuel tokens program).run m
    let run := (Exec.runTokens fuel tokens program).run { m with scope := scope }
    run.1 = without.1 ∧ run.2.console = without.2.console ∧ run.2.trace = without.2.trace ∧
      run.2.scope.globals.handles.lookup x = some handle ∧
      run.2.scope.slots[handle]? = some v ∧
      run.2.scope.frames.length = without.2.scope.frames.length ∧
      ∀ level y, y ≠ x → run.2.scope.valueIn level y = without.2.scope.valueIn level y := by
  have hnames : program.Names (· ≠ x) := fun y hy hyx => hx (hyx ▸ hy)
  have hstart := Machine.withGlobal_start hverbosity limits seed input x v
  obtain ⟨hresult, hafter⟩ := Exec.agrees_runTokens hnames fuel tokens hstart
  exact ⟨hresult, (Machine.sharesConsole_withGlobal x v).console_eq hafter, hafter.trace_eq,
    hafter.lookup_self.1, hafter.lookup_self.2, hafter.length_frames_eq,
    fun level y hy => hafter.valueIn_eq hy level⟩

/-- A loop that binds a variable of its own and then fails leaves the one declared before as it
was. -/
theorem unnamed_global_unchanged_failing_loop :
    let program : Node := .block [.variable "y" (.reference "y") true,
      .whileLoop (.literal (.bool true)) (.block [.variable "z" (.reference "z") true,
        .reference "w"])]
    let m := Machine.start .usual 0 0 []
    let run := (Exec.runTokens 20 [] program).run
      { m with scope := (m.scope.declare "x" (.int 7)).2 }
    "x" ∉ program.variableNames ∧ run.1 = .error (.fault (.undefined .variable "w")) ∧
      run.2.scope.slots[0]? = some (.int 7) ∧
      run.2.scope.valueIn 0 "y" =
        ((Exec.runTokens 20 [] program).run m).2.scope.valueIn 0 "y" := by
  intro program m run
  have hx : "x" ∉ program.variableNames := by
    simp [program, Node.variableNames, Node.variableNamesAll]
  obtain ⟨hresult, -, -, -, hslot, -, hvalues⟩ :=
    unnamed_global_unchanged hx (.int 7) (by decide : (0 : Int) < 3) .usual 0 [] 20 []
  exact ⟨hx, hresult.trans rfl, hslot, hvalues 0 "y" (by decide)⟩

end Scrawl
