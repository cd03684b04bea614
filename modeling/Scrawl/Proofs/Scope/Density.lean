import Mathlib.Algebra.GroupWithZero.Nat
import Mathlib.Data.List.Nodup
import Scrawl.Proofs.Scope.Layers

/-!
# Proofs/Scope/Density — the slots of a scope are numbered without a gap

`Scope.Dense` says that each frame starts where the frames below it end, and that the handles, read
frame by frame in the order in which the names came, count the slots.  Arenas are dense
(`Layers.dense_arena`), and so is every scope that requests lead to (`scope_dense`).  Then two
variables never share a slot, every slot has its variable, and no handle leads out of the slots.
-/

namespace Scrawl

namespace Scope

/-- The handles of all variables, frame by frame from the global one on. -/
def allHandles (s : Scope) : List Nat := s.frames.flatMap fun f => f.handles.map Prod.snd

/-- **The slots are numbered without a gap.** -/
structure Dense (s : Scope) : Prop where
  /-- A frame starts at the number of variables in the frames below it. -/
  base : ∀ (level : Nat) (f : Frame), s.frames[level]? = some f →
    f.base = ((s.frames.take level).map fun g => g.handles.length).sum
  /-- The handles count the slots. -/
  handles : s.allHandles = List.range s.slots.size

namespace Dense

variable {s : Scope} (h : s.Dense)

include h

theorem mem_allHandles {handle : Nat} : handle ∈ s.allHandles ↔ handle < s.slots.size := by
  rw [h.handles, List.mem_range]

/-- **No handle leads out of the slots.** -/
theorem lt_size {f : Frame} {entry : String × Nat} (hf : f ∈ s.frames) (he : entry ∈ f.handles) :
    entry.2 < s.slots.size :=
  h.mem_allHandles.mp (List.mem_flatMap.mpr ⟨f, hf, List.mem_map_of_mem he⟩)

/-- **Every slot has its variable.** -/
theorem exists_variable {handle : Nat} (hlt : handle < s.slots.size) :
    ∃ f ∈ s.frames, ∃ name, (name, handle) ∈ f.handles := by
  obtain ⟨f, hf, hmem⟩ := List.mem_flatMap.mp (h.mem_allHandles.mpr hlt)
  obtain ⟨⟨name, _⟩, he, rfl⟩ := List.mem_map.mp hmem
  exact ⟨f, hf, name, he⟩

/-- **Two variables never share a slot.** -/
theorem eq_of_handle {i j : Nat} {f g : Frame} {x y : String} {handle : Nat}
    (hi : s.frames[i]? = some f) (hj : s.frames[j]? = some g) (hx : (x, handle) ∈ f.handles)
    (hy : (y, handle) ∈ g.handles) : i = j ∧ x = y := by
  have hnodup : s.allHandles.Nodup := h.handles ▸ List.nodup_range
  obtain ⟨hinside, hacross⟩ := List.nodup_flatMap.mp hnodup
  have hmem {f : Frame} {x : String} (hx : (x, handle) ∈ f.handles) :
      handle ∈ f.handles.map Prod.snd := List.mem_map_of_mem hx
  have hij : i = j := by
    by_contra hne
    obtain ⟨hi', rfl⟩ := List.getElem?_eq_some_iff.mp hi
    obtain ⟨hj', rfl⟩ := List.getElem?_eq_some_iff.mp hj
    rw [List.pairwise_iff_getElem] at hacross
    rcases Nat.lt_or_gt_of_ne hne with hlt | hlt
    · exact hacross i j hi' hj' hlt (hmem hx) (hmem hy)
    · exact hacross j i hj' hi' hlt (hmem hy) (hmem hx)
  subst hij
  obtain rfl : f = g := Option.some.inj (hi.symm.trans hj)
  refine ⟨rfl, ?_⟩
  have := List.inj_on_of_nodup_map (hinside f (List.mem_of_getElem? hi)) hx hy rfl
  exact congrArg Prod.fst this

/-- **A name that is known has a slot**, which is read and written. -/
theorem slot_of_resolve? {name : String} {handle : Nat} (hr : s.resolve? name = some handle) :
    ∃ v, s.slots[handle]? = some v ∧ s.get name = .ok v ∧
      ∀ w, ∃ t, s.set name w = .ok t ∧ t.slots[handle]? = some w := by
  obtain ⟨f, hf, hlookup⟩ : ∃ f ∈ s.frames, f.handles.lookup name = some handle := by
    rw [resolve?, search, Option.or_eq_some_iff] at hr
    rcases hr with hr | ⟨-, hr⟩
    · obtain ⟨f, hf, hl⟩ := List.exists_of_findSome?_eq_some hr
      exact ⟨f, by simp [frames, hf], hl⟩
    · exact ⟨s.globals, by simp [frames], hr⟩
  have hlt : handle < s.slots.size := by
    obtain ⟨_, _, hsplit, -⟩ := List.lookup_eq_some_iff.mp hlookup
    have hmem : (name, handle) ∈ f.handles := by simp [hsplit]
    exact h.lt_size hf hmem
  refine ⟨s.slots[handle], Array.getElem?_eq_getElem hlt, ?_, fun w => ?_⟩
  · rw [get, hr, Option.bind_some, Array.getElem?_eq_getElem hlt]
  · exact ⟨_, by rw [set, hr], by simp [hlt]⟩

end Dense

end Scope

/-! ## Arenas are dense -/

theorem map_snd_numberFrom {α : Type} : ∀ (k : Nat) (entries : List (String × α)),
    (numberFrom k entries).map Prod.snd = List.range' k entries.length
  | _, [] => rfl
  | k, (n, a) :: rest => by
      rw [numberFrom, List.map_cons, map_snd_numberFrom (k + 1) rest, List.length_cons,
        List.range'_succ]

theorem length_numberFrom {α : Type} (k : Nat) (entries : List (String × α)) :
    (numberFrom k entries).length = entries.length := by
  rw [← List.length_map (f := Prod.snd), map_snd_numberFrom, List.length_range']

namespace Layers

/-- The frames of an arena, the global one first. -/
theorem frames_arena_inner (l : Layer) (below : Layers) :
    (inner l below).arena.frames = below.arena.frames ++ [l.frame below.size] := by
  simp [Scope.frames, arena, globals, locals]

theorem sum_handles_arena : ∀ a : Layers,
    (a.arena.frames.map fun g => g.handles.length).sum = a.size
  | .global l => by
      change (numberFrom 0 l.bindings).length + 0 = _
      rw [length_numberFrom, size, Nat.add_zero]
  | .inner l below => by
      rw [frames_arena_inner, List.map_append, List.sum_append, sum_handles_arena below, size]
      change below.size + ((numberFrom below.size l.bindings).length + 0) = _
      rw [length_numberFrom, Nat.add_zero]

theorem allHandles_arena : ∀ a : Layers, a.arena.allHandles = List.range a.size
  | .global l => by
      change (numberFrom 0 l.bindings).map Prod.snd ++ [] = _
      rw [map_snd_numberFrom, List.append_nil, size, List.range_eq_range']
  | .inner l below => by
      rw [Scope.allHandles, frames_arena_inner, List.flatMap_append]
      change below.arena.allHandles ++ ((numberFrom below.size l.bindings).map Prod.snd ++ []) = _
      rw [allHandles_arena below, map_snd_numberFrom, List.append_nil, size, List.range_eq_range',
        List.range_eq_range', ← List.range'_append_1, Nat.zero_add]

theorem base_arena : ∀ (a : Layers) (level : Nat) (f : Frame), a.arena.frames[level]? = some f →
    f.base = ((a.arena.frames.take level).map fun g => g.handles.length).sum
  | .global l, level, f, h => by
      obtain ⟨hlt, rfl⟩ := List.getElem?_eq_some_iff.mp h
      obtain rfl : level = 0 := Nat.lt_one_iff.mp hlt
      rfl
  | .inner l below, level, f, h => by
      rw [frames_arena_inner] at h ⊢
      rcases Nat.lt_or_ge level below.arena.frames.length with hlt | hge
      · rw [List.getElem?_append_left hlt] at h
        rw [List.take_append_of_le_length (Nat.le_of_lt hlt)]
        exact base_arena below level f h
      · rw [List.getElem?_append_right hge] at h
        obtain ⟨hone, rfl⟩ := List.getElem?_eq_some_iff.mp h
        obtain rfl : level = below.arena.frames.length := by
          have : level - below.arena.frames.length < 1 := hone
          omega
        rw [List.take_left, sum_handles_arena below]
        simp [Layer.frame]

/-- **Layers laid out over slots leave no gap.** -/
theorem dense_arena (a : Layers) : a.arena.Dense where
  base := a.base_arena
  handles := by rw [allHandles_arena, size_slots_arena]

/-! ## Names -/

/-- Every layer has a name once. -/
def NamesOnce : Layers → Prop
  | .global l => (l.bindings.map Prod.fst).Nodup
  | .inner l below => (l.bindings.map Prod.fst).Nodup ∧ below.NamesOnce

theorem namesOnce_modifyTop {f : Layer → Layer}
    (hf : ∀ l, (l.bindings.map Prod.fst).Nodup → ((f l).bindings.map Prod.fst).Nodup) :
    ∀ {a : Layers}, a.NamesOnce → (a.modifyTop f).NamesOnce
  | .global l, h => hf l h
  | .inner l _, h => ⟨hf l h.1, h.2⟩

theorem namesOnce_assign? {name : String} {v : Value} :
    ∀ {a b : Layers}, a.NamesOnce → a.assign? name v = some b → b.NamesOnce
  | .global l, b, h, hb => by
      rw [assign?] at hb
      split at hb
      · obtain rfl := Option.some.inj hb
        exact nodup_putEntry v h
      · cases hb
  | .inner l below, b, h, hb => by
      rw [assign?] at hb
      split at hb
      · obtain rfl := Option.some.inj hb
        exact ⟨nodup_putEntry v h.1, h.2⟩
      · obtain ⟨below', hbelow, rfl⟩ := Option.map_eq_some_iff.mp hb
        exact ⟨h.1, namesOnce_assign? h.2 hbelow⟩

/-- **A request keeps names apart.** -/
theorem namesOnce_perform {a : Layers} (h : a.NamesOnce) (o : Request) :
    (a.perform o).2.NamesOnce := by
  rcases o with _ | _ | ⟨name, v⟩ | name | ⟨name, v⟩ | ⟨name, d⟩ | name
  · exact ⟨List.nodup_nil, h⟩
  · obtain l | ⟨l, below⟩ := a
    · exact h
    · exact h.2
  · exact namesOnce_modifyTop (fun _ => nodup_putEntry v) h
  · exact h
  · rw [perform, set]
    cases hb : a.assign? name v with
    | none => exact h
    | some b => exact namesOnce_assign? h hb
  · exact namesOnce_modifyTop (f := fun l => { l with functions := putEntry name d l.functions })
      (fun _ hl => hl) h
  · exact h

theorem namesOnce_foldl : ∀ (requests : List Request) {a : Layers}, a.NamesOnce →
    (requests.foldl (fun a o => (a.perform o).2) a).NamesOnce
  | [], _, h => h
  | o :: rest, _, h => namesOnce_foldl rest (namesOnce_perform h o)

theorem map_fst_numberFrom {α : Type} : ∀ (k : Nat) (entries : List (String × α)),
    (numberFrom k entries).map Prod.fst = entries.map Prod.fst
  | _, [] => rfl
  | k, (n, a) :: rest => by
      rw [numberFrom, List.map_cons, map_fst_numberFrom (k + 1) rest, List.map_cons]

/-- The frames of layers with names once have names once. -/
theorem NamesOnce.nodup : ∀ {a : Layers}, a.NamesOnce → ∀ f ∈ a.arena.frames,
    (f.handles.map Prod.fst).Nodup
  | .global l, h, f, hf => by
      obtain rfl : f = l.frame 0 := List.mem_singleton.mp hf
      exact (map_fst_numberFrom 0 l.bindings).symm ▸ h
  | .inner l below, h, f, hf => by
      rw [frames_arena_inner, List.mem_append, List.mem_singleton] at hf
      rcases hf with hf | rfl
      · exact nodup h.2 f hf
      · exact (map_fst_numberFrom below.size l.bindings).symm ▸ h.1

end Layers

/-- **No gaps and no aliases.**  After every run of requests from the empty scope there is a frame,
names stand once in a frame, each frame starts where those below it end, and the handles count the
slots.

So two variables never share a slot, every slot has its variable, and whatever a name or a frame
leads to is a slot that can be read and written. -/
theorem scope_dense (requests : List Request) :
    let s := Scope.after requests
    s.frames ≠ [] ∧ (∀ f ∈ s.frames, (f.handles.map Prod.fst).Nodup) ∧ s.Dense ∧
      (∀ (i j : Nat) (f g : Frame) (x y : String) (handle : Nat),
        s.frames[i]? = some f → s.frames[j]? = some g →
        (x, handle) ∈ f.handles → (y, handle) ∈ g.handles → i = j ∧ x = y) ∧
      (∀ handle, handle < s.slots.size → ∃ f ∈ s.frames, ∃ name, (name, handle) ∈ f.handles) ∧
      (∀ f ∈ s.frames, ∀ entry ∈ f.handles, entry.2 < s.slots.size) ∧
      (∀ name handle, s.resolve? name = some handle →
        ∃ v, s.slots[handle]? = some v ∧ s.get name = .ok v ∧
          ∀ w, ∃ t, s.set name w = .ok t ∧ t.slots[handle]? = some w) := by
  intro s
  have hs : s = _ := Scope.after_eq_arena requests
  have hdense : s.Dense := hs ▸ Layers.dense_arena _
  have hnames : Layers.NamesOnce _ := Layers.namesOnce_foldl requests (a := .empty) List.nodup_nil
  refine ⟨List.cons_ne_nil _ _, hs ▸ hnames.nodup, hdense, ?_, ?_, ?_, ?_⟩
  · exact fun _ _ _ _ _ _ _ => hdense.eq_of_handle
  · exact fun _ => hdense.exists_variable
  · exact fun _ hf _ => hdense.lt_size hf
  · exact fun _ _ => hdense.slot_of_resolve?

/-- A variable redeclared in place, behind one of a frame that was popped, and a name in two
frames. -/
theorem scope_dense_popped :
    let s := Scope.after [.declare "x" (.int 1), .push, .declare "y" (.int 2), .pop, .push,
      .declare "x" (.int 3), .declare "z" (.int 4), .declare "x" (.int 5)]
    s.allHandles = [0, 1, 2] ∧ s.resolve? "x" = some 1 ∧
      ∃ v, s.slots[1]? = some v ∧ s.get "x" = .ok v ∧
        ∀ w, ∃ t, s.set "x" w = .ok t ∧ t.slots[1]? = some w := by
  have h := scope_dense [.declare "x" (.int 1), .push, .declare "y" (.int 2), .pop, .push,
    .declare "x" (.int 3), .declare "z" (.int 4), .declare "x" (.int 5)]
  obtain ⟨-, -, hdense, -, -, -, hslot⟩ := h
  exact ⟨hdense.handles, rfl, hslot "x" 1 rfl⟩

end Scrawl
