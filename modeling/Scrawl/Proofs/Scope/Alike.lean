import Mathlib.Data.List.Forall2
import Scrawl.Scope

/-!
# Proofs/Scope/Alike — scopes that differ in their names and functions

Two scopes are **alike** when related names stand in the same places, with the same handles and with
related definitions.  If the relation pairs names off, no two of them being related to one, then
looking up related names in alike scopes gives the same, and every change keeps them alike.
-/

namespace Scrawl

variable {ν : String → String → Prop}

/-! ## Entries -/

section Entries

variable {α β : Type} {R : α → β → Prop} {entries : List (String × α)}
  {entries' : List (String × β)} {x y : String}

/-- **Entries with related names and contents**, one by one. -/
def EntriesAlike (ν : String → String → Prop) (R : α → β → Prop) :
    List (String × α) → List (String × β) → Prop :=
  List.Forall₂ fun entry entry' => ν entry.1 entry'.1 ∧ R entry.2 entry'.2

namespace EntriesAlike

/-- **Related names find related entries**, for the relation pairs names off. -/
theorem lookup (hν : Relator.BiUnique ν) (h : EntriesAlike ν R entries entries') (hx : ν x y) :
    Option.Rel R (entries.lookup x) (entries'.lookup y) := by
  induction h with
  | nil => exact .none
  | @cons entry entry' _ _ he _ ih =>
    obtain ⟨n, a⟩ := entry
    obtain ⟨n', b⟩ := entry'
    rw [List.lookup_cons, List.lookup_cons]
    by_cases hn : x = n
    · rw [beq_iff_eq.mpr hn, beq_iff_eq.mpr ((Relator.rel_eq hν hx he.1).mp hn)]
      exact .some he.2
    · rw [beq_eq_false_iff_ne.mpr hn,
        beq_eq_false_iff_ne.mpr fun hy => hn ((Relator.rel_eq hν hx he.1).mpr hy)]
      exact ih

/-- An entry is replaced in both lists, or added to both. -/
theorem put (hν : Relator.BiUnique ν) (h : EntriesAlike ν R entries entries') (hx : ν x y) {a : α}
    {b : β} (hab : R a b) : EntriesAlike ν R (putEntry x a entries) (putEntry y b entries') := by
  induction h with
  | nil => exact .cons ⟨hx, hab⟩ .nil
  | @cons entry entry' rest rest' he hrest ih =>
    obtain ⟨n, c⟩ := entry
    obtain ⟨n', c'⟩ := entry'
    rw [putEntry, putEntry]
    by_cases hn : n = x
    · rw [if_pos hn, if_pos ((Relator.rel_eq hν he.1 hx).mp hn)]
      exact .cons ⟨he.1, hab⟩ hrest
    · rw [if_neg hn, if_neg fun hy => hn ((Relator.rel_eq hν he.1 hx).mpr hy)]
      exact .cons he ih

end EntriesAlike

end Entries

/-! ## Frames and scopes -/

variable {D : Definition → Definition → Prop}

/-- **Frames with related names and functions.** -/
structure Frame.Alike (ν : String → String → Prop) (D : Definition → Definition → Prop)
    (f f' : Frame) : Prop where
  base : f'.base = f.base
  handles : EntriesAlike ν (· = ·) f.handles f'.handles
  functions : EntriesAlike ν D f.functions f'.functions

theorem Frame.alike_empty (base : Nat) : Frame.Alike ν D (.empty base) (.empty base) :=
  ⟨rfl, .nil, .nil⟩

/-- **Scopes with the same slots and related frames.** -/
structure Scope.Alike (ν : String → String → Prop) (D : Definition → Definition → Prop)
    (s s' : Scope) : Prop where
  slots : s'.slots = s.slots
  globals : Frame.Alike ν D s.globals s'.globals
  locals : List.Forall₂ (Frame.Alike ν D) s.locals s'.locals

namespace Scope

theorem alike_empty : Scope.Alike ν D .empty .empty := ⟨rfl, Frame.alike_empty 0, .nil⟩

namespace Alike

variable {s s' : Scope} (h : Scope.Alike ν D s s')

include h

/-- A frame pushed on both starts at the same slot. -/
theorem push : Scope.Alike ν D s.push s'.push where
  slots := h.slots
  globals := h.globals
  locals := by
    rw [Scope.push, Scope.push, h.slots]
    exact .cons (Frame.alike_empty _) h.locals

theorem drop : Scope.Alike ν D s.drop s'.drop := by
  have hlocals := h.locals
  unfold Scope.drop
  generalize s.locals = locals at hlocals ⊢
  generalize s'.locals = locals' at hlocals ⊢
  cases hlocals with
  | nil => exact h
  | cons hframe hrest => exact ⟨by dsimp only; rw [hframe.base, h.slots], h.globals, hrest⟩

/-- Both go back to global frames that are alike. -/
theorem unwind : Scope.Alike ν D s.unwind s'.unwind := by
  have hlast : Option.Rel (Frame.Alike ν D) s.locals.getLast? s'.locals.getLast? := by
    have hreverse := List.forall₂_reverse_iff.mpr h.locals
    rw [← List.head?_reverse, ← List.head?_reverse]
    generalize s.locals.reverse = locals at hreverse ⊢
    generalize s'.locals.reverse = locals' at hreverse ⊢
    cases hreverse with
    | nil => exact .none
    | cons hframe _ => exact .some hframe
  unfold Scope.unwind
  generalize s.locals.getLast? = last at hlast ⊢
  generalize s'.locals.getLast? = last' at hlast ⊢
  cases hlast with
  | none => exact h
  | some hframe => exact ⟨by dsimp only; rw [hframe.base, h.slots], h.globals, .nil⟩

theorem top : Frame.Alike ν D s.top s'.top := by
  have hlocals := h.locals
  unfold Scope.top
  generalize s.locals = locals at hlocals ⊢
  generalize s'.locals = locals' at hlocals ⊢
  cases hlocals with
  | nil => exact h.globals
  | cons hframe _ => exact hframe

/-- A change that keeps frames alike keeps scopes alike. -/
theorem modifyTop {f g : Frame → Frame}
    (hfg : ∀ {frame frame' : Frame}, frame.Alike ν D frame' → (f frame).Alike ν D (g frame')) :
    Scope.Alike ν D (s.modifyTop f) (s'.modifyTop g) := by
  have hlocals := h.locals
  unfold Scope.modifyTop
  generalize s.locals = locals at hlocals ⊢
  generalize s'.locals = locals' at hlocals ⊢
  cases hlocals with
  | nil => exact ⟨h.slots, hfg h.globals, .nil⟩
  | cons hframe hrest => exact ⟨h.slots, h.globals, .cons (hfg hframe) hrest⟩

/-- **Related searches in alike scopes** answer alike, in the same frame. -/
theorem search {α β : Type} {R : α → β → Prop} {f : Frame → Option α} {g : Frame → Option β}
    (hfg : ∀ {frame frame' : Frame}, frame.Alike ν D frame' → Option.Rel R (f frame) (g frame')) :
    Option.Rel R (s.search f) (s'.search g) := by
  have hlocals : Option.Rel R (s.locals.findSome? f) (s'.locals.findSome? g) := by
    have hframes := h.locals
    generalize s.locals = locals at hframes ⊢
    generalize s'.locals = locals' at hframes ⊢
    induction hframes with
    | nil => exact .none
    | cons hframe _ ih =>
      rw [List.findSome?_cons, List.findSome?_cons]
      have hfirst := hfg hframe
      generalize f _ = first at hfirst ⊢
      generalize g _ = first' at hfirst ⊢
      cases hfirst with
      | none => exact ih
      | some ha => exact .some ha
  unfold Scope.search
  generalize s.locals.findSome? f = found at hlocals ⊢
  generalize s'.locals.findSome? g = found' at hlocals ⊢
  cases hlocals with
  | none => exact hfg h.globals
  | some ha => exact .some ha

variable (hν : Relator.BiUnique ν) {x y : String} (hx : ν x y)

include hν hx

/-- Related names are bound to one slot, whether they were there before or not. -/
theorem declare (v : Value) : Scope.Alike ν D (s.declare x v).2 (s'.declare y v).2 := by
  have hhandle := h.top.handles.lookup hν hx
  have hslots := h.slots
  unfold Scope.declare
  generalize s.top.handles.lookup x = handle at hhandle ⊢
  generalize s'.top.handles.lookup y = handle' at hhandle ⊢
  cases hhandle with
  | some heq =>
    subst heq
    exact ⟨by rw [hslots], h.globals, h.locals⟩
  | none =>
    have hbound : Scope.Alike ν D
        (s.modifyTop fun f => { f with handles := f.handles ++ [(x, s.slots.size)] })
        (s'.modifyTop fun f => { f with handles := f.handles ++ [(y, s'.slots.size)] }) :=
      h.modifyTop fun hframe => ⟨hframe.base,
        List.rel_append hframe.handles (.cons ⟨hx, by rw [hslots]⟩ .nil), hframe.functions⟩
    exact ⟨by rw [hslots], hbound.globals, hbound.locals⟩

theorem declareFunction {d d' : Definition} (hd : D d d') :
    Scope.Alike ν D (s.declareFunction x d) (s'.declareFunction y d') :=
  h.modifyTop fun hframe => ⟨hframe.base, hframe.handles, hframe.functions.put hν hx hd⟩

/-- Related names call related functions. -/
theorem getFunction? : Option.Rel D (s.getFunction? x) (s'.getFunction? y) :=
  h.search fun hframe => hframe.functions.lookup hν hx

/-- Related names have one handle. -/
theorem resolve? : s'.resolve? y = s.resolve? x := by
  have hhandle : Option.Rel (· = ·) (s.resolve? x) (s'.resolve? y) :=
    h.search fun hframe => hframe.handles.lookup hν hx
  generalize s.resolve? x = handle at hhandle ⊢
  generalize s'.resolve? y = handle' at hhandle ⊢
  cases hhandle with
  | none => rfl
  | some heq => rw [heq]

/-- **Related names have the same value**, or both have none. -/
theorem get : (∃ v, s.get x = .ok v ∧ s'.get y = .ok v) ∨
    s.get x = .error (.undefined .variable x) ∧ s'.get y = .error (.undefined .variable y) := by
  rw [Scope.get, Scope.get, h.resolve? hν hx, h.slots]
  cases (s.resolve? x).bind (s.slots[·]?) with
  | none => exact .inr ⟨rfl, rfl⟩
  | some v => exact .inl ⟨v, rfl, rfl⟩

/-- An assignment to related names lands in one slot, or fails for each in its own name. -/
theorem set (v : Value) :
    (∃ t t', s.set x v = .ok t ∧ s'.set y v = .ok t' ∧ Scope.Alike ν D t t') ∨
    s.set x v = .error (.undefined .variable x) ∧
      s'.set y v = .error (.undefined .variable y) := by
  rw [Scope.set, Scope.set, h.resolve? hν hx, h.slots]
  cases s.resolve? x with
  | none => exact .inr ⟨rfl, rfl⟩
  | some handle => exact .inl ⟨_, _, rfl, rfl, rfl, h.globals, h.locals⟩

end Alike

end Scope

/-! ## Images -/

/-- A frame with other names and functions. -/
def Frame.mapped (r : String → String) (δ : Definition → Definition) (f : Frame) : Frame :=
  { f with handles := f.handles.map (Prod.map r id), functions := f.functions.map (Prod.map r δ) }

/-- **A scope with other names and functions**, everything else being in its place. -/
def Scope.mapped (r : String → String) (δ : Definition → Definition) (s : Scope) : Scope :=
  { s with globals := s.globals.mapped r δ, locals := s.locals.map (Frame.mapped r δ) }

section Images

variable {r : String → String} {δ : Definition → Definition}

/-- Where the relations are graphs of functions, alike entries are images. -/
theorem EntriesAlike.eq_map {α β : Type} {R : α → β → Prop} {f : α → β}
    {entries : List (String × α)} {entries' : List (String × β)}
    (h : EntriesAlike ν R entries entries') (hν : ∀ x y, ν x y → y = r x)
    (hR : ∀ a b, R a b → b = f a) : entries' = entries.map (Prod.map r f) := by
  induction h with
  | nil => rfl
  | cons he _ ih => exact congrArg₂ List.cons (Prod.ext (hν _ _ he.1) (hR _ _ he.2)) ih

variable (hν : ∀ x y, ν x y → y = r x) (hD : ∀ d d', D d d' → d' = δ d)

include hν hD

/-- …and so are frames. -/
theorem Frame.Alike.eq_mapped {f f' : Frame} (h : Frame.Alike ν D f f') : f' = f.mapped r δ := by
  obtain ⟨base, handles, functions⟩ := f'
  obtain ⟨hbase, hhandles, hfunctions⟩ := h
  rw [Frame.mapped, ← hbase, ← hhandles.eq_map (f := id) hν fun _ _ => Eq.symm,
    ← hfunctions.eq_map hν hD]

/-- **Where the relations are functions, alike scopes are images.** -/
theorem Scope.Alike.eq_mapped {s s' : Scope} (h : Scope.Alike ν D s s') : s' = s.mapped r δ := by
  have hlocals : s'.locals = s.locals.map (Frame.mapped r δ) := by
    have hframes := h.locals
    generalize s.locals = locals at hframes ⊢
    generalize s'.locals = locals' at hframes ⊢
    induction hframes with
    | nil => rfl
    | cons hframe _ ih => exact congrArg₂ List.cons (hframe.eq_mapped hν hD) ih
  obtain ⟨slots, globals, locals⟩ := s'
  rw [Scope.mapped, ← h.slots, ← h.globals.eq_mapped hν hD, ← hlocals]

end Images

end Scrawl
