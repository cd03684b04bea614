import Scrawl.Proofs.Json.Scalars

/-!
# Proofs/Json/RoundTrip — what is written is read back

`read` undoes `pretty` on every value whose integers keep within the digit limit and whose objects
have distinct names (`Readable`).  The reader's fuel is counted off against the characters left: a
value needs twice as many steps as there are, a list of items one more.
-/

namespace Scrawl.Json

open Text Decimal

/-- **The values that are read back from their text.** -/
inductive Readable (limit : Option Nat) : Json → Prop
  | null : Readable limit .null
  | bool (b : Bool) : Readable limit (.bool b)
  | int {n : Int} (h : ∀ k ∈ limit, (Nat.toDigits 10 n.natAbs).length ≤ k) : Readable limit (.int n)
  | float (x : Float) : Readable limit (.float x)
  | text (s : String) : Readable limit (.text s)
  | list {items : List Json} (h : ∀ item ∈ items, Readable limit item) :
      Readable limit (.list items)
  | object {fields : List (String × Json)} (hnames : (fields.map Prod.fst).Nodup)
      (h : ∀ field ∈ fields, Readable limit field.2) : Readable limit (.object fields)

/-! ## White space -/

/-- A layout that adds nothing but white space. -/
structure Layout.Spaced (layout : Layout) : Prop where
  lineBreak : ∀ level, ∀ c ∈ layout.lineBreak level, isSpace c
  colon : ∃ spaces, layout.colon = ':' :: spaces ∧ ∀ c ∈ spaces, isSpace c

theorem Layout.spaced_indented : Layout.indented.Spaced where
  lineBreak level c hc := by
    rcases List.mem_cons.mp hc with rfl | hc
    · rfl
    · exact (List.eq_of_mem_replicate hc) ▸ rfl
  colon := ⟨[' '], rfl, fun _ hc => List.mem_singleton.mp hc ▸ rfl⟩

section Space

variable {spaces text rest : List Char} {index : Nat}

/-- White space is skipped up to what is none. -/
theorem skipSpace_append (hspaces : ∀ c ∈ spaces, isSpace c)
    (hstop : ∀ c ∈ text.head?, ¬ isSpace c) :
    Spot.skipSpace ⟨spaces ++ text, index⟩ = ⟨text, index + spaces.length⟩ := by
  rw [Spot.skipSpace, takeWhile_append_stop hspaces hstop, Spot.skip_append]

theorem skipSpace_of_stop (hstop : ∀ c ∈ text.head?, ¬ isSpace c) :
    Spot.skipSpace ⟨text, index⟩ = ⟨text, index⟩ :=
  skipSpace_append (List.forall_mem_nil _) hstop

/-- **The start of a value**: neither white space nor the end of a list. -/
def ValueStart (text : List Char) : Prop :=
  ∃ c more, text = c :: more ∧ ¬ isSpace c ∧ c ≠ ']' ∧ c ≠ '\ufeff'

theorem ValueStart.head (h : ValueStart text) : ∀ c ∈ text.head?, ¬ isSpace c := by
  obtain ⟨c, more, rfl, hspace, -⟩ := h
  rintro d ⟨⟩
  exact hspace

end Space

/-! ## Lists -/

section Items

variable {limit : Option Nat} {fuel : Nat} {done items : List Json} {item : Json}
  {spaces text more rest : List Char}

/-- A list with items starts with the first of them. -/
theorem reads_list (hspaces : ∀ c ∈ spaces, isSpace c) (hstart : ValueStart text)
    (h : Reads (readItems limit fuel []) text (.list items) rest) :
    Reads (readValue limit (fuel + 1)) ('[' :: (spaces ++ text)) (.list items) rest := by
  intro index
  have hskip : Spot.skipSpace (Spot.skip ⟨'[' :: (spaces ++ text), index⟩ 1) =
      ⟨text, index + 1 + spaces.length⟩ := skipSpace_append hspaces hstart.head
  obtain ⟨next, hitems⟩ := h (index + 1 + spaces.length)
  refine ⟨next, ?_⟩
  rw [readValue]
  simp only [hskip]
  obtain ⟨c, more, rfl, -, hc, -⟩ := hstart
  split
  · exact absurd (List.cons.inj ‹_›).1 hc
  · exact hitems

/-- The last item. -/
theorem reads_lastItem (hspaces : ∀ c ∈ spaces, isSpace c)
    (h : Reads (readValue limit fuel) text item (spaces ++ ']' :: rest)) :
    Reads (readItems limit (fuel + 1) done) text (.list (item :: done).reverse) rest := by
  intro index
  obtain ⟨next, hitem⟩ := h index
  have hskip : Spot.skipSpace ⟨spaces ++ ']' :: rest, next⟩ =
      ⟨']' :: rest, next + spaces.length⟩ := skipSpace_append hspaces (by rintro c ⟨⟩; decide)
  refine ⟨next + spaces.length + 1, ?_⟩
  rw [readItems, hitem]
  simp only [hskip]
  rfl

/-- An item with others behind it. -/
theorem reads_moreItems (hspaces : ∀ c ∈ spaces, isSpace c) (hstart : ValueStart more)
    (h : Reads (readValue limit fuel) text item (',' :: (spaces ++ more)))
    (hrest : Reads (readItems limit fuel (item :: done)) more (.list items) rest) :
    Reads (readItems limit (fuel + 1) done) text (.list items) rest := by
  intro index
  obtain ⟨next, hitem⟩ := h index
  have hcomma : Spot.skipSpace ⟨',' :: (spaces ++ more), next⟩ = ⟨',' :: (spaces ++ more), next⟩ :=
    skipSpace_of_stop (by rintro c ⟨⟩; decide)
  have hskip : Spot.skipSpace (Spot.skip ⟨',' :: (spaces ++ more), next⟩ 1) =
      ⟨more, next + 1 + spaces.length⟩ := skipSpace_append hspaces hstart.head
  obtain ⟨last, hitems⟩ := hrest (next + 1 + spaces.length)
  refine ⟨last, ?_⟩
  rw [readItems, hitem]
  simp only [hcomma, hskip]
  exact hitems

end Items

/-! ## Objects -/

section Fields

variable {limit : Option Nat} {fuel : Nat} {done fields : List (String × Json)} {name : String}
  {value : Json} {layout : Layout} {spaces text more rest : List Char}

/-- An object with fields starts with the first of them. -/
theorem reads_object (hspaces : ∀ c ∈ spaces, isSpace c)
    (h : Reads (readFields limit fuel []) ('"' :: text) (.object fields) rest) :
    Reads (readValue limit (fuel + 1)) ('\x7b' :: (spaces ++ '"' :: text)) (.object fields)
      rest := by
  intro index
  have hskip : Spot.skipSpace (Spot.skip ⟨'\x7b' :: (spaces ++ '"' :: text), index⟩ 1) =
      ⟨'"' :: text, index + 1 + spaces.length⟩ :=
    skipSpace_append hspaces (by rintro c ⟨⟩; decide)
  obtain ⟨next, hfields⟩ := h (index + 1 + spaces.length)
  refine ⟨next, ?_⟩
  rw [readValue]
  simp only [hskip]
  exact hfields

/-- What the mark behind a field decides: the object ends there, or another field follows. -/
def afterField (limit : Option Nat) (fuel : Nat) (done : List (String × Json)) (s : Spot) :
    Except ReadError (Json × Spot) :=
  match s.rest with
  | '\x7d' :: _ => .ok (.object done, s.skip 1)
  | ',' :: _ => readFields limit fuel done (s.skip 1).skipSpace
  | _ => .error (.malformed .expectingComma s.index)

/-- A field is read up to the mark behind it. -/
theorem readFields_field (hlayout : layout.Spaced) (hstart : ValueStart text)
    (h : Reads (readValue limit fuel) text value rest) (index : Nat) : ∃ next,
    readFields limit (fuel + 1) done ⟨renderText name ++ layout.colon ++ text, index⟩ =
      afterField limit fuel (putEntry name value done) (Spot.skipSpace ⟨rest, next⟩) := by
  obtain ⟨spaces, hcolon, hspaces⟩ := hlayout.colon
  obtain ⟨place, hname⟩ := reads_text name (layout.colon ++ text) (index + 1)
  have htext : renderText name ++ layout.colon ++ text =
      '"' :: (name.toList.flatMap escapeChar ++ '"' :: (layout.colon ++ text)) := by
    simp [renderText]
  have hfirst : Spot.skip ⟨'"' :: (name.toList.flatMap escapeChar ++ '"' :: (layout.colon ++ text)),
      index⟩ 1 = ⟨name.toList.flatMap escapeChar ++ '"' :: (layout.colon ++ text), index + 1⟩ := rfl
  have hmark : Spot.skipSpace ⟨layout.colon ++ text, place⟩ = ⟨layout.colon ++ text, place⟩ := by
    rw [hcolon]
    exact skipSpace_of_stop (by rintro c ⟨⟩; decide)
  have hskip : Spot.skipSpace (Spot.skip ⟨layout.colon ++ text, place⟩ 1) =
      ⟨text, place + 1 + spaces.length⟩ := by
    rw [hcolon]
    exact skipSpace_append hspaces hstart.head
  obtain ⟨next, hvalue⟩ := h (place + 1 + spaces.length)
  refine ⟨next, ?_⟩
  rw [htext, readFields]
  simp only [hfirst, hname, hmark, hskip]
  rw [hcolon]
  simp only [List.cons_append, hvalue]
  rfl

/-- The last field. -/
theorem reads_lastField (hlayout : layout.Spaced) (hnew : name ∉ done.map Prod.fst)
    (hspaces : ∀ c ∈ spaces, isSpace c) (hstart : ValueStart text)
    (h : Reads (readValue limit fuel) text value (spaces ++ '\x7d' :: rest)) :
    Reads (readFields limit (fuel + 1) done) (renderText name ++ layout.colon ++ text)
      (.object (done ++ [(name, value)])) rest := by
  intro index
  obtain ⟨next, hfield⟩ := readFields_field hlayout hstart h index
  have hskip : Spot.skipSpace ⟨spaces ++ '\x7d' :: rest, next⟩ =
      ⟨'\x7d' :: rest, next + spaces.length⟩ := skipSpace_append hspaces (by rintro c ⟨⟩; decide)
  refine ⟨next + spaces.length + 1, ?_⟩
  rw [hfield, hskip, putEntry_of_not_mem value hnew]
  rfl

/-- A field with others behind it. -/
theorem reads_moreFields (hlayout : layout.Spaced) (hnew : name ∉ done.map Prod.fst)
    (hspaces : ∀ c ∈ spaces, isSpace c) (hstart : ValueStart text)
    (h : Reads (readValue limit fuel) text value (',' :: (spaces ++ '"' :: more)))
    (hrest : Reads (readFields limit fuel (done ++ [(name, value)])) ('"' :: more) (.object fields)
      rest) :
    Reads (readFields limit (fuel + 1) done) (renderText name ++ layout.colon ++ text)
      (.object fields) rest := by
  intro index
  obtain ⟨next, hfield⟩ := readFields_field hlayout hstart h index
  have hcomma : Spot.skipSpace ⟨',' :: (spaces ++ '"' :: more), next⟩ =
      ⟨',' :: (spaces ++ '"' :: more), next⟩ := skipSpace_of_stop (by rintro c ⟨⟩; decide)
  have hskip : Spot.skipSpace (Spot.skip ⟨',' :: (spaces ++ '"' :: more), next⟩ 1) =
      ⟨'"' :: more, next + 1 + spaces.length⟩ :=
    skipSpace_append hspaces (by rintro c ⟨⟩; decide)
  obtain ⟨last, hfields⟩ := hrest (next + 1 + spaces.length)
  refine ⟨last, ?_⟩
  rw [hfield, hcomma, putEntry_of_not_mem value hnew]
  simp only [afterField, hskip]
  exact hfields

end Fields

/-! ## Scalars and texts -/

section Leaves

variable {limit : Option Nat} {fuel : Nat} {j : Json} {text rest : List Char}

theorem ScalarText.valueStart (h : ScalarText text) : ValueStart (text ++ rest) := by
  obtain ⟨c, more, rfl⟩ := List.exists_cons_of_ne_nil h.ne_nil
  have hc := h.plain c List.mem_cons_self
  refine ⟨c, more ++ rest, rfl, fun hspace => ?_, ?_, ?_⟩
  · simp only [isSpace, Bool.or_eq_true, beq_iff_eq] at hspace
    rcases hspace with ((rfl | rfl) | rfl) | rfl <;> exact absurd hc (by decide)
  · rintro rfl
    exact absurd hc (by decide)
  · rintro rfl
    exact absurd hc (by decide)

/-- A constant or a number is read where a value is. -/
theorem reads_scalar (htext : ScalarText text)
    (h : Reads (readScalar limit) (text ++ rest) j rest) :
    Reads (readValue limit (fuel + 1)) (text ++ rest) j rest := by
  intro index
  obtain ⟨next, hread⟩ := h index
  obtain ⟨c, more, rfl⟩ := List.exists_cons_of_ne_nil htext.ne_nil
  have hc := htext.plain c List.mem_cons_self
  refine ⟨next, ?_⟩
  rw [readValue]
  split
  · obtain rfl := (List.cons.inj ‹_›).1
    exact absurd hc (by decide)
  · obtain rfl := (List.cons.inj ‹_›).1
    exact absurd hc (by decide)
  · obtain rfl := (List.cons.inj ‹_›).1
    exact absurd hc (by decide)
  · exact hread

/-- A text is read back where a value is wanted. -/
theorem reads_renderText (s : String) (rest : List Char) :
    Reads (readValue limit (fuel + 1)) (renderText s ++ rest) (.text s) rest := by
  intro index
  obtain ⟨next, hread⟩ := reads_text s rest (index + 1)
  have htext : renderText s ++ rest = '"' :: (s.toList.flatMap escapeChar ++ '"' :: rest) := by
    simp [renderText]
  have hfirst : Spot.skip ⟨'"' :: (s.toList.flatMap escapeChar ++ '"' :: rest), index⟩ 1 =
      ⟨s.toList.flatMap escapeChar ++ '"' :: rest, index + 1⟩ := rfl
  refine ⟨next, ?_⟩
  rw [htext, readValue]
  simp only [hfirst, hread]

end Leaves

/-! ## What follows a value -/

section Following

variable {layout : Layout} {level : Nat} {spaces text rest : List Char}

/-- White space ends a number as well as what is behind it. -/
theorem numberStop_append (hspaces : ∀ c ∈ spaces, isSpace c) (hstop : NumberStop text) :
    NumberStop (spaces ++ text) := by
  cases spaces with
  | nil => exact hstop
  | cons c spaces =>
    have hc := hspaces c List.mem_cons_self
    simp only [isSpace, Bool.or_eq_true, beq_iff_eq] at hc
    rintro d ⟨⟩
    rcases hc with ((rfl | rfl) | rfl) | rfl <;> decide

/-- Behind an item stands a comma or the end, and either stops a number. -/
theorem numberStop_renderItems (hstop : NumberStop rest) :
    ∀ items, NumberStop (renderItems layout level items rest)
  | [] => by rwa [renderItems]
  | item :: items => by
      rw [renderItems]
      rintro c ⟨⟩
      decide

theorem numberStop_renderFields (hstop : NumberStop rest) :
    ∀ fields, NumberStop (renderFields layout level fields rest)
  | [] => by rwa [renderFields]
  | (name, value) :: fields => by
      rw [renderFields]
      rintro c ⟨⟩
      decide

theorem renderFields_cons (name : String) (value : Json) (fields : List (String × Json)) :
    renderFields layout level ((name, value) :: fields) rest =
      ',' :: (layout.lineBreak level ++ (renderText name ++ layout.colon ++
        renderOnto layout level value (renderFields layout level fields rest))) := by
  simp only [renderFields, List.append_assoc]

theorem renderOnto_object_cons (name : String) (value : Json) (fields : List (String × Json)) :
    renderOnto layout level (.object ((name, value) :: fields)) rest =
      '\x7b' :: (layout.lineBreak (level + 1) ++ (renderText name ++ layout.colon ++
        renderOnto layout (level + 1) value (renderFields layout (level + 1) fields
          (layout.lineBreak level ++ '\x7d' :: rest)))) := by
  simp only [renderOnto, List.append_assoc]

/-- Every value starts as one. -/
theorem valueStart_renderOnto (layout : Layout) (level : Nat) (j : Json) (rest : List Char) :
    ValueStart (renderOnto layout level j rest) := by
  cases j with
  | null => exact ⟨'n', _, rfl, by decide, by decide, by decide⟩
  | bool b => cases b <;> exact ⟨_, _, rfl, by decide, by decide, by decide⟩
  | int n => exact (scalarText_toString n).valueStart
  | float x => exact (scalarText_renderFloat x).valueStart
  | text s => exact ⟨'"', _, rfl, by decide, by decide, by decide⟩
  | list items => cases items <;> exact ⟨'[', _, rfl, by decide, by decide, by decide⟩
  | object fields => cases fields <;> exact ⟨'\x7b', _, rfl, by decide, by decide, by decide⟩

mutual

/-- A value stands in front of the rest. -/
theorem suffix_renderOnto (layout : Layout) (level : Nat) :
    ∀ (j : Json) (rest : List Char), rest <:+ renderOnto layout level j rest
  | .null, rest => List.suffix_append _ _
  | .bool _, rest => List.suffix_append _ _
  | .int _, rest => List.suffix_append _ _
  | .float _, rest => List.suffix_append _ _
  | .text _, rest => List.suffix_append _ _
  | .list [], rest => List.suffix_append ['[', ']'] rest
  | .list (item :: items), rest => by
      have hclose : rest <:+ layout.lineBreak level ++ ']' :: rest :=
        (List.suffix_cons _ _).trans (List.suffix_append _ _)
      rw [renderOnto]
      exact (hclose.trans ((suffix_renderItems layout (level + 1) items _).trans
        (suffix_renderOnto layout (level + 1) item _))).trans
        ((List.suffix_append _ _).trans (List.suffix_cons _ _))
  | .object [], rest => List.suffix_append ['\x7b', '\x7d'] rest
  | .object ((name, value) :: fields), rest => by
      have hclose : rest <:+ layout.lineBreak level ++ '\x7d' :: rest :=
        (List.suffix_cons _ _).trans (List.suffix_append _ _)
      rw [renderOnto]
      exact (hclose.trans ((suffix_renderFields layout (level + 1) fields _).trans
        (suffix_renderOnto layout (level + 1) value _))).trans
        ((List.suffix_append _ _).trans (List.suffix_cons _ _))

/-- What follows is written behind the items as it is. -/
theorem suffix_renderItems (layout : Layout) (level : Nat) :
    ∀ (items : List Json) (rest : List Char), rest <:+ renderItems layout level items rest
  | [], rest => by
      rw [renderItems]
  | item :: items, rest => by
      rw [renderItems]
      exact ((suffix_renderItems layout level items rest).trans
        (suffix_renderOnto layout level item _)).trans
        ((List.suffix_append _ _).trans (List.suffix_cons _ _))

theorem suffix_renderFields (layout : Layout) (level : Nat) :
    ∀ (fields : List (String × Json)) (rest : List Char),
      rest <:+ renderFields layout level fields rest
  | [], rest => by
      rw [renderFields]
  | (name, value) :: fields, rest => by
      rw [renderFields]
      exact ((suffix_renderFields layout level fields rest).trans
        (suffix_renderOnto layout level value _)).trans
        ((List.suffix_append _ _).trans (List.suffix_cons _ _))

end

end Following

/-! ## The round trip -/

/-- **A value is read back from its text**, whatever follows it, in two steps for a character. -/
def ReadsBack (limit : Option Nat) (layout : Layout) (j : Json) : Prop :=
  ∀ (level : Nat) (rest : List Char) (fuel : Nat), NumberStop rest →
    2 * (renderOnto layout level j rest).length ≤ fuel →
    Reads (readValue limit fuel) (renderOnto layout level j rest) j rest

section RoundTrip

variable {limit : Option Nat} {layout : Layout} {level : Nat} {spaces rest : List Char}

/-- A closing bracket stops a number. -/
theorem numberStop_close {c : Char} (hc : c = ']' ∨ c = '\x7d')
    (hspaces : ∀ c ∈ spaces, isSpace c) : NumberStop (spaces ++ c :: rest) := by
  refine numberStop_append hspaces ?_
  rintro d ⟨⟩
  rcases hc with rfl | rfl <;> decide

/-- Items are read back behind those that have been read. -/
theorem ReadsBack.items (hlayout : layout.Spaced) (hspaces : ∀ c ∈ spaces, isSpace c) :
    ∀ {items : List Json} {item : Json} {done : List Json} {fuel : Nat},
      (∀ x ∈ item :: items, ReadsBack limit layout x) →
      2 * (renderOnto layout level item
        (renderItems layout level items (spaces ++ ']' :: rest))).length < fuel →
      Reads (readItems limit fuel done) (renderOnto layout level item
        (renderItems layout level items (spaces ++ ']' :: rest)))
        (.list (done.reverse ++ item :: items)) rest
  | items, item, done, 0, _, hfuel => absurd hfuel (Nat.not_lt_zero _)
  | [], item, done, fuel + 1, hall, hfuel => by
      have hitem := hall item List.mem_cons_self level (spaces ++ ']' :: rest) fuel
        (numberStop_close (.inl rfl) hspaces) (Nat.le_of_lt_succ hfuel)
      rw [← List.reverse_cons, renderItems]
      exact reads_lastItem hspaces hitem
  | next :: items, item, done, fuel + 1, hall, hfuel => by
      obtain ⟨hitem, hall⟩ := List.forall_mem_cons.mp hall
      have hvalue := hitem level _ fuel
        (numberStop_renderItems (numberStop_close (.inl rfl) hspaces) (next :: items))
        (Nat.le_of_lt_succ hfuel)
      have hshorter := (suffix_renderOnto layout level item
        (renderItems layout level (next :: items) (spaces ++ ']' :: rest))).length_le
      rw [renderItems] at hvalue hshorter
      rw [renderItems]
      refine reads_moreItems (hlayout.lineBreak level) (valueStart_renderOnto _ _ _ _) hvalue ?_
      rw [List.append_cons done.reverse, ← List.reverse_cons]
      refine ReadsBack.items hlayout hspaces hall ?_
      rw [List.length_cons, List.length_append] at hshorter
      rw [renderItems] at hfuel
      omega

/-- A name that is not there twice is not there yet. -/
theorem not_mem_of_nodup_append {name : String} {value : Json}
    {done fields : List (String × Json)}
    (h : ((done ++ (name, value) :: fields).map Prod.fst).Nodup) : name ∉ done.map Prod.fst := by
  rw [List.map_append, List.map_cons] at h
  exact fun hmem => List.disjoint_of_nodup_append h hmem List.mem_cons_self

/-- Fields are read back behind those that have been read. -/
theorem ReadsBack.fields (hlayout : layout.Spaced) (hspaces : ∀ c ∈ spaces, isSpace c) :
    ∀ {fields : List (String × Json)} {name : String} {value : Json}
      {done : List (String × Json)} {fuel : Nat},
      (∀ x ∈ (name, value) :: fields, ReadsBack limit layout x.2) →
      ((done ++ (name, value) :: fields).map Prod.fst).Nodup →
      2 * (renderOnto layout level value
        (renderFields layout level fields (spaces ++ '\x7d' :: rest))).length < fuel →
      Reads (readFields limit fuel done) (renderText name ++ layout.colon ++
        renderOnto layout level value
          (renderFields layout level fields (spaces ++ '\x7d' :: rest)))
        (.object (done ++ (name, value) :: fields)) rest
  | fields, name, value, done, 0, _, _, hfuel => absurd hfuel (Nat.not_lt_zero _)
  | [], name, value, done, fuel + 1, hall, hnames, hfuel => by
      have hvalue := hall (name, value) List.mem_cons_self level (spaces ++ '\x7d' :: rest) fuel
        (numberStop_close (.inr rfl) hspaces) (Nat.le_of_lt_succ hfuel)
      have hnew := not_mem_of_nodup_append hnames
      rw [renderFields]
      exact reads_lastField hlayout hnew hspaces (valueStart_renderOnto _ _ _ _) hvalue
  | (next, second) :: fields, name, value, done, fuel + 1, hall, hnames, hfuel => by
      obtain ⟨hfield, hall⟩ := List.forall_mem_cons.mp hall
      have hvalue := hfield level _ fuel
        (numberStop_renderFields (numberStop_close (.inr rfl) hspaces) ((next, second) :: fields))
        (Nat.le_of_lt_succ hfuel)
      have hshorter := (suffix_renderOnto layout level value (renderFields layout level
        ((next, second) :: fields) (spaces ++ '\x7d' :: rest))).length_le
      have hnew := not_mem_of_nodup_append hnames
      rw [renderFields_cons] at hvalue hshorter
      rw [renderFields_cons]
      refine reads_moreFields hlayout hnew (hlayout.lineBreak level) (valueStart_renderOnto _ _ _ _)
        hvalue ?_
      rw [List.append_cons done (name, value) ((next, second) :: fields)] at hnames ⊢
      refine ReadsBack.fields hlayout hspaces hall hnames ?_
      rw [List.length_cons, List.length_append, List.length_append] at hshorter
      rw [renderFields_cons] at hfuel
      omega

/-- A text that starts a value has a character to spend steps on. -/
theorem exists_fuel {text : List Char} {fuel : Nat} (hstart : ValueStart text)
    (hfuel : 2 * text.length ≤ fuel) : ∃ steps, fuel = steps + 1 := by
  obtain ⟨c, more, rfl, -⟩ := hstart
  rw [List.length_cons] at hfuel
  exact ⟨fuel - 1, by omega⟩

/-- **What is written is read back.** -/
theorem Readable.readsBack (hlayout : layout.Spaced) {j : Json} (h : j.Readable limit) :
    ReadsBack limit layout j := by
  induction h with
  | null =>
    intro level rest fuel hstop hfuel
    obtain ⟨fuel, rfl⟩ := exists_fuel (valueStart_renderOnto _ _ _ _) hfuel
    have h : ("null".toList, .null) ∈ constants := by simp [constants]
    exact reads_scalar (scalarText_constant h) (reads_constant h rest)
  | bool b =>
    intro level rest fuel hstop hfuel
    obtain ⟨fuel, rfl⟩ := exists_fuel (valueStart_renderOnto _ _ _ _) hfuel
    have h : ((if b then "true" else "false").toList, .bool b) ∈ constants := by
      cases b <;> simp [constants]
    exact reads_scalar (scalarText_constant h) (reads_constant h rest)
  | int h =>
    intro level rest fuel hstop hfuel
    obtain ⟨fuel, rfl⟩ := exists_fuel (valueStart_renderOnto _ _ _ _) hfuel
    exact reads_scalar (scalarText_toString _) (reads_toString _ h hstop)
  | float x =>
    intro level rest fuel hstop hfuel
    obtain ⟨fuel, rfl⟩ := exists_fuel (valueStart_renderOnto _ _ _ _) hfuel
    exact reads_scalar (scalarText_renderFloat x) (reads_renderFloat x hstop)
  | text s =>
    intro level rest fuel hstop hfuel
    obtain ⟨fuel, rfl⟩ := exists_fuel (valueStart_renderOnto _ _ _ _) hfuel
    exact reads_renderText s rest
  | @list items h ih =>
    intro level rest fuel hstop hfuel
    obtain ⟨fuel, rfl⟩ := exists_fuel (valueStart_renderOnto _ _ _ _) hfuel
    cases items with
    | nil => exact fun index => ⟨_, rfl⟩
    | cons item items =>
      rw [renderOnto] at hfuel ⊢
      refine reads_list (hlayout.lineBreak _) (valueStart_renderOnto _ _ _ _) ?_
      refine ReadsBack.items hlayout (hlayout.lineBreak level) ih ?_
      rw [List.length_cons, List.length_append] at hfuel
      omega
  | @object fields hnames h ih =>
    intro level rest fuel hstop hfuel
    obtain ⟨fuel, rfl⟩ := exists_fuel (valueStart_renderOnto _ _ _ _) hfuel
    cases fields with
    | nil => exact fun index => ⟨_, rfl⟩
    | cons field fields =>
      obtain ⟨name, value⟩ := field
      rw [renderOnto_object_cons] at hfuel ⊢
      refine reads_object (hlayout.lineBreak _) ?_
      refine ReadsBack.fields hlayout (hlayout.lineBreak level) ih hnames ?_
      rw [List.length_cons, List.length_append, List.length_append] at hfuel
      omega

end RoundTrip

/-- **Reading undoes writing.** -/
theorem Readable.read_pretty {j : Json} (h : j.Readable (some digitLimit)) :
    read j.pretty = .ok j := by
  have hstart := valueStart_renderOnto .indented 0 j []
  obtain ⟨next, hread⟩ := h.readsBack Layout.spaced_indented 0 []
    (2 * (renderOnto .indented 0 j []).length + 2) nofun (by omega) 0
  have hmark : (renderOnto .indented 0 j []).head? ≠ some '\ufeff' := by
    obtain ⟨c, more, htext, -, -, hc⟩ := hstart
    rw [htext, List.head?_cons]
    exact fun heq => hc (Option.some.inj heq)
  rw [read, readWithin, pretty, String.toList_ofList, if_neg hmark]
  dsimp only
  rw [skipSpace_of_stop hstart.head, hread]
  rfl

/-! ## Line ends

Carriage returns stand in no text that is written, so that its line ends are read as they are. -/

section LineEnds

variable {text rest : List Char}

/-- A carriage return is always escaped. -/
theorem return_not_mem_escapeChar (c : Char) : '\r' ∉ escapeChar c := by
  rw [escapeChar]
  split_ifs with h1 h2 h3 h4 h5 h6 h7 h8
  any_goals decide
  · have hdigit : ∀ k : Fin 16, '\r' ≠ k.val.digitChar := by decide
    have hhigh := hdigit ⟨c.toNat / 16, by omega⟩
    have hlow := hdigit ⟨c.toNat % 16, by omega⟩
    rw [hexDigits_control h8]
    simp [hhigh, hlow]
  · exact fun h => h4 (List.mem_singleton.mp h).symm

theorem return_not_mem_renderText (s : String) : '\r' ∉ renderText s := by
  have hchars : '\r' ∉ s.toList.flatMap escapeChar := fun h => by
    obtain ⟨c, -, hc⟩ := List.mem_flatMap.mp h
    exact return_not_mem_escapeChar c hc
  simp [renderText, hchars]

theorem ScalarText.return_not_mem (h : ScalarText text) : '\r' ∉ text :=
  fun hmem => absurd (h.plain _ hmem) (by decide)

theorem return_not_mem_lineBreak (level : Nat) : '\r' ∉ Layout.indented.lineBreak level := by
  simp [Layout.indented]

theorem return_not_mem_name (name : String) :
    '\r' ∉ renderText name ++ Layout.indented.colon := by
  have hcolon : '\r' ∉ Layout.indented.colon := by decide
  simp [return_not_mem_renderText, hcolon]

mutual

/-- **A document has no carriage return of its own.** -/
theorem return_not_mem_renderOnto : ∀ (level : Nat) (j : Json) {rest : List Char}, '\r' ∉ rest →
    '\r' ∉ renderOnto .indented level j rest
  | level, .null, _, hrest => by simp [renderOnto, hrest]
  | level, .bool b, _, hrest => by cases b <;> simp [renderOnto, hrest]
  | level, .int n, _, hrest => by
      rw [renderOnto, List.mem_append]
      exact not_or.mpr ⟨(scalarText_toString n).return_not_mem, hrest⟩
  | level, .float x, _, hrest => by
      rw [renderOnto, List.mem_append]
      exact not_or.mpr ⟨(scalarText_renderFloat x).return_not_mem, hrest⟩
  | level, .text s, _, hrest => by simp [renderOnto, hrest, return_not_mem_renderText]
  | level, .list [], _, hrest => by simp [renderOnto, hrest]
  | level, .list (item :: items), rest, hrest => by
      have hclose : '\r' ∉ Layout.indented.lineBreak level ++ ']' :: rest := by
        simp [return_not_mem_lineBreak, hrest]
      have hitem := return_not_mem_renderOnto (level + 1) item
        (return_not_mem_renderItems (level + 1) items hclose)
      simp [renderOnto, hitem, return_not_mem_lineBreak]
  | level, .object [], _, hrest => by simp [renderOnto, hrest]
  | level, .object ((name, value) :: fields), rest, hrest => by
      have hclose : '\r' ∉ Layout.indented.lineBreak level ++ '\x7d' :: rest := by
        simp [return_not_mem_lineBreak, hrest]
      have hvalue := return_not_mem_renderOnto (level + 1) value
        (return_not_mem_renderFields (level + 1) fields hclose)
      rw [renderOnto_object_cons, List.mem_cons, List.mem_append, List.mem_append]
      simp only [hvalue, return_not_mem_lineBreak, return_not_mem_name, or_false]
      decide

theorem return_not_mem_renderItems : ∀ (level : Nat) (items : List Json) {rest : List Char},
    '\r' ∉ rest → '\r' ∉ renderItems .indented level items rest
  | level, [], _, hrest => by rwa [renderItems]
  | level, item :: items, _, hrest => by
      have hitem := return_not_mem_renderOnto level item
        (return_not_mem_renderItems level items hrest)
      simp [renderItems, hitem, return_not_mem_lineBreak]

theorem return_not_mem_renderFields : ∀ (level : Nat) (fields : List (String × Json))
    {rest : List Char}, '\r' ∉ rest → '\r' ∉ renderFields .indented level fields rest
  | level, [], _, hrest => by rwa [renderFields]
  | level, (name, value) :: fields, _, hrest => by
      have hvalue := return_not_mem_renderOnto level value
        (return_not_mem_renderFields level fields hrest)
      rw [renderFields_cons, List.mem_cons, List.mem_append, List.mem_append]
      simp only [hvalue, return_not_mem_lineBreak, return_not_mem_name, or_false]
      decide

end

/-- So the line ends of a document are read as they were written. -/
theorem return_not_mem_pretty (j : Json) : '\r' ∉ j.pretty.toList := by
  rw [pretty, String.toList_ofList]
  exact return_not_mem_renderOnto 0 j List.not_mem_nil

end LineEnds

end Scrawl.Json
