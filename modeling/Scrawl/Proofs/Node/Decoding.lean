import Mathlib.Data.List.Basic
import Scrawl.Node.Outline
import Scrawl.Proofs.Outcome

/-!
# Proofs/Node/Decoding — a drawing can be read back

A drawing has a **row** for each node, in pre-order.  The row knows for the node and for each of its
ancestors below the root whether a sibling follows; that is what the branches in front of its label
show.  A line gives back the depth of its node and the label (`Row.read`), and lines with depths are
grafted into a tree from the last one to the first (`Outline.graft`), so a drawing is read back
(`Outline.decode_draw`) if its labels are **plain**: none has a line break in it or starts as a
branch does.
-/

namespace Scrawl

namespace Outline

/-! ## Rows -/

/-- **A node as its line shows it.** -/
structure Row where
  /-- For each step from the root to the node, whether a sibling follows there. -/
  trail : List Bool
  label : String
deriving DecidableEq, Repr

/-- What stands in front of the lines below a node. -/
def padding : List Bool → String
  | [] => ""
  | hasNext :: trail => beside hasNext ++ padding trail

/-- **The line of a row**: the node's own branch and those of its ancestors, and its label. -/
def Row.text (r : Row) : String :=
  padding r.trail.dropLast ++ (r.trail.getLast?.map pointer).getD "" ++ r.label

mutual

/-- **The labels of an outline**, in pre-order. -/
def labels : Outline → List String
  | .node label children => label :: labelsBelow children

/-- The labels of all children of a node and of what is below them. -/
def labelsBelow : List Outline → List String
  | [] => []
  | child :: rest => child.labels ++ labelsBelow rest

end

mutual

/-- The rows of a node and of what is below it, with the trail of the node. -/
def rowsFrom (trail : List Bool) : Outline → List Row
  | .node label children => ⟨trail, label⟩ :: rowsBelow trail children

/-- The rows of all children of a node. -/
def rowsBelow (trail : List Bool) : List Outline → List Row
  | [] => []
  | child :: rest => rowsFrom (trail ++ [!rest.isEmpty]) child ++ rowsBelow trail rest

end

/-- **The rows of an outline**, one for each node, in pre-order. -/
def rows (t : Outline) : List Row := t.rowsFrom []

/-- Induction over an outline and the lists of children in it. -/
@[elab_as_elim] theorem induction {P : Outline → Prop}
    (node : ∀ label children, (∀ t ∈ children, P t) → P (.node label children)) (t : Outline) :
    P t :=
  @Outline.rec P (fun ts => ∀ t ∈ ts, P t) node (List.forall_mem_nil _)
    (fun _ _ h hs => List.forall_mem_cons.mpr ⟨h, hs⟩) t

/-- **Every child but the last has a sibling behind it.** -/
theorem rowsFrom_concat (trail : List Bool) (label : String) (ts : List Outline) (t : Outline) :
    (Outline.node label (ts ++ [t])).rowsFrom trail = ⟨trail, label⟩ ::
      (ts.flatMap (·.rowsFrom (trail ++ [true])) ++ t.rowsFrom (trail ++ [false])) := by
  have hbelow : rowsBelow trail (ts ++ [t]) =
      ts.flatMap (·.rowsFrom (trail ++ [true])) ++ t.rowsFrom (trail ++ [false]) := by
    induction ts with
    | nil => simp [rowsBelow]
    | cons u us ih =>
      have hnext : (us ++ [t]).isEmpty = false := List.isEmpty_eq_false_iff.mpr (by simp)
      rw [List.cons_append, rowsBelow, hnext, ih, List.flatMap_cons, List.append_assoc,
        Bool.not_false]
  rw [rowsFrom, hbelow]

/-- The rows below a node carry the labels below it, if those of each child do. -/
theorem map_label_rowsBelow {ts : List Outline}
    (h : ∀ t ∈ ts, ∀ trail, (t.rowsFrom trail).map Row.label = t.labels) (trail : List Bool) :
    (rowsBelow trail ts).map Row.label = labelsBelow ts := by
  induction ts with
  | nil => rw [rowsBelow, labelsBelow, List.map_nil]
  | cons t ts ih =>
    obtain ⟨ht, hts⟩ := List.forall_mem_cons.mp h
    rw [rowsBelow, labelsBelow, List.map_append, ht, ih hts]

theorem map_label_rowsFrom (t : Outline) (trail : List Bool) :
    (t.rowsFrom trail).map Row.label = t.labels := by
  induction t using induction generalizing trail with
  | node label children ih => rw [rowsFrom, labels, List.map_cons, map_label_rowsBelow ih]

/-- **There is a row for each label.** -/
theorem map_label_rows (t : Outline) : t.rows.map Row.label = t.labels := map_label_rowsFrom t []

/-- A label below a node is one of a child. -/
theorem mem_labelsBelow {label : String} {ts : List Outline} :
    label ∈ labelsBelow ts ↔ ∃ t ∈ ts, label ∈ t.labels := by
  induction ts with
  | nil => simp [labelsBelow]
  | cons t ts ih => simp [labelsBelow, ih]

/-- A step further down adds a column beside those of the ancestors. -/
theorem padding_append (trail : List Bool) (hasNext : Bool) :
    padding (trail ++ [hasNext]) = padding trail ++ beside hasNext := by
  induction trail with
  | nil => simp [padding]
  | cons b trail ih => rw [List.cons_append, padding, ih, padding, String.append_assoc]

/-- Below the root a line is its ancestors' columns, its own branch and its label. -/
theorem Row.text_append (trail : List Bool) (hasNext : Bool) (label : String) :
    Row.text ⟨trail ++ [hasNext], label⟩ = padding trail ++ pointer hasNext ++ label := by
  simp [Row.text]

/-- The lines below a node are the texts of the rows below it, if those of each child are. -/
theorem branches_eq {ts : List Outline}
    (h : ∀ t ∈ ts, ∀ trail hasNext, branch (padding trail) hasNext t =
      (t.rowsFrom (trail ++ [hasNext])).map Row.text) (trail : List Bool) :
    branches (padding trail) ts = (rowsBelow trail ts).map Row.text := by
  induction ts with
  | nil => rw [branches, rowsBelow, List.map_nil]
  | cons t ts ih =>
    obtain ⟨ht, hts⟩ := List.forall_mem_cons.mp h
    rw [branches, rowsBelow, List.map_append, ht, ih hts]

/-- …and they are, by induction on the outline. -/
theorem branch_eq (t : Outline) (trail : List Bool) (hasNext : Bool) :
    branch (padding trail) hasNext t = (t.rowsFrom (trail ++ [hasNext])).map Row.text := by
  induction t using induction generalizing trail hasNext with
  | node label children ih =>
    rw [branch, rowsFrom, List.map_cons, Row.text_append, ← padding_append, branches_eq ih]

/-- **A drawing has a line for each row.** -/
theorem lines_eq (t : Outline) : t.lines = t.rows.map Row.text := by
  obtain ⟨label, children⟩ := t
  rw [lines, rows, rowsFrom, List.map_cons]
  have hroot : Row.text ⟨[], label⟩ = label := by simp [Row.text, padding]
  rw [hroot]
  exact congrArg (label :: ·) (branches_eq (fun t _ => branch_eq t) [])

/-! ## Plain labels -/

/-- The characters that branches start with. -/
def branchStarts : List Char := [' ', '│', '├', '└']

/-- **A label that is told apart from the branches in front of it** and from the lines around it. -/
def IsPlainLabel (label : String) : Prop :=
  '\n' ∉ label.toList ∧ ∀ c ∈ label.toList.head?, c ∉ branchStarts

-- Only the first character is looked at, not all characters there are.
instance decidableIsPlainLabel (label : String) : Decidable (IsPlainLabel label) :=
  @instDecidableAnd _ _ inferInstance (Option.decidableForallMem _)

/-- All labels are plain. -/
def IsPlain (t : Outline) : Prop := ∀ label ∈ t.labels, IsPlainLabel label

theorem IsPlain.row {t : Outline} (h : t.IsPlain) {r : Row} (hr : r ∈ t.rows) :
    IsPlainLabel r.label :=
  h r.label (t.map_label_rows ▸ List.mem_map_of_mem hr)

/-- A character in front of the branch of a node. -/
def isPadding (c : Char) : Bool := c = ' ' || c = '│'

/-- **The depth and the label that a line shows.**  Only the root has no branch of its own. -/
def Row.read (line : List Char) : Nat × List Char :=
  let rest := line.dropWhile isPadding
  if rest.head? = some '├' ∨ rest.head? = some '└' then
    ((line.takeWhile isPadding).length / 4 + 1, rest.drop 4)
  else (0, line)

/-- **One more node in front of others.**  Those right behind it that are deeper are its
children. -/
def graft (row : Nat × List Char) (behind : List (Nat × Outline)) : List (Nat × Outline) :=
  (row.1, .node (String.ofList row.2) ((behind.takeWhile (row.1 < ·.1)).map Prod.snd)) ::
    behind.dropWhile (row.1 < ·.1)

/-- **The outline that a text draws.** -/
def decode (text : String) : Option Outline :=
  (((text.toList.splitOn '\n').map Row.read).foldr graft []).head?.map Prod.snd

/-! ## Lines are read back -/

/-- Columns are made of blanks and bars. -/
theorem isPadding_of_mem_padding {trail : List Bool} :
    ∀ c ∈ (padding trail).toList, isPadding c := by
  have hbeside : ∀ hasNext, (beside hasNext).toList.all isPadding := by decide
  induction trail with
  | nil => exact List.forall_mem_nil _
  | cons hasNext trail ih =>
    rw [padding, String.toList_append, List.forall_mem_append]
    exact ⟨List.all_eq_true.mp (hbeside hasNext), ih⟩

/-- A column is four characters wide, so the width of the columns tells the depth. -/
theorem length_padding (trail : List Bool) :
    (padding trail).toList.length = 4 * trail.length := by
  have hbeside : ∀ hasNext, (beside hasNext).toList.length = 4 := by decide
  induction trail with
  | nil => rfl
  | cons hasNext trail ih =>
    rw [padding, String.toList_append, List.length_append, hbeside, ih, List.length_cons]
    omega

theorem head?_pointer_append (hasNext : Bool) (rest : List Char) :
    ((pointer hasNext).toList ++ rest).head? = some (if hasNext then '├' else '└') := by
  cases hasNext <;> rfl

/-- The columns end where a branch begins. -/
theorem not_isPadding_pointer (hasNext : Bool) (rest : List Char) :
    ∀ c ∈ ((pointer hasNext).toList ++ rest).head?, ¬ isPadding c := by
  rw [head?_pointer_append]
  rintro _ ⟨⟩
  cases hasNext <;> decide

namespace Row

variable {label : String}

theorem toList_text_root : (Row.text ⟨[], label⟩).toList = label.toList := by
  simp [text, padding]

theorem toList_text_append (trail : List Bool) (hasNext : Bool) :
    (Row.text ⟨trail ++ [hasNext], label⟩).toList =
      (padding trail).toList ++ ((pointer hasNext).toList ++ label.toList) := by
  rw [text_append, String.toList_append, String.toList_append, List.append_assoc]

/-- Behind the padding stands the branch of the node, or the label of the root. -/
theorem dropWhile_text_append (trail : List Bool) (hasNext : Bool) :
    (Row.text ⟨trail ++ [hasNext], label⟩).toList.dropWhile isPadding =
      (pointer hasNext).toList ++ label.toList := by
  rw [toList_text_append]
  exact dropWhile_append_stop isPadding_of_mem_padding (not_isPadding_pointer _ _)

/-- **The columns can be told from the rest of a line**… -/
theorem takeWhile_text_append (trail : List Bool) (hasNext : Bool) :
    (Row.text ⟨trail ++ [hasNext], label⟩).toList.takeWhile isPadding = (padding trail).toList := by
  rw [toList_text_append]
  exact takeWhile_append_stop isPadding_of_mem_padding (not_isPadding_pointer _ _)

/-- …and at the root there are none, for a plain label does not begin like one. -/
theorem dropWhile_text_root (h : IsPlainLabel label) :
    (Row.text ⟨[], label⟩).toList.dropWhile isPadding = label.toList := by
  rw [toList_text_root]
  refine dropWhile_append_stop (l := []) (List.forall_mem_nil _) fun c hc hpadding => ?_
  refine h.2 c hc ?_
  rw [isPadding, Bool.or_eq_true, decide_eq_true_iff, decide_eq_true_iff] at hpadding
  rcases hpadding with rfl | rfl <;> decide

/-- **A line shows the depth and the label of its row.** -/
theorem read_text {r : Row} (h : IsPlainLabel r.label) :
    read r.text.toList = (r.trail.length, r.label.toList) := by
  obtain ⟨trail, label⟩ := r
  rcases List.eq_nil_or_concat' trail with rfl | ⟨trail, hasNext, rfl⟩
  · rw [read, dropWhile_text_root h, if_neg, toList_text_root]
    · rfl
    · rintro (hc | hc) <;> exact h.2 _ hc (by decide)
  · have hpointer : (pointer hasNext).toList.length = 4 := by cases hasNext <;> rfl
    rw [read, dropWhile_text_append, takeWhile_text_append, head?_pointer_append, if_pos,
      length_padding, Nat.mul_div_cancel_left _ (by decide), ← hpointer, List.drop_left,
      List.length_append, List.length_singleton]
    cases hasNext <;> decide

/-- A line with a plain label is one line. -/
theorem lineBreak_notMem_text {r : Row} (h : IsPlainLabel r.label) : '\n' ∉ r.text.toList := by
  have hpointer : ∀ hasNext, '\n' ∉ (pointer hasNext).toList := by decide
  obtain ⟨trail, label⟩ := r
  rcases List.eq_nil_or_concat' trail with rfl | ⟨trail, hasNext, rfl⟩
  · rw [toList_text_root]
    exact h.1
  · rw [toList_text_append, List.mem_append, List.mem_append]
    rintro (hc | hc | hc)
    · exact absurd (isPadding_of_mem_padding _ hc) (by decide)
    · exact hpointer hasNext hc
    · exact h.1 hc

/-- **A corner stands in front of the label exactly if no sibling follows**, the root apart. -/
theorem corner_iff {r : Row} (h : IsPlainLabel r.label) :
    "└── ".toList <+: r.text.toList.dropWhile isPadding ↔ r.trail.getLast? = some false := by
  obtain ⟨trail, label⟩ := r
  rcases List.eq_nil_or_concat' trail with rfl | ⟨trail, hasNext, rfl⟩
  · rw [dropWhile_text_root h]
    refine iff_of_false ?_ (by rintro ⟨⟩)
    rintro ⟨rest, hrest⟩
    exact h.2 '└' (hrest ▸ rfl) (by decide)
  · rw [dropWhile_text_append, List.getLast?_concat]
    cases hasNext with
    | false => exact iff_of_true (List.prefix_append _ _) rfl
    | true =>
      refine iff_of_false ?_ (by decide)
      rintro ⟨rest, hrest⟩
      have hhead : ((pointer false).toList ++ rest).head? =
          ((pointer true).toList ++ label.toList).head? := congrArg List.head? hrest
      rw [head?_pointer_append, head?_pointer_append] at hhead
      exact absurd hhead (by decide)

end Row

/-! ## Trees are grafted back -/

/-- What a row shows. -/
def Row.shown (r : Row) : Nat × List Char := (r.trail.length, r.label.toList)

/-- Grafting the rows below a node puts its children in front of what follows. -/
theorem foldr_rowsBelow {ts : List Outline} {trail : List Bool} {behind : List (Nat × Outline)}
    (h : ∀ t ∈ ts, ∀ (trail : List Bool) (behind : List (Nat × Outline)),
      (∀ p ∈ behind.head?, p.1 ≤ trail.length) →
        ((t.rowsFrom trail).map Row.shown).foldr graft behind = (trail.length, t) :: behind)
    (hbehind : ∀ p ∈ behind.head?, p.1 ≤ trail.length) :
    ((rowsBelow trail ts).map Row.shown).foldr graft behind =
      ts.map (trail.length + 1, ·) ++ behind := by
  induction ts with
  | nil => rfl
  | cons t ts ih =>
    obtain ⟨ht, hts⟩ := List.forall_mem_cons.mp h
    have hnext : ∀ p ∈ (ts.map (trail.length + 1, ·) ++ behind).head?,
        p.1 ≤ (trail ++ [!ts.isEmpty]).length := by
      rw [List.length_append, List.length_singleton]
      cases ts with
      | nil => exact fun p hp => Nat.le_succ_of_le (hbehind p hp)
      | cons u us =>
        rintro _ ⟨⟩
        exact Nat.le_refl _
    rw [rowsBelow, List.map_append, List.foldr_append, ih hts, ht _ _ hnext, List.length_append,
      List.length_singleton, List.map_cons, List.cons_append]

/-- **Grafting the rows of an outline gives it back**, in front of what is no deeper than it. -/
theorem foldr_rowsFrom (t : Outline) (trail : List Bool) (behind : List (Nat × Outline))
    (hbehind : ∀ p ∈ behind.head?, p.1 ≤ trail.length) :
    ((t.rowsFrom trail).map Row.shown).foldr graft behind = (trail.length, t) :: behind := by
  induction t using induction generalizing trail behind with
  | node label children ih =>
    have hdeeper : ∀ p ∈ children.map (trail.length + 1, ·), decide (trail.length < p.1) := by
      simp
    have hstop : ∀ p ∈ behind.head?, ¬ decide (trail.length < p.1) := by
      simpa using hbehind
    rw [rowsFrom, List.map_cons, List.foldr_cons, foldr_rowsBelow ih hbehind, graft, Row.shown,
      takeWhile_append_stop hdeeper hstop, dropWhile_append_stop hdeeper hstop,
      String.ofList_toList, List.map_map]
    congr 3
    exact List.map_id _

/-- A drawing is split back into its lines. -/
theorem splitOn_draw {t : Outline} (h : t.IsPlain) :
    t.draw.toList.splitOn '\n' = t.rows.map (·.text.toList) := by
  have hlines : t.lines.map String.toList = t.rows.map (·.text.toList) := by
    rw [lines_eq, List.map_map]
    rfl
  rw [draw, String.toList_intercalate, hlines]
  refine List.splitOn_intercalate '\n' (fun l hl => ?_) ?_
  · obtain ⟨r, hr, rfl⟩ := List.mem_map.mp hl
    exact Row.lineBreak_notMem_text (h.row hr)
  · obtain ⟨label, children⟩ := t
    rw [rows, rowsFrom]
    exact List.cons_ne_nil _ _

/-- **A drawing with plain labels is read back.** -/
theorem decode_draw {t : Outline} (h : t.IsPlain) : decode t.draw = some t := by
  have hread : (t.rows.map (·.text.toList)).map Row.read = t.rows.map Row.shown := by
    rw [List.map_map]
    exact List.map_congr_left fun r hr => Row.read_text (h.row hr)
  rw [decode, splitOn_draw h, hread, rows, foldr_rowsFrom t [] [] (by rintro _ ⟨⟩)]
  rfl

end Outline

end Scrawl
