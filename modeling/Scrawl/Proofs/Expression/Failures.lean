import Scrawl.Proofs.Expression.Items

/-!
# Proofs/Expression/Failures — what expressions can fail with

Tokens that are no expression are refused with a complaint about one of them, or about a literal
that cannot be read (`ParseError.IsComplaint`).  The only other error is that of a name without a
node.  It does not occur in a scan with a node for each name (`Scan.Named.failsOnly_tree`), since
reordering adds no names and folding takes one node for each.
-/

namespace Scrawl

open Decimal

/-- **An error that tokens can bring about**: another token was wanted, one stands in a wrong place
or for no value, or a literal is no number within the limits. -/
def ParseError.IsComplaint : ParseError → Prop
  | .unmet .. | .misplaced .. | .notLiteral _ => True
  | .number (.notInteger _) | .number (.notFloat _) | .number (.tooManyDigits _) => True
  | _ => False

/-- A name, or the mark of a call. -/
def Token.isName (t : Token) : Bool := t.kind = .identifier || t.kind = .functionWord

/-! ## Literals -/

theorem failsOnly_readInteger (text : String) :
    FailsOnly (fun e => ParseError.IsComplaint (.number e)) (readInteger text) := by
  unfold readInteger
  split
  dsimp only
  split
  · exact .error trivial
  split
  · exact .error trivial
  split
  · exact .ok _
  · exact .error trivial

theorem failsOnly_readFloat (text : String) :
    FailsOnly (fun e => ParseError.IsComplaint (.number e)) (readFloat text) := by
  unfold readFloat
  dsimp only
  split
  · split
    · exact .ok _
    · exact .error trivial
  · exact .error trivial

/-- A literal fails as a complaint about its number, or for being none. -/
theorem failsOnly_literal (t : Token) : FailsOnly ParseError.IsComplaint t.literal := by
  have hnumber {γ : Type} {x : Except NumberError γ}
      (h : FailsOnly (fun e => ParseError.IsComplaint (.number e)) x) :
      FailsOnly ParseError.IsComplaint (ParseError.ofNumber x) := by
    obtain e | a := x
    · exact .error (h e rfl)
    · exact .ok a
  unfold Token.literal
  split
  · exact (hnumber (failsOnly_readInteger _)).map _
  · exact (hnumber (failsOnly_readFloat _)).map _
  · exact .ok _
  · exact .ok _
  · exact .ok _
  · exact .error trivial

/-! ## Reordering -/

namespace Yard

/-- Reordering complains about parentheses that do not match. -/
theorem failsOnly_step (y : Yard) (t : Token) : FailsOnly ParseError.IsComplaint (y.step t) := by
  unfold step
  dsimp only
  repeat' split
  all_goals first | exact .ok _ | exact .error trivial

theorem failsOnly_finish (y : Yard) : FailsOnly ParseError.IsComplaint y.finish := by
  unfold finish
  dsimp only
  split
  · exact .ok _
  · exact .error trivial

end Yard

/-- **Reordering fails with complaints alone.** -/
theorem failsOnly_toPostfix (tokens : List Token) :
    FailsOnly ParseError.IsComplaint (toPostfix tokens) :=
  (FailsOnly.foldlM Yard.failsOnly_step tokens _).bind Yard.failsOnly_finish

/-! ## Folding -/

namespace Grove

variable {g g' : Grove} {t : Token}

/-- A token that is no name leaves the queue alone, and a name takes one node. -/
theorem length_queue_step (h : g.step t = .ok g') :
    g.queue.length = g'.queue.length + [t].countP Token.isName := by
  unfold step at h
  split at h
  · rename_i hname
    split at h
    · cases h
    · rename_i hqueue
      cases h
      have hcount : [t].countP Token.isName = 1 := by simp [Token.isName, hname]
      rw [hqueue, hcount]
      rfl
  · rename_i hname
    have hcount : [t].countP Token.isName = 0 := by simpa [Token.isName] using hname
    rw [hcount]
    split at h
    · obtain ⟨v, -, rfl⟩ := exists_of_map_eq_ok h
      rfl
    split at h
    · split at h
      · cases h
      · cases h
        rfl
    · split at h
      · cases h
        rfl
      · cases h

/-- **One token**: besides complaints there is a name without a node. -/
theorem failsOnly_step (g : Grove) (t : Token) :
    FailsOnly (fun e => e.IsComplaint ∨ e = .noOperandLeft ∧ t.isName ∧ g.queue = [])
      (g.step t) := by
  unfold step
  split
  · rename_i hname
    split
    · exact .error (.inr ⟨rfl, hname, ‹_›⟩)
    · exact .ok _
  split
  · exact ((failsOnly_literal t).mono fun _ => .inl).map _
  split
  · split
    · exact .error (.inl trivial)
    · exact .ok _
  · split
    · exact .ok _
    · exact .error (.inl trivial)

/-- **With a node for each name there are only complaints.** -/
theorem failsOnly_foldlM {tokens : List Token}
    (h : tokens.countP Token.isName ≤ g.queue.length) :
    FailsOnly ParseError.IsComplaint (tokens.foldlM step g) := by
  induction tokens generalizing g with
  | nil => exact .ok _
  | cons t tokens ih =>
    rw [← List.singleton_append, List.countP_append] at h
    rw [List.foldlM_cons]
    cases hstep : g.step t with
    | error e =>
      refine .error ((failsOnly_step g t e hstep).resolve_right fun ⟨_, hname, hqueue⟩ => ?_)
      simp [hname, hqueue] at h
    | ok g' =>
      have hqueue := length_queue_step hstep
      exact ih (by omega)

theorem failsOnly_finish (tokens : List Token) (g : Grove) :
    FailsOnly ParseError.IsComplaint (g.finish tokens) := by
  unfold finish
  split
  · exact .ok _
  · exact .ok _
  · exact .error trivial

end Grove

/-- Besides complaints there is a name without a node… -/
theorem failsOnly_buildTree (tokens : List Token) (operands : List Node) :
    FailsOnly (fun e => e.IsComplaint ∨ e = .noOperandLeft) (buildTree tokens operands) := by
  have hstep (g : Grove) (t : Token) :
      FailsOnly (fun e => e.IsComplaint ∨ e = .noOperandLeft) (g.step t) :=
    (g.failsOnly_step t).mono fun _ => Or.imp_right And.left
  refine (FailsOnly.foldlM hstep tokens _).bind fun g => ?_
  exact ((g.failsOnly_finish tokens).mono fun _ => .inl).bind fun _ => .ok _

/-- …unless there are nodes for all names. -/
theorem failsOnly_buildTree_of_le {tokens : List Token} {operands : List Node}
    (h : tokens.countP Token.isName ≤ operands.length) :
    FailsOnly ParseError.IsComplaint (buildTree tokens operands) :=
  (Grove.failsOnly_foldlM (g := ⟨[], operands⟩) h).bind fun g =>
    (g.failsOnly_finish tokens).bind fun _ => .ok _

/-! ## Scanning -/

namespace Scan

variable {s s' : Scan} {t : Token}

/-- **A scan has a node for each name.** -/
def Named (s : Scan) : Prop := s.recent.countP Token.isName ≤ s.nodes.length

theorem named_empty : Scan.empty.Named := Nat.le_refl 0

/-- An operand scanned brings its node with it. -/
theorem Named.operand (h : s.Named) (t : Token) (n : Node) : (s.operand t n).Named := by
  have hcons : (t :: s.recent).countP Token.isName ≤ s.recent.countP Token.isName + 1 := by
    rw [List.countP_cons]
    split <;> omega
  exact Nat.le_trans hcons (Nat.succ_le_succ h)

/-- No other token is a name: the word that starts a definition cannot stand in an expression. -/
theorem Named.push (h : s.Named) (ht : t.kind ≠ .identifier) (hs : s.push t = .ok s') :
    s'.Named := by
  have hcons {u : Token} (hu : u.isName = false) (depth : Nat) :
      Named ⟨depth, u :: s.recent, s.nodes⟩ := by
    rw [Named, List.countP_cons_of_neg (by simp [hu])]
    exact h
  rcases push_cases hs with ⟨hk, rfl⟩ | ⟨hk, rfl⟩ | ⟨-, -, hforeign, ⟨-, -, rfl⟩ | ⟨-, rfl⟩⟩
  · exact hcons (by simp [Token.isName, hk]) _
  · exact hcons (by simp [Token.isName, hk]) _
  · exact hcons rfl _
  · have hword : t.kind ≠ .functionWord := by
      intro hk
      rw [hk] at hforeign
      cases hforeign
    exact hcons (by simp [Token.isName, ht, hword]) _

theorem failsOnly_push (s : Scan) (t : Token) :
    FailsOnly ParseError.IsComplaint (s.push t) := by
  unfold Scan.push
  repeat' split
  all_goals first | exact .ok _ | exact .error trivial

/-- Building a tree may also find no operand left. -/
theorem failsOnly_tree (s : Scan) :
    FailsOnly (fun e => e.IsComplaint ∨ e = .noOperandLeft) s.tree := by
  unfold Scan.tree
  split
  · exact .ok _
  · refine ((failsOnly_toPostfix _).mono fun _ => .inl).bind fun reordered => ?_
    exact (failsOnly_buildTree reordered _).bind fun _ => .ok _

/-- **The tree of a scan with a node for each name.** -/
theorem Named.failsOnly_tree (h : s.Named) : FailsOnly ParseError.IsComplaint s.tree := by
  unfold Scan.tree
  split
  · exact .ok _
  · cases hpost : toPostfix s.recent.reverse with
    | error e => exact .error (failsOnly_toPostfix _ e hpost)
    | ok reordered =>
      have hcount := countP_toPostfix hpost Token.isName
      rw [List.countP_reverse] at hcount
      have hnodes : reordered.countP Token.isName ≤ s.nodes.reverse.length := by
        rw [List.length_reverse]
        exact Nat.le_trans hcount h
      exact (failsOnly_buildTree_of_le hnodes).bind fun _ => .ok _

end Scan

end Scrawl
