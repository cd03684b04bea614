import Scrawl.Proofs.Expression.Items
import Scrawl.Proofs.Expression.Placement
import Scrawl.Proofs.Parser.Spans

/-!
# Proofs/Expression/Acceptance — which accepted expressions are sentences

The parser counts operands only after reordering, so it accepts more than the grammar: `1 2 +` has
the tree of `1 + 2`.  What it accepts is a sentence exactly if its operands and operators are in
place (`derives_iff_inPlace`).

The parts of the parser keep `Standing.Fits` (`Parser.Placed`): a scan goes through its tokens along
with the states of the machine, and what a call takes in is an operand.  A scan knows its literals
by their kinds alone; that each has a value is known once the tree is built
(`Scan.isValued_of_tree`).
-/

namespace Scrawl

open Kind (leftParen rightParen comma identifier)

/-! ## Literals of a scan -/

/-- A literal that was folded has a value. -/
theorem Grove.exists_standsFor_of_step {g g' : Grove} {t : Token} (h : g.step t = .ok g')
    (ht : t.kind.isLiteral) : ∃ v, t.StandsFor v := by
  have hk : t.kind ≠ .identifier ∧ t.kind ≠ .functionWord ∧ t.kind.isOperand := by
    revert ht
    cases t.kind <;> decide
  obtain ⟨hname, hcall, hoperand⟩ := hk
  rw [step, if_neg (by simp [hname, hcall]), if_pos hoperand] at h
  obtain ⟨v, hv, -⟩ := exists_of_map_eq_ok h
  exact ⟨v, ht, hv⟩

theorem Grove.exists_standsFor_of_buildTree {tokens : List Token} {operands : List Node}
    {r : Node × List Node} (h : buildTree tokens operands = .ok r) {t : Token} (ht : t ∈ tokens)
    (hk : t.kind.isLiteral) : ∃ v, t.StandsFor v := by
  obtain ⟨g, hg, -⟩ := exists_of_bind_eq_ok h
  obtain ⟨xs, ys, rfl⟩ := List.append_of_mem ht
  rw [List.foldlM_append] at hg
  obtain ⟨g₁, -, hg⟩ := exists_of_bind_eq_ok hg
  rw [List.foldlM_cons] at hg
  obtain ⟨g₂, hstep, -⟩ := exists_of_bind_eq_ok hg
  exact exists_standsFor_of_step hstep hk

namespace Scan

/-- All literals of a scan have values. -/
def IsValued (s : Scan) : Prop := ∀ t ∈ s.recent, t.kind.isLiteral → ∃ v, t.StandsFor v

/-- **Where a scan has a tree, its literals have values.** -/
theorem isValued_of_tree {s : Scan} {n : Node} (h : s.tree = .ok n) : s.IsValued := by
  intro t ht hk
  unfold tree at h
  split at h
  · rename_i hnil
    rw [List.isEmpty_iff.mp hnil] at ht
    cases ht
  · obtain ⟨reordered, hpost, h⟩ := exists_of_bind_eq_ok h
    obtain ⟨r, hbuild, -⟩ := exists_of_bind_eq_ok h
    have hparen : ¬ t.IsParen := by
      rintro (hp | hp) <;>
        · rw [hp] at hk
          cases hk
    have hmem := (mem_toPostfix hpost).mpr ⟨List.mem_reverse.mpr ht, hparen⟩
    exact Grove.exists_standsFor_of_buildTree hbuild hmem hk

end Scan

namespace Parser

variable {s s₁ s' : Scan} {c c₁ d : Cursor} {t : Token} {xs ts : List Token} {q q' : Standing}

/-! ## The tokens of a scan -/

/-- **A scan goes on along with the states of the machine**, from one place to another. -/
structure Keeps (s : Scan) (c : Cursor) (s' : Scan) (ts : List Token) (d : Cursor) : Prop where
  stops : Scan.stopsAt s'.depth d.peek.kind
  recent : s.recent ⊆ s'.recent
  fits : s'.IsValued → ∀ {before : List Token} {q q' : Standing},
    q.Fits Token.StandsFor s.depth before → (q = .named → c.peek.kind ≠ leftParen) →
      q.after (ts.map Token.kind) = some q' → q'.Fits Token.StandsFor s'.depth (before ++ ts)

theorem Keeps.stop (h : Scan.stopsAt s.depth c.peek.kind) : Keeps s c s [] c where
  stops := h
  recent := List.Subset.refl _
  fits _ {before q q'} hq _ hafter := by
    obtain rfl : q = q' := Option.some.inj hafter
    rwa [List.append_nil]

/-- Some tokens in front of what the rest of a scan takes in. -/
theorem Keeps.append (h : Keeps s₁ c₁ s' ts d) (hrecent : s.recent ⊆ s₁.recent)
    (hfits : s₁.IsValued → ∀ {before : List Token} {q q' : Standing},
      q.Fits Token.StandsFor s.depth before → (q = .named → c.peek.kind ≠ leftParen) →
        q.after (xs.map Token.kind) = some q' →
          q'.Fits Token.StandsFor s₁.depth (before ++ xs) ∧
            (q' = .named → c₁.peek.kind ≠ leftParen)) :
    Keeps s c s' (xs ++ ts) d where
  stops := h.stops
  recent := List.Subset.trans hrecent h.recent
  fits hvalued {before q q'} hq hnamed hafter := by
    rw [List.map_append, Standing.after_append] at hafter
    obtain ⟨q₁, hq₁, hafter⟩ := Option.bind_eq_some_iff.mp hafter
    have hvalued₁ : s₁.IsValued := fun t ht => hvalued t (h.recent ht)
    obtain ⟨hfits₁, hnamed₁⟩ := hfits hvalued₁ hq hnamed hq₁
    rw [← List.append_assoc]
    exact h.fits hvalued hfits₁ hnamed₁ hafter

/-- An operand in front of what the rest of a scan takes in. -/
theorem Keeps.operand {n : Node} (h : Keeps (s.operand t n) c₁ s' ts d)
    (hxs : ∀ {q q' : Standing}, q.after (xs.map Token.kind) = some q' →
      ¬ q.isOver ∧ q'.isOver ∧ (q' = .named → c₁.peek.kind ≠ leftParen) ∧
        ∃ m, Derives Token.StandsFor 0 xs m) : Keeps s c s' (xs ++ ts) d := by
  refine h.append (List.subset_cons_self _ _) fun _ before q q' hq _ hafter => ?_
  obtain ⟨hopen, hover, hnamed, m, hm⟩ := hxs hafter
  have hended := (hq.leads hopen).operand hm
  refine ⟨?_, hnamed⟩
  cases q' with
  | named | complete => exact hended
  | wanting | inviting => cases hover

/-- **A token that a scan takes in keeps its tokens fitting**, if it is in place. -/
theorem fits_of_takes {before : List Token} (ht : s.Takes t s₁)
    (hstop : ¬ Scan.stopsAt s.depth t.kind) (hname : t.kind ≠ identifier)
    (hvalued : s₁.IsValued) (hq : q.Fits Token.StandsFor s.depth before)
    (hnamed : q = .named → t.kind ≠ leftParen) (hnext : q.next t.kind = some q') :
    q'.Fits Token.StandsFor s₁.depth (before ++ [t]) ∧ q' ≠ .named := by
  by_cases hover : q.isOver
  · have hended := hq.ended hover
    obtain ⟨hk, rfl⟩ | ⟨hk, rfl⟩ | ⟨hk, rfl⟩ | ⟨hk, -⟩ | ⟨hk, hcalled, -⟩ :=
      Standing.cases_of_next_over hover hnext
    · obtain ⟨-, -, -, hleft, hright⟩ := Kind.ne_of_isLeading_or_isInfix (.inr hk)
      rw [(ht.plain hleft hright).2]
      exact ⟨hended.joined hk, by decide⟩
    · obtain ⟨-, -, -, hleft, hright⟩ :=
        Kind.ne_of_isLeading_or_isInfix (.inl (Kind.isLeading_of_isStep hk))
      rw [(ht.plain hleft hright).2]
      exact ⟨hended.step (Kind.mem_steps_of_isStep hk), by decide⟩
    · rw [ht.closing hk] at hended
      exact ⟨hended.closing hk, by decide⟩
    · -- A comma ends a scan or cannot stand in it.
      have hforeign := (ht.plain (by rw [hk]; decide) (by rw [hk]; decide)).1
      rw [hk] at hforeign
      cases hforeign
    · exact absurd hk (hnamed hcalled)
  · have hleads := hq.leads hover
    obtain ⟨hk, rfl⟩ | ⟨hk, -⟩ | ⟨hk, rfl⟩ | ⟨hk, rfl⟩ | ⟨hk, rfl, -⟩ :=
      Standing.cases_of_next hover hnext
    · have hkind : t.kind ≠ leftParen ∧ t.kind ≠ rightParen ∧ t.kind ≠ .subtract := by
        revert hk
        cases t.kind <;> decide
      obtain ⟨u, hrecent, hu⟩ := ht.recent
      obtain rfl := hu hkind.2.2
      obtain ⟨v, hv⟩ := hvalued u (by rw [hrecent]; exact List.mem_cons_self) hk
      rw [(ht.plain hkind.1 hkind.2.1).2]
      exact ⟨hleads.operand (.literal hv), by decide⟩
    · exact absurd hk hname
    · rw [ht.opening hk]
      exact ⟨hleads.opening hk, by decide⟩
    · have hparen : t.kind ≠ leftParen ∧ t.kind ≠ rightParen := by
        revert hk
        cases t.kind <;> decide
      rw [(ht.plain hparen.1 hparen.2).2]
      exact ⟨hleads.sign hk, by decide⟩
    · -- Behind the open parenthesis of a call nothing was scanned yet, so the scan stops.
      refine absurd ?_ hstop
      rw [hk, hq.1]
      rfl

/-! ## The invariant -/

/-- **What the tokens are worth that the parts of the parser take in for an expression.** -/
structure Placed (fuel : Nat) : Prop where
  call : ∀ c : Cursor, c.Closed → Spans (functionWith fuel false) c fun _ ts _ =>
    ∀ {q q' : Standing}, q.after (ts.map Token.kind) = some q' →
      ¬ q.isOver ∧ q' = .complete ∧ ∃ m, Derives Token.StandsFor 0 ts m
  arguments : ∀ (name : Token) (c : Cursor), c.Closed →
    Spans (parametersWith fuel name false) c fun _ ts _ =>
      (c.peek.kind = rightParen → ts = []) ∧ ∀ {q' : Standing},
        Standing.inviting.after (ts.map Token.kind) = some q' → q' ≠ .wanting →
          ∃ ms, DerivesAll Token.StandsFor ts ms
  expression : ∀ c : Cursor, c.Closed → Spans (expressionWith fuel) c fun _ ts d =>
    Scan.stopsAt 0 d.peek.kind ∧ ∀ {q q' : Standing}, ¬ q.isOver →
      q.after (ts.map Token.kind) = some q' → q'.Fits Token.StandsFor 0 ts
  scan : ∀ (s : Scan) (c : Cursor), c.Closed → Spans (scanWith fuel s) c (Keeps s c)

namespace Placed

theorem zero : Placed 0 where
  call _ _ := .throw _
  arguments _ _ _ := .throw _
  expression _ _ := .throw _
  scan _ _ _ := .throw _

variable {fuel : Nat} (h : Placed fuel)

include h

theorem scan_succ (s : Scan) (c : Cursor) (hc : c.Closed) :
    Spans (scanWith (fuel + 1) s) c (Keeps s c) := by
  rw [scanWith]
  refine .look (run_peek c) (.ite (fun hstop => .pure (.stop hstop)) fun hstop => ?_)
  have hend : c.peek.kind ≠ .endFile := fun he => hstop (by rw [he]; rfl)
  refine .ite (fun hname => .look (run_ahead 1 c) (.ite (fun _ => ?_) fun hcalled => ?_))
    fun hname => ?_
  · refine .bind hc (h.call c hc) fun n xs d hd hxs => (h.scan _ d hd).mono ?_
    refine fun s' ts e _ hkeeps => hkeeps.operand fun hafter => ?_
    obtain ⟨hopen, rfl, hm⟩ := hxs hafter
    exact ⟨hopen, rfl, by rintro ⟨⟩, hm⟩
  · refine .bind hc (P := fun _ xs d => d = c.next ∧ xs = [c.peek]) ?_ ?_
    · intro n d hr
      rw [reference, run_bind, run_consume, if_pos hname] at hr
      cases hr
      exact ⟨[c.peek], ⟨Cursor.head?_rest hc hend, rfl⟩, rfl, rfl⟩
    · rintro n _ d hd ⟨rfl, rfl⟩
      refine (h.scan _ c.next hd).mono fun s' ts e _ hkeeps => hkeeps.operand fun hafter => ?_
      rw [List.map_singleton, Standing.after_singleton, hname] at hafter
      obtain ⟨hopen, rfl⟩ := Standing.of_next_name hafter
      refine ⟨hopen, rfl, fun _ => ?_, _, .name hname⟩
      rwa [← Cursor.ahead_one]
  · cases hpush : s.push c.peek with
    | error e => exact .advance hc hend (.throw_bind e _)
    | ok s₁ =>
      have htakes := Scan.takes_of_push hpush hstop
      refine .advance hc hend ((h.scan s₁ c.next hc).mono fun s' ts e _ hkeeps => ?_)
      change Keeps s c s' ([c.peek] ++ ts) e
      refine hkeeps.append ?_ fun hvalued before q q' hq hnamed hafter => ?_
      · obtain ⟨u, hrecent, -⟩ := htakes.recent
        rw [hrecent]
        exact List.subset_cons_self _ _
      · rw [List.map_singleton, Standing.after_singleton] at hafter
        obtain ⟨hfits, hne⟩ := fits_of_takes htakes hstop hname hvalued hq hnamed hafter
        exact ⟨hfits, (absurd · hne)⟩

theorem expression_succ (c : Cursor) (hc : c.Closed) :
    Spans (expressionWith (fuel + 1)) c fun _ ts d =>
      Scan.stopsAt 0 d.peek.kind ∧ ∀ {q q' : Standing}, ¬ q.isOver →
        q.after (ts.map Token.kind) = some q' → q'.Fits Token.StandsFor 0 ts := by
  rw [expressionWith]
  refine .bind hc (h.scan .empty c hc) fun s ts d _ hkeeps => ?_
  refine .ite (fun hdepth => ?_) fun _ => .complain_bind _ _
  refine .ofExcept fun n hn => ?_
  have hstops := hkeeps.stops
  rw [hdepth] at hstops
  refine ⟨hstops, fun {q q'} hopen hafter => ?_⟩
  rw [List.append_nil] at hafter ⊢
  have hempty : q.Fits Token.StandsFor 0 [] := by
    cases q with
    | wanting => exact Lead.nil
    | inviting => exact ⟨rfl, rfl⟩
    | named | complete => exact absurd rfl hopen
  have hfits := hkeeps.fits (Scan.isValued_of_tree hn) hempty
    (by rintro rfl; exact absurd rfl hopen) hafter
  rwa [hdepth] at hfits

theorem arguments_succ (name : Token) (c : Cursor) (hc : c.Closed) :
    Spans (parametersWith (fuel + 1) name false) c fun _ ts _ =>
      (c.peek.kind = rightParen → ts = []) ∧ ∀ {q' : Standing},
        Standing.inviting.after (ts.map Token.kind) = some q' → q' ≠ .wanting →
          ∃ ms, DerivesAll Token.StandsFor ts ms := by
  rw [parametersWith]
  refine .look (run_check _ c) (.ite (fun _ => .pure ?_) fun hmore => ?_)
  · exact ⟨fun _ => rfl, fun _ _ => ⟨[], .none⟩⟩
  have hne : c.peek.kind ≠ rightParen := by simpa using hmore
  refine .bind hc ((h.expression c hc).require hc _) fun n ts d hd hts => ?_
  -- What the tokens of the first argument are worth, by what they ask for.
  have hfirst {q : Standing} (hq : Standing.inviting.after (ts.map Token.kind) = some q) :
      q.Fits Token.StandsFor 0 ts := hts.2 (by decide) hq
  refine .ite (fun hfalse => by cases hfalse) fun _ => .look (run_check _ d) ?_
  refine .ite (fun hcomma => ?_) fun _ => .look (run_check _ d) ?_
  · have hk : d.peek.kind = comma := of_decide_eq_true hcomma
    refine .advance hd (by rw [hk]; decide) ?_
    refine .bind (c := d.next) hd (h.arguments name d.next hd) fun ns us e _ hus => .pure ?_
    refine ⟨(absurd · hne), fun {q'} hafter hq' => ?_⟩
    rw [List.append_nil, List.map_append, Standing.after_append] at hafter
    obtain ⟨q₁, hq₁, hafter⟩ := Option.bind_eq_some_iff.mp hafter
    rw [List.map_cons, Standing.after_cons, hk] at hafter
    obtain ⟨q₂, hq₂, hafter⟩ := Option.bind_eq_some_iff.mp hafter
    obtain ⟨hover, rfl⟩ := Standing.of_next_comma hq₂
    obtain ⟨m, hm⟩ := ((hfirst hq₁).ended hover).exists_derives
    obtain ⟨ms, hms⟩ := hus.2 hafter hq'
    rw [List.append_nil]
    exact ⟨_, .more hk hm hms⟩
  · refine .ite (fun hclosing => ?_) fun _ => .complain_bind _ _
    refine .bind hd (h.arguments name d hd) fun ns us e _ hus => .pure ?_
    obtain rfl := hus.1 (of_decide_eq_true hclosing)
    refine ⟨(absurd · hne), fun {q'} hafter hq' => ?_⟩
    rw [List.append_nil, List.append_nil] at hafter ⊢
    have hfits := hfirst hafter
    cases q' with
    | wanting => exact absurd rfl hq'
    | inviting =>
      obtain ⟨-, rfl⟩ := hfits
      exact ⟨[], .none⟩
    | named | complete =>
      obtain ⟨m, hm⟩ := Ended.exists_derives hfits
      exact ⟨_, .last hm⟩

theorem call_succ (c : Cursor) (hc : c.Closed) :
    Spans (functionWith (fuel + 1) false) c fun _ ts _ =>
      ∀ {q q' : Standing}, q.after (ts.map Token.kind) = some q' →
        ¬ q.isOver ∧ q' = .complete ∧ ∃ m, Derives Token.StandsFor 0 ts m := by
  rw [functionWith]
  refine .take hc (by decide) fun t c₁ h₁ hk => .take h₁ (by decide) fun opening c₂ h₂ ho => ?_
  refine .bind h₂ (h.arguments t c₂ h₂) fun ns ts c₃ h₃ hts => ?_
  refine .take h₃ (by decide) fun closing c₄ _ hclosing => .pure fun {q q'} hafter => ?_
  rw [List.map_cons, Standing.after_cons, hk] at hafter
  obtain ⟨q₁, hq₁, hafter⟩ := Option.bind_eq_some_iff.mp hafter
  obtain ⟨hopen, rfl⟩ := Standing.of_next_name hq₁
  rw [List.map_cons, Standing.after_cons, ho] at hafter
  change Standing.inviting.after _ = _ at hafter
  rw [List.map_append, Standing.after_append] at hafter
  obtain ⟨q₂, hq₂, hafter⟩ := Option.bind_eq_some_iff.mp hafter
  rw [List.map_singleton, Standing.after_singleton, hclosing] at hafter
  obtain ⟨hne, rfl⟩ := Standing.of_next_closing hafter
  obtain ⟨ms, hms⟩ := hts.2 hq₂ hne
  exact ⟨hopen, rfl, _, .call hk ho hclosing hms⟩

theorem succ : Placed (fuel + 1) where
  call := h.call_succ
  arguments := h.arguments_succ
  expression := h.expression_succ
  scan := h.scan_succ

end Placed

theorem placed (fuel : Nat) : Placed fuel := by
  induction fuel with
  | zero => exact .zero
  | succ fuel ih => exact ih.succ

end Parser

/-- **An accepted expression is a sentence exactly if its tokens are in place.**  Wherever the
parser returns a tree, the tokens it took are a sentence with that tree if and only if every operand
and operator among them stands in its place; those that do not are accepted all the same. -/
theorem derives_iff_inPlace {before tokens : List Token} {n : Node} {d : Cursor}
    (h : Parser.expression.run (.behind before tokens) = (.ok n, d)) :
    ∃ ts rest, tokens = ts ++ rest ∧ d = .behind (before ++ ts) rest ∧
      (Derives Token.StandsFor 8 ts n ↔ InPlace (ts.map Token.kind)) := by
  have hc := Cursor.closed_behind before tokens
  have hrun := h
  rw [Parser.expression, Parser.run_fuelled] at hrun
  obtain ⟨ts, hreads, hstops, hfits⟩ := (Parser.placed _).expression _ hc n d hrun
  obtain ⟨rest, rfl, rfl⟩ := Cursor.exists_behind_of_reads hreads
  refine ⟨ts, rest, rfl, rfl, fun hn => hn.inPlace Token.StandsFor.kind, fun hplace => ?_⟩
  obtain ⟨q, hq, hover⟩ : ∃ q, Standing.wanting.after (ts.map Token.kind) = some q ∧ q.isOver := by
    rw [InPlace] at hplace
    cases hq : Standing.wanting.after (ts.map Token.kind) with
    | none => rw [hq] at hplace; cases hplace
    | some q => rw [hq] at hplace; exact ⟨q, rfl, hplace⟩
  obtain ⟨m, hm⟩ := ((hfits (by decide) hq).ended hover).exists_derives
  -- The parser returns the tree of a sentence, and it has returned `n`.
  have hsettles := (Parser.scans_of_derives id hm).settles hreads hstops
  have hsame := (hsettles.run_expression hc).symm.trans h
  obtain rfl : m = n := Except.ok.inj (congrArg Prod.fst hsame)
  exact hm

/-- An operator behind both of its operands, `1 2 +`, is accepted as if it stood between them. -/
theorem derives_iff_inPlace_misplaced :
    let one : Token := ⟨.int, "1", ⟨1, 1⟩⟩
    let two : Token := ⟨.int, "2", ⟨1, 3⟩⟩
    let plus : Token := ⟨.add, "+", ⟨1, 5⟩⟩
    let semicolon : Token := ⟨.endStatement, ";", ⟨1, 6⟩⟩
    let sum : Node := .binary plus (.literal (.int 1)) (.literal (.int 2))
    Parser.expression.run (.behind [] [one, two, plus, semicolon]) =
        (.ok sum, .behind [one, two, plus] [semicolon]) ∧
      ¬ Derives Token.StandsFor 8 [one, two, plus] sum := by
  intro one two plus semicolon sum
  have hrun : Parser.expression.run (.behind [] [one, two, plus, semicolon]) =
      (.ok sum, .behind [one, two, plus] [semicolon]) := by
    dsimp only [one, two, plus, semicolon, sum]
    rfl
  refine ⟨hrun, fun hderives => ?_⟩
  obtain ⟨ts, rest, htokens, hd, hiff⟩ := derives_iff_inPlace hrun
  obtain rfl : [semicolon] = rest := congrArg Cursor.rest hd
  obtain rfl : [one, two, plus] = ts := (List.append_left_inj [semicolon]).mp htokens
  exact absurd (hiff.mp hderives) (by decide)

end Scrawl
