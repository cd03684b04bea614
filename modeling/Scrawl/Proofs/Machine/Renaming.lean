import Mathlib.Logic.Equiv.Basic
import Scrawl.Proofs.Machine.Alike
import Scrawl.Proofs.Machine.Faults
import Scrawl.Proofs.Expression.Grammar

/-!
# Proofs/Machine/Renaming — names are opaque

`Node.renamed` gives another name to every variable, parameter and function of a program.  As long
as no two names become one and the built-in functions keep theirs, a run does the same: names show
up only in the frames and in the fault it may end with, and these are renamed (`names_opaque`).
-/

namespace Scrawl

namespace Node

variable (r : String → String)

mutual

/-- **The tree with other names** for variables, parameters and functions. -/
def renamed : Node → Node
  | .absent => .absent
  | .value v => .value v
  | .block statements => .block (renamedAll statements)
  | .variable name initializer isDefinition =>
    .variable (r name) initializer.renamed isDefinition
  | .function name parameters body isDefinition =>
    .function (r name) (renamedAll parameters) body.renamed isDefinition
  | .terminal content => .terminal content.renamed
  | .unary operator operand => .unary operator operand.renamed
  | .binary operator left right => .binary operator left.renamed right.renamed
  | .choice condition whenTrue whenFalse =>
    .choice condition.renamed whenTrue.renamed whenFalse.renamed
  | .whileLoop condition body => .whileLoop condition.renamed body.renamed
  | .forLoop initialization condition update body =>
    .forLoop initialization.renamed condition.renamed update.renamed body.renamed

/-- …for every node of a list. -/
def renamedAll : List Node → List Node
  | [] => []
  | n :: ns => n.renamed :: renamedAll ns

end

@[simp] theorem renamedAll_eq_map (ns : List Node) : renamedAll r ns = ns.map (renamed r) := by
  induction ns with
  | nil => rfl
  | cons n ns ih => exact congrArg (n.renamed r :: ·) ih

@[simp] theorem isReturn_renamed (n : Node) : (n.renamed r).isReturn = n.isReturn := by
  cases n <;> rfl

end Node

/-- A function with other names. -/
def Definition.renamed (r : String → String) (d : Definition) : Definition :=
  ⟨d.parameters.map (.renamed r), d.body.renamed r⟩

/-- A function of a program, and the same with other names. -/
def Definition.IsRenamed (r : String → String) (d d' : Definition) : Prop :=
  d.Formed ∧ d' = d.renamed r

namespace Node

variable {r : String → String} {n : Node}

theorem IsExpression.alike_renamed {L : Value → Prop} (h : n.IsExpression L) :
    AlikeExpression (r · = ·) n (n.renamed r) := by
  induction h with
  | literal _ => exact .literal _
  | reference name => exact .reference rfl
  | call name _ ih =>
    refine .call rfl ?_
    rw [renamedAll_eq_map]
    exact .of_map ih
  | unary _ _ ih => exact .unary _ ih
  | binary _ _ _ ihl ihr => exact .binary _ ihl ihr

theorem alike_block_renamed {inside : Prop} {ns : List Node}
    (h : ∀ n ∈ ns, Alike (r · = ·) (Definition.IsRenamed r) inside n (n.renamed r)) :
    Alike (r · = ·) (Definition.IsRenamed r) inside (.block ns) ((block ns).renamed r) := by
  refine .block ?_
  rw [renamedAll_eq_map]
  exact .of_map h

/-- **A statement does the same under other names.** -/
theorem IsStatement.alike_renamed (h : n.Statement) (inside : Prop) :
    Alike (r · = ·) (Definition.IsRenamed r) inside n (n.renamed r) := by
  induction h with
  | expression he => exact .expression he.alike_renamed
  | declaration name => exact .definition rfl .none
  | @definition name operator e hk he =>
    have hassigned (l e : Node) : (binary operator l e).assigned? = some e := if_pos hk
    refine .definition rfl ?_
    rw [hassigned, renamed, hassigned]
    exact .some he.alike_renamed
  | function name hp hbody _ =>
    refine .function rfl ⟨⟨hp, .intro hbody⟩, ?_⟩
    rw [Definition.renamed, renamedAll_eq_map]
  | returnVoid hk => exact .expression (.unary _ (.literal _))
  | returnValue hk he => exact .expression (.unary _ he.alike_renamed)
  | choice hc _ iht =>
    exact .choice hc.alike_renamed (alike_block_renamed iht) (.expression .absent)
  | choiceElse hc _ _ iht ihf =>
    exact .choice hc.alike_renamed (alike_block_renamed iht) (alike_block_renamed ihf)
  | choiceChain hc _ _ iht ihf => exact .choice hc.alike_renamed (alike_block_renamed iht) ihf
  | whileLoop hc _ ih => exact .whileLoop hc.alike_renamed (alike_block_renamed ih)
  | @forLoop initialization _ _ _ _ hc hu _ ihi ih =>
    refine .forLoop ?_ (.of_ne rfl fun h => (hc h).alike_renamed)
      (.of_ne rfl fun h => (hu h).alike_renamed) (alike_block_renamed ih)
    by_cases ha : initialization = .absent
    · exact ha ▸ .expression .absent
    · exact ihi ha

theorem IsProgram.alike_renamed (h : n.Statements) :
    Alike (r · = ·) (Definition.IsRenamed r) False n (n.renamed r) := by
  obtain ⟨hs⟩ := h
  exact alike_block_renamed fun n hn => (hs n hn).alike_renamed False

theorem alikeBody_renamed : ∀ {ns : List Node}, (∀ n ∈ ns, n.Statement) →
    AlikeBody (r · = ·) (Definition.IsRenamed r) ns (ns.map (renamed r))
  | [], _ => .nil
  | n :: ns, h => by
      obtain ⟨hn, hns⟩ := List.forall_mem_cons.mp h
      by_cases hr : n.isReturn = true
      · obtain ⟨operator, e, rfl, hk, he⟩ := hn.exists_of_isReturn hr
        refine .returned ns _ hk ?_
        obtain rfl | he := he
        · exact .literal _
        · exact he.alike_renamed
      · rw [Bool.not_eq_true] at hr
        exact .cons hr (by rwa [isReturn_renamed]) (hn.alike_renamed True) (alikeBody_renamed hns)

end Node

/-- **A function does the same under other names.** -/
theorem Definition.IsRenamed.alike {r : String → String} {d d' : Definition}
    (h : d.IsRenamed r d') : d.Alike (r · = ·) (Definition.IsRenamed r) d' := by
  obtain ⟨⟨hp, hbody⟩, rfl⟩ := h
  obtain ⟨parameters, body⟩ := d
  obtain ⟨hns⟩ := hbody
  refine ⟨?_, _, _, rfl, congrArg _ (Node.renamedAll_eq_map r _), Node.alikeBody_renamed hns⟩
  refine List.forall₂_map_right_iff.mpr (List.forall₂_same.mpr fun p hmem => ?_)
  obtain ⟨x, rfl⟩ := hp p hmem
  exact ⟨x, r x, rfl, rfl, rfl⟩

/-- **Runs of a program under two sets of names.** -/
def Likeness.renaming {r : String → String} (hr : Function.Injective r)
    (hbuiltin : ∀ b : Builtin, r b.name = b.name) : Likeness where
  names := (r · = ·)
  definitions := Definition.IsRenamed r
  shown := #[]
  shown' := #[]
  biUnique := ⟨fun _ _ _ h h' => hr (h.trans h'.symm), fun _ _ _ h h' => h.symm.trans h'⟩
  builtin := hbuiltin
  alike _ _ h := h.alike

/-- Without messages, the tokens of a program do not matter. -/
theorem Exec.ends_runTokens_quiet {m m' : Machine} (hm : m.verbosity < 1) (tokens : List Token)
    (program : Node) {outcome : Except Fault Unit} :
    Ends (runTokens · tokens program) m outcome m' ↔ Ends (runProgram · program) m outcome m' := by
  simp only [Ends, run_runTokens hm]

open Exec in
/-- **Names are opaque.**  A parsed program, and the same under names of which no two are one and
that keep those of the built-in functions, end on the same inputs.  They print the same and leave
the same slots and as many open calls.  The frames have the same bases, and the same handles in the
same order; the names in them are the new ones, and so is the name that an error is about. -/
theorem names_opaque {r : String → String} (hr : Function.Injective r)
    (hinput : r "input" = "input") (houtput : r "output" = "output") (hrand : r "rand" = "rand")
    {tokens : List Token} {program : Node} (h : parse tokens = .ok program)
    (tokens' : List Token) (limits : Limits) (seed : Int) (input : List String)
    (outcome' : Except Fault Unit) (m' : Machine) :
    Ends (runTokens · tokens' (program.renamed r)) (.start limits 0 seed input) outcome' m' ↔
      ∃ outcome m, Ends (runTokens · tokens program) (.start limits 0 seed input) outcome m ∧
        outcome' = outcome.mapError (.renamed r) ∧ m' = m.mapped r (.renamed r) := by
  have hbuiltin (b : Builtin) : r b.name = b.name := by
    cases b
    · exact hinput
    · exact houtput
    · exact hrand
  let L := Likeness.renaming hr hbuiltin
  have hnames (x y : String) (h : L.names x y) : y = r x := h.symm
  have hdefinitions (d d' : Definition) (h : L.definitions d d') : d' = d.renamed r := h.2
  have halike := ((isProgram_of_parse h).mono fun _ _ => trivial).alike_renamed (r := r)
  have hquiet : (0 : Int) < 3 := by decide
  have hunnamed (hle : (2 : Int) ≤ 0) (x y : String) : L.names x y → x = y :=
    absurd hle (by decide)
  -- The traces begin with nothing, so nothing is put in front of what is kept.
  have hkept {m : Machine} {rest : Array TraceEntry} (htrace : m.trace = L.shown ++ rest) :
      (m.mapped r (.renamed r)).withTrace (L.shown' ++ rest) = m.mapped r (.renamed r) :=
    congrArg (m.mapped r (.renamed r)).withTrace htrace.symm
  have hlevel : (Machine.start limits 0 seed input).verbosity < 1 := Int.zero_lt_one
  simp only [ends_runTokens_quiet hlevel]
  constructor
  · intro hends'
    obtain ⟨outcome, m, rest, hends, htrace, houtcome, hm⟩ :=
      L.ends_of_image hnames hdefinitions halike hquiet hunnamed hends'
    exact ⟨outcome, m, hends, houtcome, hm.trans (hkept htrace)⟩
  · rintro ⟨outcome, m, hends, rfl, rfl⟩
    obtain ⟨rest, htrace, hends'⟩ := L.ends_image hnames hdefinitions halike hquiet hunnamed hends
    rwa [hkept htrace] at hends'

/-- A variable and a function swap their names, and the variable is missed. -/
theorem names_opaque_swap :
    let program (f x : String) : Node := .block [
      .function f [.reference x] (.block [.call "output" [.reference x],
        .unary Kind.returnWord.token (.reference f)]) true,
      .call f [.literal (.string "z")]]
    (program "a" "b").renamed (Equiv.swap "a" "b") = program "b" "a" ∧ ∃ m,
      Exec.Ends (Exec.runTokens · [] (program "b" "a")) (.start .usual 0 0 [])
        (.error (.undefined .variable "b")) m ∧ m.output = "z\n" := by
  intro program
  let tokens : List Token := [Kind.functionWord.token, .ofName "a", Kind.leftParen.token,
    .ofName "b", Kind.rightParen.token, Kind.leftBrace.token, .ofName "output",
    Kind.leftParen.token, .ofName "b", Kind.rightParen.token, Kind.endStatement.token,
    Kind.returnWord.token, .ofName "a", Kind.endStatement.token, Kind.rightBrace.token,
    .ofName "a", Kind.leftParen.token, ⟨.string, "z", .none⟩, Kind.rightParen.token,
    Kind.endStatement.token]
  have hparse : parse tokens = .ok (program "a" "b") := rfl
  have hfixed (x : String) (ha : x ≠ "a") (hb : x ≠ "b") : Equiv.swap "a" "b" x = x :=
    Equiv.swap_apply_of_ne_of_ne ha hb
  have hrenamed : (program "a" "b").renamed (Equiv.swap "a" "b") = program "b" "a" := by
    simp [program, Node.renamed, Node.reference, Node.call, Node.literal, hfixed]
  have hfails : ((Exec.runTokens 30 tokens (program "a" "b")).run (.start .usual 0 0 [])).1 =
      .error (.fault (.undefined .variable "a")) := by
    decide +kernel
  have hprinted :
      ((Exec.runTokens 30 tokens (program "a" "b")).run (.start .usual 0 0 [])).2.output =
        "z\n" := by
    decide +kernel
  have hends := names_opaque (Equiv.swap "a" "b").injective (hfixed "input" (by decide) (by decide))
    (hfixed "output" (by decide) (by decide)) (hfixed "rand" (by decide) (by decide)) hparse []
    .usual 0 []
  refine ⟨hrenamed, ?_⟩
  rw [hrenamed] at hends
  rcases hrun : (Exec.runTokens 30 tokens (program "a" "b")).run (.start .usual 0 0 []) with
    ⟨outcome, m⟩
  rw [hrun] at hfails hprinted
  obtain rfl : outcome = .error (.fault (.undefined .variable "a")) := hfails
  refine ⟨_, (hends _ _).mpr ⟨.error (.undefined .variable "a"), m, ⟨30, hrun⟩, ?_, rfl⟩, hprinted⟩
  rw [Except.mapError, Fault.renamed, Equiv.swap_apply_left]

end Scrawl
