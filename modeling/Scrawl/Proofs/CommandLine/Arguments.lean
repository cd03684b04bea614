import Mathlib.Data.List.Basic
import Scrawl.CommandLine.Arguments

/-!
# Proofs/CommandLine/Arguments — single arguments and options with a value

What the last argument is taken for (`lone`) decides what a call with one argument, or with an
option and its value, asks for.  A name that is no option may become one when something is added to
it: `lone_extended` says exactly when that happens to the name of a tree's file.
-/

namespace Scrawl.CommandLine

/-- The sort of an argument that stands last. -/
def lone (argument : String) : Except UsageError Argument :=
  if argument = "--" then .ok .separator else classify argument

theorem classifyAll_cons {argument : String} (h : argument ≠ "--") (rest : List String) :
    classifyAll (argument :: rest) = do
      let sort ← classify argument
      return (argument, sort) :: (← classifyAll rest) := by
  rw [classifyAll]
  exact h

/-- A single argument is classified alone, `--` being none. -/
theorem classifyAll_singleton (argument : String) :
    classifyAll [argument] = (lone argument).map fun sort => [(argument, sort)] := by
  rw [lone]
  split
  · rename_i h
    subst h
    rfl
  · rename_i h
    rw [classifyAll_cons h]
    cases classify argument <;> rfl

/-! ## Reading them -/

section Reading

variable {argument : String}

/-- **A single argument is the program.** -/
theorem readArguments_plain (h : lone argument = .ok .plain) :
    readArguments [argument] = .ok ⟨0, false, none, none, some argument⟩ := by
  have hne : argument ≠ "--" := by
    rintro rfl
    cases h
  have hfinish : Reading.start.finish [argument] =
      { Reading.start with arguments.program := some argument, hasProgram := true } := by
    rw [Reading.finish, if_neg (by decide)]
    · rfl
    · exact fun _ _ heq => absurd heq hne
    · exact fun heq => absurd heq hne
    · nofun
  rw [readArguments, classifyAll_singleton, h]
  change (do
    let r ← Except.ok (Reading.start.finish [argument])
    if r.extras.isEmpty then return r.arguments
    else throw (.usage (.unrecognized r.extras)) : Except Early Arguments) = _
  rw [hfinish]
  rfl

/-- What an option takes for its value: the argument behind it, unless that looks like an option. -/
def valueOf (flag : Flag) (argument : String) : Except Early String :=
  match lone argument with
  | .ok .plain => .ok argument
  | .ok _ => .error (.usage (.missingValue flag))
  | .error e => .error (.usage e)

theorem readArguments_emitAst (argument : String) :
    readArguments ["--emit-ast", argument] =
      (valueOf .emitAst argument).map fun value => ⟨0, false, some value, none, none⟩ := by
  rw [readArguments, classifyAll_cons (by decide), classifyAll_singleton, valueOf]
  rcases lone argument with e | sort
  · rfl
  · cases sort <;> rfl

theorem readArguments_ast (argument : String) :
    readArguments ["--ast", argument] =
      (valueOf .ast argument).map fun value => ⟨0, false, none, some value, none⟩ := by
  rw [readArguments, classifyAll_cons (by decide), classifyAll_singleton, valueOf]
  rcases lone argument with e | sort
  · rfl
  · cases sort <;> rfl

end Reading

/-! ## Names with an ending

Behind a name that starts with a dash, the ending of a tree's file makes a text that is no number
any more.  What else counts is the start of the name, and whether there is a space in it. -/

section Extended

variable {cs : List Char}

/-- The ending of a tree's file. -/
def treeEnding : List Char := ".ast.json".toList

/-- The ending has no `=`, so it goes to the value, or to the name where there is none. -/
theorem cutEquals_append :
    cutEquals (cs ++ treeEnding) = match cutEquals cs with
      | (start, some value) => (start, some (value ++ treeEnding))
      | (_, none) => (cs ++ treeEnding, none) := by
  have hending : treeEnding.dropWhile (· != '=') = [] := by decide
  rw [cutEquals, cutEquals, List.dropWhile_append, List.takeWhile_append]
  cases hdrop : cs.dropWhile (· != '=') with
  | nil =>
    rw [List.isEmpty_nil, if_pos rfl, hending]
  | cons c value =>
    have hlength : (cs.takeWhile (· != '=')).length ≠ cs.length := by
      have hsplit : (cs.takeWhile (· != '=') ++ cs.dropWhile (· != '=')).length = cs.length :=
        congrArg List.length List.takeWhile_append_dropWhile
      rw [hdrop, List.length_append, List.length_cons] at hsplit
      omega
    rw [List.isEmpty_cons, if_neg Bool.false_ne_true, if_neg hlength]
    rfl

/-- What stands in front of the `=` does not get shorter. -/
theorem prefix_cutEquals_append : (cutEquals cs).1 <+: (cutEquals (cs ++ treeEnding)).1 := by
  have hfst : (cutEquals cs).1 <+: cs := by
    rw [cutEquals]
    split
    · exact List.prefix_rfl
    · exact List.takeWhile_prefix _
  rw [cutEquals_append]
  split
  · rename_i start value heq
    have hstart : (cutEquals cs).1 = start := congrArg Prod.fst heq
    exact hstart ▸ List.prefix_rfl
  · exact hfst.trans (List.prefix_append _ _)

/-- **No flag ends as the ending does.** -/
theorem ofSpelling?_of_last {argument : String} (h : argument.toList.getLast? = some 'n') :
    Flag.ofSpelling? argument = none := by
  have hall : ∀ entry ∈ Flag.spellings, entry.1.toList.getLast? ≠ some 'n' := by decide
  rw [Flag.ofSpelling?, List.lookup_eq_none_iff]
  intro entry hentry
  rw [bne_iff_ne]
  rintro rfl
  exact hall entry hentry h

/-- A dash with the ending behind it is no negative number. -/
theorem looksNegative_append : looksNegative ('-' :: (cs ++ treeEnding)) = false := by
  have hlast : ('-' :: (cs ++ treeEnding)).getLast? = some 'n' := by
    rw [← List.cons_append, List.getLast?_append]
    rfl
  have hmem : 'n' ∈ (cs ++ treeEnding).dropWhile Text.isDecimal := by
    rw [List.dropWhile_append]
    split
    · decide
    · exact List.mem_append_right _ (by decide)
  rw [looksNegative, hlast, if_neg (by decide)]
  split
  · rename_i rest hrest
    obtain rfl := (List.cons.inj hrest).2
    split
    · rename_i hnil
      rw [hnil] at hmem
      cases hmem
    · rename_i digits hdigits
      rw [hdigits] at hmem
      have hn : 'n' ∈ digits := (List.mem_cons.mp hmem).resolve_left (by decide)
      have hall : digits.all Text.isDecimal = false :=
        List.all_eq_false.mpr ⟨'n', hn, by decide⟩
      rw [hall, Bool.and_false]
    · rfl
  · rfl

/-- No option starts as a name with two dashes does. -/
theorem candidates_dashes {more : List Char} : candidates ('-' :: '-' :: more) = [] ↔
    ∀ entry ∈ Flag.spellings, ¬ (cutEquals ('-' :: '-' :: more)).1 <+: entry.1.toList := by
  rw [candidates, List.filterMap_eq_nil_iff]
  refine forall₂_congr fun entry _ => ?_
  simp [← List.isPrefixOf_iff_prefix]

/-- No option has the first letter of a name with one dash. -/
theorem candidates_dash {c : Char} (hc : c ≠ '-') {more : List Char} :
    candidates ('-' :: c :: more) = [] ↔ ∀ entry ∈ Flag.spellings, entry.1.toList ≠ ['-', c] := by
  rw [candidates, List.filterMap_eq_nil_iff]
  · refine forall₂_congr fun entry _ => ?_
    simp
  · exact fun _ heq => hc (List.cons.inj (List.cons.inj heq).2).1

/-- What abbreviates no flag abbreviates none with the ending behind it. -/
theorem candidates_append (h : candidates ('-' :: cs) = []) :
    candidates ('-' :: (cs ++ treeEnding)) = [] := by
  cases cs with
  | nil => rfl
  | cons c more =>
    by_cases hc : c = '-'
    · subst hc
      rw [List.cons_append, candidates_dashes]
      intro entry hentry hprefix
      exact candidates_dashes.mp h entry hentry (prefix_cutEquals_append.trans hprefix)
    · rw [List.cons_append, candidates_dash hc]
      exact (candidates_dash hc).mp h

variable {argument : String}

/-- A candidate is always a flag. -/
theorem ne_plain_of_mem_candidates {entry : String × Argument} (h : entry ∈ candidates cs) :
    entry.2 ≠ .plain := by
  unfold candidates at h
  split at h
  all_goals
    obtain ⟨spelling, -, hentry⟩ := List.mem_filterMap.mp h
    rw [← Option.some.inj (Option.ite_none_right_eq_some.mp hentry).2]
    nofun

/-- **A name without a dash in front is no option.** -/
theorem classify_of_head (h : argument.toList.head? ≠ some '-') :
    classify argument = .ok .plain := by
  rw [classify, if_pos]
  rw [decide_eq_true h, Bool.true_or]

/-- Where no flag is spelled out, an argument with a dash is looked at for what it may abbreviate.
-/
theorem classify_eq_classifyDashed (hhead : argument.toList.head? = some '-')
    (hlength : argument.toList.length ≠ 1) (hnone : Flag.ofSpelling? argument = none)
    (hcut : ∀ start value, cutEquals argument.toList = (start, some value) →
      Flag.ofSpelling? (String.ofList start) = none) :
    classify argument = classifyDashed argument := by
  rw [classify, if_neg, hnone]
  · rcases hpair : cutEquals argument.toList with ⟨start, _ | value⟩
    · rfl
    · dsimp only
      rw [hcut start value hpair]
  · simp [hhead, hlength]

/-- What is plain in spite of its dash abbreviates no flag. -/
theorem candidates_of_classifyDashed (h : classifyDashed argument = .ok .plain) :
    candidates argument.toList = [] := by
  unfold classifyDashed at h
  dsimp only at h
  split at h
  · rename_i spelling option heq
    have hmem : (spelling, option) ∈ candidates argument.toList := heq ▸ List.mem_cons_self
    exact absurd (Except.ok.inj h) (ne_plain_of_mem_candidates hmem)
  · assumption
  · cases h

/-- What is known of a name with a dash that is no option. -/
theorem of_classify_plain (hhead : argument.toList.head? = some '-')
    (h : classify argument = .ok .plain) : argument.toList = ['-'] ∨
      candidates argument.toList = [] ∧ ∀ start value,
        cutEquals argument.toList = (start, some value) →
          Flag.ofSpelling? (String.ofList start) = none := by
  unfold classify at h
  dsimp only at h
  split at h
  · rename_i hshort
    left
    rw [hhead] at hshort
    obtain ⟨c, hc⟩ : ∃ c, argument.toList = [c] := List.length_eq_one_iff.mp (by simpa using hshort)
    rw [hc] at hhead ⊢
    rw [Option.some.inj hhead]
  · right
    split at h
    · cases h
    · rename_i start value _ heq
      split at h
      · cases h
      · rename_i hnone
        refine ⟨candidates_of_classifyDashed h, fun start' value' heq' => ?_⟩
        rw [heq] at heq'
        cases heq'
        exact hnone
    · rename_i start _ heq
      refine ⟨candidates_of_classifyDashed h, fun start' value' heq' => ?_⟩
      rw [heq] at heq'
      cases heq'

theorem toList_extended (argument : String) :
    (argument ++ ".ast.json").toList = argument.toList ++ treeEnding := String.toList_append

theorem getLast?_extended (argument : String) :
    (argument ++ ".ast.json").toList.getLast? = some 'n' := by
  rw [toList_extended, List.getLast?_append]
  rfl

section Dashed

variable (hhead : argument.toList.head? = some '-') (h : classify argument = .ok .plain)

include hhead h

/-- **A plain argument abbreviates no flag with the ending behind it.** -/
theorem candidates_extended : candidates (argument ++ ".ast.json").toList = [] := by
  obtain ⟨cs, hcs⟩ := List.head?_eq_some_iff.mp hhead
  rw [toList_extended, hcs]
  refine candidates_append ?_
  rcases of_classify_plain hhead h with hdash | ⟨hnone, -⟩
  · rw [← hcs, hdash]
    rfl
  · rwa [← hcs]

theorem ofSpelling?_cutEquals_extended {start value : List Char}
    (hcut : cutEquals (argument ++ ".ast.json").toList = (start, some value)) :
    Flag.ofSpelling? (String.ofList start) = none := by
  rw [toList_extended, cutEquals_append] at hcut
  split at hcut
  · rename_i start' value' heq
    cases hcut
    rcases of_classify_plain hhead h with hdash | ⟨-, hnone⟩
    · rw [hdash] at heq
      cases heq
    · exact hnone start value' heq
  · cases hcut

/-- A name with a dash is no option behind its ending only if there is a space in it. -/
theorem classify_extended :
    classify (argument ++ ".ast.json") =
      .ok (if ' ' ∈ argument.toList then .plain else .unknown) := by
  obtain ⟨cs, hcs⟩ := List.head?_eq_some_iff.mp hhead
  have hdash : (argument ++ ".ast.json").toList.head? = some '-' := by
    rw [toList_extended, hcs]
    rfl
  have hlength : (argument ++ ".ast.json").toList.length ≠ 1 := by
    have hending : treeEnding.length = 9 := rfl
    rw [toList_extended, List.length_append]
    omega
  have hspace : (argument ++ ".ast.json").toList.contains ' ' = decide (' ' ∈ argument.toList) := by
    have hending : treeEnding.contains ' ' = false := by decide
    rw [toList_extended, List.contains_append, hending, Bool.or_false, List.contains_eq_mem]
  have hnegative : looksNegative (argument ++ ".ast.json").toList = false := by
    rw [toList_extended, hcs]
    exact looksNegative_append
  rw [classify_eq_classifyDashed hdash hlength (ofSpelling?_of_last (getLast?_extended argument))
    fun _ _ => ofSpelling?_cutEquals_extended hhead h, classifyDashed, candidates_extended hhead h,
    hnegative, hspace, Bool.false_or]
  simp only [decide_eq_true_eq]
  split <;> rfl

end Dashed

/-- **The name of a tree's file is taken for an option** exactly if the program's name starts with
a dash and has no space in it, though the program's name is not. -/
theorem lone_extended (h : lone argument = .ok .plain) :
    lone (argument ++ ".ast.json") =
      .ok (if argument.toList.head? = some '-' ∧ ' ' ∉ argument.toList then .unknown
        else .plain) := by
  have hne : argument ++ ".ast.json" ≠ "--" := fun heq => by
    have hlast := getLast?_extended argument
    rw [heq] at hlast
    exact absurd hlast (by decide)
  have hclassify : classify argument = .ok .plain := by
    rw [lone] at h
    split at h
    · cases h
    · exact h
  rw [lone, if_neg hne]
  by_cases hhead : argument.toList.head? = some '-'
  · rw [classify_extended hhead hclassify]
    by_cases hspace : ' ' ∈ argument.toList
    · rw [if_pos hspace, if_neg fun h => h.2 hspace]
    · rw [if_neg hspace, if_pos ⟨hhead, hspace⟩]
  · have hplain : (argument ++ ".ast.json").toList.head? ≠ some '-' := by
      rw [toList_extended]
      cases hcs : argument.toList with
      | nil => decide
      | cons c cs =>
        rw [hcs] at hhead
        exact hhead
    rw [classify_of_head hplain, if_neg fun hdash => hhead hdash.1]

end Extended

end Scrawl.CommandLine
