import Scrawl.Proofs.Machine.Layered
import Scrawl.Proofs.Machine.Session
import Scrawl.Proofs.Machine.Silent

/-!
# Proofs/Machine/Loops — a for loop is its while loop in one more frame

    for (i; c; u) { ss }     i; while (c) { ss u }
    └─ one frame ──────┘     └────┼─ another ──┘

A loop goes in rounds (`Exec.Rounds`), and it does not matter whether the update belongs to the
round or is the last statement of the body.  The loop with two frames has a layer more, which folds
into the one below (`Layers.Folded`); both are gone when the loop is over, so that nothing is left
of the difference.
-/

namespace Scrawl

namespace Machine

/-- A machine with a new innermost frame. -/
def pushFrame (m : Machine) : Machine := { m with scope := m.scope.push }

/-- A machine without its innermost frame. -/
def dropFrame (m : Machine) : Machine := { m with scope := m.scope.drop }

end Machine

namespace Exec

variable {m m' : Machine} {outcome : Except Fault Unit}

/-! ## Round by round -/

/-- **How a loop goes**: as long as its test holds there is another round, until one fails. -/
inductive Rounds (test : Machine → Except Fault Bool → Machine → Prop)
    (round : Machine → Except Fault Unit → Machine → Prop) :
    Machine → Except Fault Unit → Machine → Prop where
  | finished {m m' : Machine} : test m (.ok false) m' → Rounds test round m (.ok ()) m'
  | untested {m m' : Machine} {fault : Fault} :
    test m (.error fault) m' → Rounds test round m (.error fault) m'
  | broken {m m₁ m' : Machine} {fault : Fault} : test m (.ok true) m₁ →
    round m₁ (.error fault) m' → Rounds test round m (.error fault) m'
  | again {m m₁ m₂ m' : Machine} {outcome : Except Fault Unit} : test m (.ok true) m₁ →
    round m₁ (.ok ()) m₂ → Rounds test round m₂ outcome m' → Rounds test round m outcome m'

/-- Rounds may be replaced by others that end alike where they are reached. -/
theorem Rounds.mono {P : Machine → Prop} {test : Machine → Except Fault Bool → Machine → Prop}
    {round round' : Machine → Except Fault Unit → Machine → Prop}
    (htest : ∀ {m o m'}, P m → test m o m' → P m') (hround : ∀ {m o m'}, P m → round m o m' → P m')
    (hmono : ∀ {m o m'}, P m → round m o m' → round' m o m') (hm : P m)
    (h : Rounds test round m outcome m') : Rounds test round' m outcome m' := by
  induction h with
  | finished h => exact .finished h
  | untested h => exact .untested h
  | broken h h' => exact .broken h (hmono (htest hm h) h')
  | again h h' _ ih =>
    have hm₁ := htest hm h
    exact .again h (hmono hm₁ h') (ih (hround hm₁ h'))

/-- A round of a loop: the body, and then the update. -/
def round (fuel : Nat) (update body : Node) : Exec Unit := do
  visit fuel body
  visit fuel update

theorem steady_round (update body : Node) : Steady (round · update body) :=
  fun _ _ hle => (steady_visit body hle).bind fun _ => steady_visit update hle

/-- What a loop does once its test has come out. -/
def goOn (fuel : Nat) (condition update body : Node) (goes : Bool) : Exec Unit :=
  if goes then round fuel update body >>= fun _ => loop fuel condition update body else pure ()

theorem steady_goOn (condition update body : Node) (goes : Bool) :
    Steady (goOn · condition update body goes) := by
  cases goes with
  | false => exact .const (pure ())
  | true =>
    intro fuel fuel' hle
    exact (steady_round update body hle).bind fun _ => steady_loop condition update body hle

theorem loop_succ (fuel : Nat) (condition update body : Node) :
    loop (fuel + 1) condition update body =
      test fuel condition >>= goOn fuel condition update body := by
  rw [loop]
  unfold goOn round
  simp only [bind_assoc]

/-- A sequence that ends does so in its first part, or behind it. -/
theorem exists_of_run_bind {α β : Type} {x : Exec α} {f : α → Exec β} {outcome : Except Fault β}
    (h : (x >>= f).run m = (outcome.mapError .fault, m')) :
    (∃ fault, outcome = .error fault ∧ x.run m = (.error (.fault fault), m')) ∨
      ∃ a m₁, x.run m = (.ok a, m₁) ∧ (f a).run m₁ = (outcome.mapError .fault, m') := by
  rw [run_bind] at h
  generalize x.run m = r at h ⊢
  obtain ⟨stop | a, m₁⟩ := r
  · obtain ⟨houtcome, rfl⟩ := Prod.mk.inj h
    cases outcome with
    | ok b => cases houtcome
    | error fault =>
      cases houtcome
      exact .inl ⟨fault, rfl, rfl⟩
  · exact .inr ⟨a, m₁, rfl, h⟩

/-- **A loop that ends goes round by round.** -/
theorem rounds_of_run_loop {condition update body : Node} {fuel : Nat}
    (h : (loop fuel condition update body).run m = (outcome.mapError .fault, m')) :
    Rounds (Ends (test · condition)) (Ends (round · update body)) m outcome m' := by
  induction fuel generalizing m with
  | zero =>
    rw [loop] at h
    cases outcome <;> cases h
  | succ fuel ih =>
    rw [loop_succ] at h
    obtain ⟨fault, rfl, htest⟩ | ⟨goes, m₁, htest, hrest⟩ := exists_of_run_bind h
    · exact .untested ⟨fuel, htest⟩
    cases goes with
    | false =>
      obtain ⟨houtcome, rfl⟩ := Prod.mk.inj hrest
      cases outcome with
      | error fault => cases houtcome
      | ok _ => exact .finished ⟨fuel, htest⟩
    | true =>
      obtain ⟨fault, rfl, hround⟩ | ⟨_, m₂, hround, hloop⟩ := exists_of_run_bind hrest
      · exact .broken ⟨fuel, htest⟩ ⟨fuel, hround⟩
      · exact .again ⟨fuel, htest⟩ ⟨fuel, hround⟩ (ih hloop)

/-- …and the other way round. -/
theorem ends_loop_iff {condition update body : Node} :
    Ends (loop · condition update body) m outcome m' ↔
      Rounds (Ends (test · condition)) (Ends (round · update body)) m outcome m' := by
  constructor
  · rintro ⟨fuel, hrun⟩
    exact rounds_of_run_loop hrun
  · intro h
    have hstep {m outcome m'} : Ends (loop · condition update body) m outcome m' ↔ _ :=
      (Ends.succ_iff (by rw [loop])).trans <| by
        simp only [loop_succ]
        exact Ends.bind_iff (steady_test condition) (steady_goOn condition update body)
    have hgoOn {m outcome m'} : Ends (goOn · condition update body true) m outcome m' ↔ _ :=
      Ends.bind_iff (steady_round update body) fun _ => steady_loop condition update body
    induction h with
    | finished htest => exact hstep.mpr (.inr ⟨false, _, htest, 0, rfl⟩)
    | untested htest => exact hstep.mpr (.inl ⟨_, rfl, htest⟩)
    | broken htest hround =>
      exact hstep.mpr (.inr ⟨true, _, htest, hgoOn.mpr (.inl ⟨_, rfl, hround⟩)⟩)
    | again htest hround _ ih =>
      exact hstep.mpr (.inr ⟨true, _, htest, hgoOn.mpr (.inr ⟨(), _, hround, ih⟩)⟩)

/-! ## The update at the end of the body -/

/-- No message changes what is shown. -/
theorem verbosity_of_ends {α : Type} {x : Nat → Exec α} {o : Except Fault α}
    (hx : ∀ fuel, Within Machine.SameSettings (x fuel)) (h : Ends x m o m') :
    m'.verbosity = m.verbosity := by
  obtain ⟨fuel, hrun⟩ := h
  have hsettings := hx fuel m
  rw [hrun] at hsettings
  exact hsettings.verbosity

theorem within_visit (n : Node) (fuel : Nat) : Within Machine.SameSettings (visit fuel n) :=
  (uniform_sameSettings.related (Nat.le_refl fuel)).visit n

theorem within_test (n : Node) (fuel : Nat) : Within Machine.SameSettings (test fuel n) :=
  (uniform_sameSettings.related (Nat.le_refl fuel)).test n

/-- What is absent is not carried out. -/
theorem inTurn_optional_iff {n : Node} :
    InTurn (fun n => Ends (visit · n)) n.optional m outcome m' ↔ Ends (visit · n) m outcome m' := by
  cases n with
  | absent =>
    have hrun (fuel : Nat) : (visit (fuel + 1) .absent).run m = (.ok (), m) := by
      rw [visit]
      rfl
    rw [Ends.succ_iff (by rw [visit])]
    simp only [Ends, hrun]
    constructor
    · rintro ⟨⟩
      exact ⟨0, rfl⟩
    · rintro ⟨fuel, houtcome⟩
      obtain ⟨houtcome, rfl⟩ := Prod.mk.inj houtcome
      cases outcome with
      | error fault => cases houtcome
      | ok _ => exact .nil m
  | _ => exact InTurn.singleton_iff

section Silent

variable (hm : m.verbosity < 3)

include hm

theorem ends_silent_block_iff {ns : List Node} : Ends (visit · (.block ns)) m outcome m' ↔
    InTurn (fun n => Ends (visit · n)) ns m outcome m' := by
  rw [← ends_visitAll_iff, Ends.succ_iff (by rw [visit])]
  simp only [Ends, run_visit_block hm]

/-- **A round is its statements in turn**, with the update behind them. -/
theorem ends_round_iff {update : Node} {ns : List Node} :
    Ends (round · update (.block ns)) m outcome m' ↔
      InTurn (fun n => Ends (visit · n)) (ns ++ update.optional) m outcome m' := by
  have hround : Ends (round · update (.block ns)) m outcome m' ↔ _ :=
    Ends.bind_iff (steady_visit (.block ns)) fun _ => steady_visit update
  rw [hround, InTurn.append_iff]
  simp only [ends_silent_block_iff hm, inTurn_optional_iff]
  refine or_congr_right ⟨?_, ?_⟩
  · rintro ⟨_, m₁, h⟩
    exact ⟨m₁, h⟩
  · rintro ⟨m₁, h⟩
    exact ⟨(), m₁, h⟩

theorem ends_loop_block_iff {condition update : Node} {ns : List Node} :
    Ends (loop · condition update (.block ns)) m outcome m' ↔
      Rounds (Ends (test · condition))
        (InTurn (fun n => Ends (visit · n)) (ns ++ update.optional)) m outcome m' := by
  have htest {m o m'} (hm : m.verbosity < 3) (h : Ends (test · condition) m o m') :
      m'.verbosity < 3 := verbosity_of_ends (within_test condition) h ▸ hm
  have hround {m o m'} (hm : m.verbosity < 3) (h : Ends (round · update (.block ns)) m o m') :
      m'.verbosity < 3 :=
    verbosity_of_ends (fun fuel => (within_visit _ fuel).bind fun _ => within_visit update fuel) h
      ▸ hm
  rw [ends_loop_iff]
  constructor
  · exact Rounds.mono htest hround (fun hm h => (ends_round_iff hm).mp h) hm
  · exact Rounds.mono htest (fun hm h => hround hm ((ends_round_iff hm).mpr h))
      (fun hm h => (ends_round_iff hm).mpr h) hm

/-- **The update may be the last statement of the body.** -/
theorem ends_loop_update_iff {condition update : Node} {ns : List Node} :
    Ends (loop · condition update (.block ns)) m outcome m' ↔
      Ends (loop · condition .absent (.block (ns ++ update.optional))) m outcome m' := by
  rw [ends_loop_block_iff hm, ends_loop_block_iff hm]
  simp only [Node.optional, Node.isPresent, Bool.false_eq_true, ↓reduceIte, List.append_nil]

end Silent

/-! ## A frame within a frame -/

theorem run_inFrame_eq {α : Type} (x : Exec α) (m : Machine) :
    (inFrame x).run m = ((x.run m.pushFrame).1, (x.run m.pushFrame).2.dropFrame) := rfl

/-- **A frame of its own makes no difference to a loop** within another frame, once that is gone. -/
theorem run_loop_inFrame {l : Layer} {below : Layers} (hm : m.verbosity < 3)
    (hscope : m.scope = (Layers.inner l below).arena) (fuel : Nat) (condition update body : Node) :
    let inner := (inFrame (loop fuel condition update body)).run m
    let outer := (loop fuel condition update body).run m
    inner.1 = outer.1 ∧ inner.2.dropFrame = outer.2.dropFrame := by
  have hfresh : m.Layered (Layers.Folded 0) m.pushFrame := by
    refine ⟨⟨_, _, .fresh l below, hscope, ?_⟩, hm⟩
    rw [Machine.pushFrame, hscope, Layers.push_arena]
  obtain ⟨hresult, ⟨a, b, hab, ha, hb⟩, -⟩ :=
    layered_loop Layers.indistinct_folded fuel condition update body 0 hfresh
  refine ⟨hresult, ?_⟩
  rw [run_inFrame_eq, hb]
  cases hab with
  | here below' _ _ => simp only [Machine.dropFrame, ha, Layers.drop_arena]

/-- A node that is visited in a frame leaves the frame where it is. -/
theorem exists_inner_of_visit {l : Layer} {below : Layers} (hm : m.verbosity < 3)
    (hscope : m.scope = (Layers.inner l below).arena) (fuel : Nat) (n : Node) :
    ((visit fuel n).run m).2.verbosity < 3 ∧
      ∃ l' below', ((visit fuel n).run m).2.scope = (Layers.inner l' below').arena := by
  have hsame : m.Layered (Layers.SameAbove 1) m :=
    ⟨⟨.inner l below, _, ⟨rfl, Nat.succ_pos below.height⟩, hscope, by rw [← hscope]⟩, hm⟩
  obtain ⟨-, ⟨a, b, ⟨-, hheight⟩, ha, -⟩, hverbosity⟩ :=
    layered_visit Layers.indistinct_sameAbove fuel n 1 hsame
  refine ⟨hverbosity, ?_⟩
  cases a with
  | global l => cases hheight
  | inner l' below' => exact ⟨l', below', ha⟩

/-- …also when a node is visited first. -/
theorem run_visit_loop_inFrame {a : Layers} (hm : m.verbosity < 3) (hscope : m.scope = a.arena)
    (fuel : Nat) (first condition update body : Node) :
    (inFrame (do visit fuel first; inFrame (loop fuel condition update body))).run m =
      (inFrame (do visit fuel first; loop fuel condition update body)).run m := by
  have hpush : m.pushFrame.scope = (Layers.inner ⟨[], []⟩ a).arena :=
    (congrArg Scope.push hscope).trans a.push_arena
  have hfirst := @exists_inner_of_visit m.pushFrame _ _ hm hpush fuel first
  rw [run_inFrame_eq, run_inFrame_eq, run_bind, run_bind]
  generalize (visit fuel first).run m.pushFrame = r at hfirst ⊢
  obtain ⟨stop | _, m₁⟩ := r
  · rfl
  · obtain ⟨hverbosity, l, below, hinner⟩ := hfirst
    obtain ⟨hresult, hdrop⟩ := run_loop_inFrame hverbosity hinner fuel condition update body
    exact Prod.ext hresult hdrop

theorem ends_inFrame_iff {x : Nat → Exec Unit} :
    Ends (fun fuel => inFrame (x fuel)) m outcome m' ↔
      ∃ m₁, Ends x m.pushFrame outcome m₁ ∧ m₁.dropFrame = m' := by
  simp only [Ends, run_inFrame_eq]
  constructor
  · rintro ⟨fuel, hrun⟩
    obtain ⟨houtcome, rfl⟩ := Prod.mk.inj hrun
    exact ⟨_, ⟨fuel, Prod.ext houtcome rfl⟩, rfl⟩
  · rintro ⟨m₁, ⟨fuel, hrun⟩, rfl⟩
    exact ⟨fuel, by rw [hrun]⟩

/-- A frame that opens with a node may go on with computations that end alike. -/
theorem ends_inFrame_of_ends {first : Node} {x y : Nat → Exec Unit} (hx : Steady x) (hy : Steady y)
    (hxy : ∀ {m o m'}, m.verbosity < 3 → Ends x m o m' → Ends y m o m') (hm : m.verbosity < 3)
    (h : Ends (fun fuel => inFrame (do visit fuel first; x fuel)) m outcome m') :
    Ends (fun fuel => inFrame (do visit fuel first; y fuel)) m outcome m' := by
  obtain ⟨m₂, hends, rfl⟩ := ends_inFrame_iff.mp h
  refine ends_inFrame_iff.mpr ⟨m₂, ?_, rfl⟩
  rw [Ends.bind_iff (steady_visit first) fun _ => hx] at hends
  rw [Ends.bind_iff (steady_visit first) fun _ => hy]
  refine hends.imp_right ?_
  rintro ⟨_, m₁, hfirst, hrest⟩
  have hm₁ : m₁.verbosity < 3 := verbosity_of_ends (within_visit first) hfirst ▸ hm
  exact ⟨(), m₁, hfirst, hxy hm₁ hrest⟩

theorem ends_whileLoop_iff (hm : m.verbosity < 3) {condition body : Node} :
    Ends (visit · (.whileLoop condition body)) m outcome m' ↔
      Ends (fun fuel => inFrame (loop fuel condition .absent body)) m outcome m' := by
  rw [Ends.succ_iff (by rw [visit])]
  simp only [Ends, run_visit_whileLoop hm]

theorem ends_forLoop_iff (hm : m.verbosity < 3) {first condition update body : Node} :
    Ends (visit · (.forLoop first condition update body)) m outcome m' ↔
      Ends (fun fuel => inFrame (do visit fuel first; loop fuel condition update body)) m
        outcome m' := by
  rw [Ends.succ_iff (by rw [visit])]
  simp only [Ends, run_visit_forLoop hm]

/-- **A for loop is its while loop in one more frame.**  Whatever its first three parts are, present
or not, and whatever statements its body has: on every machine whose scope is one that requests lead
to, and where nodes are not announced, the loop ends just when the following does.  A frame is
pushed, the initialization is visited, then the while loop whose body has the update as its last
statement, and the frame is popped, also where one of them fails.  Both end with the same outcome
and on the same machine: the console, the slots, the frames and the open calls. -/
theorem forLoop_as_whileLoop (initialization condition update : Node) (statements : List Node)
    {requests : List Request} (hscope : m.scope = Scope.after requests) (hm : m.verbosity < 3) :
    Ends (visit · (.forLoop initialization condition update (.block statements))) m outcome m' ↔
      Ends (fun fuel => inFrame (do
        visit fuel initialization
        visit fuel (.whileLoop condition (.block (statements ++ update.optional)))))
        m outcome m' := by
  have hsteady (update body : Node) := steady_loop condition update body
  have hframed (body : Node) : Steady fun fuel => inFrame (loop fuel condition .absent body) :=
    fun _ _ hle => (hsteady .absent body hle).inFrame
  calc
    _ ↔ Ends (fun fuel => inFrame (do
          visit fuel initialization
          loop fuel condition update (.block statements))) m outcome m' := ends_forLoop_iff hm
    _ ↔ Ends (fun fuel => inFrame (do
          visit fuel initialization
          loop fuel condition .absent (.block (statements ++ update.optional)))) m outcome m' :=
        ⟨ends_inFrame_of_ends (hsteady _ _) (hsteady _ _)
            (fun hm => (ends_loop_update_iff hm).mp) hm,
          ends_inFrame_of_ends (hsteady _ _) (hsteady _ _)
            (fun hm => (ends_loop_update_iff hm).mpr) hm⟩
    _ ↔ Ends (fun fuel => inFrame (do
          visit fuel initialization
          inFrame (loop fuel condition .absent (.block (statements ++ update.optional))))) m
          outcome m' := by
        have hafter := hscope.trans (Scope.after_eq_arena requests)
        simp only [Ends, run_visit_loop_inFrame hm hafter]
    _ ↔ _ :=
        ⟨ends_inFrame_of_ends (hframed _) (steady_visit _)
            (fun hm => (ends_whileLoop_iff hm).mpr) hm,
          ends_inFrame_of_ends (steady_visit _) (hframed _)
            (fun hm => (ends_whileLoop_iff hm).mp) hm⟩

/-- The body defines the variable of the loop anew, in a frame above a variable of the same name:
`for (var i = 0; i < 3; i++) { var i = i + 1; output(i); }`. -/
theorem forLoop_as_whileLoop_redefined :
    let i := Node.reference "i"
    let equals : Token := ⟨.assign, "=", .none⟩
    let initialization := Node.variable "i" (.binary equals i (.literal (.int 0))) true
    let condition := Node.binary ⟨.less, "<", .none⟩ i (.literal (.int 3))
    let update := Node.unary ⟨.increment, "++", .none⟩ i
    let body := [.variable "i" (.binary equals i
      (.binary ⟨.add, "+", .none⟩ i (.literal (.int 1)))) true, .call "output" [i]]
    let requests : List Request := [.declare "i" (.int 7), .push]
    let m : Machine := { Machine.start .usual 0 0 [] with scope := Scope.after requests }
    m.scope = Scope.after requests ∧ m.verbosity < 3 ∧ ∃ m',
      Ends (visit · (.forLoop initialization condition update (.block body))) m (.ok ()) m' ∧
      Ends (fun fuel => inFrame (do
        visit fuel initialization
        visit fuel (.whileLoop condition (.block (body ++ update.optional))))) m (.ok ()) m' ∧
      m'.output = "1\n3\n" := by
  intro i equals initialization condition update body requests m
  have hm : m.verbosity < 3 := by decide
  have hrun : ((visit 30 (.forLoop initialization condition update (.block body))).run m).1 =
      .ok () := by decide +kernel
  have hends : Ends (visit · (.forLoop initialization condition update (.block body))) m (.ok ())
      ((visit 30 (.forLoop initialization condition update (.block body))).run m).2 := .of_run hrun
  refine ⟨rfl, hm, _, hends, ?_, by decide +kernel⟩
  exact (forLoop_as_whileLoop initialization condition update body rfl hm).mp hends

end Exec

end Scrawl
