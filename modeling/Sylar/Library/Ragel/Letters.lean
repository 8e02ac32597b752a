import Sylar.Library.Ragel.Traces

/-!
# Letters that a machine does not read

What is known from the letters alone: which machines do nothing with a text, and where one
component ends and the next one begins.
-/

namespace Sylar.Library.Ragel

universe u v

open Machine

variable {β : Type u} {α : Type v}

section Silence

variable {states : List (Machine β α)} {machine rest : Machine β α} {letter : β} {text : List β}
  {action : α}

/-- What waits for the end of a machine is embedded in it. -/
theorem embedded_of_pending (waiting : action ∈ machine.pending) : action ∈ machine.embedded := by
  induction machine with
  | lambda | one letters => cases waiting
  | cat first second firstHypothesis secondHypothesis =>
      exact List.mem_append.mpr ((List.mem_append.mp waiting).imp firstHypothesis secondHypothesis)
  | alt leftSide rightSide leftHypothesis rightHypothesis =>
      refine List.mem_append.mpr ((List.mem_append.mp waiting).imp (fun own => ?_) fun own => ?_)
      · split at own
        · exact leftHypothesis own
        · cases own
      · split at own
        · exact rightHypothesis own
        · cases own
  | star body inductionHypothesis =>
      rw [pending] at waiting
      split at waiting
      · exact inductionHypothesis waiting
      · cases waiting
  | entering first body inductionHypothesis =>
      exact List.mem_cons.mpr ((List.mem_cons.mp waiting).imp_right inductionHypothesis)
  | leaving last body inductionHypothesis =>
      exact List.mem_append.mpr ((List.mem_append.mp waiting).imp_left inductionHypothesis)

/-- A move executes actions of the machine, and leaves actions of it. -/
theorem embedded_of_moves {move : List α × Machine β α} (moved : move ∈ machine.moves letter) :
    move.1 ⊆ machine.embedded ∧ move.2.embedded ⊆ machine.embedded := by
  induction machine generalizing move with
  | lambda => cases moved
  | one letters =>
      rw [moves] at moved
      split at moved
      · cases List.mem_singleton.mp moved
        exact ⟨List.nil_subset _, List.nil_subset _⟩
      · cases moved
  | cat first second firstHypothesis secondHypothesis =>
      rcases List.mem_append.mp moved with before | behind
      · obtain ⟨inner, taken, rfl⟩ := List.mem_map.mp before
        obtain ⟨executed, rests⟩ := firstHypothesis taken
        refine ⟨fun action own => List.mem_append_left _ (executed own), fun action own => ?_⟩
        exact List.mem_append.mpr ((List.mem_append.mp own).imp_left (@rests action))
      · split at behind
        · obtain ⟨inner, taken, rfl⟩ := List.mem_map.mp behind
          obtain ⟨executed, rests⟩ := secondHypothesis taken
          refine ⟨fun action own => ?_, fun action own => List.mem_append_right _ (rests own)⟩
          exact List.mem_append.mpr
            ((List.mem_append.mp own).imp embedded_of_pending (@executed action))
        · cases behind
  | alt leftSide rightSide leftHypothesis rightHypothesis =>
      rcases List.mem_append.mp moved with own | own
      · obtain ⟨executed, rests⟩ := leftHypothesis own
        exact ⟨fun action own => List.mem_append_left _ (executed own),
          fun action own => List.mem_append_left _ (rests own)⟩
      · obtain ⟨executed, rests⟩ := rightHypothesis own
        exact ⟨fun action own => List.mem_append_right _ (executed own),
          fun action own => List.mem_append_right _ (rests own)⟩
  | star body inductionHypothesis =>
      obtain ⟨inner, taken, rfl⟩ := List.mem_map.mp moved
      obtain ⟨executed, rests⟩ := inductionHypothesis taken
      refine ⟨executed, fun action own => ?_⟩
      exact (List.mem_append.mp own).elim (@rests action) id
  | entering first body inductionHypothesis =>
      obtain ⟨inner, taken, rfl⟩ := List.mem_map.mp moved
      obtain ⟨executed, rests⟩ := inductionHypothesis taken
      refine ⟨fun action own => ?_, fun action own => .tail _ (rests own)⟩
      rcases List.mem_cons.mp own with rfl | own
      · exact List.mem_cons_self
      · exact .tail _ (executed own)
  | leaving last body inductionHypothesis =>
      obtain ⟨inner, taken, rfl⟩ := List.mem_map.mp moved
      obtain ⟨executed, rests⟩ := inductionHypothesis taken
      refine ⟨fun action own => List.mem_append_left _ (executed own), fun action own => ?_⟩
      exact List.mem_append.mpr ((List.mem_append.mp own).imp_left (@rests action))

/-- Machines without actions execute nothing. -/
theorem silent (free : ∀ machine ∈ states, machine.embedded = []) :
    doings states text = quiet (text.length + 1) := by
  induction text generalizing states with
  | nil =>
      refine congrArg ([·]) (Set.eq_empty_of_forall_notMem fun action waiting => ?_)
      obtain ⟨machine, inside, -, own⟩ := mem_left.mp waiting
      have own := embedded_of_pending own
      rw [free machine inside] at own
      cases own
  | cons letter text inductionHypothesis =>
      have none_ : ({action | action ∈ fired states letter} : Set α) = ∅ := by
        refine Set.eq_empty_of_forall_notMem fun action executed => ?_
        obtain ⟨machine, inside, move, moved, own⟩ := mem_fired.mp executed
        have own := (embedded_of_moves moved).1 own
        rw [free machine inside] at own
        cases own
      have others := @inductionHypothesis (next states letter) fun rest onward => by
        obtain ⟨machine, inside, move, moved, rfl⟩ := mem_next.mp onward
        have rests := (embedded_of_moves moved).2
        rw [free machine inside] at rests
        exact List.subset_nil.mp rests
      have split : doings states (letter :: text) =
          {action | action ∈ fired states letter} :: doings (next states letter) text := rfl
      rw [split, none_, others]
      rfl

/-- A machine without actions reads what it accepts silently. -/
theorem Reads.of_silent (free : machine.embedded = [])
    (accepted : Ragel.accepts [machine] text = true) :
    Reads [machine] text (quiet (text.length + 1)) :=
  ⟨accepted, silent (by simpa using free)⟩

end Silence

section Letters

variable {states : List (Machine β α)} {machine first second : Machine β α} {letter : β}
  {letters text before : List β}

/-- A machine reads none of some letters. -/
def Machine.avoids (letters : List β) : Machine β α → Bool
  | lambda => true
  | one own => letters.all fun letter => !own letter
  | cat first second => first.avoids letters && second.avoids letters
  | alt leftSide rightSide => leftSide.avoids letters && rightSide.avoids letters
  | star body | entering _ body | leaving _ body => body.avoids letters

/-- A machine that avoids letters has no move by them, and avoids them behind each move. -/
theorem avoids_of_moves {move : List α × Machine β α} (avoids : machine.avoids letters = true)
    (moved : move ∈ machine.moves letter) : letter ∉ letters ∧ move.2.avoids letters = true := by
  induction machine generalizing move with
  | lambda => cases moved
  | one own =>
      rw [moves] at moved
      split at moved
      · rename_i known
        cases List.mem_singleton.mp moved
        refine ⟨fun member => ?_, rfl⟩
        have unknown := List.all_eq_true.mp avoids letter member
        rw [known] at unknown
        cases unknown
      · cases moved
  | cat first second firstHypothesis secondHypothesis =>
      obtain ⟨front, back⟩ := Bool.and_eq_true_iff.mp avoids
      rcases List.mem_append.mp moved with before | behind
      · obtain ⟨inner, taken, rfl⟩ := List.mem_map.mp before
        obtain ⟨known, rests⟩ := firstHypothesis front taken
        exact ⟨known, Bool.and_eq_true_iff.mpr ⟨rests, back⟩⟩
      · split at behind
        · obtain ⟨inner, taken, rfl⟩ := List.mem_map.mp behind
          obtain ⟨known, rests⟩ := secondHypothesis back taken
          exact ⟨known, rests⟩
        · cases behind
  | alt leftSide rightSide leftHypothesis rightHypothesis =>
      obtain ⟨one, other⟩ := Bool.and_eq_true_iff.mp avoids
      rcases List.mem_append.mp moved with own | own
      · exact leftHypothesis one own
      · exact rightHypothesis other own
  | star body inductionHypothesis =>
      obtain ⟨inner, taken, rfl⟩ := List.mem_map.mp moved
      obtain ⟨known, rests⟩ := inductionHypothesis avoids taken
      exact ⟨known, Bool.and_eq_true_iff.mpr ⟨rests, avoids⟩⟩
  | entering action body inductionHypothesis | leaving action body inductionHypothesis =>
      obtain ⟨inner, taken, rfl⟩ := List.mem_map.mp moved
      obtain ⟨known, rests⟩ := inductionHypothesis avoids taken
      exact ⟨known, rests⟩

/-- Such a letter cannot be read behind any text. -/
theorem next_of_avoids (avoids : machine.avoids letters = true) (member : letter ∈ letters) :
    next (after [machine] text) letter = [] := by
  have behind (states : List (Machine β α))
      (avoid : ∀ machine ∈ states, machine.avoids letters = true) :
      next (after states text) letter = [] := by
    induction text generalizing states with
    | nil =>
        refine List.eq_nil_iff_forall_not_mem.mpr fun rest onward => ?_
        obtain ⟨machine, inside, move, moved, -⟩ := mem_next.mp onward
        exact (avoids_of_moves (avoid machine inside) moved).1 member
    | cons first text inductionHypothesis =>
        refine inductionHypothesis _ fun rest onward => ?_
        obtain ⟨machine, inside, move, moved, rfl⟩ := mem_next.mp onward
        exact (avoids_of_moves (avoid machine inside) moved).2
  exact behind [machine] (by simpa using avoids)

/-- Letters that a machine avoids are not in the texts that it accepts. -/
theorem not_mem_of_accepts (avoids : machine.avoids letters = true)
    (accepted : accepts [machine] text = true) (member : letter ∈ letters) : letter ∉ text := by
  intro inside
  obtain ⟨before, behind, rfl⟩ := List.append_of_mem inside
  rw [accepts, after_append, after, next_of_avoids avoids member, after_nil] at accepted
  cases accepted

/-- The letters of a text are other ones than those that its machine avoids. -/
theorem ne_of_accepts {sign : β} (avoids : machine.avoids letters = true)
    (accepted : accepts [machine] text = true) (known : sign ∈ letters) :
    ∀ letter ∈ text, letter ≠ sign := by
  rintro letter member rfl
  exact not_mem_of_accepts avoids accepted known member

/-- The second machine starts with letters that the first one does not read. -/
theorem Apart.of_avoids (accepted : accepts [first] before = true)
    (behind : accepts [second] text = true) (avoids : first.avoids letters = true)
    (begins : ∀ letter, second.begins letter = true → letter ∈ letters) :
    Apart first second before text where
  late head letter back split _ := by
    rw [moves_eq_nil_iff, Bool.eq_false_iff]
    intro started
    exact not_mem_of_accepts avoids accepted (begins letter started) (by simp [split])
  done letter starts :=
    next_of_avoids avoids (begins letter (begins_of_accepts behind letter starts))

/-- What is executed on a text in two parts. -/
theorem doings_append : doings states (before ++ text) =
    trace states before ++ doings (after states before) text := by
  rw [doings, trace_append, List.append_assoc, doings, ends, after_append]
  rfl

/-- Where no machine is, nothing is executed. -/
theorem doings_nil : doings ([] : List (Machine β α)) text = quiet (text.length + 1) :=
  silent (by simp)

/-- Nothing is executed from a letter on that cannot be read. -/
theorem doings_dead (dead : next (after states before) letter = []) :
    doings states (before ++ letter :: text) =
      trace states before ++ quiet ((letter :: text).length + 1) := by
  have none_ : ({action | action ∈ fired (after states before) letter} : Set α) = ∅ := by
    refine Set.eq_empty_of_forall_notMem fun action executed => ?_
    obtain ⟨machine, inside, move, moved, -⟩ := mem_fired.mp executed
    have onward := mem_next.mpr ⟨machine, inside, move, moved, rfl⟩
    rw [dead] at onward
    cases onward
  have rest : doings (after states before) (letter :: text) =
      {action | action ∈ fired (after states before) letter} ::
        doings (next (after states before) letter) text := rfl
  rw [doings_append, rest, none_, dead, doings_nil]
  rfl

end Letters

section Sequences

variable {states others : List (Machine β α)}
  {machine first second leftSide rightSide : Machine β α} {letters : β → Bool} {letter : β}
  {text before : List β} {action : α}

/-- What is executed on the first letter, and on the rest. -/
theorem doings_cons : doings states (letter :: text) =
    {action | action ∈ fired states letter} :: doings (next states letter) text := rfl

/-- The actions of a text are actions of the machines. -/
theorem embedded_of_doings {actions : Set α} {own : List α}
    (inside : ∀ machine ∈ states, machine.embedded ⊆ own)
    (executed : actions ∈ doings states text) :
    ∀ action ∈ actions, action ∈ own := by
  induction text generalizing states with
  | nil =>
      obtain rfl := List.mem_singleton.mp executed
      intro action waiting
      obtain ⟨machine, there, -, pending⟩ := mem_left.mp waiting
      exact inside machine there (embedded_of_pending pending)
  | cons letter text inductionHypothesis =>
      rw [doings_cons] at executed
      rcases List.mem_cons.mp executed with rfl | executed
      · intro action known
        obtain ⟨machine, there, move, moved, own⟩ := mem_fired.mp known
        exact inside machine there ((embedded_of_moves moved).1 own)
      · refine inductionHypothesis (fun rest onward => ?_) executed
        obtain ⟨machine, there, move, moved, rfl⟩ := mem_next.mp onward
        exact List.Subset.trans (embedded_of_moves moved).2 (inside machine there)

/-- Two machines that have the first letter in common. -/
theorem doings_congr (onward : ∀ rest, rest ∈ next states letter ↔ rest ∈ next others letter)
    (executed : ∀ action, action ∈ fired states letter ↔ action ∈ fired others letter) :
    doings states (letter :: text) = doings others (letter :: text) := by
  obtain ⟨behind, actions⟩ := @after_congr _ _ _ _ text onward
  have same : {action | action ∈ fired states letter} = {action | action ∈ fired others letter} :=
    Set.ext executed
  rw [doings_cons, doings_cons, same, doings, doings, actions, ends_congr behind]

/-- A machine that cannot end executes nothing at the end. -/
theorem doings_of_not_final (going : machine.final = false) :
    doings [machine] [] = quiet 1 := by
  refine congrArg ([·]) (Set.eq_empty_of_forall_notMem fun action waiting => ?_)
  obtain ⟨other, there, final, -⟩ := mem_left.mp waiting
  obtain rfl := List.mem_singleton.mp there
  rw [going] at final
  cases final

/-- A machine that does not begin with the letter executes nothing. -/
theorem doings_of_not_begins (none_ : machine.begins letter = false) :
    doings [machine] (letter :: text) = quiet ((letter :: text).length + 1) := by
  refine @doings_dead _ _ [machine] letter text [] ?_
  rw [after, next, List.flatMap_singleton, moves_eq_nil_iff.mpr none_, List.map_nil]

theorem moves_lambda_cat : (cat lambda machine).moves letter = machine.moves letter := by
  simp [moves, Machine.final, Machine.pending]

/-- The empty machine in front executes nothing. -/
theorem doings_lambda_cat : doings [cat lambda machine] text = doings [machine] text := by
  cases text with
  | nil => simp [doings, trace, ends, after, left, Machine.final, Machine.pending]
  | cons letter text =>
      refine doings_congr (fun rest => ?_) fun action => ?_
      · simp only [mem_next, List.mem_singleton, exists_eq_left, moves_lambda_cat]
      · simp only [mem_fired, List.mem_singleton, exists_eq_left, moves_lambda_cat]

/-- A letter in front is read without an action. -/
theorem doings_one_cat (known : letters letter = true) :
    doings [cat (one letters) machine] (letter :: text) = ∅ :: doings [machine] text := by
  have onward : next [cat (one letters) machine] letter = [cat lambda machine] := by
    simp [next, moves, known, Machine.final]
  have executed : fired [cat (one letters) machine] letter = [] := by
    simp [fired, moves, known, Machine.final]
  rw [doings_cons, onward, executed, doings_lambda_cat]
  simp

/-- A letter in front of a machine. -/
theorem Reads.one_cat {actions : List (Set α)} (known : letters letter = true)
    (reads : Reads [machine] text actions) :
    Reads [cat (one letters) machine] (letter :: text) (∅ :: actions) where
  accepts := by
    refine accepts_cat.mpr ⟨[letter], text, rfl, ?_, reads.accepts⟩
    exact accepts_one.mpr ⟨letter, known, rfl⟩
  doings := by rw [doings_one_cat known, reads.doings]

/-- A machine that neither begins nor ends with a text does nothing. -/
theorem doings_of_head (going : machine.final = false)
    (none_ : ∀ letter ∈ text.head?, machine.begins letter = false) :
    doings [machine] text = quiet (text.length + 1) := by
  cases text with
  | nil => exact doings_of_not_final going
  | cons letter text => exact doings_of_not_begins (none_ letter rfl)

theorem quiet_union (count : Nat) :
    List.zipWith (· ∪ ·) (quiet count : List (Set α)) (quiet count) = quiet count := by
  have nothing := zipWith_quiet (quiet count : List (Set α))
  rwa [quiet, List.length_replicate] at nothing

/-- Behind a letter a sequence is in its first part, or in its second where the first may end. -/
theorem mem_next_cat {rest : Machine β α} : rest ∈ next [cat first second] letter ↔
    (∃ inner ∈ next [first] letter, cat inner second = rest) ∨
      first.final = true ∧ rest ∈ next [second] letter := by
  simp only [mem_next, List.mem_singleton, exists_eq_left, moves, List.mem_append, or_and_right,
    exists_or, List.mem_map, exists_exists_and_eq_and]
  refine or_congr_right ?_
  split
  · rename_i final
    simp [final]
  · rename_i going
    simp [going]

/-- The actions of a letter in a sequence: those of the first part, and where it may end those that
wait in it and those of the second. -/
theorem mem_fired_cat : action ∈ fired [cat first second] letter ↔
    action ∈ fired [first] letter ∨ first.final = true ∧
      (second.moves letter ≠ [] ∧ action ∈ first.pending ∨ action ∈ fired [second] letter) := by
  simp only [mem_fired, List.mem_singleton, exists_eq_left, moves, List.mem_append, or_and_right,
    exists_or, List.mem_map, exists_exists_and_eq_and]
  refine or_congr_right ?_
  split
  · rename_i final
    rw [final]
    simp only [List.mem_map, exists_exists_and_eq_and, List.mem_append, true_and]
    constructor
    · rintro ⟨move, moved, waiting | own⟩
      · exact .inl ⟨List.ne_nil_of_mem moved, waiting⟩
      · exact .inr ⟨move, moved, own⟩
    · rintro (⟨some_, waiting⟩ | ⟨move, moved, own⟩)
      · obtain ⟨move, moved⟩ := List.exists_mem_of_ne_nil _ some_
        exact ⟨move, moved, .inl waiting⟩
      · exact ⟨move, moved, .inr own⟩
  · rename_i going
    simp [going]

/-- Alternatives in front of a machine act side by side. -/
theorem doings_cat_alt : doings [cat (alt leftSide rightSide) machine] text =
    List.zipWith (· ∪ ·) (doings [cat leftSide machine] text)
      (doings [cat rightSide machine] text) := by
  rw [← doings_alt]
  cases text with
  | nil =>
      refine congrArg ([·]) (Set.ext fun action => ?_)
      simp only [ends, after, Set.mem_ofPred_eq, mem_left, List.mem_singleton, exists_eq_left,
        Machine.final, Machine.pending, Bool.and_eq_true, Bool.or_eq_true, List.mem_append,
        List.mem_ite_nil_right]
      tauto
  | cons letter text =>
      have onward {machine others rest : Machine β α} : rest ∈ next [alt machine others] letter ↔
          rest ∈ next [machine] letter ∨ rest ∈ next [others] letter := by
        simp [next, moves]
      have executed {machine others : Machine β α} {action : α} :
          action ∈ fired [alt machine others] letter ↔
            action ∈ fired [machine] letter ∨ action ∈ fired [others] letter := by
        simp [fired, moves]
      refine doings_congr (fun rest => ?_) fun action => ?_
      · simp only [onward, mem_next_cat, Machine.final, Bool.or_eq_true, or_and_right, exists_or]
        exact or_or_or_comm
      · simp only [executed, mem_fired_cat, Machine.final, Bool.or_eq_true, Machine.pending,
          List.mem_append, List.mem_ite_nil_right]
        tauto

/-- Behind a letter that the machine in front of it cannot read, nothing is left to read. -/
theorem closed_of_done (apart : ∀ letter ∈ before, letters letter = false)
    (done : next (after [first] before) letter = []) :
    ∀ rest ∈ after [cat first (one letters)] (before ++ [letter]), rest = lambda := by
  intro rest inside
  have front := (@after_cat _ _ [first] (one letters) before fun front other back split _ => by
    rw [moves_eq_nil_iff]
    exact apart other (by simp [split])).1
  rw [List.map_singleton] at front
  rw [after_append, front, after, after, mem_next] at inside
  obtain ⟨machine, there, move, moved, rfl⟩ := inside
  obtain ⟨inner, known, rfl⟩ := List.mem_map.mp there
  have none_ : inner.moves letter = [] := by
    have nothing := List.flatMap_eq_nil_iff.mp done inner known
    exact List.map_eq_nil_iff.mp nothing
  rw [moves, none_, List.map_nil, List.nil_append] at moved
  split at moved
  · obtain ⟨last, taken, rfl⟩ := List.mem_map.mp moved
    rw [moves] at taken
    split at taken
    · cases List.mem_singleton.mp taken
      rfl
    · cases taken
  · cases moved

/-- Where all machines are at their end, no letter is read. -/
theorem next_of_closed {states : List (Machine β α)} (closed : ∀ rest ∈ states, rest = lambda)
    (letter : β) : next states letter = [] := by
  refine List.eq_nil_iff_forall_not_mem.mpr fun rest onward => ?_
  obtain ⟨machine, inside, move, moved, -⟩ := mem_next.mp onward
  rw [closed machine inside] at moved
  cases moved

/-- Two machines with a letter between them that the first one does not read. -/
theorem Reads.separated {executed others : List (Set α)} {atEnd : Set α}
    (front : Reads [first] before (executed ++ [atEnd])) (behind : Reads [second] text others)
    (known : letters letter = true) (apart : ∀ letter ∈ before, letters letter = false)
    (done : next (after [first] before) letter = []) :
    Reads [cat (cat first (one letters)) second] (before ++ letter :: text)
      (executed ++ atEnd :: others) := by
  have single : Reads [(one letters : Machine β α)] [letter] [∅, ∅] :=
    .of_silent rfl (accepts_one.mpr ⟨letter, known, rfl⟩)
  have ended : Reads [cat first (one letters)] (before ++ [letter])
      ((executed ++ [atEnd]) ++ [∅]) := by
    have joined := front.append single {
      late := fun head other back split _ => by
        rw [moves_eq_nil_iff]
        exact apart other (by simp [split])
      done := fun other first => by
        cases first
        exact done }
    simpa [lead] using joined
  have whole := ended.append behind {
    done := fun other _ => next_of_closed (closed_of_done apart done) other
    late := fun head other back split accepted => by
      obtain ⟨own, last, rfl, -, one_⟩ := accepts_cat.mp accepted
      obtain ⟨byte, fits, rfl⟩ := accepts_one.mp one_
      rw [List.append_assoc, List.singleton_append] at split
      have inside : byte ∈ before := by
        have lengths := congrArg (fun text => (List.dropLast text)) split
        rw [List.dropLast_concat, List.dropLast_append_of_ne_nil (by simp)] at lengths
        rw [lengths]
        simp
      rw [apart byte inside] at fits
      cases fits }
  rw [lead_empty, List.append_assoc, List.append_assoc] at whole
  exact whole

/-! What can be read behind a text. -/

/-- A leaving action does not change the moves behind a text. -/
theorem next_after_leaving : next (after [leaving action machine] text) letter =
    (next (after [machine] text) letter).map (leaving action) := by
  have behind := (@after_leaving _ _ [machine] (text ++ [letter]) action).1
  rwa [List.map_singleton, after_append, after_append] at behind

/-- An entering action does not change the moves behind a text. -/
theorem next_after_entering :
    next (after [entering action machine] text) letter = next (after [machine] text) letter := by
  cases text with
  | nil => exact next_entering
  | cons first text => rw [after_entering (List.cons_ne_nil first text)]

/-- Behind a text two alternatives move side by side. -/
theorem next_after_alt : next (after [alt leftSide rightSide] text) letter =
    next (after [leftSide] text) letter ++ next (after [rightSide] text) letter := by
  have split (letter : β) : next [alt leftSide rightSide] letter =
      next [leftSide] letter ++ next [rightSide] letter := by
    simp [next, moves]
  cases text with
  | nil => exact split letter
  | cons first text =>
      rw [after, split, after_states, next_append]
      rfl

/-- Where a machine is behind a letter in front of it and a text. -/
theorem after_one_cat (known : letters letter = true) (some_ : text ≠ []) :
    after [cat (one letters) machine] (letter :: text) = after [machine] text := by
  have onward : next [cat (one letters) machine] letter = [cat lambda machine] := by
    simp [next, moves, known, Machine.final]
  obtain ⟨first, text, rfl⟩ := List.exists_cons_of_ne_nil some_
  rw [after, onward, after, after, next, next, List.flatMap_singleton, List.flatMap_singleton,
    moves_lambda_cat]

theorem trace_of_doings {executed : List (Set α)} {atEnd : Set α}
    (same : doings states text = executed ++ [atEnd]) : trace states text = executed :=
  (List.append_inj' same rfl).1

/-- A machine without actions executes none. -/
theorem trace_of_silent (free : machine.embedded = []) :
    trace [machine] text = quiet text.length := by
  have nothing : doings [machine] text = quiet (text.length + 1) := silent (by simpa using free)
  rw [quiet, List.replicate_succ'] at nothing
  exact trace_of_doings nothing

/-- A part without actions that ends with a letter the text does not have. -/
theorem doings_unreached (free : first.embedded = [])
    (absent : ∀ letter ∈ text, letters letter = false) :
    doings [cat (cat (leaving action first) (one letters)) second] text =
      quiet (text.length + 1) := by
  have unread (front back : List β) (letter : β) (split : text = front ++ letter :: back) :
      letters letter = false := absent letter (by simp [split])
  obtain ⟨inner, innerTrace⟩ := @after_cat _ _ [leaving action first] (one letters) text
    fun front letter back split _ => by
      rw [moves_eq_nil_iff]
      exact unread front back letter split
  obtain ⟨outer, outerTrace⟩ := @after_cat _ _ [cat (leaving action first) (one letters)] second text
    fun front letter back split accepted => by
      obtain ⟨own, last, rfl, -, single⟩ := accepts_cat.mp accepted
      obtain ⟨byte, fits, rfl⟩ := accepts_one.mp single
      rw [absent byte (by simp [split])] at fits
      cases fits
  have bodyTrace := (@after_leaving _ _ [first] text action).2
  rw [List.map_singleton] at inner innerTrace outer outerTrace bodyTrace
  have nothing : ends [cat (cat (leaving action first) (one letters)) second] text = ∅ := by
    refine Set.eq_empty_of_forall_notMem fun other waiting => ?_
    rw [ends, outer, inner] at waiting
    obtain ⟨machine, inside, final, -⟩ := mem_left.mp waiting
    obtain ⟨whole, there, rfl⟩ := List.mem_map.mp inside
    obtain ⟨front, -, rfl⟩ := List.mem_map.mp there
    simp [Machine.final] at final
  rw [doings, outerTrace, innerTrace, bodyTrace, trace_of_silent free, nothing, quiet, quiet,
    List.replicate_succ']

/-- A part without actions of its own, with an entering and a leaving action. -/
theorem Reads.of_marked {entered left_ : α} (free : machine.embedded = [])
    (accepted : Ragel.accepts [machine] text = true) :
    Reads [Machine.leaving left_ (Machine.entering entered machine)] text
      (lead {entered} (quiet text.length ++ [{left_}])) := by
  have body : Reads [Machine.entering entered machine] text
      (lead {entered} (quiet (text.length + 1))) := (Reads.of_silent free accepted).entering
  cases text with
  | nil =>
      have saved := @Reads.leaving _ _ _ _ left_ [] ({entered} ∪ ∅) body
      rwa [Set.union_empty] at saved
  | cons letter text =>
      have split : lead {entered} (quiet ((letter :: text).length + 1)) =
          lead {entered} (quiet (letter :: text).length) ++ [∅] :=
        congrArg (_ :: ·) List.replicate_succ'
      rw [split] at body
      have saved := @Reads.leaving _ _ _ _ left_ _ _ body
      rw [Set.empty_union] at saved
      exact saved

/-- The actions of the letters alone. -/
theorem trace_of_marked {entered left_ : α} (free : machine.embedded = [])
    (accepted : Ragel.accepts [machine] text = true) :
    trace [Machine.leaving left_ (Machine.entering entered machine)] text =
      lead {entered} (quiet text.length) := by
  have reads := @Reads.of_marked _ _ _ _ entered left_ free accepted
  cases text with
  | nil => rfl
  | cons letter text =>
      have split : lead {entered} (quiet (letter :: text).length ++ [{left_}]) =
          lead {entered} (quiet (letter :: text).length) ++ [{left_}] := rfl
      exact trace_of_doings (reads.doings.trans split)

end Sequences

end Sylar.Library.Ragel
