import Sylar.Library.Ragel.Language

/-!
# The actions of machines put together

What is executed for a text by a machine put together from others, without looking at the
alternatives.
-/

namespace Sylar.Library.Ragel

universe u v

open Machine

variable {β : Type u} {α : Type v}

section Concatenation

variable {states : List (Machine β α)} {second : Machine β α} {letter : β} {text before : List β}

/-- While no alternative can go on with the second machine, only the first one is read. -/
theorem next_cat (apart : states.any (·.final) = true → second.moves letter = []) :
    next (states.map (cat · second)) letter = (next states letter).map (cat · second) ∧
      fired (states.map (cat · second)) letter = fired states letter := by
  induction states with
  | nil => exact ⟨rfl, rfl⟩
  | cons machine states inductionHypothesis =>
      have alone : (cat machine second).moves letter =
          (machine.moves letter).map fun move => (move.1, cat move.2 second) := by
        rw [moves]
        split
        · rename_i final
          rw [apart (by rw [List.any_cons, final, Bool.true_or]), List.map_nil, List.append_nil]
        · rw [List.append_nil]
      obtain ⟨onward, actions⟩ := inductionHypothesis fun some_ =>
        apart (by rw [List.any_cons, some_, Bool.or_true])
      constructor
      · rw [List.map_cons, next_cons, next_cons, alone, onward, List.map_append, List.map_map,
          List.map_map]
        rfl
      · rw [List.map_cons, fired_cons, fired_cons, alone, actions, List.flatMap_map]

/-- The text of the first machine in front of the text of the second one. -/
theorem after_cat
    (apart : ∀ front letter back, before = front ++ letter :: back →
      accepts states front = true → second.moves letter = []) :
    after (states.map (cat · second)) before = (after states before).map (cat · second) ∧
      trace (states.map (cat · second)) before = trace states before := by
  induction before generalizing states with
  | nil => exact ⟨rfl, rfl⟩
  | cons letter before inductionHypothesis =>
      have first : states.any (·.final) = true → second.moves letter = [] :=
        apart [] letter before rfl
      obtain ⟨onward, actions⟩ := next_cat first
      obtain ⟨behind, others⟩ := inductionHypothesis fun front other back split accepted =>
        apart (letter :: front) other back (by rw [split]; rfl) accepted
      constructor
      · rw [after, onward, behind]
        rfl
      · rw [trace, actions, onward, others]
        rfl

/-- The first letter of the second machine. -/
theorem next_second (done : next states letter = []) (final : states.any (·.final) = true) :
    ∀ rest, rest ∈ next (states.map (cat · second)) letter ↔ rest ∈ next [second] letter := by
  intro rest
  have none_ : ∀ machine ∈ states, machine.moves letter = [] := by
    simpa [next, List.flatMap_eq_nil_iff] using done
  simp only [mem_next, List.mem_map, exists_exists_and_eq_and, List.mem_singleton, exists_eq_left]
  constructor
  · rintro ⟨machine, inside, move, moved, rfl⟩
    rw [moves, none_ machine inside, List.map_nil, List.nil_append] at moved
    split at moved
    · obtain ⟨other, there, rfl⟩ := List.mem_map.mp moved
      exact ⟨other, there, rfl⟩
    · cases moved
  · rintro ⟨move, moved, rfl⟩
    obtain ⟨machine, inside, ends⟩ := List.any_eq_true.mp final
    refine ⟨machine, inside, (machine.pending ++ move.1, move.2), ?_, rfl⟩
    rw [moves, if_pos ends]
    exact List.mem_append_right _ (List.mem_map.mpr ⟨move, moved, rfl⟩)

/-- The first letter of a second machine: what waited in the first is executed with what the letter
executes. -/
theorem fired_second (done : next states letter = []) (starts : second.moves letter ≠ []) :
    {action | action ∈ fired (states.map (cat · second)) letter} =
      {action | action ∈ left states} ∪ {action | states.any (·.final) = true ∧
        action ∈ fired [second] letter} := by
  have none_ : ∀ machine ∈ states, machine.moves letter = [] := by
    simpa [next, List.flatMap_eq_nil_iff] using done
  ext action
  simp only [Set.mem_ofPred_eq, Set.mem_union, mem_fired, mem_left, List.mem_map,
    exists_exists_and_eq_and, List.mem_singleton, exists_eq_left]
  constructor
  · rintro ⟨machine, inside, move, moved, executed⟩
    rw [moves, none_ machine inside, List.map_nil, List.nil_append] at moved
    split at moved
    · rename_i final
      obtain ⟨other, there, rfl⟩ := List.mem_map.mp moved
      rcases List.mem_append.mp executed with waiting | own
      · exact .inl ⟨machine, inside, final, waiting⟩
      · exact .inr ⟨List.any_eq_true.mpr ⟨machine, inside, final⟩, other, there, own⟩
    · cases moved
  · have of_final {machine : Machine β α} (final : machine.final = true)
        {move : List α × Machine β α} (moved : move ∈ second.moves letter) :
        (machine.pending ++ move.1, move.2) ∈ (cat machine second).moves letter := by
      rw [moves, if_pos final]
      exact List.mem_append_right _ (List.mem_map.mpr ⟨move, moved, rfl⟩)
    rintro (⟨machine, inside, final, waiting⟩ | ⟨final, move, moved, own⟩)
    · obtain ⟨move, others, moved⟩ := List.exists_cons_of_ne_nil starts
      have first : move ∈ second.moves letter := moved ▸ List.mem_cons_self
      exact ⟨machine, inside, _, of_final final first, List.mem_append_left _ waiting⟩
    · obtain ⟨machine, inside, ends⟩ := List.any_eq_true.mp final
      exact ⟨machine, inside, _, of_final ends moved, List.mem_append_right _ own⟩

/-- The second machine starts behind a text of the first one that cannot be continued. -/
theorem trace_cat (accepted : accepts states before = true)
    (apart : ∀ front letter back, before = front ++ letter :: back →
      accepts states front = true → second.moves letter = [])
    (done : next (after states before) letter = []) (starts : second.moves letter ≠ []) :
    trace (states.map (cat · second)) (before ++ letter :: text) =
        trace states before ++ lead (ends states before) (trace [second] (letter :: text)) ∧
      ∀ rest, rest ∈ after (states.map (cat · second)) (before ++ letter :: text) ↔
        rest ∈ after [second] (letter :: text) := by
  obtain ⟨behind, actions⟩ := @after_cat _ _ _ second _ apart
  obtain ⟨onward, later⟩ := after_congr (next_second done accepted)
  constructor
  · rw [trace_append, behind, actions, trace, fired_second done starts, later, trace, lead]
    have final : (after states before).any (·.final) = true := accepted
    simp only [final, true_and]
    rfl
  · intro rest
    rw [after_append, behind]
    exact onward rest

/-- What is executed where a text of one machine ends and one of the next begins. -/
theorem doings_cat (accepted : accepts states before = true)
    (apart : ∀ front letter back, before = front ++ letter :: back →
      accepts states front = true → second.moves letter = [])
    (done : next (after states before) letter = []) (starts : second.moves letter ≠ []) :
    doings (states.map (cat · second)) (before ++ letter :: text) =
      trace states before ++ lead (ends states before) (doings [second] (letter :: text)) := by
  obtain ⟨joined, rests⟩ := @trace_cat _ _ _ _ _ text _ accepted apart done starts
  rw [doings, joined, ends_congr rests, doings, trace, lead, List.append_assoc]
  rfl

/-- What a machine reads, with the actions at the end apart. -/
theorem reads_concat {executed : List (Set α)} {atEnd : Set α} :
    Reads states text (executed ++ [atEnd]) ↔
      accepts states text = true ∧ trace states text = executed ∧ ends states text = atEnd := by
  constructor
  · rintro ⟨accepted, same⟩
    obtain ⟨letters, last⟩ := List.append_inj' same rfl
    exact ⟨accepted, letters, by simpa using last⟩
  · rintro ⟨accepted, rfl, rfl⟩
    exact ⟨accepted, rfl⟩

/-- After `before` the first machine is done, and the second one begins with what is behind. -/
structure Apart (first second : Machine β α) (before text : List β) : Prop where
  late : ∀ front letter back, before = front ++ letter :: back →
    Ragel.accepts [first] front = true → second.moves letter = []
  done : ∀ letter ∈ text.head?, next (after [first] before) letter = []

/-- One machine behind the other: what waits at the end of the first one is executed with what
comes first in the second one. -/
theorem Reads.append {first : Machine β α} {executed others : List (Set α)} {atEnd : Set α}
    (front : Reads [first] before (executed ++ [atEnd])) (behind : Reads [second] text others)
    (apart : Apart first second before text) :
    Reads [Machine.cat first second] (before ++ text) (executed ++ lead atEnd others) := by
  obtain ⟨accepted, letters, last⟩ := reads_concat.mp front
  refine ⟨accepts_cat.mpr ⟨before, text, rfl, accepted, behind.accepts⟩, ?_⟩
  cases text with
  | cons letter text =>
      have joined := @doings_cat _ _ _ _ _ text _ accepted apart.late (apart.done letter rfl)
        (moves_of_accepts behind.accepts letter rfl)
      rw [List.map_singleton] at joined
      rw [joined, letters, last, behind.doings]
  | nil =>
      have final : second.final = true := accepts_nil.symm.trans behind.accepts
      obtain ⟨rests, joined⟩ := @after_cat _ _ [first] second before apart.late
      rw [List.map_singleton] at joined rests
      rw [List.append_nil, Ragel.doings, joined, letters, ← behind.doings]
      refine congrArg (executed ++ [·]) ?_
      ext action
      obtain ⟨machine, inside, done⟩ := List.any_eq_true.mp accepted
      simp only [← last, Ragel.ends, rests, after, Set.mem_ofPred_eq, mem_left, List.mem_map,
        exists_exists_and_eq_and, Machine.final, Machine.pending, final, Bool.and_true,
        List.mem_append, Set.mem_union, List.mem_singleton, exists_eq_left, true_and]
      constructor
      · rintro ⟨other, there, ended, waiting | own⟩
        · exact .inl ⟨other, there, ended, waiting⟩
        · exact .inr own
      · rintro (⟨other, there, ended, waiting⟩ | own)
        · exact ⟨other, there, ended, .inl waiting⟩
        · exact ⟨machine, inside, done, .inr own⟩

end Concatenation

section Operators

variable {states : List (Machine β α)} {machine leftSide rightSide : Machine β α} {letter : β}
  {text : List β} {action : α} {actions : List (Set α)}

/-- Two alternatives execute their actions together. -/
theorem trace_alt : trace [alt leftSide rightSide] text =
    List.zipWith (· ∪ ·) (trace [leftSide] text) (trace [rightSide] text) := by
  have split : next [alt leftSide rightSide] = next [leftSide, rightSide] ∧
      fired [alt leftSide rightSide] = fired [leftSide, rightSide] := by
    constructor
    · ext1 letter
      simp [next, moves]
    · ext1 letter
      simp [fired, moves]
  have same : trace [alt leftSide rightSide] text = trace [leftSide, rightSide] text := by
    cases text with
    | nil => rfl
    | cons letter text => rw [trace, trace, split.1, split.2]
  rw [same]
  exact @trace_states _ _ [leftSide] [rightSide] text

/-- A text is accepted by one of two alternatives. -/
theorem accepts_alt : accepts [alt leftSide rightSide] text =
    (accepts [leftSide] text || accepts [rightSide] text) := by
  cases text with
  | nil => simp [accepts, after, Machine.final]
  | cons letter text =>
      have split : next [alt leftSide rightSide] letter =
          next [leftSide] letter ++ next [rightSide] letter := by simp [next, moves]
      rw [accepts, after, split, after_states, List.any_append]
      rfl

/-- The actions at the end of two alternatives. -/
theorem ends_alt : ends [alt leftSide rightSide] text =
    ends [leftSide] text ∪ ends [rightSide] text := by
  cases text with
  | nil =>
      ext action
      simp only [ends, after, Set.mem_ofPred_eq, mem_left, List.mem_singleton, exists_eq_left,
        Machine.final, Machine.pending, Set.mem_union, List.mem_append]
      cases leftSide.final <;> cases rightSide.final <;> simp
  | cons letter text =>
      have split : next [alt leftSide rightSide] letter =
          next [leftSide] letter ++ next [rightSide] letter := by simp [next, moves]
      ext action
      rw [ends, after, split, after_states, left_append]
      exact List.mem_append

/-- What two alternatives execute, letter by letter and at the end. -/
theorem doings_alt : doings [alt leftSide rightSide] text =
    List.zipWith (· ∪ ·) (doings [leftSide] text) (doings [rightSide] text) := by
  have same : (trace [leftSide] text).length = (trace [rightSide] text).length :=
    length_trace.trans length_trace.symm
  rw [doings, trace_alt, ends_alt, doings, doings, List.zipWith_append same]
  rfl

/-- One set of actions for each letter and one for the end. -/
theorem length_doings : (doings states text).length = text.length + 1 := by
  rw [doings, List.length_append, length_trace]
  rfl

/-- What two alternatives execute comes from one of them. -/
theorem mem_doings_alt {executed : Set α} (member : executed ∈ doings [alt leftSide rightSide] text)
    (inside : action ∈ executed) :
    (∃ actions ∈ doings [leftSide] text, action ∈ actions) ∨
      ∃ actions ∈ doings [rightSide] text, action ∈ actions := by
  rw [doings_alt, ← List.map_uncurry_zip_eq_zipWith] at member
  obtain ⟨⟨one, other⟩, paired, rfl⟩ := List.mem_map.mp member
  obtain ⟨own, another⟩ := List.of_mem_zip paired
  exact inside.imp (⟨one, own, ·⟩) (⟨other, another, ·⟩)

/-- An alternative that executes nothing does not matter. -/
theorem Reads.alt_left (reads : Reads [leftSide] text actions)
    (silent : Ragel.doings [rightSide] text = quiet (text.length + 1)) :
    Reads [alt leftSide rightSide] text actions where
  accepts := by rw [accepts_alt, reads.accepts, Bool.true_or]
  doings := by rw [doings_alt, silent, ← length_doings, zipWith_quiet, reads.doings]

/-- The right alternative reads, and the left one is silent. -/
theorem Reads.alt_right (reads : Reads [rightSide] text actions)
    (silent : Ragel.doings [leftSide] text = quiet (text.length + 1)) :
    Reads [alt leftSide rightSide] text actions where
  accepts := by rw [accepts_alt, reads.accepts, Bool.or_true]
  doings := by rw [doings_alt, silent, ← length_doings, quiet_zipWith, reads.doings]

/-- An entering action does not change the moves. -/
theorem next_entering : next [entering action machine] letter = next [machine] letter := by
  simp [next, moves]

/-- An entering action is executed with the first letter. -/
theorem trace_entering (starts : ∀ letter ∈ text.head?, machine.moves letter ≠ []) :
    trace [entering action machine] text = lead {action} (trace [machine] text) := by
  cases text with
  | nil => rfl
  | cons letter text =>
      rw [trace, trace, lead, next_entering]
      refine congrArg₂ List.cons ?_ rfl
      obtain ⟨move, others, moved⟩ := List.exists_cons_of_ne_nil (starts letter rfl)
      ext other
      simp only [Set.mem_ofPred_eq, mem_fired, List.mem_cons, List.not_mem_nil, or_false,
        exists_eq_left, moves, List.mem_map, exists_exists_and_eq_and, Set.mem_union,
        Set.mem_singleton_iff]
      constructor
      · rintro ⟨move, moved, rfl | own⟩
        · exact .inl rfl
        · exact .inr ⟨move, moved, own⟩
      · rintro (rfl | ⟨move, moved, own⟩)
        · exact ⟨move, moved ▸ List.mem_cons_self, .inl rfl⟩
        · exact ⟨move, moved, .inr own⟩

/-- An entering action is gone behind the first letter. -/
theorem after_entering (some_ : text ≠ []) :
    after [entering action machine] text = after [machine] text := by
  obtain ⟨letter, text, rfl⟩ := List.exists_cons_of_ne_nil some_
  rw [after, after, next_entering]

/-- An entering action does not change what is accepted. -/
theorem accepts_entering : accepts [entering action machine] text = accepts [machine] text := by
  cases text with
  | nil => rw [accepts_nil, accepts_nil, Machine.final]
  | cons letter text => rw [accepts, accepts, after_entering (by simp)]

/-- An entering action comes first, with the end of the text where no letter is read. -/
theorem Reads.entering (reads : Reads [machine] text actions) :
    Reads [Machine.entering action machine] text (lead {action} actions) where
  accepts := accepts_entering.trans reads.accepts
  doings := by
    rw [← reads.doings]
    cases text with
    | nil =>
        have final : machine.final = true := accepts_nil.symm.trans reads.accepts
        refine congrArg ([·]) (Set.ext fun other => ?_)
        simp only [ends, after, Set.mem_ofPred_eq, mem_left, List.mem_singleton, exists_eq_left,
          Machine.final, Machine.pending, final, true_and, Set.mem_union, Set.mem_singleton_iff]
        exact List.mem_cons
    | cons letter text =>
        have starts := moves_of_accepts reads.accepts letter rfl
        rw [Ragel.doings, trace_entering (by simpa using starts), ends, after_entering (by simp)]
        rfl

/-- A leaving action stays with the machine, and adds nothing to the letters. -/
theorem after_leaving : after (states.map (leaving action)) text =
    (after states text).map (leaving action) ∧
      trace (states.map (leaving action)) text = trace states text := by
  induction text generalizing states with
  | nil => exact ⟨rfl, rfl⟩
  | cons letter text inductionHypothesis =>
      have onward : next (states.map (leaving action)) letter =
          (next states letter).map (leaving action) := by
        simp [next, moves, List.flatMap_map, List.map_flatMap, Function.comp_def]
      have executed : fired (states.map (leaving action)) letter = fired states letter := by
        simp [fired, moves, List.flatMap_map]
      obtain ⟨behind, others⟩ := @inductionHypothesis (next states letter)
      constructor
      · rw [after, onward, behind]
        rfl
      · rw [trace, onward, executed, others]
        rfl

/-- A leaving action does not change what is accepted. -/
theorem accepts_leaving : accepts [leaving action machine] text = accepts [machine] text := by
  have behind := (@after_leaving _ _ [machine] text action).1
  rw [List.map_singleton] at behind
  rw [accepts, accepts, behind, List.any_map]
  rfl

/-- A leaving action waits at the end. -/
theorem Reads.leaving {executed : List (Set α)} {atEnd : Set α}
    (reads : Reads [machine] text (executed ++ [atEnd])) :
    Reads [Machine.leaving action machine] text (executed ++ [atEnd ∪ {action}]) := by
  obtain ⟨accepted, letters, last⟩ := reads_concat.mp reads
  obtain ⟨rests, joined⟩ := @after_leaving _ _ [machine] text action
  rw [List.map_singleton] at rests joined
  refine reads_concat.mpr ⟨accepts_leaving.trans accepted, joined.trans letters, ?_⟩
  obtain ⟨machine, inside, done⟩ := List.any_eq_true.mp accepted
  ext other
  simp only [← last, Ragel.ends, rests, Set.mem_ofPred_eq, mem_left, List.mem_map,
    exists_exists_and_eq_and, Machine.final, Machine.pending, List.mem_append, Set.mem_union,
    List.mem_singleton, Set.mem_singleton_iff]
  constructor
  · rintro ⟨machine, there, ended, waiting | own⟩
    · exact .inl ⟨machine, there, ended, waiting⟩
    · exact .inr own
  · rintro (⟨machine, there, ended, waiting⟩ | own)
    · exact ⟨machine, there, ended, .inl waiting⟩
    · exact ⟨machine, inside, done, .inr own⟩

end Operators

end Sylar.Library.Ragel
