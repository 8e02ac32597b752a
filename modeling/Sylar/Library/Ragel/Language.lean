import Mathlib.Data.Set.Basic
import Mathlib.Data.Set.Insert
import Sylar.Library.Ragel.Machine

/-!
# What machines read

The texts that a machine reads and the actions of their letters. The actions of a letter are a
set, since the order is that of the machine and not that of the alternatives.
-/

namespace Sylar.Library.Ragel

universe u v

open Machine

variable {β : Type u} {α : Type v}

/-- What is left to read behind a text. -/
def after : List (Machine β α) → List β → List (Machine β α)
  | states, [] => states
  | states, letter :: text => after (next states letter) text

/-- The actions of the letters of a text. -/
def trace : List (Machine β α) → List β → List (Set α)
  | _, [] => []
  | states, letter :: text =>
      {action | action ∈ fired states letter} :: trace (next states letter) text

/-- One of the alternatives can end behind the text. -/
def accepts (states : List (Machine β α)) (text : List β) : Bool :=
  (after states text).any (·.final)

/-- The leaving actions behind a text. -/
def ends (states : List (Machine β α)) (text : List β) : Set α :=
  {action | action ∈ left (after states text)}

/-- The actions of the letters of a text and of its end. -/
def doings (states : List (Machine β α)) (text : List β) : List (Set α) :=
  trace states text ++ [ends states text]

/-- A text is read to its end, with these actions for its letters and at its end. -/
structure Reads (states : List (Machine β α)) (text : List β) (actions : List (Set α)) : Prop where
  accepts : accepts states text = true
  doings : doings states text = actions

/-- Nothing is executed so many times. -/
def quiet (count : Nat) : List (Set α) := List.replicate count ∅

/-- More actions at first. -/
def lead (more : Set α) : List (Set α) → List (Set α)
  | [] => []
  | first :: rest => (more ∪ first) :: rest

/-- Leading actions add no letter. -/
theorem length_lead (first : Set α) (executed : List (Set α)) :
    (lead first executed).length = executed.length := by
  cases executed <;> rfl

theorem quiet_append (count more : Nat) :
    (quiet count ++ quiet more : List (Set α)) = quiet (count + more) :=
  List.replicate_append_replicate

theorem lead_quiet (first : Set α) (count more : Nat) :
    lead first (quiet (count + 1)) ++ quiet more = first :: quiet (count + more) := by
  rw [quiet, List.replicate_succ, lead, Set.union_empty, List.cons_append]
  exact congrArg _ (quiet_append count more)

/-- To lead with no action changes nothing. -/
theorem lead_empty (executed : List (Set α)) : lead ∅ executed = executed := by
  cases executed with
  | nil => rfl
  | cons first executed => rw [lead, Set.empty_union]

section Alternatives

variable {states others : List (Machine β α)} {machine : Machine β α} {letter : β}
  {text before : List β}

theorem next_cons : next (machine :: states) letter =
    (machine.moves letter).map (·.2) ++ next states letter := List.flatMap_cons

theorem fired_cons : fired (machine :: states) letter =
    (machine.moves letter).flatMap (·.1) ++ fired states letter := List.flatMap_cons

theorem next_append : next (states ++ others) letter = next states letter ++ next others letter :=
  List.flatMap_append

theorem fired_append :
    fired (states ++ others) letter = fired states letter ++ fired others letter :=
  List.flatMap_append

theorem left_append : left (states ++ others) = left states ++ left others := by
  rw [left, List.filter_append, List.flatMap_append]
  rfl

/-- Where no machine is, none comes. -/
theorem after_nil : after ([] : List (Machine β α)) text = [] := by
  induction text with
  | nil => rfl
  | cons letter text inductionHypothesis => exact inductionHypothesis

/-- The machines are run side by side. -/
theorem after_states : after (states ++ others) text = after states text ++ after others text := by
  induction text generalizing states others with
  | nil => rfl
  | cons letter text inductionHypothesis => rw [after, next_append, inductionHypothesis]; rfl

/-- A text is read in two parts. -/
theorem after_append : after states (before ++ text) = after (after states before) text := by
  induction before generalizing states with
  | nil => rfl
  | cons letter before inductionHypothesis => exact inductionHypothesis

/-- The actions of a text in two parts. -/
theorem trace_append :
    trace states (before ++ text) = trace states before ++ trace (after states before) text := by
  induction before generalizing states with
  | nil => rfl
  | cons letter before inductionHypothesis =>
      rw [List.cons_append, trace, inductionHypothesis]
      rfl

/-- One set of actions for each letter. -/
theorem length_trace : (trace states text).length = text.length := by
  induction text generalizing states with
  | nil => rfl
  | cons letter text inductionHypothesis => rw [trace, List.length_cons, inductionHypothesis]; rfl

/-- Machines side by side execute their actions together. -/
theorem trace_states : trace (states ++ others) text =
    List.zipWith (· ∪ ·) (trace states text) (trace others text) := by
  induction text generalizing states others with
  | nil => rfl
  | cons letter text inductionHypothesis =>
      rw [trace, next_append, inductionHypothesis, fired_append]
      refine congrArg₂ List.cons ?_ rfl
      ext action
      exact List.mem_append

theorem zipWith_quiet (actions : List (Set α)) :
    List.zipWith (· ∪ ·) actions (quiet actions.length) = actions := by
  induction actions with
  | nil => rfl
  | cons first rest inductionHypothesis =>
      rw [List.length_cons, quiet, List.replicate_succ, List.zipWith_cons_cons, Set.union_empty]
      exact congrArg _ inductionHypothesis

theorem quiet_zipWith (actions : List (Set α)) :
    List.zipWith (· ∪ ·) (quiet actions.length) actions = actions := by
  rw [List.zipWith_comm_of_comm Set.union_comm, zipWith_quiet]

end Alternatives

section Membership

variable {states others : List (Machine β α)} {machine rest : Machine β α} {letter : β}
  {text : List β} {action : α}

/-- The machines behind a letter are the targets of the moves by it. -/
theorem mem_next :
    rest ∈ next states letter ↔
      ∃ machine ∈ states, ∃ move ∈ machine.moves letter, move.2 = rest := by
  simp [next]

/-- The actions of a letter are those of the moves by it. -/
theorem mem_fired : action ∈ fired states letter ↔
    ∃ machine ∈ states, ∃ move ∈ machine.moves letter, action ∈ move.1 := by
  simp [fired]

/-- The actions at the end are those that wait in a final machine. -/
theorem mem_left : action ∈ left states ↔
    ∃ machine ∈ states, machine.final = true ∧ action ∈ machine.pending := by
  simp [left, and_assoc]

/-- Only the alternatives themselves matter, not how often they are there. -/
theorem after_congr (same : ∀ machine, machine ∈ states ↔ machine ∈ others) :
    (∀ machine, machine ∈ after states text ↔ machine ∈ after others text) ∧
      trace states text = trace others text := by
  induction text generalizing states others with
  | nil => exact ⟨same, rfl⟩
  | cons letter text inductionHypothesis =>
      have onward : ∀ rest, rest ∈ next states letter ↔ rest ∈ next others letter := by
        intro rest
        simp only [mem_next, same]
      obtain ⟨behind, actions⟩ := inductionHypothesis onward
      refine ⟨behind, ?_⟩
      rw [trace, trace, actions]
      refine congrArg₂ List.cons ?_ rfl
      ext action
      simp only [Set.mem_ofPred_eq, mem_fired, same]

/-- The actions at the end depend on where the machines are. -/
theorem ends_congr {other : List β}
    (same : ∀ machine, machine ∈ after states text ↔ machine ∈ after others other) :
    ends states text = ends others other := by
  ext action
  simp only [ends, Set.mem_ofPred_eq, mem_left, same]

end Membership

section Language

variable {states : List (Machine β α)} {machine first second leftSide rightSide : Machine β α}
  {letter : β} {text : List β} {action : α}

/-- The letters a machine can start with. -/
def Machine.begins : Machine β α → β → Bool
  | lambda, _ => false
  | one letters, letter => letters letter
  | cat first second, letter => first.begins letter || first.final && second.begins letter
  | alt leftSide rightSide, letter => leftSide.begins letter || rightSide.begins letter
  | star body, letter | entering _ body, letter | leaving _ body, letter => body.begins letter

/-- A machine has no move by a letter that it does not begin with. -/
theorem moves_eq_nil_iff : machine.moves letter = [] ↔ machine.begins letter = false := by
  induction machine with
  | lambda => simp [moves, begins]
  | one letters => simp [moves, begins]
  | cat first second firstHypothesis secondHypothesis =>
      rw [moves, begins, List.append_eq_nil_iff, List.map_eq_nil_iff, firstHypothesis,
        Bool.or_eq_false_iff]
      cases first.final <;> simp [secondHypothesis]
  | alt leftSide rightSide leftHypothesis rightHypothesis =>
      rw [moves, begins, List.append_eq_nil_iff, leftHypothesis, rightHypothesis,
        Bool.or_eq_false_iff]
  | star body inductionHypothesis | entering action body inductionHypothesis
  | leaving action body inductionHypothesis =>
      rw [moves, begins, List.map_eq_nil_iff, inductionHypothesis]

theorem moves_ne_nil (begins : machine.begins letter = true) : machine.moves letter ≠ [] :=
  fun none_ => absurd (moves_eq_nil_iff.mp none_) (by rw [begins]; exact Bool.noConfusion)

/-- A text is accepted by one of the machines. -/
theorem accepts_iff :
    accepts states text = true ↔ ∃ machine ∈ states, accepts [machine] text = true := by
  induction states with
  | nil => simp [accepts, after_nil]
  | cons machine states inductionHypothesis =>
      have split : accepts (machine :: states) text =
          (accepts [machine] text || accepts states text) := by
        rw [accepts, ← List.singleton_append, after_states, List.any_append]
        rfl
      rw [split, Bool.or_eq_true, inductionHypothesis]
      simp

/-- A text is accepted by a move by its first letter and the machine behind. -/
theorem accepts_cons : accepts [machine] (letter :: text) = true ↔
    ∃ move ∈ machine.moves letter, accepts [move.2] text = true := by
  have step : accepts [machine] (letter :: text) = accepts (next [machine] letter) text := rfl
  rw [step, accepts_iff]
  simp only [mem_next, List.mem_singleton, exists_eq_left]
  constructor
  · rintro ⟨rest, ⟨move, moved, rfl⟩, accepted⟩
    exact ⟨move, moved, accepted⟩
  · rintro ⟨move, moved, accepted⟩
    exact ⟨move.2, ⟨move, moved, rfl⟩, accepted⟩

/-- A machine moves by the first letter of a text that it accepts. -/
theorem moves_of_accepts (accepted : accepts [machine] text = true) :
    ∀ letter ∈ text.head?, machine.moves letter ≠ [] := by
  cases text with
  | nil => rintro letter ⟨⟩
  | cons first text =>
      rintro letter ⟨⟩ none_
      rw [accepts, after, next, List.flatMap_singleton, none_, List.map_nil, after_nil] at accepted
      cases accepted

/-- A machine begins with the first letter of a text that it accepts. -/
theorem begins_of_accepts (accepted : accepts [machine] text = true) :
    ∀ letter ∈ text.head?, machine.begins letter = true := by
  intro letter first
  have moving := moves_of_accepts accepted letter first
  rwa [Ne, moves_eq_nil_iff, Bool.not_eq_false] at moving

/-- A final machine accepts the empty text. -/
theorem accepts_nil : accepts [machine] [] = machine.final := by simp [accepts, after]

/-- The empty machine accepts the empty text alone. -/
theorem accepts_lambda : accepts [(lambda : Machine β α)] text = true ↔ text = [] := by
  cases text with
  | nil => simp [accepts_nil, Machine.final]
  | cons letter text => simp [accepts_cons, moves]

/-- A class of letters accepts one of them. -/
theorem accepts_one {letters : β → Bool} : accepts [(one letters : Machine β α)] text = true ↔
    ∃ letter, letters letter = true ∧ text = [letter] := by
  cases text with
  | nil => simp [accepts_nil, Machine.final]
  | cons letter text =>
      rw [accepts_cons, moves]
      split
      · rename_i known
        simp [accepts_lambda, known]
      · rename_i unknown
        constructor
        · rintro ⟨move, ⟨⟩, -⟩
        · rintro ⟨other, known, same⟩
          cases same
          exact absurd known unknown

/-- A text of two machines falls into two texts. -/
theorem accepts_cat : accepts [cat first second] text = true ↔
    ∃ before behind, text = before ++ behind ∧ accepts [first] before = true ∧
      accepts [second] behind = true := by
  induction text generalizing first with
  | nil =>
      rw [accepts_nil, Machine.final, Bool.and_eq_true]
      constructor
      · rintro ⟨one, other⟩
        exact ⟨[], [], rfl, accepts_nil.trans one, accepts_nil.trans other⟩
      · rintro ⟨before, behind, split, one, other⟩
        obtain ⟨rfl, rfl⟩ := List.append_eq_nil_iff.mp split.symm
        exact ⟨accepts_nil.symm.trans one, accepts_nil.symm.trans other⟩
  | cons letter text inductionHypothesis =>
      rw [accepts_cons]
      constructor
      · rintro ⟨move, moved, accepted⟩
        rcases List.mem_append.mp moved with own | behind
        · obtain ⟨inner, taken, rfl⟩ := List.mem_map.mp own
          obtain ⟨before, behind, rfl, one, other⟩ := inductionHypothesis.mp accepted
          exact ⟨letter :: before, behind, rfl, accepts_cons.mpr ⟨inner, taken, one⟩, other⟩
        · split at behind
          · rename_i final
            obtain ⟨inner, taken, rfl⟩ := List.mem_map.mp behind
            exact ⟨[], letter :: text, rfl, accepts_nil.trans final,
              accepts_cons.mpr ⟨inner, taken, accepted⟩⟩
          · cases behind
      · rintro ⟨before, behind, split, one, other⟩
        cases before with
        | nil =>
            cases split
            obtain ⟨move, moved, accepted⟩ := accepts_cons.mp other
            have final : first.final = true := accepts_nil.symm.trans one
            refine ⟨(first.pending ++ move.1, move.2), ?_, accepted⟩
            rw [moves, if_pos final]
            exact List.mem_append_right _ (List.mem_map.mpr ⟨move, moved, rfl⟩)
        | cons head before =>
            cases split
            obtain ⟨move, moved, accepted⟩ := accepts_cons.mp one
            exact ⟨_, List.mem_append_left _ (List.mem_map.mpr ⟨move, moved, rfl⟩),
              inductionHypothesis.mpr ⟨before, behind, rfl, accepted, other⟩⟩

/-- A repetition is a list of texts of the body. -/
theorem accepts_star : accepts [star machine] text = true ↔
    ∃ tokens : List (List β), text = tokens.flatten ∧
      ∀ token ∈ tokens, token ≠ [] ∧ accepts [machine] token = true := by
  constructor
  · intro accepted
    induction length : text.length using Nat.strong_induction_on generalizing text with
    | _ count inductionHypothesis =>
        cases text with
        | nil => exact ⟨[], rfl, by simp⟩
        | cons letter text =>
            obtain ⟨move, moved, accepted⟩ := accepts_cons.mp accepted
            obtain ⟨inner, taken, rfl⟩ := List.mem_map.mp moved
            obtain ⟨before, behind, rfl, one, others⟩ := accepts_cat.mp accepted
            have shorter : behind.length < count := by
              rw [← length, List.length_cons, List.length_append]
              omega
            obtain ⟨tokens, rfl, known⟩ := inductionHypothesis _ shorter others rfl
            refine ⟨(letter :: before) :: tokens, rfl, ?_⟩
            refine List.forall_mem_cons.mpr ⟨⟨by simp, ?_⟩, known⟩
            exact accepts_cons.mpr ⟨inner, taken, one⟩
  · rintro ⟨tokens, rfl, known⟩
    induction tokens with
    | nil => rw [List.flatten_nil, accepts_nil, Machine.final]
    | cons token tokens inductionHypothesis =>
        obtain ⟨⟨some_, own⟩, others⟩ := List.forall_mem_cons.mp known
        obtain ⟨letter, rest, rfl⟩ := List.exists_cons_of_ne_nil some_
        obtain ⟨move, moved, accepted⟩ := accepts_cons.mp own
        rw [List.flatten_cons, List.cons_append]
        refine accepts_cons.mpr ⟨_, List.mem_map.mpr ⟨move, moved, rfl⟩, ?_⟩
        exact accepts_cat.mpr ⟨rest, _, rfl, accepted, inductionHypothesis others⟩

end Language

end Sylar.Library.Ragel
