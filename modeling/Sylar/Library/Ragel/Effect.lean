import Sylar.Library.Ragel.Letters

/-!
# What a machine does

The actions of a text in their order, as a function of the state, for machines put together
from others.
-/

namespace Sylar.Library.Ragel

universe u v w

open Machine

variable {β : Type u} {α : Type v}

section Execution

variable {σ ε : Type w} {order : List α} {act : List β → σ → α → Except ε σ}
  {states : List (Machine β α)} {machine first second leftSide rightSide : Machine β α}
  {text later before : List β} {letter : β} {action : α} {state : σ}

open Classical in
/-- The actions of a set, in their order. -/
noncomputable def chosen (order : List α) (actions : Set α) : List α :=
  order.filter fun action => action ∈ actions

/-- Execute the actions of a set in their order. -/
noncomputable def perform (order : List α) (act : List β → σ → α → Except ε σ) (actions : Set α)
    (text : List β) (state : σ) : Except ε σ :=
  (chosen order actions).foldlM (act text) state

/-- Execute the actions of the letters of a text. -/
noncomputable def replay (order : List α) (act : List β → σ → α → Except ε σ) :
    List (Set α) → List β → σ → Except ε σ
  | [], _, state => pure state
  | actions :: others, text, state => do
      let state ← perform order act actions text state
      replay order act others text.tail state

open Classical in
/-- The actions of a set that a test decides. -/
theorem chosen_eq {actions : Set α} (known : α → Bool)
    (same : ∀ action ∈ order, action ∈ actions ↔ known action = true) :
    chosen order actions = order.filter known := by
  refine List.filter_congr fun action inside => ?_
  rw [Bool.eq_iff_iff, decide_eq_true_iff]
  exact same action inside

/-- An order in two parts is searched part by part. -/
theorem chosen_append {actions : Set α} {front back : List α} :
    chosen (front ++ back) actions = chosen front actions ++ chosen back actions :=
  List.filter_append front back

/-- Only the actions of the order count. -/
theorem chosen_congr {actions others : Set α}
    (same : ∀ action ∈ order, action ∈ actions ↔ action ∈ others) :
    chosen order actions = chosen order others := by
  classical
  rw [chosen_eq (fun action => decide (action ∈ others)) (by simpa using same),
    chosen_eq (fun action => decide (action ∈ others)) (by simp)]

/-- A set that is apart from the order has nothing to execute. -/
theorem chosen_eq_nil {actions : Set α} (none_ : ∀ action ∈ actions, action ∉ order) :
    chosen order actions = [] := by
  have same : ∀ action ∈ order, action ∈ actions ↔ false = true := fun action inside =>
    ⟨fun member => absurd inside (none_ action member), Bool.noConfusion⟩
  rw [chosen_eq (fun _ => false) same]
  exact List.filter_eq_nil_iff.mpr fun _ _ => Bool.false_ne_true

/-- No action changes nothing. -/
theorem perform_empty : perform order act ∅ text state = pure state := by
  rw [perform, chosen_eq_nil (by simp)]
  rfl

/-- A single action is executed once. -/
theorem perform_singleton [DecidableEq α]
    (once : (order.filter fun other => decide (other = action)) = [action]) :
    perform order act {action} text state = act text state action := by
  rw [perform, chosen_eq (fun other => decide (other = action)) (by simp), once, List.foldlM_cons]
  exact bind_pure _

/-- The actions of two sets, one of which is in front of the other in the order. -/
theorem perform_union {early late : Set α} (count : Nat)
    (front : ∀ action ∈ early, action ∉ order.drop count)
    (back : ∀ action ∈ late, action ∉ order.take count) :
    perform order act (early ∪ late) text state = (do
      let state ← perform order act early text state
      perform order act late text state) := by
  have split (actions : Set α) : chosen order actions =
      chosen (order.take count) actions ++ chosen (order.drop count) actions := by
    rw [← chosen_append, List.take_append_drop]
  have earlies : chosen order early = chosen (order.take count) early := by
    rw [split, chosen_eq_nil front, List.append_nil]
  have lates : chosen order late = chosen (order.drop count) late := by
    rw [split, chosen_eq_nil back, List.nil_append]
  have both : chosen order (early ∪ late) = chosen order early ++ chosen order late := by
    rw [split, earlies, lates]
    refine congrArg₂ (· ++ ·) (chosen_congr fun action inside => ?_)
      (chosen_congr fun action inside => ?_)
    · exact or_iff_left fun member => back action member inside
    · exact or_iff_right fun member => front action member inside
  rw [perform, both, List.foldlM_append]
  rfl

/-- A sequence that ends well ends well in both parts. -/
theorem bind_ok {α' β' : Type w} {first : Except ε α'} {second : α' → Except ε β'} {result : β'}
    (same : (first >>= second) = .ok result) :
    ∃ value, first = .ok value ∧ second value = .ok result := by
  cases first with
  | error fault => cases same
  | ok value => exact ⟨value, rfl, same⟩

theorem map_ok {α' β' : Type w} {value : Except ε α'} {f : α' → β'} {result : β'}
    (same : f <$> value = .ok result) : ∃ inner, value = .ok inner ∧ f inner = result := by
  cases value with
  | error fault => cases same
  | ok inner => exact ⟨inner, rfl, Except.ok.inj same⟩

/-- What is executed on two texts, one behind the other. -/
theorem replay_append {front back : List (Set α)} (same : front.length = text.length) :
    replay order act (front ++ back) (text ++ later) state = (do
      let state ← replay order act front (text ++ later) state
      replay order act back later state) := by
  induction front generalizing text state with
  | nil =>
      obtain rfl := List.length_eq_zero_iff.mp same.symm
      rfl
  | cons actions front inductionHypothesis =>
      cases text with
      | nil => cases same
      | cons letter text =>
          rw [List.cons_append, replay, replay, bind_assoc]
          exact bind_congr fun state => inductionHypothesis (Nat.succ.inj same)

/-- Letters without actions change nothing. -/
theorem replay_quiet (count : Nat) : replay order act (quiet count) text state = pure state := by
  induction count generalizing text with
  | zero => rfl
  | succ count inductionHypothesis =>
      rw [quiet, List.replicate_succ, replay, perform_empty, pure_bind]
      exact inductionHypothesis

/-- What each of the executed actions keeps is kept. -/
theorem replay_keeps (kept : σ → Prop) {executed : List (Set α)} {later_ : σ}
    (keeps : ∀ actions ∈ executed, ∀ action ∈ actions, ∀ text state next,
      act text state action = .ok next → kept state → kept next)
    (ran : replay order act executed text state = .ok later_) (before : kept state) :
    kept later_ := by
  classical
  induction executed generalizing text state with
  | nil =>
      cases ran
      exact before
  | cons actions executed inductionHypothesis =>
      obtain ⟨middle, performed, rest⟩ := bind_ok ran
      refine inductionHypothesis (fun actions member => keeps actions (.tail _ member)) rest ?_
      have own : ∀ action ∈ chosen order actions, action ∈ actions := fun action chosen_ => by
        simpa using (List.mem_filter.mp chosen_).2
      rw [perform] at performed
      generalize chosen order actions = list at own performed
      clear ran rest inductionHypothesis
      induction list generalizing state with
      | nil =>
          cases performed
          exact before
      | cons action list inductionHypothesis =>
          rw [List.foldlM_cons] at performed
          obtain ⟨next, acted, performed⟩ := bind_ok performed
          have between := keeps actions List.mem_cons_self action (own action List.mem_cons_self)
            _ _ _ acted before
          exact inductionHypothesis between (fun other member => own other (.tail _ member))
            performed

/-- Actions of which the first ones come before the second ones. -/
def Before (order first second : List α) : Prop :=
  ∃ count, (∀ action ∈ first, action ∉ order.drop count) ∧
    ∀ action ∈ second, action ∉ order.take count

/-- Actions of two ranges of the order are executed range by range. -/
theorem perform_ordered {early late : Set α} {firsts seconds : List α}
    (ordered : Before order firsts seconds) (front : ∀ action ∈ early, action ∈ firsts)
    (back : ∀ action ∈ late, action ∈ seconds) :
    perform order act (early ∪ late) text state = (do
      let state ← perform order act early text state
      perform order act late text state) := by
  obtain ⟨count, early_, late_⟩ := ordered
  exact perform_union count (fun action own => early_ action (front action own))
    fun action own => late_ action (back action own)

/-- What a machine does with a text and with its end, as a function of what is behind it. -/
def Does (order : List α) (act : List β → σ → α → Except ε σ) (machine : Machine β α)
    (text : List β) (effect : List β → σ → Except ε σ) : Prop :=
  ∃ executed atEnd, Reads [machine] text (executed ++ [atEnd]) ∧ ∀ later state, (do
    let state ← replay order act executed (text ++ later) state
    perform order act atEnd later state) = effect later state

variable {effect others : List β → σ → Except ε σ}

/-- A machine with an effect on a text accepts it. -/
theorem Does.accepts (does : Does order act machine text effect) :
    accepts [machine] text = true := by
  obtain ⟨executed, atEnd, reads, -⟩ := does
  exact reads.accepts

/-- One set of actions for each letter. -/
theorem length_executed {executed : List (Set α)} {atEnd : Set α}
    (reads : Reads states text (executed ++ [atEnd])) : executed.length = text.length := by
  obtain ⟨-, rfl, -⟩ := reads_concat.mp reads
  exact length_trace

/-- A machine without actions does nothing. -/
theorem Does.silent (free : machine.embedded = [])
    (accepted : Ragel.accepts [machine] text = true) :
    Does order act machine text fun _ state => pure state := by
  refine ⟨quiet text.length, ∅, ?_, fun later state => ?_⟩
  · have reads := Reads.of_silent free accepted
    rwa [quiet, List.replicate_succ'] at reads
  · rw [replay_quiet, pure_bind, perform_empty]

/-- Nothing is executed that is not embedded in the machine. -/
theorem actions_of_reads {executed : List (Set α)} (reads : Reads [machine] text executed)
    {actions : Set α} (member : actions ∈ executed) :
    ∀ action ∈ actions, action ∈ machine.embedded := by
  refine embedded_of_doings (fun other inside => ?_) (reads.doings ▸ member)
  rw [List.mem_singleton.mp inside]
  exact List.Subset.refl _

/-- One machine behind the other. -/
theorem Does.append (front : Does order act first before effect)
    (behind : Does order act second text others)
    (ordered : Before order first.embedded second.embedded)
    (apart : Apart first second before text) :
    Does order act (cat first second) (before ++ text) fun later state => (do
      let state ← effect (text ++ later) state
      others later state) := by
  obtain ⟨executed, atEnd, reads, same⟩ := front
  obtain ⟨executions, last, readsBehind, sameBehind⟩ := behind
  have length := length_executed reads
  have joined := reads.append readsBehind apart
  have own : ∀ action ∈ atEnd, action ∈ first.embedded := actions_of_reads reads (by simp)
  cases executions with
  | nil =>
      obtain rfl := List.length_eq_zero_iff.mp (length_executed readsBehind).symm
      refine ⟨executed, atEnd ∪ last, joined, fun later state => ?_⟩
      dsimp only
      rw [List.append_nil, List.nil_append, ← same, bind_assoc]
      refine bind_congr fun state => ?_
      rw [perform_ordered ordered own (actions_of_reads readsBehind (by simp))]
      refine bind_congr fun state => ?_
      rw [← sameBehind, replay, pure_bind]
  | cons starting executions =>
      refine ⟨executed ++ (atEnd ∪ starting) :: executions, last, ?_, fun later state => ?_⟩
      · rw [List.append_assoc]
        exact joined
      · dsimp only
        rw [List.append_assoc, replay_append length, bind_assoc, ← same, bind_assoc]
        refine bind_congr fun state => ?_
        rw [replay, perform_ordered ordered own (actions_of_reads readsBehind (by simp)),
          bind_assoc, bind_assoc]
        refine bind_congr fun state => ?_
        rw [← sameBehind, replay, bind_assoc]

/-- Two machines one behind the other, where the first never reads a letter that the second begins
with. -/
theorem Does.append_apart {letters : List β} (front : Does order act first before effect)
    (behind : Does order act second text others)
    (ordered : Before order first.embedded second.embedded)
    (avoids : first.avoids letters = true)
    (begins : ∀ letter, second.begins letter = true → letter ∈ letters) :
    Does order act (cat first second) (before ++ text) fun later state => (do
      let state ← effect (text ++ later) state
      others later state) :=
  front.append behind ordered (.of_avoids front.accepts behind.accepts avoids begins)

/-- A letter in front of a machine. -/
theorem Does.one_cat {letters : β → Bool} (known : letters letter = true)
    (does : Does order act machine text effect) :
    Does order act (cat (one letters) machine) (letter :: text) effect := by
  obtain ⟨executed, atEnd, reads, same⟩ := does
  refine ⟨∅ :: executed, atEnd, reads.one_cat known, fun later state => ?_⟩
  rw [List.cons_append, replay, perform_empty, pure_bind]
  exact same later state

/-- An action that comes first is executed first. -/
theorem replay_lead [DecidableEq α] {firsts : Set α} {executed : List (Set α)} {others : List α}
    (once : (order.filter fun other => decide (other = action)) = [action])
    (ordered : Before order [action] others) (own : ∀ other ∈ firsts, other ∈ others) :
    replay order act (lead {action} (firsts :: executed)) text state = (do
      let state ← act text state action
      replay order act (firsts :: executed) text state) := by
  rw [lead, replay, perform_ordered ordered (by simp) own, perform_singleton once, bind_assoc]
  rfl

/-- An entering action is executed at the first letter, or at the end of the empty text. -/
theorem Does.entering [DecidableEq α] (does : Does order act machine text effect)
    (once : (order.filter fun other => decide (other = action)) = [action])
    (ordered : Before order [action] machine.embedded) :
    Does order act (Machine.entering action machine) text fun later state => (do
      let state ← act (text ++ later) state action
      effect later state) := by
  obtain ⟨executed, atEnd, reads, same⟩ := does
  have length := length_executed reads
  cases executed with
  | nil =>
      obtain rfl := List.length_eq_zero_iff.mp length.symm
      refine ⟨[], {action} ∪ atEnd, reads.entering, fun later state => ?_⟩
      rw [replay, pure_bind, perform_ordered ordered (by simp) (actions_of_reads reads (by simp)),
        perform_singleton once]
      refine bind_congr fun state => ?_
      rw [← same, replay, pure_bind]
  | cons starting executed =>
      refine ⟨({action} ∪ starting) :: executed, atEnd, reads.entering, fun later state => ?_⟩
      have first : replay order act (({action} ∪ starting) :: executed) (text ++ later) state = (do
          let state ← act (text ++ later) state action
          replay order act (starting :: executed) (text ++ later) state) :=
        replay_lead once ordered (actions_of_reads reads (by simp))
      rw [first, bind_assoc]
      exact bind_congr fun state => same later state

/-- A leaving action is executed behind the text. -/
theorem Does.leaving [DecidableEq α] (does : Does order act machine text effect)
    (once : (order.filter fun other => decide (other = action)) = [action])
    (ordered : Before order machine.embedded [action]) :
    Does order act (Machine.leaving action machine) text fun later state => (do
      let state ← effect later state
      act later state action) := by
  obtain ⟨executed, atEnd, reads, same⟩ := does
  refine ⟨executed, atEnd ∪ {action}, reads.leaving, fun later state => ?_⟩
  dsimp only
  rw [← same, bind_assoc]
  refine bind_congr fun state => ?_
  rw [perform_ordered ordered (actions_of_reads reads (by simp)) (by simp)]
  exact bind_congr fun state => perform_singleton once

/-- The left alternative acts, and the right one is silent. -/
theorem Does.alt_left (does : Does order act leftSide text effect)
    (silent : doings [rightSide] text = quiet (text.length + 1)) :
    Does order act (alt leftSide rightSide) text effect := by
  obtain ⟨executed, atEnd, reads, same⟩ := does
  exact ⟨executed, atEnd, reads.alt_left silent, same⟩

/-- The right alternative acts, and the left one is silent. -/
theorem Does.alt_right (does : Does order act rightSide text effect)
    (silent : doings [leftSide] text = quiet (text.length + 1)) :
    Does order act (alt leftSide rightSide) text effect := by
  obtain ⟨executed, atEnd, reads, same⟩ := does
  exact ⟨executed, atEnd, reads.alt_right silent, same⟩

/-- The same with a machine behind the alternatives. -/
theorem Does.cat_alt_left (does : Does order act (cat leftSide machine) text effect)
    (silent : doings [cat rightSide machine] text = quiet (text.length + 1)) :
    Does order act (cat (alt leftSide rightSide) machine) text effect := by
  obtain ⟨executed, atEnd, reads, same⟩ := does
  refine ⟨executed, atEnd, ⟨?_, ?_⟩, same⟩
  · obtain ⟨front, back, rfl, accepted, behind⟩ := accepts_cat.mp reads.accepts
    exact accepts_cat.mpr ⟨front, back, rfl, by rw [accepts_alt, accepted, Bool.true_or], behind⟩
  · rw [doings_cat_alt, silent, ← length_doings, zipWith_quiet, reads.doings]

/-- The right alternative acts in front of a machine. -/
theorem Does.cat_alt_right (does : Does order act (cat rightSide machine) text effect)
    (silent : doings [cat leftSide machine] text = quiet (text.length + 1)) :
    Does order act (cat (alt leftSide rightSide) machine) text effect := by
  obtain ⟨executed, atEnd, reads, same⟩ := does
  refine ⟨executed, atEnd, ⟨?_, ?_⟩, same⟩
  · obtain ⟨front, back, rfl, accepted, behind⟩ := accepts_cat.mp reads.accepts
    exact accepts_cat.mpr ⟨front, back, rfl, by rw [accepts_alt, accepted, Bool.or_true], behind⟩
  · rw [doings_cat_alt, silent, ← length_doings, quiet_zipWith, reads.doings]

/-- The empty machine in front adds nothing. -/
theorem Does.lambda_cat (does : Does order act machine text effect) :
    Does order act (cat lambda machine) text effect := by
  obtain ⟨executed, atEnd, reads, same⟩ := does
  refine ⟨executed, atEnd, ⟨?_, doings_lambda_cat.trans reads.doings⟩, same⟩
  exact accepts_cat.mpr ⟨[], text, rfl, accepts_lambda.mpr rfl, reads.accepts⟩

/-- A part that may be missing. -/
theorem Does.opt (does : Does order act machine text effect) (some_ : text ≠ []) :
    Does order act (Machine.opt machine) text effect := by
  obtain ⟨letter, text, rfl⟩ := List.exists_cons_of_ne_nil some_
  exact does.alt_left (doings_of_not_begins rfl)

/-- An optional part that is not there does nothing. -/
theorem Does.opt_nil (going : machine.final = false) :
    Does order act (Machine.opt machine) [] fun _ state => pure state := by
  refine Does.alt_right (.silent rfl ?_) (doings_of_not_final going)
  rw [accepts_nil, Machine.final]

end Execution

/-! ### Equal actions

Of the actions that a letter has in common the machine executes equal ones once. What a machine put
together from others does is said without that, for actions that know what was executed last. -/

section Merging

variable {γ σ ε : Type w} {order : List (Nat × γ)} {act : List β → σ → γ → Except ε σ}
  {states : List (Machine β (Nat × γ))} {machine : Machine β (Nat × γ)} {text : List β}

/-- A state, with the actions that were executed last and the letters that were left then. -/
structure Recorded (σ γ : Type w) where
  state : σ
  length : Nat
  done : List γ

/-- The actions that were executed where this text was left. -/
def Recorded.executed (s : Recorded σ γ) (text : List β) : List γ :=
  if s.length = text.length then s.done else []

@[simp] theorem executed_here (state : σ) (done : List γ) :
    (⟨state, text.length, done⟩ : Recorded σ γ).executed text = done := if_pos rfl

/-- Further on nothing was executed yet. -/
theorem executed_ahead {s : Recorded σ γ} (ahead : text.length < s.length) :
    s.executed text = [] := if_neg (Nat.ne_of_gt ahead)

variable [DecidableEq γ]

/-- Execute an action, if no equal one was executed at this letter. -/
def unrepeated (act : List β → σ → γ → Except ε σ) (text : List β) (s : Recorded σ γ)
    (action : Nat × γ) : Except ε (Recorded σ γ) :=
  if action.2 ∈ s.executed text then pure s
  else (⟨·, text.length, action.2 :: s.executed text⟩) <$> act text s.state action.2

/-- An action is skipped, or it is executed. -/
theorem unrepeated_cases {action : Nat × γ} {s next : Recorded σ γ}
    (ran : unrepeated act text s action = .ok next) :
    next = s ∨ act text s.state action.2 = .ok next.state := by
  rw [unrepeated] at ran
  split at ran
  · cases ran
    exact .inl rfl
  · obtain ⟨state, acted, rfl⟩ := map_ok ran
    exact .inr acted

/-- Actions one after the other, of which equal ones are executed once. -/
theorem foldlM_unrepeated (actions : List (Nat × γ)) (s : Recorded σ γ) :
    Recorded.state <$> actions.foldlM (unrepeated act text) s =
      ((actions.map Prod.snd).filter (· ∉ s.executed text)).eraseDups.foldlM (act text)
        s.state := by
  induction actions generalizing s with
  | nil => rfl
  | cons action actions inductionHypothesis =>
      rw [List.foldlM_cons, List.map_cons, List.filter_cons, unrepeated]
      by_cases known : action.2 ∈ s.executed text
      · rw [if_pos known, if_neg (by simpa using known), pure_bind]
        exact inductionHypothesis s
      · rw [if_neg known, if_pos (by simpa using known), List.eraseDups_cons, List.foldlM_cons,
          bind_map_left, map_bind]
        refine bind_congr fun state => ?_
        rw [inductionHypothesis, executed_here, List.filter_filter]
        refine congrArg (fun names => List.foldlM (act text) state (List.eraseDups names)) ?_
        refine List.filter_congr fun name _ => ?_
        by_cases same : name = action.2 <;> simp [same]

/-- The position of the last execution does not move back. -/
theorem length_unrepeated {actions : List (Nat × γ)} {s last : Recorded σ γ}
    (behind : text.length ≤ s.length)
    (ran : actions.foldlM (unrepeated act text) s = .ok last) : text.length ≤ last.length := by
  induction actions generalizing s with
  | nil =>
      cases ran
      exact behind
  | cons action actions inductionHypothesis =>
      obtain ⟨middle, first, rest⟩ := bind_ok ran
      refine inductionHypothesis ?_ rest
      rw [unrepeated] at first
      split at first
      · cases first
        exact behind
      · obtain ⟨state, _, rfl⟩ := map_ok first
        exact Nat.le_refl _

/-- The actions of a letter, where none was executed yet. -/
theorem execute_eq {actions : List (Nat × γ)} {s : Recorded σ γ} (ahead : text.length < s.length) :
    execute order act actions text s.state =
      Recorded.state <$> perform order (unrepeated act) {action | action ∈ actions} text s := by
  have all (names : List γ) : names.filter (· ∉ ([] : List γ)) = names :=
    List.filter_eq_self.mpr (by simp)
  rw [perform, chosen_eq (fun action => actions.contains action) (by simp), foldlM_unrepeated,
    executed_ahead ahead, execute, all]

/-- The run over a text that is read to its end. -/
theorem run_of_accepts {s : Recorded σ γ} (accepted : accepts states text = true)
    (ahead : text.length < s.length) :
    run order act states text s.state =
      (fun s => some s.state) <$> replay order (unrepeated act) (doings states text) text s := by
  induction text generalizing states s with
  | nil =>
      have final : states.any (·.final) = true := accepted
      rw [run, if_pos final, execute_eq ahead]
      simp only [doings, trace, List.nil_append, replay, bind_pure, Functor.map_map]
      rfl
  | cons letter text inductionHypothesis =>
      have going : (next states letter).isEmpty = false := by
        rw [List.isEmpty_eq_false_iff]
        intro none_
        rw [accepts, after, none_, after_nil] at accepted
        cases accepted
      have split : doings states (letter :: text) =
          {action | action ∈ fired states letter} :: doings (next states letter) text := rfl
      rw [run, going, if_neg Bool.false_ne_true, execute_eq ahead, split, replay, map_bind,
        bind_map_left]
      cases performed : perform order (unrepeated act) {action | action ∈ fired states letter}
        (letter :: text) s with
      | error fault => rfl
      | ok middle =>
          have behind := length_unrepeated (Nat.le_of_lt ahead) performed
          exact inductionHypothesis accepted behind

/-- A run that ends in a state has read its text to the end. -/
theorem accepts_of_run {state result : σ}
    (ran : run order act states text state = .ok (some result)) : accepts states text = true := by
  induction text generalizing states state with
  | nil =>
      rw [run] at ran
      split at ran
      case isTrue final => exact final
      case isFalse => cases ran
  | cons letter text inductionHypothesis =>
      rw [run] at ran
      split at ran
      case isTrue => cases ran
      case isFalse =>
        obtain ⟨middle, _, ran⟩ := bind_ok ran
        exact inductionHypothesis ran

/-- The run of a machine that does something with the whole text. -/
theorem run_of_does {effect : List β → Recorded σ γ → Except ε (Recorded σ γ)} {s : Recorded σ γ}
    (does : Does order (unrepeated act) machine text effect) (ahead : text.length < s.length) :
    run order act [machine] text s.state = (fun s => some s.state) <$> effect [] s := by
  obtain ⟨executed, atEnd, reads, same⟩ := does
  have whole : replay order (unrepeated act) (executed ++ [atEnd]) (text ++ []) s = _ :=
    replay_append (length_executed reads)
  rw [List.append_nil] at whole
  rw [run_of_accepts reads.accepts ahead, reads.doings, whole, ← same [] s, List.append_nil]
  simp only [replay, bind_pure]

end Merging

end Sylar.Library.Ragel
