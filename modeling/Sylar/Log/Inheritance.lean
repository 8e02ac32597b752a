import Mathlib.Logic.Function.Basic
import Mathlib.Tactic.Common
import Sylar.Library.Transition

/-!
# Formatters that appenders inherit

Loggers and appenders of `log.cpp` behind pointers, so that an appender can be in several
loggers. An appender without a formatter of its own keeps a copy of the pointer of a logger.
The copy follows the logger in exactly those runs whose steps all keep it.
-/

namespace Sylar.Log.Shared

open Library

/-- `F` is what a pointer to a formatter points at. -/
structure Appender (F : Type) where
  hasFormatter : Bool
  formatter : Option F
deriving DecidableEq, Repr

/-- `Logger`, as far as formatters go. -/
structure Logger (A F : Type) where
  formatter : Option F
  appenders : List A
deriving DecidableEq, Repr

/-- All loggers and appenders there are. -/
structure State (L A F : Type) where
  logger : L → Logger A F
  appender : A → Appender F
  /-- The logger that an appender was added to last. -/
  lastAttached : A → Option L

/-- The calls; `setFormatter` is that of `Logger`. -/
inductive Action (L A F : Type) where
  | addAppender (logger : L) (appender : A)
  | delAppender (logger : L) (appender : A)
  | clearAppenders (logger : L)
  | setFormatter (logger : L) (val : Option F)
  | setAppenderFormatter (appender : A) (val : Option F)
deriving DecidableEq, Repr

variable {L A F : Type}

/-- `LogAppender::setFormatter`. -/
def Appender.setFormatter (_ : Appender F) (val : Option F) : Appender F := ⟨val.isSome, val⟩

namespace State

/-- New loggers, each with its default formatter, and new appenders. -/
def new (default : L → F) : State L A F where
  logger logger := ⟨some (default logger), []⟩
  appender _ := ⟨false, none⟩
  lastAttached _ := none

variable [DecidableEq L] [DecidableEq A]

/-- A round of the loop in `setFormatter`. -/
def follow (val : Option F) (appender : A → Appender F) (i : A) : A → Appender F :=
  if (appender i).hasFormatter then appender
  else Function.update appender i { appender i with formatter := val }

/-- `setFormatter`, which the appenders without one of their own follow. -/
def setFormatter (s : State L A F) (logger : L) (val : Option F) : State L A F :=
  { s with
    logger := Function.update s.logger logger { s.logger logger with formatter := val }
    appender := (s.logger logger).appenders.foldl (follow val) s.appender }

/-- `addAppender`, which gives its formatter to an appender without one. -/
def addAppender (s : State L A F) (logger : L) (appender : A) : State L A F where
  logger := Function.update s.logger logger
    { s.logger logger with appenders := (s.logger logger).appenders ++ [appender] }
  appender :=
    if (s.appender appender).formatter.isSome then s.appender
    else
      Function.update s.appender appender
        { s.appender appender with formatter := (s.logger logger).formatter }
  lastAttached := Function.update s.lastAttached appender (some logger)

/-- Change the appenders of one logger. -/
def setAppenders (s : State L A F) (logger : L) (appenders : List A) : State L A F :=
  { s with logger := Function.update s.logger logger { s.logger logger with appenders := appenders } }

def delAppender (s : State L A F) (logger : L) (appender : A) : State L A F :=
  s.setAppenders logger ((s.logger logger).appenders.erase appender)

def clearAppenders (s : State L A F) (logger : L) : State L A F := s.setAppenders logger []

/-- `setFormatter` of an appender. -/
def setAppenderFormatter (s : State L A F) (appender : A) (val : Option F) : State L A F :=
  { s with
    appender := Function.update s.appender appender ((s.appender appender).setFormatter val) }

/-- A call, as a step. -/
def step (s : State L A F) : Action L A F → Option (State L A F)
  | .addAppender logger appender => some (s.addAppender logger appender)
  | .delAppender logger appender => some (s.delAppender logger appender)
  | .clearAppenders logger => some (s.clearAppenders logger)
  | .setFormatter logger val => some (s.setFormatter logger val)
  | .setAppenderFormatter appender val => some (s.setAppenderFormatter appender val)

/-- An attached appender has a formatter, and one without its own has that of its last logger. -/
structure Inherits (s : State L A F) : Prop where
  attached : ∀ logger, ∀ appender ∈ (s.logger logger).appenders,
    (s.appender appender).formatter ≠ none
  current : ∀ appender logger, (s.appender appender).hasFormatter = false →
    s.lastAttached appender = some logger →
    (s.appender appender).formatter = (s.logger logger).formatter

/-- A step that keeps the copies:
* an appender gets the null pointer only when it is in no logger, and has been in none that has a
  formatter now;
* a logger gets a formatter only when each appender without its own that is in it was added to it
  last, or to another one with that formatter, and each one that was added to it last is still in it;
* a logger that has a formatter gets an appender with its own formatter, or with none, or with the
  formatter of the logger. -/
def Keeps (s : State L A F) : Action L A F → Prop
  | .addAppender logger appender =>
      (s.appender appender).hasFormatter = true ∨
        (s.logger logger).formatter ≠ none ∧
          ((s.appender appender).formatter = none ∨
            (s.appender appender).formatter = (s.logger logger).formatter)
  | .delAppender _ _ => True
  | .clearAppenders _ => True
  | .setFormatter logger val => ∀ appender, (s.appender appender).hasFormatter = false →
      if appender ∈ (s.logger logger).appenders then
        val ≠ none ∧ ∀ other, other ≠ logger → s.lastAttached appender = some other →
          (s.logger other).formatter = val
      else s.lastAttached appender = some logger → (s.logger logger).formatter = val
  | .setAppenderFormatter appender val => val = none →
      (∀ logger, appender ∉ (s.logger logger).appenders) ∧
        ∀ logger, s.lastAttached appender = some logger → (s.logger logger).formatter = none

/-- An own formatter is there. -/
def Owned (s : State L A F) : Prop :=
  ∀ appender, (s.appender appender).hasFormatter = true → (s.appender appender).formatter ≠ none

variable {s next : State L A F} {action : Action L A F} {logger other : L} {appender i : A}
  {val : Option F}

/-! ### The loop of `setFormatter` -/

omit [DecidableEq L] in
theorem follow_other {before : A → Appender F} {first : A}
    (stays : first ≠ i ∨ (before i).hasFormatter = true) : follow val before first i = before i := by
  unfold follow
  split
  · rfl
  · rename_i inherits
    refine Function.update_of_ne ?_ _ _
    rintro rfl
    exact stays.elim (fun differs => differs rfl) inherits

omit [DecidableEq L] in
theorem foldl_follow_other (appenders : List A) (before : A → Appender F)
    (stays : i ∉ appenders ∨ (before i).hasFormatter = true) :
    appenders.foldl (follow val) before i = before i := by
  induction appenders generalizing before with
  | nil => rfl
  | cons first appenders inductionHypothesis =>
      have same : follow val before first i = before i :=
        follow_other (stays.imp_left fun outside first_ => outside (first_ ▸ List.mem_cons_self))
      rw [List.foldl_cons, inductionHypothesis, same]
      rw [same]
      exact stays.imp_left fun outside member => outside (List.mem_cons_of_mem _ member)

omit [DecidableEq L] in
theorem foldl_follow_inherits (appenders : List A) (before : A → Appender F)
    (member : i ∈ appenders) (inherits : (before i).hasFormatter = false) :
    appenders.foldl (follow val) before i = ⟨false, val⟩ := by
  induction appenders generalizing before with
  | nil => cases member
  | cons first appenders inductionHypothesis =>
      rw [List.foldl_cons]
      by_cases same : first = i
      · subst same
        have told : follow val before first first = ⟨false, val⟩ := by
          simp [follow, inherits]
        by_cases again : first ∈ appenders
        · exact inductionHypothesis _ again (by rw [told])
        · rw [foldl_follow_other _ _ (.inl again), told]
      · have kept : follow val before first i = before i := follow_other (.inl same)
        refine inductionHypothesis _ (List.mem_of_ne_of_mem (Ne.symm same) member) ?_
        rw [kept, inherits]

theorem setFormatter_inherits (member : i ∈ (s.logger logger).appenders)
    (inherits : (s.appender i).hasFormatter = false) :
    (s.setFormatter logger val).appender i = ⟨false, val⟩ :=
  foldl_follow_inherits _ _ member inherits

theorem setFormatter_other
    (stays : i ∉ (s.logger logger).appenders ∨ (s.appender i).hasFormatter = true) :
    (s.setFormatter logger val).appender i = s.appender i :=
  foldl_follow_other _ _ stays

theorem setFormatter_hasFormatter (i : A) :
    ((s.setFormatter logger val).appender i).hasFormatter = (s.appender i).hasFormatter := by
  by_cases follows : i ∈ (s.logger logger).appenders ∧ (s.appender i).hasFormatter = false
  · rw [setFormatter_inherits follows.1 follows.2, follows.2]
  · rw [setFormatter_other]
    by_contra neither
    exact follows (by simpa using neither)

/-! ### Frames -/

theorem setFormatter_logger (other : L) :
    (s.setFormatter logger val).logger other =
      if other = logger then ⟨val, (s.logger logger).appenders⟩ else s.logger other :=
  Function.update_apply ..

theorem setFormatter_appenders (other : L) :
    ((s.setFormatter logger val).logger other).appenders = (s.logger other).appenders := by
  rw [setFormatter_logger]
  split
  · rename_i same
    rw [same]
  · rfl

omit [DecidableEq A] in
theorem setAppenders_logger (appenders : List A) (other : L) :
    (s.setAppenders logger appenders).logger other =
      if other = logger then ⟨(s.logger logger).formatter, appenders⟩ else s.logger other :=
  Function.update_apply ..

omit [DecidableEq L] in
theorem setAppenderFormatter_appender (other : A) :
    (s.setAppenderFormatter appender val).appender other =
      if other = appender then ⟨val.isSome, val⟩ else s.appender other :=
  Function.update_apply ..

theorem addAppender_appender (other : A) :
    (s.addAppender logger appender).appender other =
      if other = appender then
        ⟨(s.appender appender).hasFormatter,
          (s.appender appender).formatter.or (s.logger logger).formatter⟩
      else s.appender other := by
  cases own : (s.appender appender).formatter with
  | none => simp [addAppender, own, Function.update_apply]
  | some formatter =>
      simp only [addAppender, own, Option.isSome_some, if_true, Option.some_or]
      split
      · rename_i same
        rw [same, ← own]
      · rfl

theorem addAppender_formatter (other : L) :
    ((s.addAppender logger appender).logger other).formatter = (s.logger other).formatter := by
  by_cases same : other = logger <;> simp [addAppender, same]

theorem mem_addAppender (other : L) :
    i ∈ ((s.addAppender logger appender).logger other).appenders ↔
      i ∈ (s.logger other).appenders ∨ other = logger ∧ i = appender := by
  by_cases same : other = logger <;> simp [addAppender, same]

theorem addAppender_lastAttached (other : A) :
    (s.addAppender logger appender).lastAttached other =
      if other = appender then some logger else s.lastAttached other :=
  Function.update_apply ..

/-! ### Each call -/

theorem inherits_setFormatter_iff (inherits : s.Inherits) :
    (s.setFormatter logger val).Inherits ↔ s.Keeps (.setFormatter logger val) := by
  constructor
  · intro after appender own
    split
    · rename_i member
      have told : (s.setFormatter logger val).appender appender = ⟨false, val⟩ :=
        setFormatter_inherits member own
      constructor
      · have some_ := after.attached logger appender (by rwa [setFormatter_appenders])
        rwa [told] at some_
      · intro other differs last
        have same := after.current appender other (by rw [told]) last
        rw [told, setFormatter_logger, if_neg differs] at same
        exact same.symm
    · rename_i outside
      intro last
      have kept : (s.setFormatter logger val).appender appender = s.appender appender :=
        setFormatter_other (.inl outside)
      have same := after.current appender logger (by rw [kept, own]) last
      rw [kept, setFormatter_logger, if_pos rfl] at same
      exact (inherits.current appender logger own last).symm.trans same
  · intro keeps
    constructor
    · intro other i member
      rw [setFormatter_appenders] at member
      by_cases follows : i ∈ (s.logger logger).appenders ∧ (s.appender i).hasFormatter = false
      · have guard := keeps i follows.2
        rw [if_pos follows.1] at guard
        rw [setFormatter_inherits follows.1 follows.2]
        exact guard.1
      · rw [setFormatter_other (by grind)]
        exact inherits.attached other i member
    · intro i other own last
      rw [setFormatter_hasFormatter] at own
      have guard := keeps i own
      split at guard
      · rename_i member
        rw [setFormatter_inherits member own, setFormatter_logger]
        split
        · rfl
        · rename_i differs
          exact (guard.2 other differs last).symm
      · rename_i outside
        have same := inherits.current i other own last
        rw [setFormatter_other (.inl outside), setFormatter_logger, same]
        split
        · rename_i this
          subst this
          exact guard last
        · rfl

omit [DecidableEq L] in
theorem inherits_setAppenderFormatter_iff (inherits : s.Inherits) :
    (s.setAppenderFormatter appender val).Inherits ↔
      s.Keeps (.setAppenderFormatter appender val) := by
  constructor
  · rintro after rfl
    constructor
    · intro logger member
      have some_ := after.attached logger appender member
      rw [setAppenderFormatter_appender, if_pos rfl] at some_
      exact some_ rfl
    · intro logger last
      have same := after.current appender logger
        (by rw [setAppenderFormatter_appender, if_pos rfl]; rfl) last
      rw [setAppenderFormatter_appender, if_pos rfl] at same
      exact same.symm
  · intro keeps
    constructor
    · intro logger i member
      rw [setAppenderFormatter_appender]
      split
      · rename_i this
        subst this
        intro null
        exact (keeps null).1 logger member
      · exact inherits.attached logger i member
    · intro i logger own last
      rw [setAppenderFormatter_appender] at own ⊢
      split at own
      · rename_i this
        subst this
        have null : val = none := by simpa using own
        rw [if_pos rfl, null]
        exact ((keeps null).2 logger last).symm
      · rename_i differs
        rw [if_neg differs]
        exact inherits.current i logger own last

omit [DecidableEq A] in
/-- Taking appenders out of a logger leaves every copy as it is. -/
theorem inherits_setAppenders (inherits : s.Inherits) {appenders : List A}
    (fewer : ∀ i ∈ appenders, i ∈ (s.logger logger).appenders) :
    (s.setAppenders logger appenders).Inherits := by
  constructor
  · intro other i member
    rw [setAppenders_logger] at member
    split at member
    · exact inherits.attached logger i (fewer i member)
    · exact inherits.attached other i member
  · intro i other own last
    have same := inherits.current i other own last
    rw [setAppenders_logger]
    split
    · rename_i this
      subst this
      exact same
    · exact same

theorem inherits_addAppender_iff (inherits : s.Inherits) (owned : s.Owned) :
    (s.addAppender logger appender).Inherits ↔ s.Keeps (.addAppender logger appender) := by
  constructor
  · intro after
    cases own : (s.appender appender).hasFormatter with
    | true => exact .inl own
    | false =>
        have some_ := after.attached logger appender ((mem_addAppender logger).2 (.inr ⟨rfl, rfl⟩))
        have same := after.current appender logger
          (by rw [addAppender_appender, if_pos rfl, own]) (by rw [addAppender_lastAttached, if_pos rfl])
        rw [addAppender_appender, if_pos rfl] at some_ same
        rw [addAppender_formatter] at same
        refine .inr ⟨fun null => some_ (same.trans null), ?_⟩
        cases carried : (s.appender appender).formatter with
        | none => exact .inl rfl
        | some formatter =>
            rw [carried, Option.some_or] at same
            exact .inr same
  · intro keeps
    constructor
    · intro other i member
      rw [addAppender_appender]
      split
      · rename_i this
        subst this
        rcases keeps with own | ⟨some_, _⟩
        · simp [owned i own]
        · simp [some_]
      · rename_i differs
        rcases (mem_addAppender other).1 member with before | ⟨_, this⟩
        · exact inherits.attached other i before
        · exact absurd this differs
    · intro i other own last
      rw [addAppender_appender] at own ⊢
      rw [addAppender_lastAttached] at last
      rw [addAppender_formatter]
      split at own
      · rename_i this
        subst this
        rw [if_pos rfl] at last
        cases last
        rw [if_pos rfl]
        rcases keeps with owns | ⟨_, null | same⟩
        · exact absurd (owns.symm.trans own) (by decide)
        · rw [null, Option.none_or]
        · rw [same, Option.or_self]
      · rename_i differs
        rw [if_neg differs] at last ⊢
        exact inherits.current i other own last

/-! ### Runs -/

theorem step_total (s : State L A F) (action : Action L A F) : ∃ next, s.step action = some next := by
  cases action <;> exact ⟨_, rfl⟩

/-- A step keeps the copies if and only if they are right after it. -/
theorem inherits_step_iff (inherits : s.Inherits) (owned : s.Owned)
    (taken : s.step action = some next) : next.Inherits ↔ s.Keeps action := by
  cases action with
  | addAppender logger appender =>
      cases taken
      exact inherits_addAppender_iff inherits owned
  | delAppender logger appender =>
      cases taken
      exact iff_of_true (inherits_setAppenders inherits fun _ => List.mem_of_mem_erase) trivial
  | clearAppenders logger =>
      cases taken
      exact iff_of_true (inherits_setAppenders inherits (by simp)) trivial
  | setFormatter logger val =>
      cases taken
      exact inherits_setFormatter_iff inherits
  | setAppenderFormatter appender val =>
      cases taken
      exact inherits_setAppenderFormatter_iff inherits

theorem Owned.step (owned : s.Owned) (taken : s.step action = some next) : next.Owned := by
  cases action with
  | addAppender logger appender =>
      cases taken
      intro i own
      rw [addAppender_appender] at own ⊢
      split at own
      · rw [if_pos (by assumption)]
        simp [owned appender own]
      · rw [if_neg (by assumption)]
        exact owned i own
  | delAppender logger appender =>
      cases taken
      exact owned
  | clearAppenders logger =>
      cases taken
      exact owned
  | setFormatter logger val =>
      cases taken
      intro i own
      rw [setFormatter_hasFormatter] at own
      rw [setFormatter_other (.inr own)]
      exact owned i own
  | setAppenderFormatter appender val =>
      cases taken
      intro i own
      rw [setAppenderFormatter_appender] at own ⊢
      split at own
      · rw [if_pos (by assumption)]
        exact Option.isSome_iff_ne_none.1 own
      · rw [if_neg (by assumption)]
        exact owned i own

omit [DecidableEq L] [DecidableEq A] in
theorem inherits_new (default : L → F) : (new default : State L A F).Inherits where
  attached _ _ member := absurd member List.not_mem_nil
  current _ _ _ last := by cases last

omit [DecidableEq L] [DecidableEq A] in
theorem owned_new (default : L → F) : (new default : State L A F).Owned := by
  rintro appender ⟨⟩

/-- In a run over any loggers and appenders, every attached appender has a formatter and every one
without its own has that of its last logger throughout, if and only if every step keeps the
copies. -/
theorem inherits_iff_keeps (default : L → F) (actions : List (Action L A F)) :
    Along step Inherits (new default) actions ↔ Guarded step Keeps (new default) actions := by
  refine along_iff_guarded (fun (s : State L A F) (holds : s.Inherits ∧ s.Owned) => holds.1)
    (fun holds keeps taken => ?_) (fun {s action} holds breaks => ?_)
    ⟨inherits_new default, owned_new default⟩
  · exact ⟨(inherits_step_iff holds.1 holds.2 taken).2 keeps, holds.2.step taken⟩
  · obtain ⟨next, taken⟩ := step_total s action
    exact ⟨next, taken, fun after => breaks ((inherits_step_iff holds.1 holds.2 taken).1 after)⟩

/-- An attached appender that gives up its own formatter has none at all. -/
theorem not_inherits_null :
    ¬Along step Inherits (new fun _ => () : State Unit Unit Unit)
      [.addAppender () (), .setAppenderFormatter () none] := by
  intro along
  exact (along.exec rfl).attached () () (by decide) (by decide)

end State

end Sylar.Log.Shared
