import Sylar.Config.Listeners

/-!
# Setting a variable from a string

`ConfigVar::fromString` of `config.h` in one thread, with everything in it that can throw:
the conversion, the comparison, each callback and the assignment. It has no `return true`,
so it reports the truth about exactly those calls that fail.
-/

namespace Sylar.Config

/-- What is thrown: something derived from `std::exception`, or not. -/
inductive Thrown where
  | exception
  | other
deriving DecidableEq, Repr

/-- The parts of a variable that are not written here: `FromStr`, `operator==` and the assignment
of `T`, and the callbacks behind the keys of `m_cbs`. -/
structure Operations (V : Type) where
  fromStr : List UInt8 → Except Thrown V
  equal : V → V → Except Thrown Bool
  /-- The value that is there after `m_val = v`, and what the assignment threw. -/
  assign : V → V → V × Option Thrown
  callback : UInt64 → V → V → Option Thrown

/-- `catch (std::exception &e)`. -/
def Thrown.handled : Thrown → Except Thrown Bool
  | .exception => .ok false
  | .other => .error .other

namespace ConfigVar

variable {V T : Type} (ops : Operations V)

/-- The loop over `m_cbs`, which ends at the first callback that throws. -/
def notifyAll (val v : V) : List (Listener V) → List (Listener V) × Option Thrown
  | [] => ([], none)
  | listener :: cbs =>
      match ops.callback listener.key val v with
      | some thrown => (listener.notify val v :: cbs, some thrown)
      | none => (listener.notify val v :: (notifyAll val v cbs).1, (notifyAll val v cbs).2)

/-- `setValue`, with what a listener or an assignment throws. -/
def setValue (s : ConfigVar V T) (v : V) : ConfigVar V T × Option Thrown :=
  match ops.equal v s.val with
  | .error thrown => (s, some thrown)
  | .ok true => (s, none)
  | .ok false =>
      match notifyAll ops s.val v s.cbs with
      | (cbs, some thrown) => ({ s with cbs := cbs }, some thrown)
      | (cbs, none) =>
          ({ s with cbs := cbs, val := (ops.assign s.val v).1 }, (ops.assign s.val v).2)

/-- The variable behind the call, and what the call returned or threw. -/
def fromString (s : ConfigVar V T) (val : List UInt8) : ConfigVar V T × Except Thrown Bool :=
  match ops.fromStr val with
  | .error thrown => (s, thrown.handled)
  | .ok v =>
      match setValue ops s v with
      | (s, some thrown) => (s, thrown.handled)
      | (s, none) => (s, .ok false)

/-- The conversion succeeds and all callbacks that are notified return. -/
def Succeeds (s : ConfigVar V T) (val : List UInt8) : Prop :=
  ∃ v, ops.fromStr val = .ok v ∧ (ops.equal v s.val = .ok false →
    ∀ listener ∈ s.cbs, ops.callback listener.key s.val v = none)

/-- The result separates the calls that succeed from the others, which change nothing. -/
structure ReportsTruth (s : ConfigVar V T) (val : List UInt8) : Prop where
  reported : (fromString ops s val).2 = .ok true ↔ Succeeds ops s val
  converted : (fromString ops s val).2 = .ok true →
    ops.fromStr val = .ok (fromString ops s val).1.val
  unchanged : (fromString ops s val).2 = .ok false → (fromString ops s val).1.val = s.val

/-- The conversion throws, or it gives another value and a callback throws when it is told. -/
def Fails (s : ConfigVar V T) (val : List UInt8) : Prop :=
  (∃ thrown, ops.fromStr val = .error thrown) ∨
    ∃ v, ops.fromStr val = .ok v ∧ ops.equal v s.val = .ok false ∧
      ∃ listener ∈ s.cbs, ∃ thrown, ops.callback listener.key s.val v = some thrown

variable {ops} {s : ConfigVar V T} {val : List UInt8} {v : V}

theorem notifyAll_returns (val v : V) (cbs : List (Listener V)) :
    (notifyAll ops val v cbs).2 = none ↔
      ∀ listener ∈ cbs, ops.callback listener.key val v = none := by
  induction cbs with
  | nil => simp [notifyAll]
  | cons listener cbs inductionHypothesis =>
      rw [notifyAll, List.forall_mem_cons, ← inductionHypothesis]
      split
      · rename_i thrown throws
        simp [throws]
      · rename_i returns
        simp [returns]

/-- When no callback throws, each is told once. -/
theorem notifyAll_told (returns : (notifyAll ops s.val v s.cbs).2 = none) :
    (notifyAll ops s.val v s.cbs).1 = s.cbs.map (·.notify s.val v) := by
  have all := (notifyAll_returns s.val v s.cbs).1 returns
  generalize s.cbs = cbs at all
  induction cbs with
  | nil => rfl
  | cons listener cbs inductionHypothesis =>
      rw [List.forall_mem_cons] at all
      rw [notifyAll, all.1, List.map_cons, ← inductionHypothesis all.2]

/-- Without exceptions, `setValue` of another value is the two sections of a thread that nothing
comes between. -/
theorem setValue_eq_sections [DecidableEq V] [DecidableEq T] {t : T}
    (free : s.setting = fun _ => none) (change : v ≠ s.val) (differs : ops.equal v s.val = .ok false)
    (assigns : ops.assign s.val v = (v, none))
    (returns : ∀ listener ∈ s.cbs, ops.callback listener.key s.val v = none) :
    Library.exec step s [.compare t v, .assign t] = some (setValue ops s v).1 := by
  have silent := (notifyAll_returns s.val v s.cbs).2 returns
  have told : notifyAll ops s.val v s.cbs = (s.cbs.map (·.notify s.val v), none) :=
    Prod.ext (notifyAll_told silent) silent
  have call : setValue ops s v =
      ({ s with cbs := s.cbs.map (·.notify s.val v), val := v }, none) := by
    simp only [setValue, differs, told, assigns]
  simp [call, Library.exec, step, free, change]

theorem handled_ne_true (thrown : Thrown) : thrown.handled ≠ .ok true := by
  cases thrown <;> rintro ⟨⟩

/-- There is no `return true`. -/
theorem fromString_ne_true (s : ConfigVar V T) (val : List UInt8) :
    (fromString ops s val).2 ≠ .ok true := by
  unfold fromString
  split
  · exact handled_ne_true _
  · split
    · exact handled_ne_true _
    · rintro ⟨⟩

theorem notifyAll_throws {listener : Listener V} {thrown : Thrown} (member : listener ∈ s.cbs)
    (throws : ops.callback listener.key s.val v = some thrown) :
    ∃ cbs first, notifyAll ops s.val v s.cbs = (cbs, some first) := by
  have stops : (notifyAll ops s.val v s.cbs).2 ≠ none := by
    intro returns
    exact absurd ((notifyAll_returns _ _ _).1 returns listener member) (by simp [throws])
  obtain ⟨first, told⟩ := Option.ne_none_iff_exists'.1 stops
  exact ⟨_, first, Prod.ext rfl told⟩

/-- A call that fails leaves the value as it was. -/
theorem fromString_unchanged (fails : Fails ops s val) : (fromString ops s val).1.val = s.val := by
  rcases fails with ⟨thrown, throws⟩ | ⟨v, converts, differs, listener, member, thrown, throws⟩
  · rw [fromString, throws]
  · obtain ⟨cbs, first, told⟩ := notifyAll_throws member throws
    have call : setValue ops s v = ({ s with cbs := cbs }, some first) := by
      simp only [setValue, differs, told]
    simp only [fromString, converts, call]

theorem fails_iff (s : ConfigVar V T) (val : List UInt8) : Fails ops s val ↔ ¬Succeeds ops s val := by
  constructor
  · rintro (⟨thrown, throws⟩ | ⟨v, converts, differs, listener, member, thrown, throws⟩)
      ⟨w, succeeds, returns⟩
    · exact absurd (throws.symm.trans succeeds) (by simp)
    · cases converts.symm.trans succeeds
      exact absurd ((returns differs listener member).symm.trans throws) (by simp)
  · intro fails
    cases converts : ops.fromStr val with
    | error thrown => exact .inl ⟨thrown, converts⟩
    | ok v =>
        by_cases differs : ops.equal v s.val = .ok false
        · by_cases returns : ∀ listener ∈ s.cbs, ops.callback listener.key s.val v = none
          · exact absurd ⟨v, converts, fun _ => returns⟩ fails
          · simp only [not_forall] at returns
            obtain ⟨listener, member, throws⟩ := returns
            obtain ⟨thrown, throws⟩ := Option.ne_none_iff_exists'.1 throws
            exact .inr ⟨v, converts, differs, listener, member, thrown, throws⟩
        · exact absurd ⟨v, converts, fun same => absurd same differs⟩ fails

/-- `fromString` reports the truth if and only if the conversion throws, or it gives another value
and a callback throws when it is told. -/
theorem reportsTruth_iff (ops : Operations V) (s : ConfigVar V T) (val : List UInt8) :
    ReportsTruth ops s val ↔ Fails ops s val := by
  rw [fails_iff]
  constructor
  · intro truth succeeds
    exact fromString_ne_true s val (truth.reported.2 succeeds)
  · intro fails
    exact {
      reported := iff_of_false (fromString_ne_true s val) fails
      converted := fun claimed => absurd claimed (fromString_ne_true s val)
      unchanged := fun _ => fromString_unchanged ((fails_iff s val).2 fails) }

/-- A variable of bytes: the string has to be one of them. -/
def byteOperations : Operations UInt8 where
  fromStr
    | [byte] => .ok byte
    | _ => .error .exception
  equal a b := .ok (a == b)
  assign _ b := (b, none)
  callback _ _ _ := none

/-- The value is set and the call returns false. -/
theorem fromString_denies : ¬ReportsTruth byteOperations (new 0 [] : ConfigVar UInt8 Unit) [7] := by
  intro truth
  have denied := truth.unchanged (by decide)
  exact absurd denied (by decide)

end ConfigVar

end Sylar.Config
