import Sylar.Library.Ragel.Effect
import Sylar.Uri.Reference

/-!
# What the machine does with a component

The machine with its numbered actions, and what it does with the components that have a
beginning that is marked and an end at which they are saved.
-/

namespace Sylar.UriParser

open Library Library.Ragel Library.Ragel.Machine
open Uri (Creation Fault Text Fits act between rootedPath relativePath part)

/-! ### The numbered machine -/

/-- The actions in their order. -/
def order : List (Nat × Act) :=
  [(0, .marku), (1, .saveScheme), (2, .markh), (3, .saveUserinfo), (4, .markh), (5, .saveHost),
    (6, .markh), (7, .savePort), (8, .markh), (9, .savePath), (10, .marku), (11, .saveQuery),
    (12, .marku), (13, .saveFragment), (14, .markh), (15, .saveUserinfo), (16, .markh),
    (17, .saveHost), (18, .markh), (19, .savePort), (20, .marku), (21, .saveQuery),
    (22, .marku), (23, .saveFragment)]

/-- A component that is marked at its beginning and saved behind its end. -/
def field (mark save : Nat × Act) (body : Machine UInt8 (Nat × Act)) :
    Machine UInt8 (Nat × Act) := leaving save (entering mark body)

/-- `userinfo %save_userinfo "@"`, numbered `n`. -/
def userinfoAt (n : Nat) : Machine UInt8 (Nat × Act) :=
  cat (leaving (n, .saveUserinfo) userinfo) (char 64)

/-- `host >markh %save_host`, numbered from `n`. -/
def hostAt (n : Nat) : Machine UInt8 (Nat × Act) := field (n, .markh) (n + 1, .saveHost) host

/-- `(":" port >markh %save_port)?`, numbered from `n`. -/
def portAt (n : Nat) : Machine UInt8 (Nat × Act) :=
  opt (cat colon (field (n, .markh) (n + 1, .savePort) port))

/-- `authority`, numbered from `n`. -/
def authorityAt (n : Nat) : Machine UInt8 (Nat × Act) :=
  entering (n, .markh) (cat (opt (userinfoAt (n + 1))) (cat (hostAt (n + 2)) (portAt (n + 4))))

/-- `( "?" query )? ( "#" fragment )?`, numbered from `n`. -/
def queryAt (n : Nat) : Machine UInt8 (Nat × Act) :=
  cat (opt (cat (char 63) (field (n, .marku) (n + 1, .saveQuery) queryText)))
    (opt (cat (char 35) (field (n + 2, .marku) (n + 3, .saveFragment) queryText)))

/-- The path behind an authority, which is the only one that is saved. -/
def pathAt (n : Nat) : Machine UInt8 (Nat × Act) := field (n, .markh) (n + 1, .savePath) pathAbempty

/-- `"//" authority path_abempty`. -/
def networkAt (n : Nat) (path : Machine UInt8 (Nat × Act)) : Machine UInt8 (Nat × Act) :=
  cat slash (cat slash (cat (authorityAt n) path))

/-- `URI`. -/
def absoluteAt : Machine UInt8 (Nat × Act) :=
  cat (field (0, .marku) (1, .saveScheme) schemeText)
    (cat colon (cat (alt (networkAt 2 (pathAt 8)) rootedPath) (queryAt 10)))

/-- `relative_ref`, with the numbers of its actions. -/
def relativeAt : Machine UInt8 (Nat × Act) :=
  cat (alt (networkAt 14 pathAbempty) relativePath) (queryAt 20)

/-- The state of the machine, with the actions that were executed last. -/
abbrev State := Recorded Creation Act

/-- The actions, of which equal ones are executed once at each place. -/
abbrev acts : Text → State → Nat × Act → Except Fault State := unrepeated act

/-- `main` by its two alternatives. -/
theorem main_eq : main = alt absoluteAt relativeAt := rfl

/-- The actions of `main` in their order. -/
theorem embedded_main : main.embedded = order := rfl

/-! ### The order of the actions -/

/-- Each action is once in the order. -/
theorem once_of_mem :
    ∀ action ∈ order, (order.filter fun other => decide (other = action)) = [action] := by
  decide

/-- The numbers in front of a place in the order. -/
theorem number_of_take (k : Nat) : ∀ action ∈ order.take k, action.1 < k := by
  rcases Nat.lt_or_ge k 25 with small | large
  · revert k
    decide
  · intro action member
    have all : ∀ action ∈ order, action.1 < 24 := by decide
    exact Nat.lt_of_lt_of_le (all action (List.mem_of_mem_take member)) (Nat.le_of_succ_le large)

/-- The numbers behind a place in the order. -/
theorem number_of_drop (k : Nat) : ∀ action ∈ order.drop k, k ≤ action.1 := by
  rcases Nat.lt_or_ge k 25 with small | large
  · revert k
    decide
  · rw [List.drop_eq_nil_of_le (Nat.le_of_succ_le large)]
    simp

/-- Actions with smaller numbers come first. -/
theorem before_number {first second : List (Nat × Act)} (k : Nat)
    (early : ∀ action ∈ first, action.1 < k) (late : ∀ action ∈ second, k ≤ action.1) :
    Before order first second :=
  ⟨k, fun action own inside => Nat.not_lt.mpr (number_of_drop k action inside) (early action own),
    fun action own inside => Nat.not_lt.mpr (late action own) (number_of_take k action inside)⟩

/-! ### Components -/

/-- A byte in front of a machine. -/
theorem char_does {machine : Machine UInt8 (Nat × Act)} {text : Text}
    {effect : Text → State → Except Fault State} (byte : UInt8)
    (does : Does order acts machine text effect) :
    Does order acts (cat (char byte) machine) (byte :: text) effect :=
  does.one_cat (beq_self_eq_true byte)

/-- A sign in front of a machine is the first byte of its texts. -/
theorem char_split {sign : UInt8} {machine : Machine UInt8 (Nat × Act)} {text : Text}
    (accepted : accepts [cat (char sign) machine] text = true) :
    ∃ rest, text = sign :: rest ∧ accepts [machine] rest = true := by
  obtain ⟨front, rest, rfl, signed, read⟩ := accepts_cat.mp accepted
  obtain ⟨byte, isSign, rfl⟩ := accepts_one.mp signed
  obtain rfl := beq_iff_eq.mp isSign
  exact ⟨rest, rfl, read⟩

variable {mark save : Nat × Act} {body : Machine UInt8 (Nat × Act)} {text later : Text}
  {s : State}

/-- The bytes from a mark to the place behind a text. -/
theorem between_append (text later : Text) : between (text ++ later) later = text := by
  rw [between, List.length_append, Nat.add_sub_cancel]
  exact List.take_left

/-- What a component does that is marked and saved. -/
def saveField (mark save : Nat × Act) (text later : Text) (s : State) :
    Except Fault State := do
  let s ← acts (text ++ later) s mark
  acts later s save

/-- A field is saved from its mark to its end. -/
theorem field_does (mark save : Nat × Act) (known : mark ∈ order) (knownSave : save ∈ order)
    (follow : mark.1 < save.1) (free : body.embedded = []) (fits : Fits body text) :
    Does order acts (field mark save body) text (saveField mark save text) := by
  have silent : Does order acts body text _ := .silent free fits
  have entered := silent.entering
    (once_of_mem mark known) (before_number (mark.1 + 1) (by simp) (by simp [free]))
  have left_ := entered.leaving (once_of_mem save knownSave)
    (before_number save.1 (by simpa [Machine.embedded, free] using follow) (by simp))
  simp only [bind_pure] at left_
  exact left_

/-- What a component does that may be missing. -/
def saved (mark save : Nat × Act) : Option Text → Text → State → Except Fault State
  | none, _, s => pure s
  | some text, later, s => saveField mark save text later s

/-- The two actions of an optional field behind a sign. -/
theorem embedded_part (free : body.embedded = []) (sign : UInt8) :
    (opt (cat (char sign) (field mark save body))).embedded = [mark, save] := by
  simp [Machine.opt, char, field, Machine.embedded, free]

/-- A part that is there begins with its sign. -/
theorem head_part (sign : UInt8) (component : Option Text) :
    ∀ letter ∈ (part sign component).head?, letter = sign := by
  cases component with
  | none => rintro letter ⟨⟩
  | some text =>
      rintro letter ⟨⟩
      rfl

/-- An optional field begins with its sign. -/
theorem begins_part (sign letter : UInt8) (rest : Machine UInt8 (Nat × Act)) :
    (opt (cat (char sign) rest)).begins letter = (letter == sign) := by
  simp [Machine.opt, char, begins, Machine.final]

/-- An optional field behind its sign is saved if it is there. -/
theorem part_does (mark save : Nat × Act) (known : mark ∈ order) (knownSave : save ∈ order)
    (follow : mark.1 < save.1) (free : body.embedded = []) (sign : UInt8) {component : Option Text}
    (fits : ∀ text ∈ component, Fits body text) :
    Does order acts (opt (cat (char sign) (field mark save body))) (part sign component)
      (saved mark save component) := by
  cases component with
  | none => exact Does.opt_nil rfl
  | some text =>
      have component := field_does mark save known knownSave follow free (fits text rfl)
      exact (char_does sign component).opt (by simp)

/-- The actions of a field do not change its texts. -/
theorem accepts_field : accepts [field mark save body] text = accepts [body] text :=
  accepts_leaving.trans accepts_entering

/-- A text that is read as a component that may be missing. -/
theorem part_split {sign : UInt8}
    (accepted : accepts [opt (cat (char sign) (field mark save body))] text = true) :
    ∃ component, text = part sign component ∧ ∀ text ∈ component, Fits body text := by
  rw [Machine.opt, accepts_alt, Bool.or_eq_true] at accepted
  rcases accepted with present | absent
  · obtain ⟨behind, rfl, read⟩ := char_split present
    refine ⟨some behind, rfl, ?_⟩
    rintro text ⟨⟩
    exact accepts_field.symm.trans read
  · obtain rfl := accepts_lambda.mp absent
    refine ⟨none, rfl, ?_⟩
    rintro text ⟨⟩

/-- What a query and a fragment do. -/
def saveTail (n : Nat) (query fragment : Option Text) (later : Text) (s : State) :
    Except Fault State := do
  let s ← saved (n, .marku) (n + 1, .saveQuery) query (part 35 fragment ++ later) s
  saved (n + 2, .marku) (n + 3, .saveFragment) fragment later s

/-- A query and a fragment are saved if they are there. -/
theorem tail_does {n : Nat} (known : n = 10 ∨ n = 20) {query fragment : Option Text}
    (fitsQuery : ∀ text ∈ query, Fits queryText text)
    (fitsFragment : ∀ text ∈ fragment, Fits queryText text) :
    Does order acts (queryAt n) (part 63 query ++ part 35 fragment) (saveTail n query fragment) := by
  have inside : (n, Act.marku) ∈ order ∧ (n + 1, Act.saveQuery) ∈ order ∧
      (n + 2, Act.marku) ∈ order ∧ (n + 3, Act.saveFragment) ∈ order := by
    rcases known with rfl | rfl <;> decide
  have first := part_does (n, .marku) (n + 1, .saveQuery) inside.1 inside.2.1 (Nat.lt_succ_self n)
    rfl 63 fitsQuery
  have second := part_does (n + 2, .marku) (n + 3, .saveFragment) inside.2.2.1 inside.2.2.2
    (Nat.lt_succ_self _) rfl 35 fitsFragment
  refine first.append_apart second (before_number (n + 2) ?_ ?_)
    (show Machine.avoids [35] _ = true from rfl) ?_
  · rw [embedded_part rfl]
    simp
  · rw [embedded_part rfl]
    simp
  · intro letter
    rw [begins_part]
    simp

/-- A text that is read as a query and a fragment. -/
theorem tail_split {n : Nat} (accepted : accepts [queryAt n] text = true) :
    ∃ query fragment, text = part 63 query ++ part 35 fragment ∧
      (∀ text ∈ query, Fits queryText text) ∧ ∀ text ∈ fragment, Fits queryText text := by
  obtain ⟨front, behind, rfl, first, second⟩ := accepts_cat.mp accepted
  obtain ⟨query, rfl, fitsQuery⟩ := part_split first
  obtain ⟨fragment, rfl, fitsFragment⟩ := part_split second
  exact ⟨query, fragment, rfl, fitsQuery, fitsFragment⟩

end Sylar.UriParser
