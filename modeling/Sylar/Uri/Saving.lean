import Sylar.Uri.Authority

/-!
# Saved components

What is saved for the components, as values: the host and the port of an authority, its
userinfo, and what is behind it.
-/

namespace Sylar.UriParser

open Library Library.Ragel Library.Ragel.Machine
open Uri (Creation Fault Text Fits act atoi between part userOf passwordOf digitFollows)

variable {host_ path scheme_ text later : Text} {query_ fragment_ port_ : Option Text} {uri : Uri}
  {s : State} {next : Creation} {mark save name : Act} {n m : Nat}

/-! ### Actions at a place -/

/-- The state in front of a text where these actions were executed. -/
abbrev placed (mark : Option Text) (uri : Uri) (text : Text) (names : List Act) : State :=
  ⟨⟨mark, uri⟩, text.length, names⟩

/-- An action that was not executed here is executed. -/
theorem acts_new (new : name ∉ s.executed text) (acted : act text s.state name = .ok next) (n : Nat) :
    acts text s (n, name) = .ok ⟨next, text.length, name :: s.executed text⟩ := by
  rw [acts, unrepeated, if_neg new, acted]
  rfl

/-- What was executed at this place was executed. -/
theorem done_of_executed (member : name ∈ s.executed text) :
    name ∈ s.done ∧ s.length = text.length := by
  rw [Recorded.executed] at member
  split at member
  case isTrue here => exact ⟨member, here⟩
  case isFalse => cases member

/-- What was not executed at all was not executed here. -/
theorem not_executed (unknown : name ∉ s.done) (text : Text) : name ∉ s.executed text :=
  fun member => unknown (done_of_executed member).1

/-- A mark that was set here already is not set again. -/
theorem acts_mark (isMark : mark = .marku ∨ mark = .markh)
    (marked : mark ∈ s.executed text → s.state.mark = some text) (n : Nat) :
    ∃ names, acts text s (n, mark) = .ok (placed (some text) s.state.uri text names) ∧
      ∀ name ∈ names, name = mark ∨ name ∈ s.executed text := by
  by_cases known : mark ∈ s.executed text
  · obtain ⟨⟨own, uri⟩, length, done⟩ := s
    obtain rfl : length = text.length := (done_of_executed known).2
    obtain rfl : own = some text := marked known
    rw [executed_here] at known ⊢
    refine ⟨done, ?_, fun name member => .inr member⟩
    rw [acts, unrepeated, executed_here, if_pos known]
    rfl
  · refine ⟨_, acts_new known ?_ n, fun name member => List.mem_cons.mp member⟩
    rcases isMark with rfl | rfl <;> rfl

/-- A component is marked at its beginning and saved behind its end. -/
theorem saveField_eq (isMark : mark = .marku ∨ mark = .markh)
    (marked : mark ∈ s.executed (text ++ later) → s.state.mark = some (text ++ later))
    (other : save ≠ mark) (new : save ∉ s.executed (text ++ later))
    (saves : act later ⟨some (text ++ later), s.state.uri⟩ save = .ok next) :
    ∃ names, saveField (n, mark) (m, save) text later s = .ok ⟨next, later.length, names⟩ ∧
      ∀ name ∈ names, name = save ∨ text = [] ∧ (name = mark ∨ name ∈ s.executed later) := by
  obtain ⟨names, entered, known⟩ := acts_mark isMark marked n
  have unsaved : save ∉ names := fun member => (known save member).elim other new
  have ran : saveField (n, mark) (m, save) text later s = .ok ⟨next, later.length, save ::
      (placed (some (text ++ later)) s.state.uri (text ++ later) names).executed later⟩ := by
    rw [saveField, entered]
    exact acts_new (not_executed unsaved later) saves m
  refine ⟨_, ran, fun name member => (List.mem_cons.mp member).imp_right fun before => ?_⟩
  obtain ⟨inside, length⟩ := done_of_executed before
  have none_ : text = [] := by
    rw [← List.length_eq_zero_iff]
    simp only [List.length_append] at length
    omega
  subst none_
  exact ⟨rfl, known name inside⟩

/-! ### Ports -/

theorem isDigit_eq (byte : UInt8) : isDigit byte = Library.isDigit 10 byte := by
  have decimal : isDigit byte = decide (48 ≤ byte ∧ byte ≤ 57) := (Bool.decide_and _ _).symm
  rw [decimal, Library.isDigit, digitValue]
  split
  case isTrue digit =>
    have bound : byte.toNat ≤ 57 := digit.2
    rw [decide_eq_true digit, Option.any_some]
    exact (decide_eq_true (by omega)).symm
  case isFalse other =>
    rw [decide_eq_false other]
    split
    case isTrue upper =>
      have bound : 65 ≤ byte.toNat := upper.1
      exact (decide_eq_false (by omega)).symm
    case isFalse =>
      split
      case isTrue lower =>
        have bound : 97 ≤ byte.toNat := lower.1
        exact (decide_eq_false (by omega)).symm
      case isFalse => rfl

/-- A port is made of digits. -/
theorem isDigit_of_port (fits : Fits port text) {byte : UInt8} (member : byte ∈ text) :
    Library.isDigit 10 byte = true :=
  (isDigit_eq byte).symm.trans (fits_port_iff.mp fits byte member)

/-- The signs that can stand behind an authority. -/
def Behind (later : Text) : Prop := ∀ byte ∈ later.head?, byte = 47 ∨ byte = 63 ∨ byte = 35

/-- The digits in front of a path, a query or a fragment. -/
theorem atoi_port (fits : Fits port text) (some_ : text ≠ []) (small : numeral 10 text < 2 ^ 31)
    (behind : Behind later) : atoi (text ++ later) = BitVec.ofNat 32 (numeral 10 text) := by
  have nonzero : ∀ byte ∈ text, (byte != 0) = true := by
    intro byte member
    rw [bne_iff_ne]
    rintro rfl
    exact absurd (isDigit_of_port fits member) (by decide)
  have string_ : Http.cString (text ++ later) = text ++ Http.cString later := by
    rw [Http.cString, List.takeWhile_append_of_pos nonzero]
    rfl
  have ends : ∀ byte ∈ (Http.cString later).head?,
      Library.isDigit 10 byte = false ∧ byte ≠ 120 ∧ byte ≠ 88 := by
    intro byte first
    have own : byte ∈ later.head? := by
      cases later with
      | nil => exact first
      | cons head rest =>
          rw [Http.cString, List.takeWhile_cons] at first
          split at first
          · exact first
          · cases first
    rcases behind byte own with rfl | rfl | rfl <;> decide
  have read := strtol_digits (fun _ => isDigit_of_port fits) some_ ends
  rw [atoi, string_, read, min_eq_right (by omega)]
  rfl

/-- The port that is saved. -/
def readPort (port : Option Text) : BitVec 32 := BitVec.ofNat 32 (numeral 10 (port.getD []))

/-! ### Components behind the authority -/

/-- The scheme is saved, and the mark is gone. -/
theorem saveField_scheme (new : s.executed (scheme_ ++ later) = []) :
    ∃ names, saveField (0, .marku) (1, .saveScheme) scheme_ later s =
      .ok ⟨⟨none, { s.state.uri with scheme := scheme_ }⟩, later.length, names⟩ := by
  have saves : act later ⟨some (scheme_ ++ later), s.state.uri⟩ .saveScheme =
      .ok ⟨none, { s.state.uri with scheme := scheme_ }⟩ := by
    simp only [act, Uri.string, bind, Except.bind, pure, Except.pure, between_append]
  obtain ⟨names, ran, -⟩ := @saveField_eq scheme_ later s _ .marku .saveScheme 0 1 (.inl rfl)
    (by simp [new]) (by decide) (by simp [new]) saves
  exact ⟨names, ran⟩

/-- A path behind a place where at most the same mark is set. -/
theorem saveField_path (marked : .markh ∈ s.executed (path ++ later) →
      s.state.mark = some (path ++ later)) (new : .savePath ∉ s.executed (path ++ later)) :
    ∃ names, saveField (8, .markh) (9, .savePath) path later s =
      .ok ⟨⟨none, { s.state.uri with path := path }⟩, later.length, names⟩ := by
  have saves : act later ⟨some (path ++ later), s.state.uri⟩ .savePath =
      .ok ⟨none, { s.state.uri with path := path }⟩ := by
    simp only [act, Uri.string, bind, Except.bind, pure, Except.pure, between_append]
  obtain ⟨names, ran, -⟩ := @saveField_eq path later s _ .markh .savePath 8 9 (.inr rfl) marked
    (by decide) new saves
  exact ⟨names, ran⟩

/-- Where the mark was set and taken away, a path can not be saved. -/
theorem saveField_unmarked : saveField (8, .markh) (9, .savePath) path later
    (placed none uri (path ++ later) [.savePort, .markh]) = .error .logicError := by
  have entered : acts (path ++ later) (placed none uri (path ++ later) [.savePort, .markh])
      (8, .markh) = pure (placed none uri (path ++ later) [.savePort, .markh]) := by
    rw [acts, unrepeated, executed_here, if_pos (by decide)]
  have unsaved : Act.savePath ∉ [Act.savePort, Act.markh] := by decide
  rw [saveField, entered, pure_bind, acts, unrepeated, if_neg (not_executed unsaved later)]
  rfl

/-- What a component does that may be missing, behind its sign. -/
theorem saved_eq {set : Text → Uri → Uri} {sign : UInt8} {component : Option Text}
    (other : save ≠ .marku) (saves : ∀ text later uri,
      act later ⟨some (text ++ later), uri⟩ save = .ok ⟨none, set text uri⟩)
    (behind : (part sign component ++ later).length ≤ s.length) :
    ∃ last, saved (n, .marku) (m, save) component later s = .ok last ∧
      later.length ≤ last.length ∧
      last.state.uri = component.elim s.state.uri (set · s.state.uri) := by
  cases component with
  | none => exact ⟨s, rfl, behind, rfl⟩
  | some text =>
      have nothing : s.executed (text ++ later) = [] := executed_ahead behind
      obtain ⟨names, ran, -⟩ := @saveField_eq text later s _ .marku save n m (.inl rfl)
        (by simp [nothing]) other (by simp [nothing]) (saves text later s.state.uri)
      exact ⟨_, ran, Nat.le_refl _, rfl⟩

/-- What a query and a fragment do. -/
theorem saveTail_eq (behind : (part 63 query_ ++ (part 35 fragment_ ++ later)).length ≤ s.length) :
    ∃ last, saveTail n query_ fragment_ later s = .ok last ∧
      last.state.uri = { s.state.uri with query := query_.getD s.state.uri.query,
                                          fragment := fragment_.getD s.state.uri.fragment } := by
  obtain ⟨middle, first, further, uri⟩ :=
    @saved_eq (part 35 fragment_ ++ later) s .saveQuery n (n + 1)
      (fun text uri => { uri with query := text }) 63 query_ (by decide) (fun text later uri => by
        simp only [act, Uri.string, bind, Except.bind, pure, Except.pure, between_append]) behind
  obtain ⟨last, second, -, uri_⟩ :=
    @saved_eq later middle .saveFragment (n + 2) (n + 3)
      (fun text uri => { uri with fragment := text }) 35 fragment_ (by decide)
      (fun text later uri => by
        simp only [act, Uri.string, bind, Except.bind, pure, Except.pure, between_append]) further
  refine ⟨last, ?_, ?_⟩
  · rw [saveTail, first]
    exact second
  · rw [uri_, uri]
    cases query_ <;> cases fragment_ <;> rfl

/-! ### Hosts and ports -/

/-- At this place at most the mark of the authority is set. -/
def Fresh (s : State) (text : Text) : Prop :=
  ∀ name ∈ s.executed text, name = .markh ∧ s.state.mark = some text

/-- What is saved, in front of `later`, by an authority: the mark is at `later` if it was set
there, and no path was saved. -/
structure Reaches (later : Text) (uri : Uri) (s : State) : Prop where
  uri : s.state.uri = uri
  length : s.length = later.length
  marked : .markh ∈ s.done → s.state.mark = some later
  unsaved : .savePath ∉ s.done

/-- The host is saved, and its mark stays. -/
theorem saveField_host (fresh : Fresh s (host_ ++ later)) :
    ∃ names, saveField (4, .markh) (5, .saveHost) host_ later s =
      .ok (placed (some (host_ ++ later)) { s.state.uri with host := host_ } later names) ∧
        ∀ name ∈ names, name = .saveHost ∨ host_ = [] ∧ name = .markh := by
  have saves : act later ⟨some (host_ ++ later), s.state.uri⟩ .saveHost =
      .ok ⟨some (host_ ++ later), { s.state.uri with host := host_ }⟩ := by
    simp only [act, pure, Except.pure, between_append]
  have new : Act.saveHost ∉ s.executed (host_ ++ later) := fun member =>
    absurd (fresh _ member).1 (by decide)
  obtain ⟨names, ran, known⟩ := @saveField_eq host_ later s _ .markh .saveHost 4 5 (.inr rfl)
    (fun member => (fresh _ member).2) (by decide) new saves
  refine ⟨names, ran, fun name member => (known name member).imp_right ?_⟩
  rintro ⟨rfl, own | before⟩
  · exact ⟨rfl, own⟩
  · exact ⟨rfl, (fresh name before).1⟩

/-- The digits of a port behind its colon. -/
theorem saveField_port {mark : Option Text} {names : List Act} (fits : Fits port text)
    (some_ : text ≠ []) (small : numeral 10 text < 2 ^ 31) (behind : Behind later) :
    ∃ names_, saveField (6, .markh) (7, .savePort) text later
      (placed mark uri (58 :: (text ++ later)) names) =
        .ok (placed none { uri with port := readPort (some text) } later names_) ∧
        ∀ name ∈ names_, name = .savePort := by
  have longer : later ≠ text ++ later := fun same => some_ (List.self_eq_append_left.mp same)
  have saves : act later ⟨some (text ++ later), uri⟩ .savePort =
      .ok ⟨none, { uri with port := readPort (some text) }⟩ := by
    simp only [act, if_pos longer, atoi_port fits some_ small behind]
    rfl
  have nothing : (placed mark uri (58 :: (text ++ later)) names).executed (text ++ later) = [] :=
    executed_ahead (Nat.lt_succ_self _)
  obtain ⟨names_, ran, known⟩ := @saveField_eq text later
    (placed mark uri (58 :: (text ++ later)) names) _ .markh .savePort 6 7 (.inr rfl)
    (by rw [nothing]; exact (absurd · List.not_mem_nil)) (by decide)
    (by rw [nothing]; exact List.not_mem_nil) saves
  exact ⟨names_, ran, fun name member => (known name member).resolve_right fun both =>
    some_ both.1⟩

/-- A host and its port. -/
theorem saveHostPort_eq (fitsPort : ∀ p ∈ port_, Fits port p ∧ numeral 10 p < 2 ^ 31)
    (some_ : port_ ≠ some []) (behind : Behind later) (absent : s.state.uri.port = 0)
    (fresh : Fresh s (host_ ++ (part 58 port_ ++ later))) :
    ∃ last, saveHostPort host_ port_ later s = .ok last ∧
      Reaches later { s.state.uri with host := host_, port := readPort port_ } last := by
  obtain ⟨names, ran, known⟩ := saveField_host fresh
  rw [saveHostPort, ran]
  cases port_ with
  | none =>
      refine ⟨_, rfl, ?_, rfl, fun marked => ?_, fun saved_ => ?_⟩
      · have zero : readPort none = s.state.uri.port := absent.symm
        rw [zero]
      · rcases known _ marked with other | ⟨rfl, -⟩
        · cases other
        · rfl
      · rcases known _ saved_ with other | ⟨-, other⟩ <;> cases other
  | some p =>
      obtain ⟨fits, small⟩ := fitsPort _ rfl
      have digits : p ≠ [] := fun none_ => some_ (congrArg some none_)
      obtain ⟨last, ported, own⟩ := saveField_port fits digits small behind
      refine ⟨_, ported, rfl, rfl, fun marked => ?_, fun saved_ => ?_⟩
      · cases own _ marked
      · cases own _ saved_

/-- An empty port takes the mark away. -/
theorem saveHostPort_empty (fresh : Fresh s (host_ ++ (part 58 (some []) ++ later))) :
    ∃ uri, saveHostPort host_ (some []) later s =
      .ok (placed none uri later [.savePort, .markh]) := by
  obtain ⟨names, ran, -⟩ := saveField_host fresh
  generalize { s.state.uri with host := host_ } = uri at ran
  generalize some (host_ ++ (part 58 (some []) ++ later)) = mark at ran
  refine ⟨uri, ?_⟩
  have nothing : (placed mark uri (part 58 (some []) ++ later) names).executed later = [] :=
    executed_ahead (Nat.lt_succ_self _)
  have entered : acts later (placed mark uri (part 58 (some []) ++ later) names) (6, .markh) =
      .ok (placed (some later) uri later [.markh]) := by
    rw [acts_new (by rw [nothing]; exact List.not_mem_nil) rfl, nothing]
  have saves : act later ⟨some later, uri⟩ .savePort = .ok ⟨none, uri⟩ := by
    simp only [act, ne_eq, not_true, if_false]
    rfl
  have left_ : acts later (placed (some later) uri later [.markh]) (7, .savePort) =
      .ok (placed none uri later [.savePort, .markh]) := by
    rw [acts_new (by rw [executed_here]; decide) saves, executed_here]
  rw [saveHostPort, ran]
  change saveField (6, .markh) (7, .savePort) [] later _ = _
  rw [saveField, List.nil_append, entered]
  exact left_

/-- The mark of an authority. -/
theorem enter_authority (ahead : text.length < s.length) :
    acts text s (2, .markh) = .ok (placed (some text) s.state.uri text [.markh]) := by
  have nothing := executed_ahead ahead
  rw [acts_new (by rw [nothing]; exact List.not_mem_nil) rfl, nothing]

/-- A mark at this very place does not come in the way. -/
theorem fresh_here : Fresh (placed (some text) uri text [.markh]) text := by
  intro name member
  rw [executed_here] at member
  exact ⟨List.mem_singleton.mp member, rfl⟩

/-- What was executed further ahead does not come in the way. -/
theorem fresh_ahead (ahead : text.length < s.length) : Fresh s text := by
  intro name member
  rw [executed_ahead ahead] at member
  cases member

/-! ### Userinfo -/

/-- What is saved as a userinfo. -/
def readUser (userinfo : Text) : Text :=
  if digitFollows userinfo then (passwordOf userinfo).tail else userinfo

/-- A userinfo in front of a host, which is saved up to its first colon as a host. -/
theorem saveUser_eq (text later : Text) :
    ∃ host names, saveUser (userOf text) (passwordOf text) later
      (placed (some (text ++ 64 :: later)) uri (text ++ 64 :: later) [.markh]) =
        .ok (placed none { uri with userinfo := readUser text, host := host } (64 :: later)
          names) := by
  have whole : userOf text ++ passwordOf text = text := List.takeWhile_append_dropWhile
  have split : userOf text ++ (passwordOf text ++ 64 :: later) = text ++ 64 :: later := by
    rw [← List.append_assoc, whole]
  have skipped : acts (text ++ 64 :: later)
      (placed (some (text ++ 64 :: later)) uri (text ++ 64 :: later) [.markh]) (4, .markh) =
        pure (placed (some (text ++ 64 :: later)) uri (text ++ 64 :: later) [.markh]) := by
    rw [acts, unrepeated, executed_here, if_pos (by decide)]
  have saves (before : Text) (uri : Uri) :
      act (64 :: later) ⟨some (before ++ 64 :: later), uri⟩ .saveUserinfo =
        .ok ⟨none, { uri with userinfo := before }⟩ := by
    simp only [act, between_append]
    rfl
  have leave {s : State} {before : Text} {uri : Uri} (state : s.state =
      ⟨some (before ++ 64 :: later), uri⟩) (new : Act.saveUserinfo ∉ s.executed (64 :: later)) :
      ∃ names, acts (64 :: later) s (3, .saveUserinfo) =
        .ok (placed none { uri with userinfo := before } (64 :: later) names) :=
    ⟨_, acts_new new (by rw [state]; exact saves before uri) 3⟩
  rw [saveUser, split, skipped, ite_self, pure_bind]
  cases password : passwordOf text with
  | nil =>
      have single : digitFollows text = false := by
        rw [digitFollows, password]
        rfl
      obtain ⟨names, ran⟩ := @leave (placed (some (text ++ 64 :: later)) uri (text ++ 64 :: later)
        [.markh]) text uri rfl (not_executed (by simp) _)
      refine ⟨uri.host, names, ?_⟩
      rw [savePassword, ran, readUser, single, if_neg Bool.false_ne_true]
  | cons colon behind =>
      rw [password] at whole
      have host_ : act (colon :: behind ++ 64 :: later) ⟨some (text ++ 64 :: later), uri⟩
          .saveHost = .ok ⟨some (text ++ 64 :: later), { uri with host := userOf text }⟩ := by
        have split : text ++ 64 :: later = userOf text ++ (colon :: behind ++ 64 :: later) := by
          rw [← List.append_assoc, whole]
        simp only [act]
        conv_lhs => rw [split, between_append]
        rw [split]
        rfl
      have hosted := acts_new (s := placed (some (text ++ 64 :: later)) uri (text ++ 64 :: later)
        [.markh]) (not_executed (by simp) _) host_ 5
      have follows : digitFollows text = behind.head?.any isDigit := by
        rw [digitFollows, password]
        rfl
      refine ⟨userOf text, ?_⟩
      rw [savePassword, hosted, readUser, follows, password]
      generalize Act.saveHost :: _ = names
      change ∃ names_, ((if behind.head?.any isDigit then acts (behind ++ 64 :: later) (placed
        (some (text ++ 64 :: later)) { uri with host := userOf text } (colon :: behind ++ 64 :: later)
        names) (6, .markh) else pure (placed (some (text ++ 64 :: later))
        { uri with host := userOf text } (colon :: behind ++ 64 :: later) names)) >>= fun s =>
          acts (64 :: later) s (3, .saveUserinfo)) = _
      cases known : behind.head?.any isDigit with
      | true =>
          have some_ : behind ≠ [] := by
            rintro rfl
            cases known
          have positive := List.length_pos_iff.mpr some_
          have nothing : (placed (some (text ++ 64 :: later)) { uri with host := userOf text }
              (colon :: behind ++ 64 :: later) names).executed (behind ++ 64 :: later) = [] :=
            executed_ahead (Nat.lt_succ_self _)
          have entered : acts (behind ++ 64 :: later) (placed (some (text ++ 64 :: later))
              { uri with host := userOf text } (colon :: behind ++ 64 :: later) names) (6, .markh) =
                .ok (placed (some (behind ++ 64 :: later)) { uri with host := userOf text }
                  (behind ++ 64 :: later) [.markh]) := by
            rw [acts_new (by rw [nothing]; exact List.not_mem_nil) rfl, nothing]
          rw [if_pos rfl, if_pos rfl, entered]
          refine @leave (placed (some (behind ++ 64 :: later)) { uri with host := userOf text }
            (behind ++ 64 :: later) [.markh]) behind _ rfl ?_
          rw [executed_ahead (by simpa using positive)]
          exact List.not_mem_nil
      | false =>
          rw [if_neg Bool.false_ne_true, if_neg Bool.false_ne_true, pure_bind]
          refine @leave (placed (some (text ++ 64 :: later)) { uri with host := userOf text }
            (colon :: behind ++ 64 :: later) names) text _ rfl ?_
          have shorter : (64 :: later).length < (colon :: behind ++ 64 :: later).length := by
            simp only [List.cons_append, List.length_cons, List.length_append]
            omega
          rw [executed_ahead shorter]
          exact List.not_mem_nil

end Sylar.UriParser
