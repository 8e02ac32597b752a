import Sylar.Uri.Fields

/-!
# References without authority

Which of the alternatives of the machine do something with which references.
-/

namespace Sylar.UriParser

open Library Library.Ragel Library.Ragel.Machine
open Uri (Creation Fault Text Fits act create rootedPath relativePath part)

variable {text path scheme : Text} {effect : Text → State → Except Fault State}
  {query fragment : Option Text} {letter : UInt8} {n : Nat} {rest : Machine UInt8 (Nat × Act)}

/-! ### First letters -/

/-- An authority begins with a slash. -/
theorem begins_network (other : letter ≠ 47) : (networkAt n rest).begins letter = false := by
  simp [networkAt, slash, char, begins, Machine.final, other]

/-- A tail begins with one of its two signs. -/
theorem begins_query (other : letter ≠ 63 ∧ letter ≠ 35) : (queryAt n).begins letter = false := by
  rw [queryAt, begins, begins_part, begins_part]
  simp [other]

/-- An absolute path begins with a slash. -/
theorem begins_pathAbsolute (other : letter ≠ 47) :
    (pathAbsolute : Machine UInt8 (Nat × Act)).begins letter = false := by
  simp [pathAbsolute, slash, char, begins, Machine.final, other]

/-- Further segments begin with a slash. -/
theorem begins_segments (other : letter ≠ 47) :
    (segments : Machine UInt8 (Nat × Act)).begins letter = false := by
  simp [segments, slash, char, begins, Machine.final, other]

/-- A tail that is there begins with one of its two signs. -/
theorem head_tail (query fragment : Option Text) :
    ∀ letter ∈ (part 63 query ++ part 35 fragment).head?, letter = 63 ∨ letter = 35 := by
  rcases query with _ | query
  · rcases fragment with _ | fragment
    · rintro letter ⟨⟩
    · rintro letter ⟨⟩
      exact .inr rfl
  · rintro letter ⟨⟩
    exact .inl rfl

/-! ### Schemes -/

/-- A scheme has no sign of the other components, and it is not empty. -/
theorem scheme_letters (fits : Fits schemeText scheme) :
    (∀ letter ∈ scheme, letter ≠ 47 ∧ letter ≠ 63 ∧ letter ≠ 35 ∧ letter ≠ 58) ∧ scheme ≠ [] := by
  have apart {sign : UInt8} (known : sign ∈ [47, 63, 35, 58]) :=
    ne_of_accepts (show Machine.avoids [47, 63, 35, 58] schemeText = true from rfl) fits known
  constructor
  · intro letter inside
    exact ⟨apart (by simp) letter inside, apart (by simp) letter inside,
      apart (by simp) letter inside, apart (by simp) letter inside⟩
  · rintro rfl
    cases fits

/-- The relative references do nothing with a text that begins with a scheme. -/
theorem relative_quiet (fits : Fits schemeText scheme) (text : Text) :
    doings [relativeAt] (scheme ++ 58 :: text) = quiet ((scheme ++ 58 :: text).length + 1) := by
  obtain ⟨letters, some_⟩ := scheme_letters fits
  have first : ∀ letter ∈ (scheme ++ 58 :: text).head?,
      letter ≠ 47 ∧ letter ≠ 63 ∧ letter ≠ 35 := by
    obtain ⟨first, more, rfl⟩ := List.exists_cons_of_ne_nil some_
    rintro letter ⟨⟩
    obtain ⟨slash, question, number, _⟩ := letters first List.mem_cons_self
    exact ⟨slash, question, number⟩
  have noscheme : doings [cat pathNoscheme (queryAt 20)] (scheme ++ 58 :: text) =
      quiet ((scheme ++ 58 :: text).length + 1) := by
    obtain ⟨inner, innerTrace⟩ := @after_cat _ (Nat × Act) [segmentNzNc] segments scheme
      fun front letter back split _ => by
        rw [moves_eq_nil_iff]
        exact begins_segments (letters letter (by simp [split])).1
    obtain ⟨outer, outerTrace⟩ := @after_cat _ _ [pathNoscheme] (queryAt 20) scheme
      fun front letter back split _ => by
        obtain ⟨_, question, number, _⟩ := letters letter (by simp [split])
        rw [moves_eq_nil_iff]
        exact begins_query ⟨question, number⟩
    rw [List.map_singleton] at inner innerTrace outer outerTrace
    have colon_ : next (after [segmentNzNc] scheme) (58 : UInt8) = [] :=
      next_of_avoids (show Machine.avoids [58] (segmentNzNc : Machine UInt8 (Nat × Act)) = true
        from rfl) (by simp)
    have dead : next (after [cat pathNoscheme (queryAt 20)] scheme) 58 = [] := by
      have later := (@next_cat _ (Nat × Act) (after [segmentNzNc] scheme) segments 58
        fun _ => moves_eq_nil_iff.mpr (begins_segments (by decide))).1
      rw [colon_, List.map_nil] at later
      have last := (@next_cat _ (Nat × Act) (after [pathNoscheme] scheme) (queryAt 20) 58
        fun _ => moves_eq_nil_iff.mpr (begins_query (by decide))).1
      rw [outer, last, pathNoscheme, inner, later, List.map_nil]
    rw [doings_dead dead, outerTrace, pathNoscheme, innerTrace, trace_of_silent rfl, quiet, quiet,
      quiet, List.replicate_append_replicate, List.length_append]
    rfl
  obtain ⟨byte, more, same⟩ := List.exists_cons_of_ne_nil
    (show scheme ++ 58 :: text ≠ [] by simp)
  rw [same] at first noscheme ⊢
  obtain ⟨slash, question, number⟩ := first byte rfl
  have network : (cat (networkAt 14 pathAbempty) (queryAt 20)).begins byte = false := by
    rw [begins, begins_network slash]
    rfl
  have absolute : (cat pathAbsolute (queryAt 20)).begins byte = false := by
    rw [begins, begins_pathAbsolute slash]
    rfl
  have empty : (cat pathEmpty (queryAt 20)).begins byte = false := by
    rw [begins, begins_query ⟨question, number⟩]
    rfl
  rw [relativeAt, relativePath, doings_cat_alt, doings_cat_alt, doings_cat_alt, noscheme,
    doings_of_not_begins network, doings_of_not_begins absolute, doings_of_not_begins empty,
    quiet_union, quiet_union, quiet_union]

/-! ### Runs -/

/-- Nothing was executed yet. -/
def start (text : Text) : State := ⟨⟨none, Uri.new⟩, text.length + 1, []⟩

/-- `Create` runs the effect of the text on a new record. -/
theorem create_of_does (does : Does order acts main text effect) :
    create text = (fun s => some s.state.uri) <$> effect [] (start text) := by
  have ahead : text.length < (start text).length := Nat.lt_succ_self _
  have ran : run order act [main] text (start text).state = _ := run_of_does does ahead
  rw [create, embedded_main]
  change (run order act [main] text (start text).state >>= _) = _
  rw [ran]
  cases effect [] (start text) <;> rfl

/-- A text behind a scheme. -/
theorem main_does (fits : Fits schemeText scheme)
    (does : Does order acts (cat (alt (networkAt 2 (pathAt 8)) rootedPath) (queryAt 10)) text
      effect) :
    Does order acts main (scheme ++ 58 :: text) fun later s => (do
      let s ← saveField (0, .marku) (1, .saveScheme) scheme (58 :: text ++ later) s
      effect later s) := by
  have front := field_does (0, .marku) (1, .saveScheme) (by decide) (by decide) (by decide) rfl fits
  have behind := char_does 58 does
  have whole := front.append_apart behind (before_number 2 (by decide) (by decide))
    (show Machine.avoids [58] _ = true from rfl) (by simp [char, begins, Machine.final])
  rw [main_eq]
  exact whole.alt_left (relative_quiet fits text)

/-- A path without authority does not begin with two slashes. -/
theorem head_rootedPath (fits : Fits rootedPath path) (query fragment : Option Text) :
    (∀ letter ∈ (path ++ (part 63 query ++ part 35 fragment)).head?, letter ≠ 47) ∨
      ∃ behind, path ++ (part 63 query ++ part 35 fragment) = 47 :: behind ∧
        ∀ letter ∈ behind.head?, letter ≠ 47 := by
  have noSlash : ∀ letter ∈ (part 63 query ++ part 35 fragment).head?, letter ≠ 47 := by
    intro letter first
    rcases head_tail query fragment letter first with rfl | rfl <;> decide
  rw [Fits, rootedPath, accepts_alt, Bool.or_eq_true, accepts_alt, Bool.or_eq_true] at fits
  rcases fits with absolute | rootless | empty
  · obtain ⟨back, rfl, segments_⟩ := char_split absolute
    refine .inr ⟨back ++ (part 63 query ++ part 35 fragment), rfl, ?_⟩
    cases back with
    | nil => exact noSlash
    | cons first back =>
        rintro letter ⟨⟩ rfl
        exact absurd (begins_of_accepts segments_ 47 rfl) (by decide)
  · left
    cases path with
    | nil => exact absurd rootless (by decide)
    | cons first path =>
        rintro letter ⟨⟩ rfl
        exact absurd (begins_of_accepts rootless 47 rfl) (by decide)
  · obtain rfl := accepts_lambda.mp empty
    exact .inl noSlash

/-- Such a path does not begin an authority. -/
theorem network_quiet (fits : Fits rootedPath path) (query fragment : Option Text) :
    doings [cat (networkAt 2 (pathAt 8)) (queryAt 10)]
      (path ++ (part 63 query ++ part 35 fragment)) =
        quiet ((path ++ (part 63 query ++ part 35 fragment)).length + 1) := by
  rcases head_rootedPath fits query fragment with other | ⟨behind, same, other⟩
  · refine doings_of_head rfl fun letter first => ?_
    rw [begins, begins_network (other letter first)]
    rfl
  · have later : doings [cat (cat lambda (cat slash (cat (authorityAt 2) (pathAt 8)))) (queryAt 10)]
        behind = quiet (behind.length + 1) := by
      refine doings_of_head rfl fun letter first => ?_
      have another := other letter first
      simp [begins, slash, char, Machine.final, another]
    have onward : next [cat (networkAt 2 (pathAt 8)) (queryAt 10)] 47 =
        [cat (cat lambda (cat slash (cat (authorityAt 2) (pathAt 8)))) (queryAt 10)] := rfl
    have nothing : fired [cat (networkAt 2 (pathAt 8)) (queryAt 10)] 47 = [] := rfl
    rw [same, doings_cons, onward, nothing, later]
    simp [quiet, List.replicate_succ]

/-- A reference with a scheme and no authority: the scheme and the tail are saved, the path is not.
-/
theorem plain_does (fitsScheme : Fits schemeText scheme) (fits : Fits rootedPath path)
    (fitsQuery : ∀ text ∈ query, Fits queryText text)
    (fitsFragment : ∀ text ∈ fragment, Fits queryText text) :
    Does order acts main (scheme ++ 58 :: (path ++ (part 63 query ++ part 35 fragment)))
      fun later s => (do
        let s ← saveField (0, .marku) (1, .saveScheme) scheme
          (58 :: (path ++ (part 63 query ++ part 35 fragment)) ++ later) s
        saveTail 10 query fragment later s) := by
  have silent : Does order acts rootedPath path fun _ s => pure s := .silent rfl fits
  have joined := silent.append_apart (tail_does (.inl rfl) fitsQuery fitsFragment)
    (before_number 0 (by decide) (by simp)) (show Machine.avoids [63, 35] _ = true from rfl)
    fun letter begins => by
      by_contra other
      simp only [List.mem_cons, List.not_mem_nil, or_false, not_or] at other
      rw [begins_query other] at begins
      cases begins
  simp only [pure_bind] at joined
  exact main_does fitsScheme (joined.cat_alt_right (network_quiet fits query fragment))

/-- A relative reference without a path. -/
theorem relative_does (fitsQuery : ∀ text ∈ query, Fits queryText text)
    (fitsFragment : ∀ text ∈ fragment, Fits queryText text) :
    Does order acts main (part 63 query ++ part 35 fragment) (saveTail 20 query fragment) := by
  have tail := tail_does (.inr rfl) fitsQuery fitsFragment
  have quiet_ {machine : Machine UInt8 (Nat × Act)} (going : machine.final = false)
      (none_ : machine.begins 63 = false ∧ machine.begins 35 = false) :
      doings [machine] (part 63 query ++ part 35 fragment) =
        quiet ((part 63 query ++ part 35 fragment).length + 1) := by
    refine doings_of_head going fun letter first => ?_
    rcases head_tail query fragment letter first with rfl | rfl
    · exact none_.1
    · exact none_.2
  rw [main_eq]
  refine Does.alt_right ?_ (quiet_ rfl ⟨by decide, by decide⟩)
  refine Does.cat_alt_right ?_ (quiet_ rfl ⟨by decide, by decide⟩)
  refine Does.cat_alt_right ?_ (quiet_ rfl ⟨by decide, by decide⟩)
  refine Does.cat_alt_right ?_ (quiet_ rfl ⟨by decide, by decide⟩)
  exact tail.lambda_cat

/-! ### Relative references with a path -/

/-- The letters of a scheme. -/
def isSchemeLetter (byte : UInt8) : Bool :=
  isAlpha byte || isDigit byte || (Http.bytes "+-.").contains byte

/-- The first letter of a relative reference that is no letter of a scheme is no colon. -/
theorem relative_split (fits : Fits relativePath path) (query fragment : Option Text) :
    ∃ front behind, path ++ (part 63 query ++ part 35 fragment) = front ++ behind ∧
      (∀ letter ∈ front, letter ≠ 58) ∧
        ∀ letter ∈ behind.head?, letter ≠ 58 ∧ isSchemeLetter letter = false := by
  -- the first segment, and what is behind it
  obtain ⟨segment, other, same, noColon, ends⟩ : ∃ segment other,
      path ++ (part 63 query ++ part 35 fragment) = segment ++ other ∧ 58 ∉ segment ∧
        ∀ letter ∈ other.head?, letter = 47 ∨ letter = 63 ∨ letter = 35 := by
    have tail : ∀ letter ∈ (part 63 query ++ part 35 fragment).head?,
        letter = 47 ∨ letter = 63 ∨ letter = 35 := fun letter first =>
      .inr (head_tail query fragment letter first)
    rw [Fits, relativePath, accepts_alt, Bool.or_eq_true, accepts_alt, Bool.or_eq_true] at fits
    rcases fits with absolute | noscheme | empty
    · obtain ⟨back, rfl, _⟩ := char_split absolute
      refine ⟨[], _, rfl, List.not_mem_nil, ?_⟩
      rintro letter ⟨⟩
      exact .inl rfl
    · obtain ⟨segment, others, rfl, first, others_⟩ := accepts_cat.mp noscheme
      refine ⟨segment, others ++ (part 63 query ++ part 35 fragment), List.append_assoc .., ?_, ?_⟩
      · exact not_mem_of_accepts (show Machine.avoids [58] _ = true from rfl) first (by simp)
      · cases others with
        | nil => exact tail
        | cons letter others =>
            have slash_ : letter = 47 := by
              by_contra different
              have begun := begins_of_accepts others_ letter rfl
              rw [begins_segments different] at begun
              cases begun
            rintro letter ⟨⟩
            exact .inl slash_
    · obtain rfl := accepts_lambda.mp empty
      exact ⟨[], _, rfl, List.not_mem_nil, tail⟩
  refine ⟨segment.takeWhile isSchemeLetter, segment.dropWhile isSchemeLetter ++ other, ?_, ?_, ?_⟩
  · rw [same, ← List.append_assoc, List.takeWhile_append_dropWhile]
  · rintro letter member rfl
    exact noColon ((List.takeWhile_prefix _).subset member)
  · intro letter first
    cases behind : segment.dropWhile isSchemeLetter with
    | nil =>
        rw [behind] at first
        rcases ends letter first with rfl | rfl | rfl <;> exact ⟨by decide, by decide⟩
    | cons byte rest =>
        rw [behind] at first
        obtain rfl : byte = letter := by simpa using first
        constructor
        · rintro rfl
          have inside : 58 ∈ segment.dropWhile isSchemeLetter := behind ▸ List.mem_cons_self
          exact noColon ((List.dropWhile_suffix _).subset inside)
        · have stopped := List.head?_dropWhile_not isSchemeLetter segment
          rw [behind] at stopped
          simpa using stopped

/-- All that the references with a scheme do with such a text is to mark the beginning of a
scheme, which is not saved without a colon. -/
theorem absolute_scheme (fits : Fits relativePath path) (query fragment : Option Text) :
    ∀ actions ∈ doings [absoluteAt] (path ++ (part 63 query ++ part 35 fragment)),
      ∀ action ∈ actions, action = (0, .marku) := by
  obtain ⟨front, behind, same, noColon, stops⟩ := relative_split fits query fragment
  obtain ⟨read, readTrace⟩ := @after_cat _ _ [field (0, .marku) (1, .saveScheme) schemeText]
    (cat colon (cat (alt (networkAt 2 (pathAt 8)) rootedPath) (queryAt 10))) front
    fun before letter back split _ => by
      have different := noColon letter (by simp [split])
      rw [moves_eq_nil_iff]
      simp [begins, colon, char, Machine.final, different]
  rw [List.map_singleton] at read readTrace
  have own : ∀ actions ∈ trace [absoluteAt] front, ∀ action ∈ actions, action = (0, .marku) := by
    intro actions member action inside
    have unsaved := (@after_leaving _ _ [entering (0, Act.marku) schemeText] front
      (1, .saveScheme)).2
    rw [List.map_singleton] at unsaved
    rw [absoluteAt, readTrace, field, unsaved] at member
    have whole : actions ∈ doings [entering (0, .marku) schemeText] front :=
      List.mem_append_left _ member
    have embedded : action ∈ (entering (0, Act.marku) schemeText).embedded :=
      embedded_of_doings (fun machine there => by
        rw [List.mem_singleton.mp there]
        exact List.Subset.refl _) whole action inside
    simpa [schemeText, Machine.embedded] using embedded
  have onward : ∃ count,
      doings [absoluteAt] (front ++ behind) = trace [absoluteAt] front ++ quiet count := by
    cases behind with
    | nil =>
        refine ⟨1, ?_⟩
        have nothing : ends [absoluteAt] front = ∅ := by
          refine Set.eq_empty_of_forall_notMem fun action waiting => ?_
          rw [ends, absoluteAt, read] at waiting
          obtain ⟨machine, there, final, -⟩ := mem_left.mp waiting
          obtain ⟨inner, -, rfl⟩ := List.mem_map.mp there
          simp [Machine.final, colon, char] at final
        rw [List.append_nil, doings, nothing]
        rfl
    | cons letter behind =>
        obtain ⟨different, unknown⟩ := stops letter rfl
        have avoids : Machine.avoids [letter]
            (field (0, .marku) (1, .saveScheme) schemeText : Machine UInt8 (Nat × Act)) = true := by
          simp only [isSchemeLetter, Bool.or_eq_false_iff] at unknown
          simp only [field, schemeText, Machine.avoids, List.all_cons, List.all_nil, unknown,
            Bool.or_false, Bool.not_false, Bool.and_true]
        have dead : next (after [absoluteAt] front) letter = [] := by
          have later := (@next_cat _ _ (after [field (0, .marku) (1, .saveScheme) schemeText] front)
            (cat colon (cat (alt (networkAt 2 (pathAt 8)) rootedPath) (queryAt 10))) letter
            fun _ => by
              rw [moves_eq_nil_iff]
              simp [begins, colon, char, Machine.final, different]).1
          rw [absoluteAt, read, later, next_of_avoids avoids (by simp), List.map_nil]
        exact ⟨_, doings_dead dead⟩
  obtain ⟨count, onward⟩ := onward
  intro actions member action inside
  rw [same, onward] at member
  rcases List.mem_append.mp member with executed | quiet_
  · exact own actions executed action inside
  · rw [List.eq_of_mem_replicate quiet_] at inside
    cases inside

/-- The references with a scheme only mark the beginning of a relative reference. -/
theorem relative_actions (accepted : accepts [relativeAt] text = true) :
    ∀ actions ∈ doings [main] text, ∀ action ∈ actions,
      action ∈ (0, .marku) :: relativeAt.embedded := by
  have marked : ∀ actions ∈ doings [absoluteAt] text, ∀ action ∈ actions,
      action = (0, .marku) := by
    obtain ⟨front, back, rfl, pathRead, tailRead⟩ := accepts_cat.mp accepted
    rw [accepts_alt, Bool.or_eq_true] at pathRead
    rcases pathRead with network | path
    · obtain ⟨rest, rfl, _⟩ := char_split network
      have none_ : absoluteAt.begins 47 = false := rfl
      intro actions member action inside
      rw [List.cons_append, doings_of_not_begins none_] at member
      rw [List.eq_of_mem_replicate member] at inside
      cases inside
    · obtain ⟨query, fragment, rfl, _, _⟩ := tail_split tailRead
      exact absolute_scheme path query fragment
  intro actions member action inside
  rw [main_eq] at member
  rcases mem_doings_alt member inside with ⟨actions, own, there⟩ | ⟨actions, own, there⟩
  · rw [marked actions own action there]
    exact List.mem_cons_self
  · refine List.mem_cons_of_mem _ (embedded_of_doings (fun machine only => ?_) own action there)
    rw [List.mem_singleton.mp only]
    exact List.Subset.refl _

/-- What the actions of a relative reference keep is kept by `Uri::Create`. -/
theorem relative_keeps (kept : Uri → Prop) {uri : Uri} (accepted : accepts [relativeAt] text = true)
    (keeps : ∀ action ∈ (0, .marku) :: relativeAt.embedded, ∀ text s next,
      act text s action.2 = .ok next → kept s.uri → kept next.uri)
    (created : create text = .ok (some uri)) (before : kept Uri.new) : kept uri := by
  have whole : accepts [main] text = true := by
    rw [main_eq, accepts_alt, accepted, Bool.or_true]
  have ahead : text.length < (start text).length := Nat.lt_succ_self _
  have ran : run order act [main] text (start text).state = _ := run_of_accepts whole ahead
  rw [create, embedded_main] at created
  change (run order act [main] text (start text).state >>= _) = _ at created
  rw [ran] at created
  obtain ⟨ending, ran, same⟩ := bind_ok created
  obtain ⟨last, replayed, rfl⟩ := map_ok ran
  cases same
  refine replay_keeps (fun s => kept s.state.uri) ?_ replayed before
  intro actions member action inside text s next acted
  have known := relative_actions accepted actions member action inside
  rcases unrepeated_cases acted with rfl | executed
  · exact id
  · exact keeps action known text s.state next.state executed

/-- The scheme and the path are each set by one action. -/
theorem act_sets {action : Act} {s next : Creation} (acted : act text s action = .ok next) :
    (action ≠ .saveScheme → next.uri.scheme = s.uri.scheme) ∧
      (action ≠ .savePath → next.uri.path = s.uri.path) := by
  cases action with
  | marku | markh =>
      cases acted
      exact ⟨fun _ => rfl, fun _ => rfl⟩
  | saveScheme =>
      obtain ⟨v, _, same⟩ := bind_ok acted
      cases same
      exact ⟨fun other => absurd rfl other, fun _ => rfl⟩
  | savePath =>
      obtain ⟨v, _, same⟩ := bind_ok acted
      cases same
      exact ⟨fun _ => rfl, fun other => absurd rfl other⟩
  | saveQuery | saveFragment =>
      obtain ⟨v, _, same⟩ := bind_ok acted
      cases same
      exact ⟨fun _ => rfl, fun _ => rfl⟩
  | savePort =>
      simp only [act] at acted
      split at acted
      · cases acted
      · split at acted <;> cases acted <;> exact ⟨fun _ => rfl, fun _ => rfl⟩
  | saveUserinfo | saveHost =>
      simp only [act] at acted
      split at acted <;> cases acted <;> exact ⟨fun _ => rfl, fun _ => rfl⟩

/-- A path and a tail are a relative reference. -/
theorem relative_accepts (fits : Fits relativePath path)
    (fitsQuery : ∀ text ∈ query, Fits queryText text)
    (fitsFragment : ∀ text ∈ fragment, Fits queryText text) :
    accepts [relativeAt] (path ++ (part 63 query ++ part 35 fragment)) = true := by
  have tail := tail_does (.inr rfl) fitsQuery fitsFragment
  refine accepts_cat.mpr ⟨path, _, rfl, ?_, tail.accepts⟩
  rw [accepts_alt, Bool.or_eq_true]
  exact .inr fits

/-- The path of a relative reference is never saved. -/
theorem relative_unsaved (fits : Fits relativePath path)
    (fitsQuery : ∀ text ∈ query, Fits queryText text)
    (fitsFragment : ∀ text ∈ fragment, Fits queryText text) {uri : Uri}
    (created : create (path ++ (part 63 query ++ part 35 fragment)) = .ok (some uri)) :
    uri.path = [] := by
  have accepted := relative_accepts fits fitsQuery fitsFragment
  have others : ∀ action ∈ (0, .marku) :: relativeAt.embedded, action.2 ≠ .savePath := by decide
  refine relative_keeps (fun uri => uri.path = []) accepted ?_ created rfl
  intro action inside text s next acted before
  exact ((act_sets acted).2 (others action inside)).trans before

/-- The scheme of a relative reference is never saved. -/
theorem relative_schemeless {uri : Uri} (accepted : accepts [relativeAt] text = true)
    (created : create text = .ok (some uri)) : uri.scheme = [] := by
  have others : ∀ action ∈ (0, .marku) :: relativeAt.embedded, action.2 ≠ .saveScheme := by decide
  refine relative_keeps (fun uri => uri.scheme = []) accepted ?_ created rfl
  intro action inside text s next acted before
  exact ((act_sets acted).1 (others action inside)).trans before

/-- A reference with a scheme that is saved is no relative one. -/
theorem absolute_of_create {uri : Uri} (created : create text = .ok (some uri))
    (some_ : uri.scheme ≠ []) : accepts [absoluteAt] text = true := by
  obtain ⟨last, ran, same⟩ := bind_ok created
  obtain ⟨s, rfl, rfl⟩ := Option.map_eq_some_iff.mp (Except.ok.inj same)
  have accepted := accepts_of_run ran
  rw [main_eq, accepts_alt, Bool.or_eq_true] at accepted
  exact accepted.resolve_right fun relative => some_ (relative_schemeless relative created)

end Sylar.UriParser
