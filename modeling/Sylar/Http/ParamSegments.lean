import Mathlib.Data.List.DropRight
import Sylar.Http.Params

/-!
# Segments of parameters

`PARSE_PARAM` of `http.cpp` on two texts joined by a separator, for the query and for
the cookies. The scanner looks for the equals sign first, so that a last part
without one becomes the front of the next key.
-/

namespace Sylar.Http

open StringUtil

section Model

/-- The default `delimit` of `Trim`. -/
def isDelimit (c : UInt8) : Bool := (bytes " \t\r\n").contains c

/-- `Trim`. -/
def trim (str : List UInt8) : List UInt8 := (str.dropWhile isDelimit).rdropWhile isDelimit

/-- The loop of `PARSE_PARAM`, which `parseParam` is without a `trim`. -/
def parseParamWith (trim : List UInt8 → List UInt8) (flag : UInt8) :
    Nat → List UInt8 → MapType → MapType
  | 0, _, m => m
  | fuel + 1, str, m =>
      if 61 ∈ str then
        let key := str.takeWhile (· != 61)
        let behind := (str.dropWhile (· != 61)).tail
        let m := m.insertIfNew (trim key) (urlDecode true (behind.takeWhile (· != flag)))
        match behind.dropWhile (· != flag) with
        | [] => m
        | _ :: str => parseParamWith trim flag fuel str m
      else m

/-- A request with its cookies. -/
structure CookieRequest extends HttpRequest where
  cookies : MapType
  parserParamFlag : UInt8

/-- `initCookies`. -/
def CookieRequest.initCookies (request : CookieRequest) : CookieRequest :=
  if request.parserParamFlag &&& 4 ≠ 0 then request
  else
    let cookie := request.getHeader (bytes "cookie") []
    if cookie.isEmpty then { request with parserParamFlag := request.parserParamFlag ||| 4 }
    else
      { request with
        cookies := parseParamWith trim 59 cookie.length cookie request.cookies
        parserParamFlag := request.parserParamFlag ||| 4 }

end Model

variable {flag : UInt8} {str key value : List UInt8}

theorem parseParamWith_id (flag : UInt8) (fuel : Nat) (str : List UInt8) (m : MapType) :
    parseParamWith id flag fuel str m = parseParam flag fuel str m := by
  induction fuel generalizing str m with
  | zero => rfl
  | succ fuel inductionHypothesis =>
      unfold parseParamWith parseParam
      split
      · dsimp only
        cases (str.dropWhile (· != 61)).tail.dropWhile (· != flag) with
        | nil => rfl
        | cons _ rest => exact inductionHypothesis rest _
      · rfl

/-! ### The scanner, a byte at a time -/

/-- What has been scanned: the pairs behind which a separator was read, the key, and
the value when its equals sign has been read. -/
structure Scan where
  pairs : List (List UInt8 × List UInt8)
  key : List UInt8
  value : Option (List UInt8)

/-- A byte is added to the key or the value, or ends it. -/
def Scan.step (flag : UInt8) (scan : Scan) (c : UInt8) : Scan :=
  match scan.value with
  | none => if c = 61 then { scan with value := some [] } else { scan with key := scan.key ++ [c] }
  | some value =>
      if c = flag then ⟨scan.pairs ++ [(scan.key, value)], [], none⟩
      else { scan with value := some (value ++ [c]) }

/-- The pairs at the end of the text. -/
def Scan.finish (scan : Scan) : List (List UInt8 × List UInt8) :=
  match scan.value with
  | none => scan.pairs
  | some value => scan.pairs ++ [(scan.key, value)]

/-- The scan of a text. -/
def Scan.run (flag : UInt8) (scan : Scan) (str : List UInt8) : Scan := str.foldl (.step flag) scan

/-- The pairs of a text. -/
def segments (flag : UInt8) (str : List UInt8) : List (List UInt8 × List UInt8) :=
  ((⟨[], [], none⟩ : Scan).run flag str).finish

/-- What is behind the last pair of a text, without an equals sign. -/
def leftover (flag : UInt8) (str : List UInt8) : List UInt8 :=
  ((⟨[], [], none⟩ : Scan).run flag str).key

theorem Scan.run_append (scan : Scan) (first second : List UInt8) :
    scan.run flag (first ++ second) = (scan.run flag first).run flag second :=
  List.foldl_append

theorem Scan.run_cons (scan : Scan) (c : UInt8) (str : List UInt8) :
    scan.run flag (c :: str) = (scan.step flag c).run flag str := rfl

/-- A text without an equals sign is read as a part of the key. -/
theorem Scan.run_key (outside : 61 ∉ str) (pairs : List (List UInt8 × List UInt8))
    (key : List UInt8) :
    Scan.run flag ⟨pairs, key, none⟩ str = ⟨pairs, key ++ str, none⟩ := by
  induction str generalizing key with
  | nil => rw [List.append_nil]; rfl
  | cons c str inductionHypothesis =>
      rw [List.mem_cons, not_or] at outside
      have step : Scan.step flag ⟨pairs, key, none⟩ c = ⟨pairs, key ++ [c], none⟩ :=
        if_neg (Ne.symm outside.1)
      rw [Scan.run_cons, step, inductionHypothesis outside.2, List.append_cons key c str]

/-- A text without a separator is read as a part of the value. -/
theorem Scan.run_value (outside : flag ∉ str) (pairs : List (List UInt8 × List UInt8))
    (key value : List UInt8) :
    Scan.run flag ⟨pairs, key, some value⟩ str = ⟨pairs, key, some (value ++ str)⟩ := by
  induction str generalizing value with
  | nil => rw [List.append_nil]; rfl
  | cons c str inductionHypothesis =>
      rw [List.mem_cons, not_or] at outside
      have step : Scan.step flag ⟨pairs, key, some value⟩ c = ⟨pairs, key, some (value ++ [c])⟩ :=
        if_neg (Ne.symm outside.1)
      rw [Scan.run_cons, step, inductionHypothesis outside.2, List.append_cons value c str]

/-- The pairs that are finished stay in front. -/
theorem Scan.run_pairs (pairs : List (List UInt8 × List UInt8)) (key : List UInt8)
    (value : Option (List UInt8)) (str : List UInt8) :
    Scan.run flag ⟨pairs, key, value⟩ str =
      { Scan.run flag ⟨[], key, value⟩ str with
        pairs := pairs ++ (Scan.run flag ⟨[], key, value⟩ str).pairs } := by
  have kept : ∀ (more : List (List UInt8 × List UInt8)) (scan : Scan),
      ({ scan with pairs := more ++ scan.pairs } : Scan).run flag str =
        { scan.run flag str with pairs := more ++ (scan.run flag str).pairs } := by
    intro more
    induction str with
    | nil => intro scan; rfl
    | cons c str inductionHypothesis =>
        intro scan
        have step : Scan.step flag { scan with pairs := more ++ scan.pairs } c =
            { scan.step flag c with pairs := more ++ (scan.step flag c).pairs } := by
          rcases scan with ⟨pairs, key, _ | value⟩
          · simp only [Scan.step]
            split <;> rfl
          · simp only [Scan.step]
            split
            · rw [List.append_assoc]
            · rfl
        rw [Scan.run_cons, step, inductionHypothesis, Scan.run_cons]
  simpa using kept pairs ⟨[], key, value⟩

theorem Scan.finish_run (pairs : List (List UInt8 × List UInt8)) (key : List UInt8)
    (value : Option (List UInt8)) (str : List UInt8) :
    (Scan.run flag ⟨pairs, key, value⟩ str).finish =
      pairs ++ (Scan.run flag ⟨[], key, value⟩ str).finish := by
  rw [Scan.run_pairs]
  cases last : (Scan.run flag ⟨[], key, value⟩ str).value with
  | none => simp only [Scan.finish, last]
  | some read => simp only [Scan.finish, last, List.append_assoc]

/-! ### The pairs of a text, segment by segment -/

theorem segments_none (outside : 61 ∉ str) : segments flag str = [] := by
  rw [segments, Scan.run_key outside]
  rfl

/-- The front of a text up to its first equals sign, from a key that has been begun. -/
theorem Scan.run_equals (keyPlain : 61 ∉ key) (begun behind : List UInt8) :
    Scan.run flag ⟨[], begun, none⟩ (key ++ 61 :: behind) =
      Scan.run flag ⟨[], begun ++ key, some []⟩ behind := by
  rw [Scan.run_append, Scan.run_key keyPlain, Scan.run_cons]
  rfl

/-- A separator behind the equals sign ends the pair. -/
theorem Scan.run_separator (valuePlain : flag ∉ value) (key rest : List UInt8) :
    Scan.run flag ⟨[], key, some []⟩ (value ++ flag :: rest) =
      Scan.run flag ⟨[(key, value)], [], none⟩ rest := by
  have step : Scan.step flag ⟨[], key, some value⟩ flag = ⟨[(key, value)], [], none⟩ := if_pos rfl
  rw [Scan.run_append, Scan.run_value valuePlain, Scan.run_cons, List.nil_append, step]

/-- The scanner from a key that has been begun finds the pairs of the text, with
their first key behind what has been begun. -/
theorem finish_run_begun (begun str : List UInt8) :
    (Scan.run flag ⟨[], begun, none⟩ str).finish =
      match segments flag str with
      | [] => []
      | pair :: pairs => (begun ++ pair.1, pair.2) :: pairs := by
  by_cases equals : 61 ∈ str
  · obtain ⟨key, behind, rfl, keyPlain⟩ := List.eq_append_cons_of_mem equals
    rw [segments, Scan.run_equals keyPlain, Scan.run_equals keyPlain, List.nil_append]
    by_cases ends : flag ∈ behind
    · obtain ⟨value, rest, rfl, valuePlain⟩ := List.eq_append_cons_of_mem ends
      rw [Scan.run_separator valuePlain, Scan.run_separator valuePlain, Scan.finish_run,
        Scan.finish_run [(key, value)]]
      rfl
    · rw [Scan.run_value ends, Scan.run_value ends]
      rfl
  · rw [segments_none equals, Scan.run_key equals]
    rfl

theorem segments_last (keyPlain : 61 ∉ key) (valuePlain : flag ∉ value) :
    segments flag (key ++ 61 :: value) = [(key, value)] := by
  rw [segments, Scan.run_equals keyPlain, Scan.run_value valuePlain]
  rfl

theorem segments_part (keyPlain : 61 ∉ key) (valuePlain : flag ∉ value) (rest : List UInt8) :
    segments flag (key ++ 61 :: (value ++ flag :: rest)) =
      (key, value) :: segments flag rest := by
  rw [segments, Scan.run_equals keyPlain, Scan.run_separator valuePlain, Scan.finish_run]
  rfl

/-- The last equals sign of the text has no separator behind it. -/
def Closed (flag : UInt8) (str : List UInt8) : Prop :=
  ∃ before behind, str = before ++ 61 :: behind ∧ flag ∉ behind

theorem Scan.run_concat (scan : Scan) (str : List UInt8) (c : UInt8) :
    scan.run flag (str ++ [c]) = (scan.run flag str).step flag c := by
  rw [Scan.run_append]
  rfl

theorem closed_of_value
    (reads : (Scan.run flag ⟨[], [], none⟩ str).value = some value) :
    flag ∉ value ∧ ∃ before, str = before ++ 61 :: value := by
  induction str using List.reverseRecOn generalizing value with
  | nil => cases reads
  | append_singleton str c inductionHypothesis =>
      rw [Scan.run_concat, Scan.step] at reads
      cases previous : (Scan.run flag ⟨[], [], none⟩ str).value with
      | none =>
          rw [previous] at reads
          dsimp only at reads
          split at reads
          · next equals =>
              obtain rfl := Option.some.inj reads
              exact ⟨List.not_mem_nil, str, by rw [equals]⟩
          · cases reads
      | some read =>
          simp only [previous] at reads
          split at reads
          · cases reads
          · next other =>
              obtain rfl := Option.some.inj reads
              obtain ⟨outside, before, rfl⟩ := inductionHypothesis previous
              refine ⟨?_, before, by simp⟩
              simp only [List.mem_append, List.mem_singleton, not_or]
              exact ⟨outside, Ne.symm other⟩

theorem value_of_closed (separates : flag ≠ 61) (closed : Closed flag str) :
    (Scan.run flag ⟨[], [], none⟩ str).value.isSome := by
  obtain ⟨before, behind, rfl, outside⟩ := closed
  rw [Scan.run_append, Scan.run_cons]
  rcases Scan.run flag ⟨[], [], none⟩ before with ⟨pairs, key, _ | value⟩
  · have step : Scan.step flag ⟨pairs, key, none⟩ 61 = ⟨pairs, key, some []⟩ := rfl
    rw [step, Scan.run_value outside]
    rfl
  · have step : Scan.step flag ⟨pairs, key, some value⟩ 61 = ⟨pairs, key, some (value ++ [61])⟩ :=
      if_neg (Ne.symm separates)
    rw [step, Scan.run_value outside]
    rfl

theorem segments_append_closed (separates : flag ≠ 61) {first : List UInt8}
    (closed : Closed flag first) (second : List UInt8) :
    segments flag (first ++ flag :: second) = segments flag first ++ segments flag second := by
  obtain ⟨value, reads⟩ := Option.isSome_iff_exists.1 (value_of_closed separates closed)
  have step : (Scan.run flag ⟨[], [], none⟩ first).step flag flag =
      ⟨segments flag first, [], none⟩ := by
    simp only [Scan.step, segments, Scan.finish, reads, if_true]
  rw [segments, Scan.run_append, Scan.run_cons, step, Scan.finish_run]
  rfl

/-- A last part without an equals sign is put in front of the next key. -/
theorem segments_append_open (separates : flag ≠ 61) {first : List UInt8}
    (open_ : ¬Closed flag first) (second : List UInt8) :
    segments flag (first ++ flag :: second) = segments flag first ++
      match segments flag second with
      | [] => []
      | pair :: pairs => (leftover flag first ++ flag :: pair.1, pair.2) :: pairs := by
  have reads : (Scan.run flag ⟨[], [], none⟩ first).value = none := by
    cases reads : (Scan.run flag ⟨[], [], none⟩ first).value with
    | none => rfl
    | some value =>
        obtain ⟨outside, before, same⟩ := closed_of_value reads
        exact absurd ⟨before, value, same, outside⟩ open_
  have step : (Scan.run flag ⟨[], [], none⟩ first).step flag flag =
      ⟨segments flag first, leftover flag first ++ [flag], none⟩ := by
    simp only [Scan.step, segments, leftover, Scan.finish, reads, if_neg separates]
  rw [segments, Scan.run_append, Scan.run_cons, step, Scan.finish_run, finish_run_begun]
  cases segments flag second with
  | nil => rfl
  | cons pair pairs => simp only [List.append_assoc, List.singleton_append]

/-- What is stored for a pair. -/
def parameter (trim : List UInt8 → List UInt8) (pair : List UInt8 × List UInt8) :
    List UInt8 × List UInt8 := (trim pair.1, urlDecode true pair.2)

/-- The loop stores the pairs in their order. -/
theorem parseParamWith_eq (trim : List UInt8 → List UInt8) {fuel : Nat}
    (enough : str.length ≤ fuel) (m : MapType) :
    parseParamWith trim flag fuel str m =
      ((segments flag str).map (parameter trim)).foldl insertStored m := by
  induction fuel generalizing str m with
  | zero =>
      obtain rfl := List.length_eq_zero_iff.1 (Nat.le_zero.1 enough)
      rfl
  | succ fuel inductionHypothesis =>
      by_cases equals : 61 ∈ str
      · obtain ⟨key, behind, rfl, keyPlain⟩ := List.eq_append_cons_of_mem equals
        obtain ⟨front, back⟩ := takeWhile_behind keyPlain behind
        rw [parseParamWith, if_pos equals, front, back, List.tail_cons]
        by_cases ends : flag ∈ behind
        · obtain ⟨value, rest, rfl, valuePlain⟩ := List.eq_append_cons_of_mem ends
          obtain ⟨text, others⟩ := takeWhile_behind valuePlain rest
          simp only [text, others]
          rw [segments_part keyPlain valuePlain, inductionHypothesis]
          · rfl
          · simp only [List.length_append, List.length_cons] at enough
            omega
        · obtain ⟨text, others⟩ := takeWhile_whole ends
          simp only [text, others]
          rw [segments_last keyPlain ends]
          rfl
      · rw [parseParamWith, if_neg equals, segments_none equals]
        rfl

/-! ### One key or another -/

section Maps

variable {m : MapType} {k l v : List UInt8} {after : List (List UInt8 × List UInt8)}

theorem find?_congr {p q : List UInt8} (same : strcasecmp p q = .eq)
    (entries : List (List UInt8 × List UInt8)) :
    entries.find? (strcasecmp ·.1 p == .eq) = entries.find? (strcasecmp ·.1 q == .eq) := by
  have folded := strcasecmp_eq_iff.1 same
  congr 1
  funext entry
  rw [Bool.eq_iff_iff, beq_iff_eq, beq_iff_eq, strcasecmp_eq_iff, strcasecmp_eq_iff, folded]

/-- An entry that need not be stored: its key is there, or the same entry comes first
among those stored after it. -/
def Superfluous (m : MapType) (after : List (List UInt8 × List UInt8))
    (entry : List UInt8 × List UInt8) : Prop :=
  entry.1 ∈ m ∨ after.find? (strcasecmp ·.1 entry.1 == .eq) = some entry

/-- A superfluous entry is what is found under its key. -/
theorem find?_of_superfluous (superfluous : Superfluous m after (k, v)) (absent : k ∉ m)
    {key : List UInt8} (same : strcasecmp k key = .eq) :
    after.find? (strcasecmp ·.1 key == .eq) = some (k, v) := by
  rw [← find?_congr same]
  exact superfluous.resolve_left absent

theorem foldl_cons_lookup (m : MapType) (k v : List UInt8)
    (after : List (List UInt8 × List UInt8)) (key : List UInt8) :
    (((k, v) :: after).foldl insertStored m).getKey? key =
        (m.getKey? key).or ((if strcasecmp k key = .eq then some (k, v)
          else after.find? (strcasecmp ·.1 key == .eq)).map Prod.fst) ∧
      (((k, v) :: after).foldl insertStored m)[key]? =
        m[key]?.or ((if strcasecmp k key = .eq then some (k, v)
          else after.find? (strcasecmp ·.1 key == .eq)).map Prod.snd) := by
  have lookups := foldl_insertStored ((k, v) :: after) m key
  rw [List.find?_cons] at lookups
  by_cases same : strcasecmp k key = .eq
  · rw [if_pos same]
    rwa [same] at lookups
  · have differs : (strcasecmp k key == .eq) = false := beq_false_of_ne same
    rw [if_neg same]
    rwa [differs] at lookups

theorem map_ext {first second : MapType} (keys : ∀ key, first.getKey? key = second.getKey? key)
    (values : ∀ key : List UInt8, first[key]? = second[key]?) : first = second := by
  apply Std.ExtTreeMap.ext_getKey_getElem?
  · intro key inFirst inSecond
    have found := keys key
    rw [Std.ExtTreeMap.getKey?_eq_some_getKey inFirst,
      Std.ExtTreeMap.getKey?_eq_some_getKey inSecond] at found
    exact Option.some.inj found
  · exact values

theorem superfluous_of_eq (other : k ≠ l)
    (same : ((k, v) :: after).foldl insertStored m = ((l, v) :: after).foldl insertStored m) :
    Superfluous m after (k, v) := by
  by_cases present : k ∈ m
  · exact .inl present
  · obtain ⟨keys, values⟩ := foldl_cons_lookup m k v after k
    obtain ⟨otherKeys, otherValues⟩ := foldl_cons_lookup m l v after k
    rw [same, otherKeys, Std.ExtTreeMap.getKey?_eq_none present, Option.none_or, Option.none_or,
      if_pos (strcasecmp_eq_iff.2 rfl)] at keys
    rw [same, otherValues, Std.ExtTreeMap.getElem?_eq_none present, Option.none_or, Option.none_or,
      if_pos (strcasecmp_eq_iff.2 rfl)] at values
    by_cases equal : strcasecmp l k = .eq
    · rw [if_pos equal] at keys
      exact absurd (Option.some.inj keys).symm other
    · rw [if_neg equal] at keys values
      obtain ⟨entry, found, isKey⟩ := Option.map_eq_some_iff.1 keys
      rw [found] at values
      have isValue := Option.some.inj values
      exact .inr (found.trans (congrArg some (Prod.ext isKey isValue)))

/-- Of two entries with one value, either may be stored only where neither need be. -/
theorem foldl_insertStored_eq_iff (other : k ≠ l) :
    ((k, v) :: after).foldl insertStored m = ((l, v) :: after).foldl insertStored m ↔
      Superfluous m after (k, v) ∧ Superfluous m after (l, v) := by
  constructor
  · intro same
    exact ⟨superfluous_of_eq other same, superfluous_of_eq other.symm same.symm⟩
  · rintro ⟨first, second⟩
    have found : ∀ key, key ∉ m →
        (if strcasecmp k key = .eq then some (k, v)
          else after.find? (strcasecmp ·.1 key == .eq)) =
        (if strcasecmp l key = .eq then some (l, v)
          else after.find? (strcasecmp ·.1 key == .eq)) := by
      intro key absent
      have absent_of {k : List UInt8} (same : strcasecmp k key = .eq) : k ∉ m :=
        fun present => absent ((Std.ExtTreeMap.mem_congr same).1 present)
      by_cases isFirst : strcasecmp k key = .eq <;> by_cases isSecond : strcasecmp l key = .eq
      · have both := (find?_of_superfluous first (absent_of isFirst) isFirst).symm.trans
          (find?_of_superfluous second (absent_of isSecond) isSecond)
        exact absurd (congrArg Prod.fst (Option.some.inj both)) other
      · rw [if_pos isFirst, if_neg isSecond,
          find?_of_superfluous first (absent_of isFirst) isFirst]
      · rw [if_neg isFirst, if_pos isSecond,
          find?_of_superfluous second (absent_of isSecond) isSecond]
      · rw [if_neg isFirst, if_neg isSecond]
    apply map_ext
    · intro key
      rw [(foldl_cons_lookup m k v after key).1, (foldl_cons_lookup m l v after key).1]
      by_cases present : key ∈ m
      · rw [Std.ExtTreeMap.getKey?_eq_some_getKey present, Option.some_or, Option.some_or]
      · rw [found key present]
    · intro key
      rw [(foldl_cons_lookup m k v after key).2, (foldl_cons_lookup m l v after key).2]
      by_cases present : key ∈ m
      · rw [Std.ExtTreeMap.getElem?_eq_some_getElem present, Option.some_or, Option.some_or]
      · rw [found key present]

/-- What is in the map behind some entries. -/
theorem mem_foldl_insertStored (entries : List (List UInt8 × List UInt8)) (key : List UInt8) :
    key ∈ entries.foldl insertStored m ↔
      key ∈ m ∨ ∃ entry ∈ entries, strcasecmp entry.1 key = .eq := by
  rw [Std.ExtTreeMap.mem_iff_isSome_getKey?, (foldl_insertStored entries m key).1,
    Option.isSome_or, Bool.or_eq_true, Option.isSome_map, List.find?_isSome,
    ← Std.ExtTreeMap.mem_iff_isSome_getKey?]
  simp only [beq_iff_eq]

end Maps

/-! ### The keys that are stored -/

theorem length_rdropWhile_le_append (p : UInt8 → Bool) (front str : List UInt8) :
    (str.rdropWhile p).length ≤ ((front ++ str).rdropWhile p).length := by
  simp only [List.rdropWhile, List.reverse_append, List.length_reverse, List.dropWhile_append]
  split
  · next empty =>
      rw [List.isEmpty_iff.1 empty]
      exact Nat.zero_le _
  · rw [List.length_append]
    exact Nat.le_add_right _ _

/-- A key behind a separator is longer than the key alone, trimmed or not. -/
theorem length_trim_lt (begun key : List UInt8) :
    (trim key).length < (trim (begun ++ 59 :: key)).length := by
  have separator : isDelimit 59 = false := by decide
  have front : ∃ kept, (begun ++ 59 :: key).dropWhile isDelimit = kept ++ 59 :: key := by
    rw [List.dropWhile_append]
    split
    · exact ⟨[], List.dropWhile_cons_of_neg (by rw [separator]; decide)⟩
    · exact ⟨begun.dropWhile isDelimit, rfl⟩
  obtain ⟨kept, front⟩ := front
  have back : (kept ++ 59 :: key).rdropWhile isDelimit =
      kept ++ 59 :: key.rdropWhile isDelimit := by
    simp only [List.rdropWhile, List.reverse_append, List.reverse_cons, List.append_assoc,
      List.dropWhile_append]
    split
    · next empty => simp [List.isEmpty_iff.1 empty, separator]
    · simp
  have shorter : (trim key).length ≤ (key.rdropWhile isDelimit).length := by
    obtain ⟨dropped, whole⟩ := List.dropWhile_suffix (l := key) isDelimit
    have longer := length_rdropWhile_le_append isDelimit dropped (key.dropWhile isDelimit)
    rwa [whole] at longer
  rw [trim.eq_def (begun ++ 59 :: key), front, back]
  simp only [List.length_append, List.length_cons]
  omega

/-! ### Two texts, one behind the other -/

/-- An entry that need not be stored between those of two texts. -/
def Spared (m : MapType) (before after : List (List UInt8 × List UInt8))
    (entry : List UInt8 × List UInt8) : Prop :=
  (entry.1 ∈ m ∨ ∃ earlier ∈ before, strcasecmp earlier.1 entry.1 = .eq) ∨
    after.find? (strcasecmp ·.1 entry.1 == .eq) = some entry

/-- Where the second text is not disturbed: the last equals sign of the first has no
separator behind it, or the second has no pair, or its first pair changes nothing
with its own key and none with the leftover of the first in front. -/
def Undisturbed (trim : List UInt8 → List UInt8) (flag : UInt8) (m : MapType)
    (first second : List UInt8) : Prop :=
  Closed flag first ∨ ∀ pair pairs, segments flag second = pair :: pairs →
    Spared m ((segments flag first).map (parameter trim)) (pairs.map (parameter trim))
        (parameter trim pair) ∧
      Spared m ((segments flag first).map (parameter trim)) (pairs.map (parameter trim))
        (parameter trim (leftover flag first ++ flag :: pair.1, pair.2))

theorem superfluous_foldl_iff {m : MapType} {before after : List (List UInt8 × List UInt8)}
    {entry : List UInt8 × List UInt8} :
    Superfluous (before.foldl insertStored m) after entry ↔ Spared m before after entry := by
  rw [Superfluous, Spared, mem_foldl_insertStored]

theorem parseParamWith_append_iff {trim : List UInt8 → List UInt8} (separates : flag ≠ 61)
    (apart : ∀ begun key, trim key ≠ trim (begun ++ flag :: key)) (m : MapType)
    (first second : List UInt8) :
    parseParamWith trim flag (first ++ flag :: second).length (first ++ flag :: second) m =
        parseParamWith trim flag second.length second
          (parseParamWith trim flag first.length first m) ↔
      Undisturbed trim flag m first second := by
  simp only [parseParamWith_eq trim (Nat.le_refl _)]
  by_cases closed : Closed flag first
  · rw [segments_append_closed separates closed, List.map_append, List.foldl_append]
    exact iff_of_true rfl (.inl closed)
  · rw [segments_append_open separates closed, List.map_append, List.foldl_append, Undisturbed,
      or_iff_right closed]
    cases segments flag second with
    | nil => exact iff_of_true rfl fun _ _ none_ => by cases none_
    | cons pair pairs =>
        rw [List.map_cons, List.map_cons, eq_comm, parameter, parameter,
          foldl_insertStored_eq_iff (apart _ _), superfluous_foldl_iff, superfluous_foldl_iff]
        constructor
        · intro spared _ _ same
          cases same
          exact spared
        · intro spared
          exact spared pair pairs rfl

/-- The parameters behind `initQueryParam`, for a request that had `m`. -/
def queryParams (request : HttpRequest) (m : MapType) (query : List UInt8) : MapType :=
  (⟨request.setQuery query, m, 0⟩ : ParamRequest).initQueryParam.params

/-- The cookies behind `initCookies`, for a request that had `m`. -/
def cookieParams (request : HttpRequest) (m : MapType) (cookie : List UInt8) : MapType :=
  (⟨request.setHeader (bytes "cookie") cookie, m, 0⟩ : CookieRequest).initCookies.cookies

theorem queryParams_eq (request : HttpRequest) (m : MapType) (query : List UInt8) :
    queryParams request m query = parseParamWith id 38 query.length query m := by
  have unread : ¬(0 : UInt8) &&& 1 ≠ 0 := by decide
  rw [parseParamWith_id, queryParams, ParamRequest.initQueryParam, if_neg unread]
  rfl

theorem getHeader_setHeader (request : HttpRequest) (key val def_ : List UInt8) :
    (request.setHeader key val).getHeader key def_ = val := by
  have same : strcasecmp (request.headers.getKeyD key key) key = .eq := by
    by_cases present : key ∈ request.headers
    · rw [← Std.ExtTreeMap.getKey_eq_getKeyD (h := present)]
      exact Std.ExtTreeMap.compare_getKey_self present
    · rw [Std.ExtTreeMap.getKeyD_eq_fallback present]
      exact strcasecmp_eq_iff.2 rfl
  rw [HttpRequest.setHeader, HttpRequest.getHeader, Std.ExtTreeMap.getD_insert, if_pos same]

theorem cookieParams_eq (request : HttpRequest) (m : MapType) (cookie : List UInt8) :
    cookieParams request m cookie = parseParamWith trim 59 cookie.length cookie m := by
  have unread : ¬(0 : UInt8) &&& 4 ≠ 0 := by decide
  rw [cookieParams, CookieRequest.initCookies, if_neg unread]
  simp only [getHeader_setHeader]
  cases cookie <;> rfl

/-- Where the parameters of two texts are those of the one and then of the other. -/
theorem params_append_iff (request : HttpRequest) (m : MapType) (first second : List UInt8) :
    (queryParams request m (first ++ 38 :: second) =
        queryParams request (queryParams request m first) second ↔
      Undisturbed id 38 m first second) ∧
    (cookieParams request m (first ++ 59 :: second) =
        cookieParams request (cookieParams request m first) second ↔
      Undisturbed trim 59 m first second) := by
  simp only [queryParams_eq, cookieParams_eq]
  constructor
  · apply parseParamWith_append_iff (by decide)
    intro begun key same
    have longer := congrArg List.length same
    simp only [id, List.length_append, List.length_cons] at longer
    omega
  · apply parseParamWith_append_iff (by decide)
    intro begun key same
    exact absurd (congrArg List.length same) (length_trim_lt begun key).ne

/-- `a&b=1`: the key that is stored is `a&b`. -/
theorem flag_without_value :
    ¬∀ (request : HttpRequest) (m : MapType) (first second : List UInt8),
      queryParams request m (first ++ 38 :: second) =
          queryParams request (queryParams request m first) second ∧
        cookieParams request m (first ++ 59 :: second) =
          cookieParams request (cookieParams request m first) second := by
  intro independent
  have query := (independent .new ∅ (bytes "a") (bytes "b=1")).1
  have stored_b : bytes "b" ∈ (∅ : MapType).insertIfNew (bytes "b") (bytes "1") :=
    Std.ExtTreeMap.mem_insertIfNew_self
  have joined : queryParams .new ∅ (bytes "a" ++ 38 :: bytes "b=1") =
      (∅ : MapType).insertIfNew (bytes "a&b") (bytes "1") := by
    rw [queryParams_eq, parseParamWith_eq id (Nat.le_refl _)]
    rfl
  have apart : queryParams .new (queryParams .new ∅ (bytes "a")) (bytes "b=1") =
      (∅ : MapType).insertIfNew (bytes "b") (bytes "1") := by
    simp only [queryParams_eq, parseParamWith_eq id (Nat.le_refl _)]
    rfl
  rw [joined, apart] at query
  rw [← query, Std.ExtTreeMap.mem_insertIfNew] at stored_b
  rcases stored_b with same | inside
  · exact absurd same (by decide)
  · exact Std.ExtTreeMap.not_mem_empty inside

end Sylar.Http
