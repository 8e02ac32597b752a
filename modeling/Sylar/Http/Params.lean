import Mathlib.Data.List.Infix
import Sylar.Http.RoundTrip
import Sylar.Http.UrlEncode

/-!
# Parameters of a request

`HttpRequest::getParam` of `http.cpp` against the forms that a client writes. The values are
read as they were written, but a key is taken as it stands in the text, and a body is looked
at only when its type has a blank in front of it.
-/

namespace Sylar.Http

open StringUtil

/-- `strcasestr(haystack, needle) != nullptr`. -/
def strcasestr (haystack needle : List UInt8) : Bool := caseFold needle <:+: caseFold haystack

/-- The loop of `PARSE_PARAM`, without a `trim`. Each round takes a byte, so that as much `fuel`
as there are bytes is enough. -/
def parseParam (flag : UInt8) : Nat → List UInt8 → MapType → MapType
  | 0, _, m => m
  | fuel + 1, str, m =>
      if 61 ∈ str then
        let key := str.takeWhile (· != 61)
        let behind := (str.dropWhile (· != 61)).tail
        let m := m.insertIfNew key (urlDecode true (behind.takeWhile (· != flag)))
        match behind.dropWhile (· != flag) with
        | [] => m
        | _ :: str => parseParam flag fuel str m
      else m

/-- A request with its parameters. -/
structure ParamRequest extends HttpRequest where
  params : MapType
  parserParamFlag : UInt8

namespace ParamRequest

/-- A request whose parameters nobody has asked for. -/
def new (request : HttpRequest) : ParamRequest := ⟨request, ∅, 0⟩

/-- `initQueryParam`, once. -/
def initQueryParam (request : ParamRequest) : ParamRequest :=
  if request.parserParamFlag &&& 1 ≠ 0 then request
  else
    { request with
      params := parseParam 38 request.query.length request.query request.params
      parserParamFlag := request.parserParamFlag ||| 1 }

/-- `initBodyParam`, once. -/
def initBodyParam (request : ParamRequest) : ParamRequest :=
  if request.parserParamFlag &&& 2 ≠ 0 then request
  else
    let content_type := request.getHeader (bytes "content-type") []
    if !strcasestr content_type (bytes " application/x-www-form-urlencoded") then
      { request with parserParamFlag := request.parserParamFlag ||| 2 }
    else
      { request with
        params := parseParam 38 request.body.length request.body request.params
        parserParamFlag := request.parserParamFlag ||| 2 }

/-- `getParam`, and the request behind the call. -/
def getParam (request : ParamRequest) (key def_ : List UInt8) : List UInt8 × ParamRequest :=
  let request := request.initQueryParam.initBodyParam
  (request.params.getD key def_, request)

end ParamRequest

/-- A pair as it stands in a form. -/
def pairText (pair : List UInt8 × List UInt8) : List UInt8 :=
  urlEncode pair.1 true ++ 61 :: urlEncode pair.2 true

/-- The form of some pairs. -/
def form (pairs : List (List UInt8 × List UInt8)) : List UInt8 :=
  [38].intercalate (pairs.map pairText)

/-- The parameters of a request are exactly some pairs. -/
structure Agrees (request : ParamRequest) (pairs : List (List UInt8 × List UInt8)) : Prop where
  values : ∀ pair ∈ pairs, (request.getParam pair.1 []).1 = pair.2
  named : ∀ pair ∈ pairs, pair.1 ∈ (request.getParam pair.1 []).2.params
  others : ∀ key name, (request.getParam key []).2.params.getKey? key = some name →
    ∃ pair ∈ pairs, pair.1.map tolower = name.map tolower

variable {pairs : List (List UInt8 × List UInt8)} {m : MapType} {key str : List UInt8}

/-! ### The loop -/

/-- What is stored for a part of the text: what is in front of the first equals sign, and what
is read behind it. -/
def stored (str : List UInt8) : List UInt8 × List UInt8 :=
  (str.takeWhile (· != 61), urlDecode true (str.dropWhile (· != 61)).tail)

/-- `insert`, which keeps an entry that is there. -/
def insertStored (m : MapType) (entry : List UInt8 × List UInt8) : MapType :=
  m.insertIfNew entry.1 entry.2

theorem takeWhile_behind {delimiter : UInt8} {before : List UInt8} (outside : delimiter ∉ before)
    (behind : List UInt8) :
    (before ++ delimiter :: behind).takeWhile (· != delimiter) = before ∧
      (before ++ delimiter :: behind).dropWhile (· != delimiter) = delimiter :: behind := by
  have passes : ∀ c ∈ before, (c != delimiter) = true := by
    intro c member
    exact bne_iff_ne.2 fun same => outside (same ▸ member)
  rw [List.takeWhile_append_of_pos passes, List.dropWhile_append_of_pos passes]
  simp

theorem takeWhile_whole {delimiter : UInt8} (outside : delimiter ∉ str) :
    str.takeWhile (· != delimiter) = str ∧ str.dropWhile (· != delimiter) = [] := by
  have passes : ∀ c ∈ str, (c != delimiter) = true := by
    intro c member
    exact bne_iff_ne.2 fun same => outside (same ▸ member)
  have front : (str ++ []).takeWhile (· != delimiter) = _ := List.takeWhile_append_of_pos passes
  have back : (str ++ []).dropWhile (· != delimiter) = _ := List.dropWhile_append_of_pos passes
  rw [List.append_nil] at front back
  exact ⟨front.trans (List.append_nil _), back⟩

/-- The last part of the text. -/
theorem parseParam_last {fuel : Nat} (equals : 61 ∈ str) (noAmpersand : 38 ∉ str) (m : MapType) :
    parseParam 38 (fuel + 1) str m = insertStored m (stored str) := by
  obtain ⟨key, behind, rfl, outside⟩ := List.eq_append_cons_of_mem equals
  obtain ⟨front, back⟩ := takeWhile_behind outside behind
  have inside : 38 ∉ behind := fun member => noAmpersand (by simp [member])
  obtain ⟨value, nothing⟩ := takeWhile_whole inside
  rw [parseParam, if_pos equals, stored, front, back, List.tail_cons]
  simp only [value, nothing]
  rfl

/-- A part with others behind it. -/
theorem parseParam_part {fuel : Nat} (equals : 61 ∈ str) (noAmpersand : 38 ∉ str)
    (more : List UInt8) (m : MapType) :
    parseParam 38 (fuel + 1) (str ++ 38 :: more) m =
      parseParam 38 fuel more (insertStored m (stored str)) := by
  obtain ⟨key, behind, rfl, outside⟩ := List.eq_append_cons_of_mem equals
  obtain ⟨front, back⟩ := takeWhile_behind outside behind
  obtain ⟨longFront, longBack⟩ := takeWhile_behind outside (behind ++ 38 :: more)
  have inside : 38 ∉ behind := fun member => noAmpersand (by simp [member])
  obtain ⟨value, rest⟩ := takeWhile_behind inside more
  rw [parseParam, if_pos (List.mem_append_left _ equals), stored, front, back, List.tail_cons,
    List.append_assoc, List.cons_append, longFront, longBack, List.tail_cons]
  simp only [value, rest]
  rfl

theorem pairText_equals (pair : List UInt8 × List UInt8) : 61 ∈ pairText pair := by
  simp [pairText]

theorem pairText_ampersand (pair : List UInt8 × List UInt8) : 38 ∉ pairText pair := by
  intro member
  rcases List.mem_append.1 member with inKey | inValue
  · exact (urlEncode_bytes _ _ inKey).1 rfl
  · exact (urlEncode_bytes _ _ (List.mem_of_ne_of_mem (by decide) inValue)).1 rfl

/-- The loop stores one entry for each pair, in their order. -/
theorem parseParam_form (pairs : List (List UInt8 × List UInt8)) {fuel : Nat}
    (enough : (form pairs).length ≤ fuel) (m : MapType) :
    parseParam 38 fuel (form pairs) m =
      (pairs.map fun pair => stored (pairText pair)).foldl insertStored m := by
  induction pairs generalizing fuel m with
  | nil => cases fuel <;> rfl
  | cons pair pairs inductionHypothesis =>
      have equals := pairText_equals pair
      have noAmpersand := pairText_ampersand pair
      cases pairs with
      | nil =>
          have whole : form [pair] = pairText pair := List.intercalate_singleton
          rw [whole] at enough ⊢
          have positive := List.length_pos_of_mem equals
          obtain ⟨fuel, rfl⟩ := Nat.exists_eq_add_of_le' (Nat.le_trans positive enough)
          exact parseParam_last equals noAmpersand m
      | cons next pairs =>
          have whole : form (pair :: next :: pairs) = pairText pair ++ 38 :: form (next :: pairs) :=
            by simp [form, List.intercalate_cons_cons]
          rw [whole] at enough ⊢
          rw [List.length_append, List.length_cons] at enough
          obtain ⟨fuel, rfl⟩ := Nat.exists_eq_add_of_le' (show 1 ≤ fuel by omega)
          rw [parseParam_part equals noAmpersand, inductionHypothesis (by omega)]
          rfl

/-- The first entry with a key is the one that is kept. -/
theorem foldl_insertStored (entries : List (List UInt8 × List UInt8)) (m : MapType)
    (key : List UInt8) :
    (entries.foldl insertStored m).getKey? key =
        (m.getKey? key).or ((entries.find? (strcasecmp ·.1 key == .eq)).map Prod.fst) ∧
      (entries.foldl insertStored m)[key]? =
        m[key]?.or ((entries.find? (strcasecmp ·.1 key == .eq)).map Prod.snd) := by
  induction entries generalizing m with
  | nil => simp
  | cons entry entries inductionHypothesis =>
      obtain ⟨keys, values⟩ := inductionHypothesis (insertStored m entry)
      rw [List.foldl_cons, keys, values, insertStored, Std.ExtTreeMap.getKey?_insertIfNew,
        Std.ExtTreeMap.getElem?_insertIfNew, List.find?_cons]
      by_cases same : strcasecmp entry.1 key = .eq
      · have equal : (strcasecmp entry.1 key == .eq) = true := beq_iff_eq.2 same
        by_cases inside : entry.1 ∈ m
        · have present := (Std.ExtTreeMap.mem_congr same).1 inside
          obtain ⟨name, isKey⟩ := Option.isSome_iff_exists.1
            (Std.ExtTreeMap.mem_iff_isSome_getKey?.1 present)
          obtain ⟨value, isValue⟩ := Option.isSome_iff_exists.1
            (Std.ExtTreeMap.mem_iff_isSome_getElem?.1 present)
          simp [inside, isKey, isValue]
        · have absent : key ∉ m := fun present => inside ((Std.ExtTreeMap.mem_congr same).2 present)
          simp [same, inside, Std.ExtTreeMap.getKey?_eq_none absent,
            Std.ExtTreeMap.getElem?_eq_none absent]
      · have differs : (strcasecmp entry.1 key == .eq) = false := beq_false_of_ne same
        rw [if_neg fun both => same both.1, if_neg fun both => same both.1, differs]
        exact ⟨rfl, rfl⟩

/-! ### The parameters of a request -/

namespace ParamRequest

variable (request : HttpRequest)

/-- The first call reads the query. -/
theorem initQueryParam_new : (new request).initQueryParam =
    ⟨request, parseParam 38 request.query.length request.query ∅, 1⟩ := by
  have unread : ¬(new request).parserParamFlag &&& 1 ≠ 0 :=
    show ¬(0 : UInt8) &&& 1 ≠ 0 by decide
  have flag : (0 : UInt8) ||| 1 = 1 := by decide
  rw [initQueryParam, if_neg unread]
  exact congrArg (mk request _) flag

/-- After the query the first call reads the body, when it has the type that is looked for. -/
theorem initBodyParam_params (params : MapType) :
    (⟨request, params, 1⟩ : ParamRequest).initBodyParam.params =
      if strcasestr (request.getHeader (bytes "content-type") [])
          (bytes " application/x-www-form-urlencoded") = true then
        parseParam 38 request.body.length request.body params
      else params := by
  have unread : ¬(1 : UInt8) &&& 2 ≠ 0 := by decide
  simp only [initBodyParam, if_neg unread]
  split <;> simp_all

end ParamRequest

theorem query_params {request : HttpRequest} (noBody : request.body = [])
    (key def_ : List UInt8) :
    ((ParamRequest.new (request.setQuery (form pairs))).getParam key def_).2.params =
      (pairs.map fun pair => stored (pairText pair)).foldl insertStored ∅ := by
  have silent : ∀ m, parseParam 38 (request.setQuery (form pairs)).body.length
      (request.setQuery (form pairs)).body m = m := by
    intro m
    rw [show (request.setQuery (form pairs)).body = [] from noBody]
    rfl
  rw [ParamRequest.getParam, ParamRequest.initQueryParam_new, ParamRequest.initBodyParam_params,
    silent, ite_self]
  exact parseParam_form pairs (Nat.le_refl _) ∅

/-- The type that the test in `initBodyParam` looks for is longer than the one of a form. -/
theorem not_strcasestr_form : strcasestr (bytes "application/x-www-form-urlencoded")
    (bytes " application/x-www-form-urlencoded") = false := by
  refine decide_eq_false fun inside => ?_
  exact absurd inside.length_le (by decide)

theorem body_params {request : HttpRequest} (noQuery : request.query = [])
    (isForm : request.getHeader (bytes "content-type") [] =
      bytes "application/x-www-form-urlencoded") (key def_ : List UInt8) :
    ((ParamRequest.new (request.setBody (form pairs))).getParam key def_).2.params = ∅ := by
  have type : (request.setBody (form pairs)).getHeader (bytes "content-type") [] =
      bytes "application/x-www-form-urlencoded" := isForm
  have query : (request.setBody (form pairs)).query = [] := noQuery
  rw [ParamRequest.getParam, ParamRequest.initQueryParam_new, ParamRequest.initBodyParam_params,
    type, not_strcasestr_form, query]
  rfl

/-! ### The keys that are stored -/

/-- What stands in front of the first equals sign of a pair. -/
def storedKey (pair : List UInt8 × List UInt8) : List UInt8 :=
  (urlEncode pair.1 true).takeWhile (· != 61)

variable {pair : List UInt8 × List UInt8}

theorem stored_key (pair : List UInt8 × List UInt8) :
    (stored (pairText pair)).1 = storedKey pair := by
  rw [stored, pairText, storedKey, List.takeWhile_append]
  split
  · rename_i whole
    rw [List.takeWhile_cons_of_neg (by decide), List.append_nil]
    exact (List.takeWhile_prefix _).eq_of_length whole |>.symm
  · rfl

theorem storedKey_bytes : ∀ b ∈ storedKey pair, b ≠ 0 ∧ b ≠ 61 := by
  intro b member
  have written := (urlEncode_bytes pair.1 b ((List.takeWhile_prefix _).subset member)).2.1
  exact ⟨written, bne_iff_ne.1 (List.all_eq_true.1 List.all_takeWhile b member)⟩

theorem storedKey_of_not_mem (noEquals : 61 ∉ pair.1) :
    storedKey pair = urlEncode pair.1 true := by
  refine (takeWhile_whole fun member => ?_).1
  exact noEquals ((urlEncode_bytes pair.1 61 member).2.2 rfl)

/-- A pair whose key is plain is stored as it is. -/
theorem stored_of_plain (plain : ∀ c ∈ pair.1, isPlain c = true) :
    stored (pairText pair) = pair := by
  have outside : 61 ∉ pair.1 := fun member => absurd (plain 61 member) (by decide)
  obtain ⟨front, back⟩ := takeWhile_behind outside (urlEncode pair.2 true)
  rw [stored, pairText, urlEncode_plain plain, front, back, List.tail_cons, urlDecode_urlEncode]

theorem caseFold_of_nonzero (nonzero : 0 ∉ str) : caseFold str = str.map tolower :=
  congrArg (List.map tolower) (takeWhile_whole nonzero).1

/-- A byte that no letter becomes is in a text as it is in its lower case. -/
theorem mem_map_tolower {c : UInt8} (fixed : ∀ b, tolower b = c ↔ b = c) :
    c ∈ str.map tolower ↔ c ∈ str := by
  rw [List.mem_map]
  constructor
  · rintro ⟨b, member, lower⟩
    rwa [(fixed b).1 lower] at member
  · exact fun member => ⟨c, member, (fixed c).2 rfl⟩

/-- The bytes that decide how a key is stored are not letters. -/
theorem tolower_special :
    (∀ b, tolower b = 37 ↔ b = 37) ∧ (∀ b, tolower b = 43 ↔ b = 43) ∧
      ∀ b, tolower b = 61 ↔ b = 61 :=
  ⟨forall_byte (by decide +kernel), forall_byte (by decide +kernel),
    forall_byte (by decide +kernel)⟩

/-- A key that is not plain is written with an escape, unless an equals sign ends it before. -/
theorem escaped_of_not_plain (noEquals : 61 ∉ cString str)
    (notPlain : ¬∀ c ∈ str, isPlain c = true) :
    37 ∈ (urlEncode str true).takeWhile (· != 61) ∨
      43 ∈ (urlEncode str true).takeWhile (· != 61) := by
  induction str with
  | nil => exact absurd (by simp) notPlain
  | cons c str inductionHypothesis =>
      rw [urlEncode_cons, encodeChar]
      by_cases plain : isPlain c = true
      · obtain ⟨unreserved, notEquals⟩ := Bool.and_eq_true_iff.1 plain
        have nonzero : (c != 0) = true := by
          refine bne_iff_ne.2 ?_
          rintro rfl
          exact absurd plain (by decide)
        rw [cString, List.takeWhile_cons, if_pos nonzero, List.mem_cons, not_or] at noEquals
        have later := inductionHypothesis noEquals.2 fun all =>
          notPlain (List.forall_mem_cons.2 ⟨plain, all⟩)
        rw [if_pos unreserved, List.singleton_append, List.takeWhile_cons, if_pos notEquals]
        exact later.imp (List.mem_cons_of_mem _) (List.mem_cons_of_mem _)
      · have notEquals : c ≠ 61 := by
          rintro rfl
          rw [cString, List.takeWhile_cons, if_pos (by decide)] at noEquals
          exact noEquals List.mem_cons_self
        have escaped : ¬charIsUnreserved c = true := fun unreserved =>
          plain (Bool.and_eq_true_iff.2 ⟨unreserved, bne_iff_ne.2 notEquals⟩)
        rw [if_neg escaped]
        split
        · exact .inr (by simp)
        · exact .inl (by simp)

/-! ### Agreement -/

/-- Of entries with different keys the one that has a key is found. -/
theorem find?_of_apart {entries : List (List UInt8 × List UInt8)} {entry : List UInt8 × List UInt8}
    (apart : entries.Pairwise fun a b => ¬strcasecmp a.1 b.1 = .eq) (member : entry ∈ entries)
    (same : strcasecmp entry.1 key = .eq) :
    entries.find? (strcasecmp ·.1 key == .eq) = some entry := by
  induction entries with
  | nil => cases member
  | cons first entries inductionHypothesis =>
      rw [List.pairwise_cons] at apart
      rcases List.mem_cons.1 member with rfl | later
      · rw [List.find?_cons, same]
        rfl
      · have differs : (strcasecmp first.1 key == .eq) = false := beq_false_of_ne fun equal =>
          apart.1 entry later (Std.TransCmp.eq_trans equal (Std.OrientedCmp.eq_symm same))
        rw [List.find?_cons, differs]
        exact inductionHypothesis apart.2 later

theorem exists_bound {α : Type} (list : List α) (size : α → Nat) :
    ∃ bound, ∀ x ∈ list, size x < bound := by
  induction list with
  | nil => exact ⟨0, by simp⟩
  | cons x list inductionHypothesis =>
      obtain ⟨bound, below⟩ := inductionHypothesis
      refine ⟨size x + 1 + bound, List.forall_mem_cons.2 ⟨by omega, fun y member => ?_⟩⟩
      have small := below y member
      omega

/-- What is found among the stored entries. -/
theorem lookup_stored (entries : List (List UInt8 × List UInt8)) (key : List UInt8) :
    (entries.foldl insertStored ∅).getKey? key =
        (entries.find? (strcasecmp ·.1 key == .eq)).map Prod.fst ∧
      (entries.foldl insertStored ∅)[key]? =
        (entries.find? (strcasecmp ·.1 key == .eq)).map Prod.snd := by
  simpa using foldl_insertStored entries ∅ key

/-- What is found under a key was stored for a pair, under that key up to cases. -/
theorem exists_of_find? {entry : List UInt8 × List UInt8}
    (first : (pairs.map fun pair => stored (pairText pair)).find? (strcasecmp ·.1 key == .eq) =
      some entry) :
    ∃ source ∈ pairs, entry = stored (pairText source) ∧
      (storedKey source).map tolower = caseFold key := by
  obtain ⟨source, isPair, rfl⟩ := List.mem_map.1 (List.mem_of_find?_eq_some first)
  have matched := List.find?_some first
  have folded := strcasecmp_eq_iff.1 (beq_iff_eq.1 matched)
  rw [stored_key, caseFold_of_nonzero fun zero => (storedKey_bytes 0 zero).1 rfl] at folded
  exact ⟨source, isPair, rfl, folded⟩

section

variable {request : ParamRequest}
  (params : ∀ key def_, (request.getParam key def_).2.params =
    (pairs.map fun pair => stored (pairText pair)).foldl insertStored ∅)

include params

/-- A form with plain keys comes back. -/
theorem agrees_of_plain (distinct : pairs.Pairwise fun a b => a.1.map tolower ≠ b.1.map tolower)
    (plain : ∀ pair ∈ pairs, ∀ c ∈ pair.1, isPlain c = true) : Agrees request pairs := by
  have same : (pairs.map fun pair => stored (pairText pair)) = pairs :=
    (List.map_congr_left fun pair member => stored_of_plain (plain pair member)).trans
      (List.map_id pairs)
  rw [same] at params
  have nonzero : ∀ pair ∈ pairs, 0 ∉ pair.1 :=
    fun pair member zero => absurd (plain pair member 0 zero) (by decide)
  have apart : pairs.Pairwise fun a b => ¬strcasecmp a.1 b.1 = .eq := by
    refine distinct.imp_of_mem fun first second differs equal => differs ?_
    rw [← caseFold_of_nonzero (nonzero _ first), ← caseFold_of_nonzero (nonzero _ second)]
    exact strcasecmp_eq_iff.1 equal
  constructor
  · intro pair member
    have value : (request.getParam pair.1 []).1 =
        (request.getParam pair.1 []).2.params.getD pair.1 [] := rfl
    rw [value, params, Std.ExtTreeMap.getD_eq_getD_getElem?, (lookup_stored pairs pair.1).2,
      find?_of_apart apart member (strcasecmp_eq_iff.2 rfl)]
    rfl
  · intro pair member
    rw [params, Std.ExtTreeMap.mem_iff_isSome_getKey?, (lookup_stored pairs pair.1).1,
      find?_of_apart apart member (strcasecmp_eq_iff.2 rfl)]
    rfl
  · intro key name found
    rw [params, (lookup_stored pairs key).1] at found
    obtain ⟨pair, first, rfl⟩ := Option.map_eq_some_iff.1 found
    exact ⟨pair, List.mem_of_find?_eq_some first, rfl⟩

/-- Below an agreement no equals sign ends a key, as it is looked up. -/
theorem noEquals_of_agrees (agrees : Agrees request pairs) (member : pair ∈ pairs) :
    61 ∉ cString pair.1 := by
  have named := agrees.named pair member
  rw [params, Std.ExtTreeMap.mem_iff_isSome_getKey?, (lookup_stored _ pair.1).1,
    Option.isSome_map] at named
  obtain ⟨entry, first⟩ := Option.isSome_iff_exists.1 named
  obtain ⟨source, _, _, folded⟩ := exists_of_find? first
  intro equals
  have lower : 61 ∈ (cString pair.1).map tolower := (mem_map_tolower tolower_special.2.2).2 equals
  rw [← caseFold, ← folded, mem_map_tolower tolower_special.2.2] at lower
  exact (storedKey_bytes 61 lower).2 rfl

/-- Below an agreement each stored key is a key of a pair. -/
theorem exists_storedKey (agrees : Agrees request pairs) (member : pair ∈ pairs) :
    ∃ other ∈ pairs, other.1.map tolower = (storedKey pair).map tolower := by
  have inside : stored (pairText pair) ∈ pairs.map fun pair => stored (pairText pair) :=
    List.mem_map_of_mem member
  have present : ((pairs.map fun pair => stored (pairText pair)).find?
      (strcasecmp ·.1 (storedKey pair) == .eq)).isSome := by
    rw [List.find?_isSome]
    exact ⟨_, inside, by rw [stored_key, strcasecmp_eq_iff.2 rfl]; rfl⟩
  obtain ⟨entry, first⟩ := Option.isSome_iff_exists.1 present
  have found := (lookup_stored (pairs.map fun pair => stored (pairText pair)) (storedKey pair)).1
  rw [first, ← params (storedKey pair) []] at found
  obtain ⟨other, isPair, same⟩ := agrees.others _ _ found
  refine ⟨other, isPair, same.trans ?_⟩
  obtain ⟨source, _, rfl, folded⟩ := exists_of_find? first
  rw [stored_key, folded]
  exact caseFold_of_nonzero fun zero => (storedKey_bytes 0 zero).1 rfl

/-- Below an agreement, a key that is not plain leads to a longer one. -/
theorem longer_of_not_plain (agrees : Agrees request pairs) (member : pair ∈ pairs)
    (notPlain : ¬∀ c ∈ pair.1, isPlain c = true) :
    ∃ other ∈ pairs, (¬∀ c ∈ other.1, isPlain c = true) ∧
      (storedKey pair).length < (storedKey other).length := by
  obtain ⟨percent, plus, equals⟩ := tolower_special
  have escaped := escaped_of_not_plain (noEquals_of_agrees params agrees member) notPlain
  obtain ⟨other, isPair, same⟩ := exists_storedKey params agrees member
  have kept : ∀ c : UInt8, (∀ b, tolower b = c ↔ b = c) → (c ∈ other.1 ↔ c ∈ storedKey pair) := by
    intro c fixed
    rw [← mem_map_tolower fixed, same, mem_map_tolower fixed]
  have noEquals : 61 ∉ other.1 := fun inside => (storedKey_bytes 61 ((kept 61 equals).1 inside)).2 rfl
  refine ⟨other, isPair, fun plain => ?_, ?_⟩
  · rcases escaped with isPercent | isPlus
    · exact absurd (plain 37 ((kept 37 percent).2 isPercent)) (by decide)
    · exact absurd (plain 43 ((kept 43 plus).2 isPlus)) (by decide)
  · rw [storedKey_of_not_mem noEquals, urlEncode_length_of_tolower same]
    exact length_lt_urlEncode escaped

/-- Below an agreement all keys are plain, as the others would lead to longer and longer ones. -/
theorem plain_of_agrees (agrees : Agrees request pairs) :
    ∀ pair ∈ pairs, ∀ c ∈ pair.1, isPlain c = true := by
  by_contra notAll
  have ascends : ∀ n, ∃ pair ∈ pairs, (¬∀ c ∈ pair.1, isPlain c = true) ∧
      n ≤ (storedKey pair).length := by
    intro n
    induction n with
    | zero =>
        by_contra none_
        refine notAll fun pair member => ?_
        by_contra notPlain
        exact none_ ⟨pair, member, notPlain, Nat.zero_le _⟩
    | succ n inductionHypothesis =>
        obtain ⟨pair, member, notPlain, long⟩ := inductionHypothesis
        obtain ⟨other, isPair, otherNotPlain, longer⟩ :=
          longer_of_not_plain params agrees member notPlain
        exact ⟨other, isPair, otherNotPlain, by omega⟩
  obtain ⟨bound, below⟩ := exists_bound pairs fun pair => (storedKey pair).length
  obtain ⟨pair, member, _, long⟩ := ascends bound
  exact absurd (below pair member) (Nat.not_lt.2 long)

end

theorem not_agrees_body {request : HttpRequest} (noQuery : request.query = [])
    (isForm : request.getHeader (bytes "content-type") [] =
      bytes "application/x-www-form-urlencoded")
    (agrees : Agrees (.new (request.setBody (form pairs))) pairs) : pairs = [] := by
  by_contra some_
  obtain ⟨pair, member⟩ := List.exists_mem_of_ne_nil _ some_
  have named := agrees.named pair member
  rw [body_params noQuery isForm] at named
  exact Std.ExtTreeMap.not_mem_empty named

theorem agrees_nil {request : ParamRequest}
    (params : ∀ key def_, (request.getParam key def_).2.params = ∅) : Agrees request [] where
  values _ member := absurd member List.not_mem_nil
  named _ member := absurd member List.not_mem_nil
  others key name found := by
    rw [params, Std.ExtTreeMap.getKey?_empty] at found
    cases found

/-- The parser stores the text of a field of a head, which has no blank in front, as its header. -/
theorem getHeader_of_head {σ : Type} {machine : Machine Act σ} (splits : SplitsHeads machine)
    (head : Head machine) {parts : RequestHead} (grammatical : parts.Grammatical)
    (isText : head.chars = parts.text) {m : HttpMethod}
    (method : parts.method = httpMethodToString m)
    (apart : parts.fields.Pairwise fun a b => ¬strcasecmp a.1 b.1 = .eq)
    {field : List UInt8 × List UInt8} (member : field ∈ parts.fields)
    (same : strcasecmp field.1 key = .eq) : head.request.getHeader key [] = field.2 := by
  have tokens : head.tokens = parts.tokens := by
    have scanned := head.scanned
    rw [isText, splits parts grammatical] at scanned
    exact (Option.some.inj scanned).symm
  obtain ⟨v, version⟩ : ∃ v : UInt8, v = 0x11 ∧ parts.version = bytes "HTTP/1.1" ∨
      v = 0x10 ∧ parts.version = bytes "HTTP/1.0" := by
    rcases grammatical.version with known | known
    · exact ⟨0x10, .inr ⟨rfl, known⟩⟩
    · exact ⟨0x11, .inl ⟨rfl, known⟩⟩
  have changes := RequestHead.tokens_change (grammatical.known method) method version
    fun field member => (grammatical.fields field member).1.1
  have request : head.request = (parts.changes m v).foldl Change.apply .new := by
    rw [Head.request, tokens, isText]
    exact HttpRequest.foldl_apply_of_change changes .new
  have new_ : ∀ field ∈ parts.fields, field.1 ∉ (∅ : MapType) :=
    fun _ _ => Std.ExtTreeMap.not_mem_empty
  have stored := (foldl_setField apart new_ key).2
  rw [find?_of_apart apart member same] at stored
  rw [request, HttpRequest.foldl_changes, HttpRequest.getHeader,
    Std.ExtTreeMap.getD_eq_getD_getElem?, stored]
  rfl

/-- A form agrees with its parameters as a query if and only if the keys are made of unreserved
bytes other than the equals sign, and as a body, with the type that the parser stores for it, only
when it is empty. -/
theorem agrees_iff (pairs : List (List UInt8 × List UInt8))
    (distinct : pairs.Pairwise fun a b => a.1.map tolower ≠ b.1.map tolower)
    (request : HttpRequest) :
    (request.body = [] →
      (Agrees (.new (request.setQuery (form pairs))) pairs ↔
        ∀ pair ∈ pairs, ∀ c ∈ pair.1, isPlain c = true)) ∧
      (request.query = [] →
        request.getHeader (bytes "content-type") [] = bytes "application/x-www-form-urlencoded" →
          (Agrees (.new (request.setBody (form pairs))) pairs ↔ pairs = [])) := by
  constructor
  · intro noBody
    exact ⟨plain_of_agrees (query_params noBody), agrees_of_plain (query_params noBody) distinct⟩
  · intro noQuery isForm
    constructor
    · exact not_agrees_body noQuery isForm
    · rintro rfl
      exact agrees_nil (body_params noQuery isForm)

/-- A request with the header of a form. -/
def formRequest : HttpRequest :=
  HttpRequest.new.setHeader (bytes "Content-Type") (bytes "application/x-www-form-urlencoded")

theorem formRequest_type :
    formRequest.getHeader (bytes "content-type") [] =
      bytes "application/x-www-form-urlencoded" := by
  have same : strcasecmp (bytes "Content-Type") (bytes "content-type") = .eq := by decide
  have new_ : HttpRequest.new.headers.getKeyD (bytes "Content-Type") (bytes "Content-Type") =
      bytes "Content-Type" := Std.ExtTreeMap.getKeyD_empty
  rw [formRequest, HttpRequest.setHeader, new_, HttpRequest.getHeader, Std.ExtTreeMap.getD_insert,
    if_pos same]

/-- One key is plain, and its value has every byte that is special in a form. -/
theorem agrees_user :
    Agrees (.new (HttpRequest.new.setQuery (form [(bytes "user", bytes "a b&c=%+")])))
        [(bytes "user", bytes "a b&c=%+")] ∧
      Agrees (.new (formRequest.setBody (form []))) [] :=
  ⟨((agrees_iff _ (List.pairwise_singleton _ _) HttpRequest.new).1 rfl).2 (by decide),
    ((agrees_iff [] .nil formRequest).2 rfl formRequest_type).2 rfl⟩

/-- A key with a blank is not found in a query, and no key is found in a body. -/
theorem not_agrees :
    ¬Agrees (.new (HttpRequest.new.setQuery (form [(bytes "a b", bytes "1")])))
        [(bytes "a b", bytes "1")] ∧
      ¬Agrees (.new (formRequest.setBody (form [(bytes "user", bytes "1")])))
        [(bytes "user", bytes "1")] := by
  constructor
  · intro agrees
    have plain := plain_of_agrees (query_params rfl) agrees
    exact absurd plain (by decide)
  · intro agrees
    exact absurd (not_agrees_body rfl formRequest_type agrees) (by simp)

end Sylar.Http
