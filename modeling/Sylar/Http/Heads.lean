import Sylar.Http.Messages
import Sylar.Http.RequestGrammar

/-!
# The grammar of a head

The heads of requests for a path that `http11_parser.rl` derives, as their parts: what a head is
made of, where its actions find the parts, and that the automaton of the lines finds them there.
-/

namespace Sylar.Http

/-- `unreserved` and `sub_delims`. -/
def isRegName (byte : UInt8) : Bool :=
  (65 ≤ byte && byte ≤ 90) || (97 ≤ byte && byte ≤ 122) || (48 ≤ byte && byte ≤ 57) ||
    (bytes "-._~!$&'()*+,;=").contains byte

/-- A single byte of `pchar`. -/
def isPchar (byte : UInt8) : Bool := 128 ≤ byte || isRegName byte || byte = 58 || byte = 64

/-- `xdigit`. -/
def isXdigit (byte : UInt8) : Bool :=
  (48 ≤ byte && byte ≤ 57) || (65 ≤ byte && byte ≤ 70) || (97 ≤ byte && byte ≤ 102)

/-- Bytes of a class and `pct_encoded` ones, any number of them. -/
inductive Encoded (single : UInt8 → Bool) : List UInt8 → Prop where
  | nil : Encoded single []
  | single {byte : UInt8} {rest : List UInt8} (member : single byte = true)
      (more : Encoded single rest) : Encoded single (byte :: rest)
  | percent {high low : UInt8} {rest : List UInt8} (isHigh : isXdigit high = true)
      (isLow : isXdigit low = true) (more : Encoded single rest) :
      Encoded single (37 :: high :: low :: rest)

/-- `authority`, with a name for the host. -/
def Authority (text : List UInt8) : Prop :=
  ∃ userinfo host port, text = userinfo ++ host ++ port ∧
    (userinfo = [] ∨ ∃ name, userinfo = name ++ [64] ∧
      Encoded (fun byte => isRegName byte || byte = 58) name) ∧
    Encoded isRegName host ∧
    (port = [] ∨ ∃ digits, port = 58 :: digits ∧ ∀ byte ∈ digits, 48 ≤ byte ∧ byte ≤ 57)

/-- A `relative_part` that begins with a slash: `path_absolute`, or an authority and
`path_abempty` behind two slashes. -/
structure Path (path : List UInt8) : Prop where
  begins : path.head? = some 47
  chars : Encoded (fun byte => isPchar byte || byte = 47) path
  slashes : path.tail.head? = some 47 → Authority (path.tail.tail.takeWhile (· ≠ 47))

/-- The text of `query` and of `fragment`. -/
def QueryText (text : List UInt8) : Prop :=
  Encoded (fun byte => isPchar byte || byte = 47 || byte = 63) text

/-- A byte of `token`. -/
def isToken (byte : UInt8) : Bool :=
  32 < byte && byte < 127 && !(bytes "()<>@,;:\\\"/[]?=\x7b\x7d").contains byte

/-- A byte of a value, blanks included. -/
def isPrintable (byte : UInt8) : Bool := 32 ≤ byte && byte ≠ 127

/-- A value that is not empty and has no blank at its ends. -/
structure FieldValue (value : List UInt8) : Prop where
  some_ : value ≠ []
  printable : ∀ byte ∈ value, isPrintable byte = true
  first : value.head? ≠ some 32
  last : value.getLast? ≠ some 32

/-- The parts of a head. -/
structure RequestHead where
  method : List UInt8
  path : List UInt8
  query : List UInt8
  fragment : List UInt8
  version : List UInt8
  fields : List (List UInt8 × List UInt8)

namespace RequestHead

/-- What the grammar asks of the parts. A query or a fragment that is empty is left out. -/
structure Grammatical (parts : RequestHead) : Prop where
  method : parts.method ≠ [] ∧ parts.method.length ≤ 20 ∧
    ∀ byte ∈ parts.method, HeadState.isMethod byte = true
  path : Path parts.path
  query : QueryText parts.query
  fragment : QueryText parts.fragment
  version : parts.version = bytes "HTTP/1.0" ∨ parts.version = bytes "HTTP/1.1"
  fields : ∀ field ∈ parts.fields,
    (field.1 ≠ [] ∧ ∀ byte ∈ field.1, isToken byte = true) ∧ FieldValue field.2

/-- A part that is left out when it is empty, behind its delimiter. -/
def behind (delimiter : UInt8) (part : List UInt8) : List UInt8 :=
  if part = [] then [] else delimiter :: part

/-- A field with its line end. -/
def fieldText (field : List UInt8 × List UInt8) : List UInt8 :=
  field.1 ++ (58 :: 32 :: (field.2 ++ [13, 10]))

/-- The text of a head. -/
def text (parts : RequestHead) : List UInt8 :=
  parts.method ++ (32 :: (parts.path ++ (behind 63 parts.query ++ (behind 35 parts.fragment ++
    (32 :: (parts.version ++ (13 :: 10 :: (parts.fields.flatMap fieldText ++ [13, 10]))))))))

/-- The callbacks for fields that begin at a position. -/
def fieldTokens : Nat → List (List UInt8 × List UInt8) → List Token
  | _, [] => []
  | start, (name, value) :: fields =>
      let valueStart := start + name.length + 2
      .field start (start + name.length) valueStart (valueStart + value.length) ::
        fieldTokens (valueStart + value.length + 2) fields

/-- Where the method ends, the path, the query, the fragment and the version. -/
def methodEnd (parts : RequestHead) : Nat := parts.method.length

def pathEnd (parts : RequestHead) : Nat := parts.methodEnd + 1 + parts.path.length

def queryEnd (parts : RequestHead) : Nat := parts.pathEnd + (behind 63 parts.query).length

def fragmentEnd (parts : RequestHead) : Nat := parts.queryEnd + (behind 35 parts.fragment).length

def versionEnd (parts : RequestHead) : Nat := parts.fragmentEnd + 1 + parts.version.length

/-- The callbacks for the head in the order of the grammar. -/
def tokens (parts : RequestHead) : List Token :=
  [.element .requestMethod 0 parts.methodEnd,
    .element .requestPath (parts.methodEnd + 1) parts.pathEnd] ++
  (if parts.query = [] then [] else [.query (parts.pathEnd + 1) parts.queryEnd]) ++
  [.element .requestUri (parts.methodEnd + 1) parts.queryEnd] ++
  (if parts.fragment = [] then [] else
    [.element .fragment (parts.queryEnd + 1) parts.fragmentEnd]) ++
  [.element .httpVersion (parts.fragmentEnd + 1) parts.versionEnd] ++
  fieldTokens (parts.versionEnd + 2) parts.fields

theorem fieldTokens_framed (head : List UInt8) (start : Nat)
    (fields : List (List UInt8 × List UInt8)) :
    ∀ token ∈ fieldTokens start fields, token.Framed head := by
  induction fields generalizing start with
  | nil => exact nofun
  | cons field fields inductionHypothesis =>
      exact List.forall_mem_cons.mpr ⟨trivial, inductionHypothesis _⟩

theorem tokens_framed (parts : RequestHead) : ∀ token ∈ parts.tokens, token.Framed parts.text := by
  have method : parts.text[parts.methodEnd]? = some 32 := by
    rw [text, methodEnd, List.getElem?_append_right (Nat.le_refl _), Nat.sub_self]
    rfl
  have query : ∀ token ∈ (if parts.query = [] then []
      else [Token.query (parts.pathEnd + 1) parts.queryEnd]), token.Framed parts.text := by
    split
    · exact nofun
    · exact List.forall_mem_singleton.mpr trivial
  have fragment : ∀ token ∈ (if parts.fragment = [] then []
      else [Token.element .fragment (parts.queryEnd + 1) parts.fragmentEnd]),
      token.Framed parts.text := by
    split
    · exact nofun
    · exact List.forall_mem_singleton.mpr trivial
  simp only [tokens, List.forall_mem_append, List.forall_mem_cons]
  exact ⟨⟨⟨⟨⟨⟨method, trivial, nofun⟩, query⟩, trivial, nofun⟩, fragment⟩, trivial, nofun⟩,
    fieldTokens_framed _ _ _⟩

end RequestHead

/-- The automaton splits a head in one buffer as the grammar says. -/
def SplitsHeads {σ : Type} (machine : Machine Act σ) : Prop :=
  ∀ parts : RequestHead, parts.Grammatical →
    machine.scan 0 machine.start .new parts.text = some parts.tokens

/-- What holds of the bytes of a class, of the percent sign and of hexadecimal digits. -/
theorem Encoded.forall {single : UInt8 → Bool} {property : UInt8 → Prop} {text : List UInt8}
    (encoded : Encoded single text) (singles : ∀ byte, single byte = true → property byte)
    (percent : property 37) (digits : ∀ byte, isXdigit byte = true → property byte) :
    ∀ byte ∈ text, property byte := by
  induction encoded with
  | nil => exact nofun
  | single member _ inductionHypothesis =>
      exact List.forall_mem_cons.mpr ⟨singles _ member, inductionHypothesis⟩
  | percent isHigh isLow _ inductionHypothesis =>
      refine List.forall_mem_cons.mpr ⟨percent, List.forall_mem_cons.mpr ⟨digits _ isHigh, ?_⟩⟩
      exact List.forall_mem_cons.mpr ⟨digits _ isLow, inductionHypothesis⟩

theorem queryText_bytes {text : List UInt8} (chars : QueryText text) :
    ∀ byte ∈ text, byte ≠ 32 ∧ byte ≠ 35 := by
  have percent : (37 : UInt8) ≠ 32 ∧ (37 : UInt8) ≠ 35 := by decide
  refine chars.forall (fun byte member => ?_) percent (fun byte member => ?_)
  all_goals
    refine ⟨?_, ?_⟩ <;> rintro rfl <;> exact absurd member (by decide)

theorem Path.bytes {path : List UInt8} (isPath : Path path) :
    ∃ tail, path = 47 :: tail ∧ ∀ byte ∈ tail, byte ≠ 32 ∧ byte ≠ 35 ∧ byte ≠ 63 := by
  obtain ⟨tail, rfl⟩ := List.head?_eq_some_iff.mp isPath.begins
  have percent : (37 : UInt8) ≠ 32 ∧ (37 : UInt8) ≠ 35 ∧ (37 : UInt8) ≠ 63 := by decide
  have all : ∀ byte ∈ 47 :: tail, byte ≠ 32 ∧ byte ≠ 35 ∧ byte ≠ 63 := by
    refine isPath.chars.forall (fun byte member => ?_) percent (fun byte member => ?_)
    all_goals
      refine ⟨?_, ?_, ?_⟩ <;> rintro rfl <;> exact absurd member (by decide)
  exact ⟨tail, rfl, (List.forall_mem_cons.mp all).2⟩

section Scan

variable {fpc : Nat} {cs : HeadState} {marks after : Marks} {byte : UInt8}
  {text rest : List UInt8} {more : List Token}

/-- A byte with its callbacks. -/
theorem scan_go (target : HeadState) (actions : List Act) (first : List Token)
    (stepped : cs.step byte = HeadState.go target actions)
    (onward : target ≠ .final) (found : marks.acts fpc actions = some (after, first))
    (later : headMachine.scan (fpc + 1) target after rest = some more) :
    headMachine.scan fpc cs marks (byte :: rest) = some (first ++ more) := by
  have step : headMachine.step cs byte = some ⟨actions, decide (target = .final), target⟩ := stepped
  simp only [Machine.scan, step, Option.bind_eq_bind, Option.bind_some, found, later,
    decide_eq_false onward]
  rfl

/-- A run of bytes without actions. -/
theorem scan_stay (onward : cs ≠ .final)
    (stay : ∀ byte ∈ text, cs.step byte = HeadState.go cs [])
    (later : headMachine.scan (fpc + text.length) cs marks rest = some more) :
    headMachine.scan fpc cs marks (text ++ rest) = some more := by
  induction text generalizing fpc with
  | nil => exact later
  | cons byte text inductionHypothesis =>
      rw [List.forall_mem_cons] at stay
      refine scan_go cs [] [] stay.1 onward rfl (inductionHypothesis stay.2 ?_)
      rwa [Nat.add_assoc, Nat.add_comm 1]

open HeadState (endLine endPart)

theorem not_token {byte : UInt8} (token : isToken byte = true) :
    byte ≠ 58 ∧ byte ≠ 13 ∧ byte ≠ 10 := by
  refine ⟨?_, ?_, ?_⟩ <;> rintro rfl <;> exact absurd token (by decide)

theorem not_printable {byte : UInt8} (printable : isPrintable byte = true) :
    byte ≠ 13 ∧ byte ≠ 10 := by
  refine ⟨?_, ?_⟩ <;> rintro rfl <;> exact absurd printable (by decide)

/-- A field with its line end. -/
theorem scan_field {name value : List UInt8} (some_ : name ≠ [])
    (token : ∀ byte ∈ name, isToken byte = true) (isValue : FieldValue value)
    (later : ∀ marks, headMachine.scan (fpc + name.length + 2 + value.length + 2) .line marks rest =
      some more) :
    headMachine.scan fpc .line marks (RequestHead.fieldText (name, value) ++ rest) =
      some (.field fpc (fpc + name.length) (fpc + name.length + 2)
        (fpc + name.length + 2 + value.length) :: more) := by
  obtain ⟨first, name, rfl⟩ := List.exists_cons_of_ne_nil some_
  obtain ⟨byte, value, rfl⟩ := List.exists_cons_of_ne_nil isValue.some_
  rw [List.forall_mem_cons] at token
  obtain ⟨beginning, others⟩ := token
  obtain ⟨printable, printables⟩ := List.forall_mem_cons.mp isValue.printable
  have notBlank : byte ≠ 32 := fun blank => isValue.first (congrArg some blank)
  obtain ⟨-, notCR, notLF⟩ := not_token beginning
  obtain ⟨valueCR, valueLF⟩ := not_printable printable
  simp only [RequestHead.fieldText, List.cons_append, List.append_assoc, List.nil_append,
    List.length_cons] at later ⊢
  refine scan_go .name [.startField] []
    (by rw [HeadState.step, if_neg notCR, if_neg notLF]) (by decide) rfl ?_
  refine scan_stay (by decide) (fun byte member => by
    rw [HeadState.step, if_neg (not_token (others byte member)).1]) ?_
  refine scan_go .valueStart [.writeField] [] rfl (by decide) rfl ?_
  refine scan_go .valueStart [] [] rfl (by decide) rfl ?_
  refine scan_go .value [.startValue] []
    (by rw [HeadState.step, if_neg notBlank, endLine, if_neg valueCR, if_neg valueLF]) (by decide) rfl ?_
  refine scan_stay (by decide) (fun byte member => by
    obtain ⟨notCR, notLF⟩ := not_printable (printables byte member)
    rw [HeadState.step, endLine, if_neg notCR, if_neg notLF]) ?_
  have token : Token.field fpc (fpc + (name.length + 1)) (fpc + (name.length + 1) + 2)
      (fpc + (name.length + 1) + 2 + (value.length + 1)) =
      .field fpc (fpc + 1 + name.length) (fpc + 1 + name.length + 1 + 1)
        (fpc + 1 + name.length + 1 + 1 + 1 + value.length) := by
    congr 1 <;> omega
  have position : fpc + 1 + name.length + 1 + 1 + 1 + value.length + 1 + 1 =
      fpc + (name.length + 1) + 2 + (value.length + 1) + 2 := by omega
  rw [token]
  refine scan_go .lineEnd [.writeValue] [_] rfl (by decide) rfl ?_
  refine scan_go .line [] [] rfl (by decide) rfl ?_
  rw [position]
  exact later _

/-- The fields, and the empty line behind them. -/
theorem scan_fields {fields : List (List UInt8 × List UInt8)}
    (grammatical : ∀ field ∈ fields,
      (field.1 ≠ [] ∧ ∀ byte ∈ field.1, isToken byte = true) ∧ FieldValue field.2) :
    headMachine.scan fpc .line marks (fields.flatMap RequestHead.fieldText ++ [13, 10]) =
      some (RequestHead.fieldTokens fpc fields) := by
  induction fields generalizing fpc marks with
  | nil => exact scan_go .headEnd [] [] rfl nofun rfl rfl
  | cons field fields inductionHypothesis =>
      obtain ⟨name, value⟩ := field
      rw [List.forall_mem_cons] at grammatical
      obtain ⟨⟨⟨some_, token⟩, isValue⟩, others⟩ := grammatical
      rw [List.flatMap_cons, List.append_assoc]
      exact scan_field some_ token isValue fun _ => inductionHypothesis others

/-- The version, up to the first field. -/
theorem scan_version {version : List UInt8}
    (known : version = bytes "HTTP/1.0" ∨ version = bytes "HTTP/1.1")
    (later : ∀ marks, headMachine.scan (fpc + version.length + 2) .line marks rest = some more) :
    headMachine.scan fpc .versionStart marks (version ++ (13 :: 10 :: rest)) =
      some (.element .httpVersion fpc (fpc + version.length) :: more) := by
  obtain ⟨tail, rfl, others⟩ : ∃ tail, version = 72 :: tail ∧ ∀ byte ∈ tail, byte ≠ 13 ∧ byte ≠ 10 := by
    rcases known with rfl | rfl
    · exact ⟨bytes "TTP/1.0", rfl, by decide⟩
    · exact ⟨bytes "TTP/1.1", rfl, by decide⟩
  rw [List.length_cons, Nat.add_comm tail.length, ← Nat.add_assoc] at later ⊢
  refine scan_go .version [.mark] [] rfl (by decide) rfl ?_
  refine scan_stay (by decide) (fun byte member => by
    rw [HeadState.step, endLine, if_neg (others byte member).1, if_neg (others byte member).2]) ?_
  refine scan_go .lineEnd [.element .httpVersion] [_]
    rfl (by decide) rfl ?_
  exact scan_go .line [] [] rfl (by decide) rfl (later _)

/-- The end of the part before the fragment, and the fragment. -/
theorem scan_uriEnd (actions : List Act) (first : List Token) {fragment : List UInt8}
    (chars : QueryText fragment)
    (ends : ∀ byte, byte = 32 ∨ byte = 35 → ∃ otherwise, cs.step byte = endPart byte actions otherwise)
    (found : marks.acts fpc (actions ++ [.element .requestUri]) = some (after, first))
    (later : ∀ marks, headMachine.scan (fpc + (RequestHead.behind 35 fragment).length + 1)
      .versionStart marks rest = some more) :
    headMachine.scan fpc cs marks (RequestHead.behind 35 fragment ++ (32 :: rest)) =
      some (first ++ ((if fragment = [] then []
        else [.element .fragment (fpc + 1) (fpc + (RequestHead.behind 35 fragment).length)]) ++
          more)) := by
  cases fragment with
  | nil =>
      obtain ⟨otherwise, step⟩ := ends 32 (.inl rfl)
      rw [endPart, if_pos rfl] at step
      exact scan_go .versionStart (actions ++ [.element .requestUri]) first step (by decide) found (later _)
  | cons byte fragment =>
      obtain ⟨otherwise, step⟩ := ends 35 (.inr rfl)
      rw [endPart, if_neg (by decide), if_pos rfl] at step
      obtain ⟨beginning, others⟩ := List.forall_mem_cons.mp (queryText_bytes chars)
      have stop : fpc + (RequestHead.behind 35 (byte :: fragment)).length =
          fpc + 1 + 1 + fragment.length := by
        simp only [RequestHead.behind, reduceCtorEq, if_false, List.length_cons]
        omega
      rw [stop] at later ⊢
      refine scan_go .fragmentStart (actions ++ [.element .requestUri]) first step (by decide) found ?_
      rw [if_neg (List.cons_ne_nil _ _)]
      refine scan_go .fragment [.mark] [] (by rw [HeadState.step, if_neg beginning.1]) (by decide) rfl ?_
      refine scan_stay (by decide) (fun byte member => by
        rw [HeadState.step, if_neg (others byte member).1]) ?_
      exact scan_go .versionStart [.element .fragment] [_] rfl (by decide) rfl (later _)

/-- From the end of the path. -/
theorem scan_pathEnd {query fragment : List UInt8} (isQuery : QueryText query)
    (isFragment : QueryText fragment)
    (later : ∀ marks, headMachine.scan (fpc + (RequestHead.behind 63 query).length +
      (RequestHead.behind 35 fragment).length + 1) .versionStart marks rest = some more) :
    headMachine.scan fpc .path marks
        (RequestHead.behind 63 query ++ (RequestHead.behind 35 fragment ++ (32 :: rest))) =
      some (.element .requestPath marks.mark fpc ::
        ((if query = [] then [] else
          [.query (fpc + 1) (fpc + (RequestHead.behind 63 query).length)]) ++
        (.element .requestUri marks.mark (fpc + (RequestHead.behind 63 query).length) ::
        ((if fragment = [] then [] else
          [.element .fragment (fpc + (RequestHead.behind 63 query).length + 1)
            (fpc + (RequestHead.behind 63 query).length +
              (RequestHead.behind 35 fragment).length)]) ++ more)))) := by
  cases query with
  | nil =>
      refine scan_uriEnd [.element .requestPath] [_, _] isFragment (fun byte ending => ?_) rfl later
      refine ⟨HeadState.go .path [], ?_⟩
      rw [HeadState.step, if_neg (by rcases ending with rfl | rfl <;> decide)]
  | cons byte query =>
      obtain ⟨beginning, others⟩ := List.forall_mem_cons.mp (queryText_bytes isQuery)
      have stop : fpc + (RequestHead.behind 63 (byte :: query)).length =
          fpc + 1 + 1 + query.length := by
        simp only [RequestHead.behind, reduceCtorEq, if_false, List.length_cons]
        omega
      rw [stop] at later ⊢
      rw [if_neg (List.cons_ne_nil _ _)]
      refine scan_go .queryStart [.element .requestPath] [_] rfl (by decide) rfl ?_
      refine scan_go .query [.startQuery] []
        (by rw [HeadState.step, endPart, if_neg beginning.1, if_neg beginning.2]) (by decide) rfl ?_
      refine scan_stay (by decide) (fun byte member => by
        rw [HeadState.step, endPart, if_neg (others byte member).1, if_neg (others byte member).2]) ?_
      exact scan_uriEnd [.queryString] [_, _] isFragment (fun byte _ => ⟨_, rfl⟩) rfl later

open RequestHead in
/-- The automaton of the lines splits heads as the grammar says. -/
theorem headMachine_splits : SplitsHeads headMachine := by
  intro parts grammatical
  obtain ⟨method, path, query, fragment, version, fields⟩ := parts
  obtain ⟨⟨some_, -, isMethod⟩, isPath, isQuery, isFragment, known, isFields⟩ := grammatical
  obtain ⟨first, method, rfl⟩ := List.exists_cons_of_ne_nil some_
  obtain ⟨beginning, others⟩ := List.forall_mem_cons.mp isMethod
  obtain ⟨tail, rfl, inside⟩ := isPath.bytes
  have methodStop : methodEnd ⟨first :: method, 47 :: tail, query, fragment, version, fields⟩ =
      0 + 1 + method.length := by
    simp only [methodEnd, List.length_cons]
    omega
  have pathStop : pathEnd ⟨first :: method, 47 :: tail, query, fragment, version, fields⟩ =
      0 + 1 + method.length + 1 + 1 + tail.length := by
    simp only [pathEnd, methodStop, List.length_cons]
    omega
  simp only [text, tokens, versionEnd, fragmentEnd, queryEnd, pathStop, methodStop,
    List.cons_append, List.nil_append, List.append_assoc]
  change headMachine.scan 0 .start .new _ = _
  refine scan_go .method [.mark] [] (by rw [HeadState.step, if_pos beginning]) (by decide) rfl ?_
  refine scan_stay (by decide) (fun byte member => ?_) ?_
  · have notBlank : byte ≠ 32 := by
      rintro rfl
      exact absurd (others 32 member) (by decide)
    rw [HeadState.step, if_neg notBlank, if_pos (others byte member)]
  refine scan_go .uri [.element .requestMethod] [_] rfl (by decide) rfl ?_
  refine scan_go .path [.mark] [] rfl (by decide) rfl ?_
  refine scan_stay (by decide) (fun byte member => ?_) ?_
  · obtain ⟨notBlank, notHash, notQuestion⟩ := inside byte member
    rw [HeadState.step, if_neg notQuestion, endPart, if_neg notBlank, if_neg notHash]
  exact scan_pathEnd isQuery isFragment fun _ => scan_version known fun _ => scan_fields isFields

end Scan

end Sylar.Http
