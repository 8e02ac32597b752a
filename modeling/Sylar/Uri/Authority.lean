import Mathlib.Data.List.TakeWhile
import Sylar.Uri.Forms

/-!
# Authorities

The alternatives of an authority have their beginnings in common: what is read as the host and
the port of an authority may turn out to be its userinfo.
-/

namespace Sylar.UriParser

open Library Library.Ragel Library.Ragel.Machine
open Uri (Fault Text Fits create part rootedPath userOf passwordOf)

variable {text host_ later : Text} {letter : UInt8} {n m : Nat}

/-! ### Hosts -/

/-- The hosts that are no literals. -/
def namedHost : Machine UInt8 (Nat × Act) := alt ipv4address regName

/-- What is in the brackets of a literal. -/
def literalText : Machine UInt8 (Nat × Act) := alt ipv6address ipvFuture

/-- A host is a literal in brackets or has none. -/
theorem host_eq : (host : Machine UInt8 (Nat × Act)) = alt ipLiteral namedHost := rfl

theorem ipLiteral_eq : (ipLiteral : Machine UInt8 (Nat × Act)) =
    cat (char 91) (cat literalText (char 93)) := rfl

/-- A literal stands between the only brackets of its text. -/
theorem literal_split (accepted : accepts [(ipLiteral : Machine UInt8 (Nat × Act))] text = true) :
    ∃ inner, text = 91 :: (inner ++ [93]) ∧ 93 ∉ inner ∧
      accepts [literalText] inner = true := by
  rw [ipLiteral_eq] at accepted
  obtain ⟨back, rfl, rest⟩ := char_split accepted
  obtain ⟨inner, last, rfl, read, closed⟩ := accepts_cat.mp rest
  obtain ⟨byte, isClose, rfl⟩ := accepts_one.mp closed
  obtain rfl := beq_iff_eq.mp isClose
  exact ⟨inner, rfl, not_mem_of_accepts (show Machine.avoids [93] _ = true from rfl) read (by simp),
    read⟩

/-- A host without brackets has no colon. -/
theorem named_letters (accepted : accepts [namedHost] text = true) : 58 ∉ text ∧ 91 ∉ text :=
  ⟨not_mem_of_accepts (show Machine.avoids [58, 91] _ = true from rfl) accepted (by simp),
    not_mem_of_accepts (show Machine.avoids [58, 91] _ = true from rfl) accepted (by simp)⟩

/-- A host is not continued with a colon. -/
theorem host_done (fits : Fits host text) :
    next (after [(host : Machine UInt8 (Nat × Act))] text) 58 = [] := by
  rw [Fits, host_eq, accepts_alt, Bool.or_eq_true] at fits
  rw [host_eq, next_after_alt, next_of_avoids (show Machine.avoids [58] namedHost = true from rfl)
    (by simp), List.append_nil]
  rcases fits with literal | named
  · obtain ⟨inner, rfl, unclosed, read⟩ := literal_split literal
    have apart : ∀ letter ∈ inner, (letter == 93) = false := fun letter member => by
      rw [beq_eq_false_iff_ne]
      rintro rfl
      exact unclosed member
    have done : next (after [literalText] inner) 93 = [] :=
      next_of_avoids (show Machine.avoids [93] literalText = true from rfl) (by simp)
    rw [ipLiteral_eq, char, after_one_cat rfl (by simp)]
    exact next_of_closed (closed_of_done apart done) 58
  · cases text with
    | nil => exact rfl
    | cons first text =>
        have other : first ≠ 91 := by
          rintro rfl
          exact (named_letters named).2 List.mem_cons_self
        have none_ : next [(ipLiteral : Machine UInt8 (Nat × Act))] first = [] := by
          rw [next, List.flatMap_singleton, moves_eq_nil_iff.mpr, List.map_nil]
          simp [ipLiteral, char, begins, Machine.final, other]
        rw [after, none_, after_nil]
        rfl

/-- Behind a part of a host that is a host itself there is no colon. -/
theorem host_late {front back : Text} (whole : Fits host (front ++ 58 :: back))
    (fits : Fits host front) : False := by
  rw [Fits, host_eq, accepts_alt, Bool.or_eq_true] at whole fits
  rcases whole with literal | named
  · obtain ⟨inner, same, unclosed, _⟩ := literal_split literal
    rcases fits with closed | named
    · obtain ⟨other, rfl, _, _⟩ := literal_split closed
      obtain ⟨more, last, ended⟩ := List.eq_nil_or_concat (58 :: back) |>.resolve_left (by simp)
      rw [ended, List.concat_eq_append, List.cons_append, List.cons.injEq,
        ← List.append_assoc] at same
      rw [← (List.append_inj' same.2 rfl).1] at unclosed
      simp at unclosed
    · cases front with
      | nil => exact absurd (List.cons.inj same).1 (by decide)
      | cons first front =>
          obtain rfl := (List.cons.inj same).1
          exact (named_letters named).2 List.mem_cons_self
  · exact (named_letters named).1 (by simp)

/-- A host ends where the colon of a port begins. -/
theorem host_apart (fits : Fits host host_) (ends : ∀ letter ∈ text.head?, letter = 58) :
    Apart (hostAt n) (portAt m) host_ text where
  late front letter back split accepted := by
    rw [moves_eq_nil_iff, portAt, colon, begins_part, beq_eq_false_iff_ne]
    rintro rfl
    rw [hostAt, field, accepts_leaving, accepts_entering] at accepted
    exact host_late (split ▸ fits) accepted
  done letter first := by
    obtain rfl := ends letter first
    rw [hostAt, field, next_after_leaving, next_after_entering, host_done fits, List.map_nil]

/-! ### Hosts and ports -/

/-- What a host and a port do. -/
def saveHostPort (host : Text) (port : Option Text) (later : Text) (s : State) :
    Except Fault State := do
  let s ← saveField (4, .markh) (5, .saveHost) host (part 58 port ++ later) s
  saved (6, .markh) (7, .savePort) port later s

/-- `host [":" port]`. -/
abbrev hostPort : Machine UInt8 (Nat × Act) := cat (hostAt 4) (portAt 6)

variable {port_ : Option Text}

/-- A host and a port are read one behind the other. -/
theorem hostPort_does (fits : Fits host host_) (fitsPort : ∀ p ∈ port_, Fits port p) :
    Does order acts hostPort (host_ ++ part 58 port_) (saveHostPort host_ port_) := by
  have first : Does order acts (hostAt 4) host_ _ :=
    field_does (4, .markh) (5, .saveHost) (by decide) (by decide) (by decide) rfl fits
  have second : Does order acts (portAt 6) (part 58 port_) _ :=
    part_does (6, .markh) (7, .savePort) (by decide) (by decide) (by decide) rfl 58 fitsPort
  exact first.append second (before_number 6 (by decide) (by decide))
    (host_apart fits (head_part 58 port_))

/-- A host and a port have no at sign. -/
theorem hostPort_letters (fits : Fits host host_) (fitsPort : ∀ p ∈ port_, Fits port p) :
    ∀ letter ∈ host_ ++ part 58 port_, (letter == 64) = false := by
  have apart := ne_of_accepts (show Machine.avoids [64] hostPort = true from rfl)
    (hostPort_does fits fitsPort).accepts List.mem_cons_self
  intro letter member
  exact beq_eq_false_iff_ne.mpr (apart letter member)

/-- An authority without userinfo. -/
theorem authority_does (fits : Fits host host_) (fitsPort : ∀ p ∈ port_, Fits port p) :
    Does order acts (authorityAt 2) (host_ ++ part 58 port_) fun later s => (do
      let s ← acts (host_ ++ part 58 port_ ++ later) s (2, .markh)
      saveHostPort host_ port_ later s) := by
  have rest := (hostPort_does fits fitsPort).lambda_cat
  have unread : doings [cat (userinfoAt 3) hostPort] (host_ ++ part 58 port_) =
      quiet ((host_ ++ part 58 port_).length + 1) :=
    doings_unreached rfl (hostPort_letters fits fitsPort)
  exact (rest.cat_alt_right unread).entering (once_of_mem _ (by decide))
    (before_number 3 (by decide) (by decide))

/-! ### Userinfo -/

/-- What is executed for a userinfo from its first colon on, which is read as a port. -/
def passwordTrace : Text → List (Set (Nat × Act))
  | [] => []
  | _ :: behind =>
      {(5, .saveHost)} ::
        lead (if behind.head?.any isDigit then {(6, .markh)} else ∅) (quiet behind.length)

/-- What is executed for a userinfo, which is read as a host up to its first colon. -/
def userTrace (user password : Text) : List (Set (Nat × Act)) :=
  lead {(4, .markh)} (quiet user.length ++ passwordTrace password)

/-- A userinfo is a name, or a name in front of a colon and a userinfo. -/
theorem userinfo_cases (fits : Fits userinfo text) :
    ∃ user, Fits regName user ∧ 58 ∉ user ∧
      (text = user ∨ ∃ behind, text = user ++ 58 :: behind ∧ Fits userinfo behind) := by
  obtain ⟨tokens, rfl, each⟩ := accepts_star.mp fits
  clear fits
  induction tokens with
  | nil => exact ⟨[], rfl, List.not_mem_nil, .inl rfl⟩
  | cons token tokens inductionHypothesis =>
      obtain ⟨⟨some_, read⟩, others⟩ := List.forall_mem_cons.mp each
      have plain (known : accepts [(alt (one isUnreserved) (alt pctEncoded (one isSubDelim)) :
          Machine UInt8 (Nat × Act))] token = true) :
          ∃ user, Fits regName user ∧ 58 ∉ user ∧ ((token :: tokens).flatten = user ∨
            ∃ behind, (token :: tokens).flatten = user ++ 58 :: behind ∧ Fits userinfo behind) := by
        have noColon : 58 ∉ token :=
          not_mem_of_accepts (show Machine.avoids [58] _ = true from rfl) known (by simp)
        obtain ⟨user, name, without, split⟩ := inductionHypothesis others
        obtain ⟨names, rfl, all⟩ := accepts_star.mp name
        refine ⟨token ++ names.flatten, accepts_star.mpr ⟨token :: names, rfl, ?_⟩, ?_, ?_⟩
        · exact List.forall_mem_cons.mpr ⟨⟨some_, known⟩, all⟩
        · rw [List.mem_append, not_or]
          exact ⟨noColon, without⟩
        · rw [List.flatten_cons]
          rcases split with same | ⟨behind, same, fitsBehind⟩
          · exact .inl (by rw [same])
          · exact .inr ⟨behind, by rw [same, List.append_assoc], fitsBehind⟩
      rw [accepts_alt, Bool.or_eq_true, accepts_alt, Bool.or_eq_true, accepts_alt,
        Bool.or_eq_true] at read
      rcases read with unreserved | escaped | delimiter | colon_
      · exact plain (by rw [accepts_alt, unreserved, Bool.true_or])
      · exact plain (by rw [accepts_alt, accepts_alt, escaped, Bool.true_or, Bool.or_true])
      · exact plain (by rw [accepts_alt, accepts_alt, delimiter, Bool.or_true, Bool.or_true])
      · obtain ⟨byte, isColon, rfl⟩ := accepts_one.mp colon_
        obtain rfl := beq_iff_eq.mp isColon
        exact ⟨[], rfl, List.not_mem_nil, .inr ⟨tokens.flatten, rfl,
          accepts_star.mpr ⟨tokens, rfl, others⟩⟩⟩

/-- A userinfo up to its first colon is a host, and behind it there is a userinfo. -/
theorem user_fits (fits : Fits userinfo text) :
    Fits host (userOf text) ∧ Fits userinfo (passwordOf text).tail := by
  obtain ⟨user, name, noColon, split⟩ := userinfo_cases fits
  have plain : ∀ byte ∈ user, (byte != 58) = true := by
    intro byte member
    rw [bne_iff_ne]
    rintro rfl
    exact noColon member
  have named : Fits host user := by
    rw [Fits, host_eq, accepts_alt, namedHost, accepts_alt, (name : accepts _ _ = true),
      Bool.or_true, Bool.or_true]
  rcases split with rfl | ⟨behind, rfl, fitsBehind⟩
  · rw [userOf, passwordOf, List.takeWhile_eq_self_iff.mpr plain,
      List.dropWhile_eq_nil_iff.mpr plain]
    exact ⟨named, rfl⟩
  · rw [userOf, passwordOf, List.takeWhile_append_of_pos plain,
      List.dropWhile_append_of_pos plain, List.takeWhile_cons_of_neg (by decide), List.append_nil]
    exact ⟨named, fitsBehind⟩

/-- A port consists of digits. -/
theorem fits_port_iff : Fits port text ↔ ∀ byte ∈ text, isDigit byte = true := by
  constructor
  · intro fits byte member
    obtain ⟨tokens, rfl, each⟩ := accepts_star.mp fits
    obtain ⟨token, there, inside⟩ := List.mem_flatten.mp member
    obtain ⟨digit_, known, rfl⟩ := accepts_one.mp (each token there).2
    obtain rfl := List.mem_singleton.mp inside
    exact known
  · intro digits
    refine accepts_star.mpr ⟨text.map ([·]), (List.flatMap_singleton' _).symm, ?_⟩
    intro token member
    obtain ⟨byte, inside, rfl⟩ := List.mem_map.mp member
    exact ⟨by simp, accepts_one.mpr ⟨byte, digits byte inside, rfl⟩⟩

/-- Behind a colon only the digits are read as a port. -/
theorem port_doings {behind : Text} (rest : Text) :
    doings [portAt 6] (58 :: (behind ++ 64 :: rest)) =
      ∅ :: (lead (if behind.head?.any isDigit then {(6, .markh)} else ∅) (quiet behind.length) ++
        quiet (rest.length + 2)) := by
  have only : doings [portAt 6] (58 :: (behind ++ 64 :: rest)) =
      ∅ :: doings [field (6, .markh) (7, .savePort) port] (behind ++ 64 :: rest) := by
    have none_ : doings [(lambda : Machine UInt8 (Nat × Act))] (58 :: (behind ++ 64 :: rest)) =
        quiet ((58 :: (behind ++ 64 :: rest)).length + 1) := doings_of_not_begins rfl
    rw [portAt, Machine.opt, doings_alt, none_, ← @length_doings _ _
      [cat colon (field (6, .markh) (7, .savePort) port)], zipWith_quiet, colon, char,
      doings_one_cat rfl]
  have fits : Fits port (behind.takeWhile isDigit) :=
    fits_port_iff.mpr fun byte member => List.mem_takeWhile_imp member
  have letters : trace [field (6, Act.markh) (7, .savePort) port] (behind.takeWhile isDigit) = _ :=
    trace_of_marked rfl fits
  -- the first byte that is no digit
  obtain ⟨byte, others, same, other⟩ : ∃ byte others,
      behind.dropWhile isDigit ++ 64 :: rest = byte :: others ∧ isDigit byte = false := by
    cases dropped : behind.dropWhile isDigit with
    | nil => exact ⟨64, rest, rfl, rfl⟩
    | cons byte others =>
        have stopped := List.head?_dropWhile_not isDigit behind
        rw [dropped] at stopped
        exact ⟨byte, _, rfl, by simpa using stopped⟩
  have avoids : Machine.avoids [byte]
      (field (6, .markh) (7, .savePort) port : Machine UInt8 (Nat × Act)) = true := by
    simp [field, port, digit, Machine.avoids, other]
  have split : behind ++ 64 :: rest = behind.takeWhile isDigit ++ byte :: others := by
    rw [← same, ← List.append_assoc, List.takeWhile_append_dropWhile]
  have lengths := congrArg List.length split
  rw [only, split, doings_dead (next_of_avoids avoids (by simp)), letters]
  refine congrArg (∅ :: ·) ?_
  cases behind with
  | nil =>
      have count : (byte :: others).length + 1 = rest.length + 2 := by
        rw [← same]
        rfl
      rw [count]
      rfl
  | cons first behind =>
      cases known : isDigit first with
      | true =>
          rw [List.takeWhile_cons, if_pos known, List.length_append, List.length_append] at lengths
          rw [List.takeWhile_cons, if_pos known, List.head?_cons, Option.any_some, if_pos known]
          simp only [List.length_cons, lead_quiet] at lengths ⊢
          exact congrArg (_ :: quiet ·) (by omega)
      | false =>
          rw [List.takeWhile_cons, if_neg (by simp [known]), List.length_append,
            List.length_append] at lengths
          rw [List.takeWhile_cons, if_neg (by simp [known]), List.head?_cons, Option.any_some,
            if_neg (by simp [known]), lead_empty, quiet_append]
          simp only [List.length_cons, List.length_nil] at lengths ⊢
          exact congrArg quiet (by omega)

/-- The actions for a userinfo that is read as a host and a port, up to the at sign. -/
theorem user_doings (fits : Fits userinfo text) (rest : Text) :
    doings [hostPort] (text ++ 64 :: rest) =
      userTrace (userOf text) (passwordOf text) ++ quiet (rest.length + 2) := by
  have reads : Reads [hostAt 4] (userOf text) _ := .of_marked rfl (user_fits fits).1
  have letters : trace [hostAt 4] (userOf text) = _ := trace_of_marked rfl (user_fits fits).1
  have whole : userOf text ++ passwordOf text = text := List.takeWhile_append_dropWhile
  cases password : passwordOf text with
  | nil =>
      rw [password, List.append_nil] at whole
      have apart : Apart (hostAt 4) (portAt 6) (userOf text) [] :=
        host_apart (user_fits fits).1 (by simp)
      have dead : next (after [hostPort] text) 64 = [] :=
        next_of_avoids (show Machine.avoids [64] hostPort = true from rfl) (by simp)
      have trace_ := (@after_cat _ _ [hostAt 4] (portAt 6) _ apart.late).2
      rw [List.map_singleton, letters, whole] at trace_
      rw [doings_dead dead, trace_, userTrace, whole, passwordTrace, List.append_nil]
      rfl
  | cons colon_ behind =>
      have isColon : colon_ = 58 := by
        have stopped := List.head?_dropWhile_not (· != 58) text
        rw [passwordOf] at password
        rw [password] at stopped
        simpa using stopped
      subst isColon
      rw [password] at whole
      have apart : Apart (hostAt 4) (portAt 6) (userOf text) [58] :=
        host_apart (user_fits fits).1 (by simp)
      have starts : (portAt 6).moves 58 ≠ [] := moves_ne_nil rfl
      have joined := @doings_cat _ _ _ _ _ (behind ++ 64 :: rest) _ reads.accepts apart.late
        (apart.done 58 rfl) starts
      rw [List.map_singleton, port_doings, letters] at joined
      have split : text ++ 64 :: rest = userOf text ++ 58 :: (behind ++ 64 :: rest) := by
        conv_lhs => rw [← whole]
        simp
      rw [split, joined, userTrace]
      -- what waits behind the name comes with the colon, after what enters it
      have waiting := reads.doings
      rw [doings, letters] at waiting
      cases name : userOf text with
      | nil =>
          rw [name] at waiting
          have last : ends [hostAt 4] [] = {(4, .markh)} ∪ {(5, .saveHost)} :=
            List.singleton_inj.mp waiting
          simp only [last, quiet, List.length_nil, List.replicate_zero, List.nil_append, lead,
            Set.union_empty]
          rfl
      | cons first user =>
          rw [name] at waiting
          have split : lead {((4 : Nat), Act.markh)} (quiet (first :: user).length ++
              [{(5, .saveHost)}]) = lead {(4, .markh)} (quiet (first :: user).length) ++
                [{(5, .saveHost)}] := rfl
          have last : ends [hostAt 4] (first :: user) = {(5, .saveHost)} :=
            List.singleton_inj.mp (List.append_inj' (waiting.trans split) rfl).2
          rw [last, lead, Set.union_empty, passwordTrace]
          simp [lead, quiet, List.replicate_succ]

/-- One set of actions for each letter of the userinfo. -/
theorem length_userTrace (user password : Text) :
    (userTrace user password).length = (user ++ password).length := by
  cases password with
  | nil => simp [userTrace, passwordTrace, length_lead, quiet]
  | cons colon_ behind => simp [userTrace, passwordTrace, length_lead, quiet]

/-- A userinfo in front of a host. -/
theorem user_reads (fits : Fits userinfo text) {actions : List (Set (Nat × Act))}
    (behind : Reads [hostPort] host_ actions) :
    Reads [cat (opt (userinfoAt 3)) hostPort] (text ++ 64 :: host_)
      (userTrace (userOf text) (passwordOf text) ++ {(3, .saveUserinfo)} :: actions) := by
  have body : Reads [(userinfo : Machine UInt8 (Nat × Act))] text (quiet text.length ++ [∅]) := by
    have silent := Reads.of_silent (α := Nat × Act) rfl fits
    rwa [quiet, List.replicate_succ'] at silent
  have apart := ne_of_accepts (show Machine.avoids [64] userinfo = true from rfl) fits
    List.mem_cons_self
  have noSign : ∀ letter ∈ text, (letter == 64) = false := fun letter member =>
    beq_eq_false_iff_ne.mpr (apart letter member)
  have front := @Reads.leaving _ _ _ _ (3, Act.saveUserinfo) _ _ body
  rw [Set.empty_union] at front
  have left_ : Reads [cat (userinfoAt 3) hostPort] (text ++ 64 :: host_)
      (quiet text.length ++ {(3, .saveUserinfo)} :: actions) :=
    front.separated behind rfl noSign (next_of_avoids (show Machine.avoids [64] _ = true from rfl)
      (by simp))
  have lengths : (userTrace (userOf text) (passwordOf text)).length = text.length := by
    rw [length_userTrace, userOf, passwordOf, List.takeWhile_append_dropWhile]
  have more : (({(3, Act.saveUserinfo)} : Set (Nat × Act)) :: actions).length =
      host_.length + 2 := by
    rw [List.length_cons, ← behind.doings, length_doings]
  refine ⟨?_, ?_⟩
  · obtain ⟨before, after_, split, accepted, others⟩ := accepts_cat.mp left_.accepts
    refine accepts_cat.mpr ⟨before, after_, split, ?_, others⟩
    rw [Machine.opt, accepts_alt, accepted, Bool.true_or]
  · rw [Machine.opt, doings_cat_alt, doings_lambda_cat, user_doings fits, left_.doings,
      List.zipWith_append (by rw [lengths, quiet, List.length_replicate]), ← more, zipWith_quiet,
      ← lengths, quiet_zipWith]

/-- What a userinfo does from its first colon on, or without one, with its at sign. -/
def savePassword (rest : Text) : Text → State → Except Fault State
  | [], s => acts (64 :: rest) s (3, .saveUserinfo)
  | colon :: behind, s => do
      let s ← acts (colon :: behind ++ 64 :: rest) s (5, .saveHost)
      let s ← (if behind.head?.any isDigit then acts (behind ++ 64 :: rest) s (6, .markh)
        else pure s)
      acts (64 :: rest) s (3, .saveUserinfo)

/-- What a userinfo does that has a colon in front of `password`, or no colon, with its at sign. -/
def saveUser (user password rest : Text) (s : State) : Except Fault State := do
  let s ← (if user ++ password = [] then pure s
    else acts (user ++ (password ++ 64 :: rest)) s (4, .markh))
  savePassword rest password s

/-- What the actions on a password and the sign behind it do. -/
theorem replay_password (password rest : Text) (s : State) :
    replay order acts (passwordTrace password ++ [{(3, .saveUserinfo)}]) (password ++ 64 :: rest) s =
      savePassword rest password s := by
  have last (s : State) : replay order acts [{(3, Act.saveUserinfo)}] (64 :: rest) s =
      acts (64 :: rest) s (3, .saveUserinfo) := by
    rw [replay, perform_singleton (once_of_mem _ (by decide))]
    exact bind_pure _
  cases password with
  | nil => exact last s
  | cons colon_ behind =>
      have middle : (lead (if behind.head?.any isDigit then {((6 : Nat), Act.markh)} else ∅)
          (quiet behind.length)).length = behind.length := by simp [length_lead, quiet]
      rw [passwordTrace, List.cons_append, List.cons_append, replay,
        perform_singleton (once_of_mem _ (by decide)), savePassword]
      refine bind_congr fun s => ?_
      rw [List.tail_cons, replay_append middle]
      cases behind with
      | nil => exact (bind_congr last : (pure s >>= _) = (pure s >>= _))
      | cons first behind =>
          rw [List.head?_cons, Option.any_some]
          cases isDigit first with
          | true =>
              have entered : replay order acts (lead {((6 : Nat), Act.markh)}
                  (quiet (first :: behind).length)) (first :: behind ++ 64 :: rest) s =
                    acts (first :: behind ++ 64 :: rest) s (6, .markh) := by
                rw [List.length_cons, quiet, List.replicate_succ,
                  replay_lead (once_of_mem _ (by decide))
                    (@before_number _ [] 7 (by decide) (by decide)) (by simp)]
                exact (bind_congr fun s => replay_quiet (behind.length + 1)).trans (bind_pure _)
              rw [if_pos rfl, if_pos rfl, entered]
              exact bind_congr last
          | false =>
              rw [if_neg Bool.false_ne_true, if_neg Bool.false_ne_true, lead_empty, replay_quiet]
              exact bind_congr last

/-- What the actions on a name, a password and the sign behind them do. -/
theorem replay_user (user password rest : Text) (s : State) :
    replay order acts (userTrace user password ++ [{(3, .saveUserinfo)}])
      (user ++ (password ++ 64 :: rest)) s = saveUser user password rest s := by
  rw [saveUser]
  by_cases none_ : user ++ password = []
  · obtain ⟨rfl, rfl⟩ := List.append_eq_nil_iff.mp none_
    exact (replay_password [] rest s).trans (pure_bind s _).symm
  · have rest_ (s : State) : replay order acts
        (quiet user.length ++ passwordTrace password ++ [{(3, .saveUserinfo)}])
        (user ++ (password ++ 64 :: rest)) s = savePassword rest password s := by
      rw [List.append_assoc, replay_append (by simp [quiet]), replay_quiet, pure_bind,
        replay_password]
    -- what comes first is at most the host that is saved at the colon
    obtain ⟨firsts, executed, same, own⟩ : ∃ firsts executed,
        quiet user.length ++ passwordTrace password = firsts :: executed ∧
          ∀ action ∈ firsts, action ∈ [((5 : Nat), Act.saveHost)] := by
      cases user with
      | cons first user => exact ⟨∅, _, rfl, by simp⟩
      | nil =>
          cases password with
          | nil => exact absurd rfl none_
          | cons colon_ behind => exact ⟨{(5, .saveHost)}, _, rfl, by simp⟩
    have marked : replay order acts
        (lead {(4, .markh)} (firsts :: (executed ++ [{(3, .saveUserinfo)}])))
        (user ++ (password ++ 64 :: rest)) s = _ :=
      replay_lead (once_of_mem _ (by decide)) (before_number 5 (by decide) (by decide)) own
    have whole : userTrace user password ++ [{(3, Act.saveUserinfo)}] =
        lead {(4, .markh)} (firsts :: (executed ++ [{(3, .saveUserinfo)}])) := by
      rw [userTrace, same]
      rfl
    rw [if_neg none_, whole, marked]
    refine bind_congr fun s => ?_
    rw [← rest_ s, same, List.cons_append]

/-- An authority with a userinfo. -/
theorem authority_user_does {effect : Text → State → Except Fault State}
    (fits : Fits userinfo text) (does : Does order acts hostPort host_ effect) :
    Does order acts (authorityAt 2) (text ++ 64 :: host_) fun later s => (do
      let s ← acts (text ++ 64 :: host_ ++ later) s (2, .markh)
      let s ← saveUser (userOf text) (passwordOf text) (host_ ++ later) s
      effect later s) := by
  have whole : userOf text ++ passwordOf text = text := List.takeWhile_append_dropWhile
  obtain ⟨executed, atEnd, reads, same⟩ := does
  have inner : Does order acts (cat (opt (userinfoAt 3)) hostPort) (text ++ 64 :: host_)
      fun later s => (do
        let s ← saveUser (userOf text) (passwordOf text) (host_ ++ later) s
        effect later s) := by
    refine ⟨userTrace (userOf text) (passwordOf text) ++ {(3, .saveUserinfo)} :: executed, atEnd,
      ?_, fun later s => ?_⟩
    · rw [List.append_assoc]
      exact user_reads fits reads
    · have front : (userTrace (userOf text) (passwordOf text) ++ [{(3, Act.saveUserinfo)}]).length =
          (text ++ [64]).length := by
        rw [List.length_append, length_userTrace, whole, List.length_append]
        rfl
      have split : text ++ 64 :: host_ ++ later = (text ++ [64]) ++ (host_ ++ later) := by simp
      have again : (text ++ [64]) ++ (host_ ++ later) =
          userOf text ++ (passwordOf text ++ 64 :: (host_ ++ later)) := by
        rw [← List.append_assoc (userOf text), whole]
        simp
      dsimp only
      rw [List.append_cons, split, replay_append front, again, replay_user, bind_assoc]
      exact bind_congr fun s => same later s
  exact inner.entering (once_of_mem _ (by decide)) (before_number 3 (by decide) (by decide))

/-! ### References with an authority -/

/-- A path behind an authority begins with a slash. -/
theorem begins_path (begins : (pathAt n).begins letter = true) : letter ∈ ([47] : Text) := by
  by_contra other
  rw [List.mem_singleton] at other
  simp [pathAt, field, pathAbempty, segments, slash, char, Machine.opt, Machine.begins,
    Machine.final, other] at begins

/-- No path without authority begins with two slashes. -/
theorem rooted_quiet (text : Text) : doings [cat rootedPath (queryAt 10)] (47 :: 47 :: text) =
    quiet ((47 :: 47 :: text).length + 1) := by
  have first : next [cat rootedPath (queryAt 10)] 47 =
      [cat (cat lambda (opt (cat segmentNz segments))) (queryAt 10)] := rfl
  have nothing : fired [cat rootedPath (queryAt 10)] 47 = [] := rfl
  have second : (cat (cat lambda (opt (cat segmentNz segments))) (queryAt 10)).begins 47 = false :=
    rfl
  rw [doings_cons, first, nothing, doings_of_not_begins second]
  simp [quiet, List.replicate_succ]

/-- A reference with a scheme and an authority. -/
theorem network_does {scheme authority path : Text} {query fragment : Option Text}
    {effect : Text → State → Except Fault State} (fitsScheme : Fits schemeText scheme)
    (does : Does order acts (authorityAt 2) authority effect) (fits : Fits pathAbempty path)
    (fitsQuery : ∀ text ∈ query, Fits queryText text)
    (fitsFragment : ∀ text ∈ fragment, Fits queryText text) :
    Does order acts main
      (scheme ++ 58 :: 47 :: 47 :: (authority ++ path ++ (part 63 query ++ part 35 fragment)))
      fun later s => (do
        let s ← saveField (0, .marku) (1, .saveScheme) scheme
          (58 :: 47 :: 47 :: (authority ++ path ++ (part 63 query ++ part 35 fragment)) ++ later) s
        let s ← effect (path ++ (part 63 query ++ part 35 fragment ++ later)) s
        let s ← saveField (8, .markh) (9, .savePath) path
          (part 63 query ++ part 35 fragment ++ later) s
        saveTail 10 query fragment later s) := by
  have pathDoes : Does order acts (pathAt 8) path _ :=
    field_does (8, .markh) (9, .savePath) (by decide) (by decide) (by decide) rfl fits
  have joined := does.append_apart pathDoes (before_number 8 (by decide) (by decide))
    (show Machine.avoids [47] _ = true from rfl) fun letter => begins_path
  have slashes := char_does 47 (char_does 47 joined)
  have whole := slashes.append_apart (tail_does (.inl rfl) fitsQuery fitsFragment)
    (before_number 10 (by decide) (by decide)) (show Machine.avoids [63, 35] _ = true from rfl)
    fun letter begins => by
      by_contra other
      simp only [List.mem_cons, List.not_mem_nil, or_false, not_or] at other
      rw [begins_query other] at begins
      cases begins
  have behind := main_does fitsScheme (whole.cat_alt_left (rooted_quiet _))
  simp only [bind_assoc] at behind
  exact behind

end Sylar.UriParser
