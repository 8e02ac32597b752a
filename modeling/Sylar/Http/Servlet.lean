import Sylar.Http.Framing
import Sylar.Library.Registry

/-!
# The dispatch of requests

`ServletDispatch` of `servlet.cpp`, and what it finds after any calls: the servlet that was added
last for the path, then the first pattern that still stands and matches, then the default.
The calls that read or change the maps take the lock for their whole length, so that those of
threads are a history. `getDefault` and `setDefault` take no lock: a history has them where they
read or write the member, and does not have those that race with another call.
-/

namespace Sylar.Http

open Library (Registration)
open Library.Registration (Stands standing)

/-- `IServletCreator`. A servlet is never a null pointer. -/
inductive IServletCreator (S : Type) where
  | holdServletCreator (slt : S)
  /-- `ServletCreator<T>`, which makes a `T`. -/
  | servletCreator (make : Unit → S)

/-- `get`, which makes a servlet or returns the one it holds. -/
def IServletCreator.get {S : Type} : IServletCreator S → S
  | holdServletCreator slt => slt
  | servletCreator make => make ()

structure ServletDispatch (S : Type) where
  datas : Std.ExtTreeMap (List UInt8) (IServletCreator S)
  globs : List (List UInt8 × IServletCreator S)
  default_ : S

namespace ServletDispatch

variable {S : Type}

/-- The constructor, with the `NotFoundServlet` that it makes. -/
def new (notFound : S) : ServletDispatch S := ⟨∅, [], notFound⟩

def addServletCreator (dispatch : ServletDispatch S) (uri : List UInt8)
    (creator : IServletCreator S) : ServletDispatch S :=
  { dispatch with datas := dispatch.datas.insert uri creator }

/-- `addServlet`; a callback is wrapped in a `FunctionServlet` first. -/
def addServlet (dispatch : ServletDispatch S) (uri : List UInt8) (slt : S) : ServletDispatch S :=
  { dispatch with datas := dispatch.datas.insert uri (.holdServletCreator slt) }

/-- The loop that erases the first entry with a pattern. -/
def eraseGlob (uri : List UInt8) :
    List (List UInt8 × IServletCreator S) → List (List UInt8 × IServletCreator S)
  | [] => []
  | it :: rest => if it.1 = uri then rest else it :: eraseGlob uri rest

/-- `addGlobServletCreator`, at the end. -/
def addGlobServletCreator (dispatch : ServletDispatch S) (uri : List UInt8)
    (creator : IServletCreator S) : ServletDispatch S :=
  { dispatch with globs := eraseGlob uri dispatch.globs ++ [(uri, creator)] }

/-- `addGlobServlet`, at the end. -/
def addGlobServlet (dispatch : ServletDispatch S) (uri : List UInt8) (slt : S) :
    ServletDispatch S :=
  { dispatch with globs := eraseGlob uri dispatch.globs ++ [(uri, .holdServletCreator slt)] }

def delServlet (dispatch : ServletDispatch S) (uri : List UInt8) : ServletDispatch S :=
  { dispatch with datas := dispatch.datas.erase uri }

/-- `delGlobServlet`, of the first with the pattern. -/
def delGlobServlet (dispatch : ServletDispatch S) (uri : List UInt8) : ServletDispatch S :=
  { dispatch with globs := eraseGlob uri dispatch.globs }

def setDefault (dispatch : ServletDispatch S) (v : S) : ServletDispatch S :=
  { dispatch with default_ := v }

/-- `getServlet`, by the exact uri. -/
def getServlet (dispatch : ServletDispatch S) (uri : List UInt8) : Option S :=
  dispatch.datas[uri]?.map (·.get)

/-- `getGlobServlet`, by the exact pattern. -/
def getGlobServlet (dispatch : ServletDispatch S) (uri : List UInt8) : Option S :=
  (dispatch.globs.find? (·.1 = uri)).map (·.2.get)

/-- `getMatchedServlet`. Whether a pattern matches is what `fnmatch` says. -/
def getMatchedServlet (fnmatch : List UInt8 → List UInt8 → Bool) (dispatch : ServletDispatch S)
    (uri : List UInt8) : S :=
  match dispatch.datas[uri]? with
  | some creator => creator.get
  | none =>
      match dispatch.globs.find? (fnmatch ·.1 uri) with
      | some it => it.2.get
      | none => dispatch.default_

/-- A call that changes the dispatch. -/
inductive Call (S : Type) where
  | addServlet (uri : List UInt8) (slt : S)
  | addServletCreator (uri : List UInt8) (creator : IServletCreator S)
  | addGlobServlet (uri : List UInt8) (slt : S)
  | addGlobServletCreator (uri : List UInt8) (creator : IServletCreator S)
  | delServlet (uri : List UInt8)
  | delGlobServlet (uri : List UInt8)
  | setDefault (v : S)

namespace Call

/-- The dispatch behind a call. -/
def apply (dispatch : ServletDispatch S) : Call S → ServletDispatch S
  | addServlet uri slt => dispatch.addServlet uri slt
  | addServletCreator uri creator => dispatch.addServletCreator uri creator
  | addGlobServlet uri slt => dispatch.addGlobServlet uri slt
  | addGlobServletCreator uri creator => dispatch.addGlobServletCreator uri creator
  | delServlet uri => dispatch.delServlet uri
  | delGlobServlet uri => dispatch.delGlobServlet uri
  | setDefault v => dispatch.setDefault v

/-- What a call does to the servlets for paths. -/
def exact_ : Call S → Option (Registration (List UInt8) (IServletCreator S))
  | addServlet uri slt => some (.put uri (.holdServletCreator slt))
  | addServletCreator uri creator => some (.put uri creator)
  | delServlet uri => some (.delete uri)
  | addGlobServlet .. | addGlobServletCreator .. | delGlobServlet _ | setDefault _ => none

/-- What a call does to the patterns. -/
def glob : Call S → Option (Registration (List UInt8) (IServletCreator S))
  | addGlobServlet uri slt => some (.put uri (.holdServletCreator slt))
  | addGlobServletCreator uri creator => some (.put uri creator)
  | delGlobServlet uri => some (.delete uri)
  | addServlet .. | addServletCreator .. | delServlet _ | setDefault _ => none

/-- The default that a call sets. -/
def default_ : Call S → Option S
  | setDefault v => some v
  | addServlet .. | addServletCreator .. | addGlobServlet .. | addGlobServletCreator ..
  | delServlet _ | delGlobServlet _ => none

end Call

/-- The dispatch after the calls of a history. -/
def run (notFound : S) (calls : List (Call S)) : ServletDispatch S :=
  calls.foldl Call.apply (new notFound)

/-- The servlet for a path after a history. -/
inductive Routed (fnmatch : List UInt8 → List UInt8 → Bool) (notFound : S) (calls : List (Call S))
    (uri : List UInt8) : S → Prop where
  /-- What was added last for the path, unless it was deleted. -/
  | exact_ {creator : IServletCreator S}
      {before later : List (Registration (List UInt8) (IServletCreator S))}
      (stands : Stands (calls.filterMap Call.exact_) (uri, creator) before later) :
      Routed fnmatch notFound calls uri creator.get
  /-- Of the patterns that match the one that was added first, where a pattern that is added again
  is a new one. -/
  | glob {it : List UInt8 × IServletCreator S}
      {before later : List (Registration (List UInt8) (IServletCreator S))}
      (inexact : ∀ creator before later,
        ¬Stands (calls.filterMap Call.exact_) (uri, creator) before later)
      (stands : Stands (calls.filterMap Call.glob) it before later)
      (found : fnmatch it.1 uri = true)
      (earlier : ∀ other before' later', Stands (calls.filterMap Call.glob) other before' later' →
        before'.length < before.length → fnmatch other.1 uri = false) :
      Routed fnmatch notFound calls uri it.2.get
  | default_
      (inexact : ∀ creator before later,
        ¬Stands (calls.filterMap Call.exact_) (uri, creator) before later)
      (unmatched : ∀ it before later, Stands (calls.filterMap Call.glob) it before later →
        fnmatch it.1 uri = false) :
      Routed fnmatch notFound calls uri (((calls.filterMap Call.default_).getLast?).getD notFound)

variable {fnmatch : List UInt8 → List UInt8 → Bool} {notFound : S} {calls : List (Call S)}
  {uri : List UInt8}

theorem eraseGlob_eq (uri : List UInt8) (globs : List (List UInt8 × IServletCreator S)) :
    eraseGlob uri globs = globs.eraseP (·.1 = uri) := by
  induction globs with
  | nil => rfl
  | cons it rest inductionHypothesis =>
      rw [eraseGlob, List.eraseP_cons, inductionHypothesis]
      by_cases same : it.1 = uri
      · simp [same]
      · simp [same]

theorem run_concat (notFound : S) (calls : List (Call S)) (call : Call S) :
    run notFound (calls ++ [call]) = call.apply (run notFound calls) := by
  rw [run, List.foldl_append]
  rfl

/-- What a call does to the patterns, or that it does nothing to them. -/
theorem Call.apply_globs (dispatch : ServletDispatch S) (call : Call S) :
    (call.apply dispatch).globs =
      (call.glob.elim dispatch.globs fun registration => registration.apply dispatch.globs) := by
  cases call with
  | addGlobServlet uri slt =>
      exact congrArg (· ++ [(uri, IServletCreator.holdServletCreator slt)]) (eraseGlob_eq _ _)
  | addGlobServletCreator uri creator => exact congrArg (· ++ [(uri, creator)]) (eraseGlob_eq _ _)
  | delGlobServlet uri => exact eraseGlob_eq _ _
  | addServlet | addServletCreator | delServlet | setDefault => rfl

/-- The patterns are those that stand. -/
theorem run_globs (notFound : S) (calls : List (Call S)) :
    (run notFound calls).globs = standing (calls.filterMap Call.glob) := by
  induction calls using List.reverseRecOn with
  | nil => rfl
  | append_singleton calls call inductionHypothesis =>
      rw [run_concat, Call.apply_globs, inductionHypothesis, List.filterMap_append]
      cases about : call.glob with
      | none => simp [about]
      | some registration =>
          rw [Option.elim_some, ← Registration.standing_concat]
          simp [about]

/-- What a registration says about a path. -/
def Call.found (uri : List UInt8) :
    Registration (List UInt8) (IServletCreator S) → Option (IServletCreator S)
  | .put key creator => if key = uri then some creator else none
  | .delete _ => none

/-- What a call does to the servlets for paths, or that it does nothing to them. -/
theorem Call.apply_datas (dispatch : ServletDispatch S) (call : Call S) (uri : List UInt8) :
    (call.apply dispatch).datas[uri]? =
      (call.exact_.elim dispatch.datas[uri]? fun registration =>
        if registration.key = uri then Call.found uri registration else dispatch.datas[uri]?) := by
  have inserted (key : List UInt8) (creator : IServletCreator S) :
      (dispatch.datas.insert key creator)[uri]? =
        if key = uri then Call.found uri (.put key creator) else dispatch.datas[uri]? := by
    rw [Std.ExtTreeMap.getElem?_insert, Call.found]
    by_cases same : key = uri
    · simp [same]
    · simp [same]
  cases call with
  | addServlet key slt => exact inserted key _
  | addServletCreator key creator => exact inserted key creator
  | delServlet key =>
      have erased : (dispatch.datas.erase key)[uri]? =
          if key = uri then none else dispatch.datas[uri]? := by
        rw [Std.ExtTreeMap.getElem?_erase]
        by_cases same : key = uri
        · simp [same]
        · simp [same]
      exact erased
  | addGlobServlet | addGlobServletCreator | delGlobServlet | setDefault => rfl

/-- The servlets for paths are those that stand. -/
theorem run_datas (notFound : S) (calls : List (Call S)) (uri : List UInt8)
    (creator : IServletCreator S) : (run notFound calls).datas[uri]? = some creator ↔
      ∃ before later, Stands (calls.filterMap Call.exact_) (uri, creator) before later := by
  induction calls using List.reverseRecOn with
  | nil =>
      refine ⟨fun found => ?_, ?_⟩
      · exact absurd found (by simp [run, new])
      · rintro ⟨before, later, split, -⟩
        cases before <;> cases split
  | append_singleton calls call inductionHypothesis =>
      rw [run_concat, Call.apply_datas, List.filterMap_append]
      cases about : call.exact_ with
      | none =>
          rw [Option.elim_none, inductionHypothesis]
          simp [about]
      | some registration =>
          have last : [call].filterMap Call.exact_ = [registration] := by simp [about]
          rw [Option.elim_some, last]
          simp only [Registration.stands_concat]
          by_cases same : registration.key = uri
          · rw [if_pos same]
            constructor
            · intro found
              cases registration with
              | put key value =>
                  obtain rfl : key = uri := same
                  rw [Call.found, if_pos rfl] at found
                  cases found
                  exact ⟨_, [], .inl ⟨rfl, rfl, rfl⟩⟩
              | delete key => cases found
            · rintro ⟨before, later, ⟨-, -, rfl⟩ | ⟨rest, -, other, -⟩⟩
              · exact if_pos rfl
              · exact absurd same other
          · rw [if_neg same, inductionHypothesis]
            constructor
            · rintro ⟨before, later, stands⟩
              exact ⟨before, later ++ [registration], .inr ⟨later, rfl, same, stands⟩⟩
            · rintro ⟨before, later, ⟨-, -, rfl⟩ | ⟨rest, -, -, stands⟩⟩
              · exact absurd rfl same
              · exact ⟨before, rest, stands⟩

theorem run_default (notFound : S) (calls : List (Call S)) :
    (run notFound calls).default_ = ((calls.filterMap Call.default_).getLast?).getD notFound := by
  induction calls using List.reverseRecOn with
  | nil => rfl
  | append_singleton calls call inductionHypothesis =>
      rw [run_concat, List.filterMap_append]
      cases call with
      | setDefault v => simp [Call.apply, setDefault, Call.default_]
      | addServlet | addServletCreator | addGlobServlet | addGlobServletCreator | delServlet
      | delGlobServlet =>
          simpa [Call.apply, addServlet, addServletCreator, addGlobServlet, addGlobServletCreator,
            delServlet, delGlobServlet, Call.default_] using inductionHypothesis

/-- No servlet is found for a path when no registration for it stands. -/
theorem datas_eq_none_iff : (run notFound calls).datas[uri]? = none ↔ ∀ creator before later,
    ¬Stands (calls.filterMap Call.exact_) (uri, creator) before later := by
  rw [Option.eq_none_iff_forall_ne_some]
  refine forall_congr' fun creator => ?_
  rw [Ne, run_datas]
  simp only [not_exists]

/-- What the history says is found. -/
theorem getMatchedServlet_routed {slt : S} (routed : Routed fnmatch notFound calls uri slt) :
    (run notFound calls).getMatchedServlet fnmatch uri = slt := by
  have globs := run_globs notFound calls
  rcases routed with stands | ⟨inexact, stands, found, earlier⟩ | ⟨inexact, unmatched⟩
  · rw [getMatchedServlet, (run_datas notFound calls uri _).mpr ⟨_, _, stands⟩]
  · have matched := (Registration.find?_standing_eq_some (fnmatch · uri)).mpr
      ⟨_, _, stands, found, earlier⟩
    rw [getMatchedServlet, datas_eq_none_iff.mpr inexact, globs]
    simp only [matched]
  · have matched : (standing (calls.filterMap Call.glob)).find? (fnmatch ·.1 uri) = none := by
      refine List.find?_eq_none.mpr fun it inside => ?_
      obtain ⟨before, later, stands⟩ := Registration.mem_standing_iff.mp inside
      exact Bool.eq_false_iff.mp (unmatched it before later stands)
    rw [getMatchedServlet, datas_eq_none_iff.mpr inexact, globs]
    simp only [matched, run_default]

/-- After any calls the servlet for a path is the one that the history says. -/
theorem getMatchedServlet_run {slt : S} :
    (run notFound calls).getMatchedServlet fnmatch uri = slt ↔
      Routed fnmatch notFound calls uri slt := by
  refine ⟨?_, getMatchedServlet_routed⟩
  rintro rfl
  rw [getMatchedServlet, run_globs]
  cases found : (run notFound calls).datas[uri]? with
  | some creator =>
      obtain ⟨before, later, stands⟩ := (run_datas notFound calls uri creator).mp found
      exact .exact_ stands
  | none =>
      have inexact := datas_eq_none_iff.mp found
      cases matched : (standing (calls.filterMap Call.glob)).find? (fnmatch ·.1 uri) with
      | some it =>
          obtain ⟨before, later, stands, found, earlier⟩ :=
            (Registration.find?_standing_eq_some (fnmatch · uri)).mp matched
          exact .glob inexact stands found earlier
      | none =>
          have unmatched := List.find?_eq_none.mp matched
          simp only [run_default]
          refine .default_ inexact fun it before later stands => ?_
          have inside := Registration.mem_standing_iff.mpr ⟨before, later, stands⟩
          exact Bool.eq_false_iff.mpr (unmatched it inside)

end ServletDispatch

/-! ### Requests that nothing is registered for -/

/-- `Servlet::handle`, which changes the response. Its result is not looked at. -/
abbrev Servlet := HttpRequest → HttpResponse → HttpResponse

/-- `handle` of a `NotFoundServlet` with a name. -/
def notFoundServlet (name : List UInt8) : Servlet := fun _ response =>
  let response := response.setStatus 404
  let response := response.setHeader (bytes "Server") (bytes "sylar/1.0.0")
  let response := response.setHeader (bytes "Content-Type") (bytes "text/html")
  response.setBody (bytes ("<html><head><title>404 Not Found" ++
    "</title></head><body><center><h1>404 Not Found</h1></center><hr><center>") ++ name ++
    bytes "</center></body></html>")

namespace ServletDispatch

/-- `handle`. -/
def handle (fnmatch : List UInt8 → List UInt8 → Bool) (dispatch : ServletDispatch Servlet) :
    Servlet := fun request response =>
  dispatch.getMatchedServlet fnmatch request.path request response

/-- A path that no standing registration is for is not found. -/
theorem handle_unrouted {fnmatch : List UInt8 → List UInt8 → Bool} {name : List UInt8}
    {calls : List (Call Servlet)} {request : HttpRequest}
    (kept : calls.filterMap Call.default_ = [])
    (inexact : ∀ creator before later,
      ¬Stands (calls.filterMap Call.exact_) (request.path, creator) before later)
    (unmatched : ∀ it before later, Stands (calls.filterMap Call.glob) it before later →
      fnmatch it.1 request.path = false) (response : HttpResponse) :
    ((run (notFoundServlet name) calls).handle fnmatch request response).status = 404 := by
  have routed := getMatchedServlet_routed (.default_ inexact unmatched :
    Routed fnmatch (notFoundServlet name) calls request.path _)
  rw [handle, routed, kept]
  rfl

end ServletDispatch

end Sylar.Http
