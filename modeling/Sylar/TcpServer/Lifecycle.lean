import Sylar.Socket.Descriptors
import Sylar.TcpServer.Model

/-!
# The life of a server

A socket is destroyed with its last reference, so that no run of a server loses a descriptor.
A server that is started again before the functions of its last start have returned, though,
goes on accepting on sockets that were closed.
-/

namespace Sylar.TcpServer

open Library

variable {I : Type} [DecidableEq I] {t next : TcpServer I} {i j : I} {dropped : List Nat}

/-- The descriptors are accounted for, and the objects are those that are referred to. -/
structure Kept (dropped : List Nat) (t : TcpServer I) : Prop where
  accounted : t.sockets.Accounted dropped
  exist : ∀ i, t.sockets.sockets i ≠ none ↔ i ∈ t.references

omit [DecidableEq I] in
theorem mem_references :
    i ∈ t.references ↔ i ∈ t.socks ∨ ∃ task ∈ t.tasks, task.socket = some i := by
  rw [references, List.mem_append, List.mem_filterMap]

/-- What a step leaves of a server when it changes its sockets only. -/
structure SameTasks (t next : TcpServer I) : Prop where
  socks : next.socks = t.socks
  isStop : next.isStop = t.isStop
  tasks : next.tasks = t.tasks

/-- The objects without a reference are destroyed. -/
theorem dropRefs_kept {ids : List I} (accounted : t.sockets.Accounted dropped)
    (alive : ∀ i ∈ t.references, t.sockets.sockets i ≠ none)
    (covered : ∀ i, t.sockets.sockets i ≠ none → i ∈ t.references ∨ i ∈ ids)
    (taken : t.dropRefs ids = some next) :
    next.Kept dropped ∧ SameTasks t next ∧
      ∀ i ∈ t.references, next.sockets.sockets i = t.sockets.sockets i := by
  induction ids generalizing t with
  | nil =>
      cases taken
      refine ⟨⟨accounted, fun i => ⟨fun there => ?_, alive i⟩⟩, ⟨rfl, rfl, rfl⟩, fun _ _ => rfl⟩
      exact (covered i there).resolve_right List.not_mem_nil
  | cons k rest inductionHypothesis =>
      rw [dropRefs] at taken
      split at taken
      · rename_i stays
        refine inductionHypothesis accounted alive (fun i there => ?_) taken
        rcases covered i there with referenced | member
        · exact .inl referenced
        · rcases List.mem_cons.mp member with rfl | member
          · refine .inl (stays.resolve_right fun gone => ?_)
            exact there (Option.isNone_iff_eq_none.mp gone)
          · exact .inr member
      · rename_i leaves
        obtain ⟨sockets, destroys, taken⟩ := Option.bind_eq_some_iff.mp taken
        have outside : k ∉ t.references := fun member => leaves (.inl member)
        have kept : ∀ i ∈ t.references, sockets.sockets i = t.sockets.sockets i := by
          intro i member
          exact Sockets.destroy_of_ne destroys fun same => outside (same ▸ member)
        have fewer : ∀ i, sockets.sockets i ≠ none → i ∈ t.references ∨ i ∈ rest := by
          intro i there
          have other : i ≠ k := by
            rintro rfl
            exact there (Sockets.destroy_self destroys)
          have before : t.sockets.sockets i ≠ none :=
            (Sockets.destroy_of_ne destroys other) ▸ there
          rcases covered i before with referenced | member
          · exact .inl referenced
          · exact .inr ((List.mem_cons.mp member).resolve_left other)
        obtain ⟨result, ⟨socks, isStop, tasks⟩, same⟩ :=
          inductionHypothesis (accounted.destroy destroys)
            (fun i member => (kept i member).symm ▸ alive i member) fewer taken
        exact ⟨result, ⟨socks, isStop, tasks⟩, fun i member =>
          (same i member).trans (kept i member)⟩

/-- The list lets its sockets go. -/
theorem clearSocks_kept (kept : t.Kept dropped)
    (taken : dropRefs { t with socks := [] } t.socks = some next) :
    next.Kept dropped ∧ SameTasks { t with socks := [] } next ∧
      ∀ i ∈ t.tasks.filterMap Task.socket, next.sockets.sockets i = t.sockets.sockets i := by
  refine dropRefs_kept kept.accounted (fun i member => ?_) (fun i there => ?_) taken
  · exact (kept.exist i).mpr (List.mem_append_right _ member)
  · exact (List.mem_append.mp ((kept.exist i).mp there)).symm

/-- A function returns. -/
theorem release_kept {task : Task I} (kept : t.Kept dropped) (socket : task.socket = some i)
    (taken : dropRefs { t with tasks := t.tasks.erase task } [i] = some next) :
    next.Kept dropped ∧ SameTasks { t with tasks := t.tasks.erase task } next ∧
      ∀ j, j ∈ t.socks ∨ (∃ other ∈ t.tasks.erase task, other.socket = some j) →
        next.sockets.sockets j = t.sockets.sockets j := by
  let released : TcpServer I := { t with tasks := t.tasks.erase task }
  have accounted : released.sockets.Accounted dropped := kept.accounted
  have alive : ∀ j ∈ released.references, t.sockets.sockets j ≠ none := by
    intro j member
    refine (kept.exist j).mpr (mem_references.mpr ((mem_references.mp member).imp_right ?_))
    exact fun ⟨other, inside, bound⟩ => ⟨other, List.mem_of_mem_erase inside, bound⟩
  have covered : ∀ j, t.sockets.sockets j ≠ none → j ∈ released.references ∨ j ∈ [i] := by
    intro j there
    rcases mem_references.mp ((kept.exist j).mp there) with member | ⟨other, inside, bound⟩
    · exact .inl (mem_references.mpr (.inl member))
    · by_cases same : other = task
      · rw [same, socket] at bound
        cases bound
        exact .inr (List.mem_singleton_self _)
      · refine .inl (mem_references.mpr (.inr ⟨other, ?_, bound⟩))
        exact (List.mem_erase_of_ne same).mpr inside
  obtain ⟨result, same, alike⟩ := dropRefs_kept accounted alive covered taken
  exact ⟨result, same, fun j member => alike j (mem_references.mpr member)⟩

theorem closeSocks_spec {ids : List I} {s after : Sockets I} (accounted : s.Accounted dropped)
    (taken : closeSocks s ids = some after) :
    after.Accounted dropped ∧ (∀ i, after.sockets i ≠ none ↔ s.sockets i ≠ none) ∧
      (∀ i ∉ ids, after.sockets i = s.sockets i) ∧
      ∀ i, i ∈ ids ∨ s.descriptor i = none → after.descriptor i = none := by
  induction ids generalizing s with
  | nil =>
      cases taken
      refine ⟨accounted, fun _ => Iff.rfl, fun _ _ => rfl, fun i empty => ?_⟩
      exact empty.resolve_left List.not_mem_nil
  | cons k rest inductionHypothesis =>
      obtain ⟨closed, closes, taken⟩ := Option.bind_eq_some_iff.mp taken
      obtain ⟨result, exist, same, empty⟩ := inductionHypothesis (accounted.close closes) taken
      obtain ⟨before, there, emptied⟩ := Sockets.close_self closes
      refine ⟨result, fun i => (exist i).trans ?_, fun i outside => ?_, fun i either => ?_⟩
      · by_cases own : i = k
        · subst own
          exact iff_of_true there before
        · rw [Sockets.close_of_ne closes own]
      · rw [List.mem_cons, not_or] at outside
        rw [same i outside.2, Sockets.close_of_ne closes outside.1]
      · by_cases own : i = k
        · subst own
          exact empty i (.inr emptied)
        · refine empty i (either.imp (fun member => ?_) fun none_ => ?_)
          · exact (List.mem_cons.mp member).resolve_left own
          · rw [Sockets.descriptor_congr (Sockets.close_of_ne closes own), none_]

/-- All sockets of the list are closed and let go. -/
theorem closeAll_kept (kept : t.Kept dropped) (taken : t.closeAll = some next) :
    next.Kept dropped ∧ SameTasks { t with socks := [] } next ∧
      ∀ task ∈ t.tasks, ∀ i, task.socket = some i →
        i ∈ t.socks ∨ t.sockets.descriptor i = none → next.sockets.descriptor i = none := by
  obtain ⟨sockets, closes, taken⟩ := Option.bind_eq_some_iff.mp taken
  obtain ⟨accounted, exist, -, empty⟩ := closeSocks_spec kept.accounted closes
  have closed : Kept dropped { t with sockets := sockets } :=
    ⟨accounted, fun i => (exist i).trans (kept.exist i)⟩
  obtain ⟨result, same, alike⟩ := clearSocks_kept closed taken
  refine ⟨result, ⟨same.socks, same.isStop, same.tasks⟩, fun task inside i bound either => ?_⟩
  rw [Sockets.descriptor_congr (alike i (List.mem_filterMap.mpr ⟨task, inside, bound⟩))]
  exact empty i either

/-- What the loop of `bind` does: it adds new sockets that are valid, and changes nothing that was
there. -/
structure Extends (t next : TcpServer I) : Prop where
  isStop : next.isStop = t.isStop
  tasks : next.tasks = t.tasks
  old : ∀ i, t.sockets.sockets i ≠ none → next.sockets.sockets i = t.sockets.sockets i
  grows : ∀ i ∈ t.socks, i ∈ next.socks
  new : ∀ i ∈ next.socks, i ∈ t.socks ∨
    t.sockets.sockets i = none ∧ next.sockets.descriptor i ≠ none

theorem bindOne_spec {attempt : Attempt I} {answer : Bool} (kept : t.Kept dropped)
    (taken : t.bindOne attempt = some (answer, next)) : next.Kept dropped ∧ Extends t next := by
  simp only [bindOne, Bind.bind, Option.bind_eq_some_iff] at taken
  obtain ⟨made, constructs, ⟨bound, s⟩, binds, listens, -, taken⟩ := taken
  obtain ⟨fresh, there⟩ := Sockets.construct_self constructs
  have accounted := (kept.accounted.construct constructs).bind binds
  have others : ∀ i, i ≠ attempt.sock → s.sockets i = t.sockets.sockets i := by
    intro i other
    rw [Sockets.bind_of_ne binds other, Sockets.construct_of_ne constructs other]
  have apart : ∀ i, t.sockets.sockets i ≠ none → i ≠ attempt.sock := by
    rintro i alive rfl
    exact alive fresh
  obtain ⟨exists_, valid⟩ := Sockets.bind_self binds
  split at taken
  · rename_i succeeds
    cases taken
    simp only [Bool.and_eq_true] at succeeds
    refine ⟨⟨accounted, fun i => ?_⟩, rfl, rfl, fun i alive => others i (apart i alive),
      fun i member => List.mem_append_left _ member, fun i member => ?_⟩
    · rw [mem_references]
      by_cases own : i = attempt.sock
      · subst own
        exact iff_of_true exists_ (.inl (List.mem_append_right _ (List.mem_singleton_self _)))
      · rw [others i own, kept.exist i, mem_references, List.mem_append, List.mem_singleton]
        exact or_congr_left (or_iff_left own).symm
    · rcases List.mem_append.mp member with member | own
      · exact .inl member
      · obtain rfl := List.mem_singleton.mp own
        exact .inr ⟨fresh, valid succeeds.1⟩
  · obtain ⟨destroyed, destroys, ⟨⟩⟩ := Option.bind_eq_some_iff.mp taken
    have same : ∀ i, i ≠ attempt.sock → destroyed.sockets i = t.sockets.sockets i := by
      intro i other
      rw [Sockets.destroy_of_ne destroys other, others i other]
    refine ⟨⟨accounted.destroy destroys, fun i => ?_⟩, rfl, rfl,
      fun i alive => same i (apart i alive), fun _ member => member, fun _ member => .inl member⟩
    by_cases own : i = attempt.sock
    · subst own
      refine iff_of_false (fun alive => alive (Sockets.destroy_self destroys)) fun member => ?_
      exact (kept.exist attempt.sock).mpr member fresh
    · rw [same i own]
      exact kept.exist i

theorem bindAll_spec {attempts : List (Attempt I)} {answer : Bool} (kept : t.Kept dropped)
    (taken : t.bindAll attempts = some (answer, next)) : next.Kept dropped ∧ Extends t next := by
  induction attempts generalizing t next answer with
  | nil =>
      cases taken
      exact ⟨kept, rfl, rfl, fun _ _ => rfl, fun _ member => member, fun _ member => .inl member⟩
  | cons attempt rest inductionHypothesis =>
      simp only [bindAll, Bind.bind, Option.bind_eq_some_iff] at taken
      obtain ⟨⟨first, middle⟩, one, ⟨others, last⟩, more, ⟨⟩⟩ := taken
      obtain ⟨keptMiddle, ahead⟩ := bindOne_spec kept one
      obtain ⟨keptLast, behind⟩ := inductionHypothesis keptMiddle more
      refine ⟨keptLast, behind.isStop.trans ahead.isStop, behind.tasks.trans ahead.tasks,
        fun i alive => ?_, fun i member => behind.grows i (ahead.grows i member), fun i member => ?_⟩
      · rw [behind.old i (ahead.old i alive ▸ alive), ahead.old i alive]
      · rcases behind.new i member with middle_ | ⟨fresh, valid⟩
        · rcases ahead.new i middle_ with old | ⟨fresh, valid⟩
          · exact .inl old
          · have there : middle.sockets.sockets i ≠ none :=
              (keptMiddle.exist i).mpr (mem_references.mpr (.inl middle_))
            refine .inr ⟨fresh, ?_⟩
            rwa [Sockets.descriptor_congr (behind.old i there)]
        · refine .inr ⟨?_, valid⟩
          by_contra alive
          exact alive ((ahead.old i alive).symm.trans fresh)

omit [DecidableEq I] in
/-- Functions come and go, and the sockets that are referred to stay the same. -/
theorem Kept.congr {tasks : List (Task I)} {isStop : Bool} (kept : t.Kept dropped)
    (more : ∀ task ∈ t.tasks, ∀ i, task.socket = some i → ∃ other ∈ tasks, other.socket = some i)
    (fewer : ∀ task ∈ tasks, ∀ i, task.socket = some i → i ∈ t.references) :
    Kept dropped { t with isStop := isStop, tasks := tasks } where
  accounted := kept.accounted
  exist i := by
    refine (kept.exist i).trans ⟨fun member => mem_references.mpr ?_, fun member => ?_⟩
    · exact (mem_references.mp member).imp_right fun ⟨task, inside, bound⟩ =>
        more task inside i bound
    · rcases mem_references.mp member with member | ⟨task, inside, bound⟩
      · exact mem_references.mpr (.inl member)
      · exact fewer task inside i bound

/-- A function that is erased was not the only one for its sockets, when another takes its place. -/
theorem exists_moved {tasks rest : List (Task I)} {task other place : Task I} (inside : task ∈ tasks)
    (bound : task.socket = some i) (put : other ∈ rest) (same : other.socket = place.socket) :
    ∃ found ∈ tasks.erase place ++ rest, found.socket = some i := by
  by_cases own : task = place
  · refine ⟨other, List.mem_append_right _ put, ?_⟩
    rw [same, ← own, bound]
  · exact ⟨task, List.mem_append_left _ ((List.mem_erase_of_ne own).mpr inside), bound⟩

omit [DecidableEq I] in
theorem mem_references_of_task {task : Task I} (inside : task ∈ t.tasks)
    (bound : task.socket = some i) : i ∈ t.references :=
  mem_references.mpr (.inr ⟨task, inside, bound⟩)

theorem bind_spec {empty : Bool} {attempts : List (Attempt I)} (kept : t.Kept dropped)
    (taken : t.bind empty attempts = some next) :
    next.Kept dropped ∧ next.isStop = t.isStop ∧ next.tasks = t.tasks ∧
      (∀ i ∈ t.tasks.filterMap Task.socket, next.sockets.sockets i = t.sockets.sockets i) ∧
      ∀ i ∈ next.socks, (i ∈ t.socks ∧ next.sockets.sockets i = t.sockets.sockets i) ∨
        (t.sockets.sockets i = none ∧ next.sockets.descriptor i ≠ none) := by
  obtain ⟨⟨all, bound⟩, binds, taken⟩ := Option.bind_eq_some_iff.mp taken
  obtain ⟨keptBound, ahead⟩ := bindAll_spec kept binds
  have there : ∀ i ∈ t.references, t.sockets.sockets i ≠ none := fun i => (kept.exist i).mpr
  dsimp only at taken
  generalize (empty && all) = unfailed at taken
  cases unfailed with
  | true =>
      cases taken
      refine ⟨keptBound, ahead.isStop, ahead.tasks, fun i member => ?_, fun i member => ?_⟩
      · exact ahead.old i (there i (List.mem_append_right _ member))
      · refine (ahead.new i member).imp_left fun old => ⟨old, ?_⟩
        exact ahead.old i (there i (List.mem_append_left _ old))
  | false =>
      obtain ⟨result, same, alike⟩ := clearSocks_kept keptBound taken
      refine ⟨result, same.isStop.trans ahead.isStop, same.tasks.trans ahead.tasks,
        fun i member => ?_, fun i member => ?_⟩
      · rw [alike i (ahead.tasks ▸ member)]
        exact ahead.old i (there i (List.mem_append_right _ member))
      · rw [same.socks] at member
        exact absurd member List.not_mem_nil

omit [DecidableEq I] in
theorem Kept.start (kept : t.Kept dropped) : t.start.Kept dropped := by
  unfold TcpServer.start
  split
  · refine kept.congr (fun task inside i bound => ?_) fun task inside i bound => ?_
    · exact ⟨task, List.mem_append_left _ inside, bound⟩
    · rcases List.mem_append.mp inside with inside | new
      · exact mem_references_of_task inside bound
      · obtain ⟨sock, member, rfl⟩ := List.mem_map.mp new
        cases bound
        exact mem_references.mpr (.inl member)
  · exact kept

omit [DecidableEq I] in
theorem Kept.stop (kept : t.Kept dropped) : t.stop.Kept dropped := by
  refine kept.congr (fun task inside i bound => ?_) fun task inside i bound => ?_
  · exact ⟨task, List.mem_append_left _ inside, bound⟩
  · rcases List.mem_append.mp inside with inside | new
    · exact mem_references_of_task inside bound
    · rw [List.mem_singleton.mp new] at bound
      cases bound

theorem Kept.test (kept : t.Kept dropped) (taken : t.step (.test i) = some next) :
    next.Kept dropped := by
  obtain ⟨inside, taken⟩ := Option.ite_none_right_eq_some.mp taken
  split at taken
  · exact (release_kept kept rfl taken).1
  · cases taken
    refine kept.congr (fun task member j bound => ?_) fun task member j bound => ?_
    · exact exists_moved member bound (List.mem_singleton_self _) rfl
    · rcases List.mem_append.mp member with member | own
      · exact mem_references_of_task (List.mem_of_mem_erase member) bound
      · rw [List.mem_singleton.mp own] at bound
        cases bound
        exact mem_references_of_task inside rfl

/-- What a round of `startAccept` leaves: its own function is at its head again, and the one of a
client was scheduled when there is a client. -/
theorem accepted_cases {newsock : Option Nat} {registered : Bool}
    (taken : t.step (.accepted i j newsock registered) = some next) :
    ∃ returned, t.sockets.accept i j newsock registered = some (returned, next.sockets) ∧
      .startAccept i true ∈ t.tasks ∧ next.socks = t.socks ∧ next.isStop = t.isStop ∧
      ∀ task, task ∈ next.tasks ↔ task ∈ t.tasks.erase (.startAccept i true) ∨
        task = .startAccept i false ∨ returned = true ∧ task = .handleClient j := by
  obtain ⟨inside, taken⟩ := Option.ite_none_right_eq_some.mp taken
  obtain ⟨⟨returned, sockets⟩, accepts, ⟨⟩⟩ := Option.bind_eq_some_iff.mp taken
  refine ⟨returned, accepts, inside, rfl, rfl, fun task => ?_⟩
  cases returned with
  | true => simp
  | false => simp

theorem Kept.accepted {newsock : Option Nat} {registered : Bool} (kept : t.Kept dropped)
    (taken : t.step (.accepted i j newsock registered) = some next) :
    next.Kept ((Action.accepted i j newsock registered).dropped.toList ++ dropped) := by
  obtain ⟨returned, accepts, inside, socks, -, tasks⟩ := accepted_cases taken
  obtain ⟨new, there⟩ := Sockets.accept_self accepts
  have outside : j ∉ t.references := fun member => (kept.exist j).mpr member new
  refine ⟨kept.accounted.accept accepts, fun k => ?_⟩
  by_cases own : k = j
  · subst own
    rw [there, mem_references, socks]
    constructor
    · exact fun returns => .inr ⟨.handleClient k, (tasks _).mpr (.inr (.inr ⟨returns, rfl⟩)), rfl⟩
    · rintro (member | ⟨task, member, bound⟩)
      · exact absurd (mem_references.mpr (.inl member)) outside
      · rcases (tasks task).mp member with before | rfl | ⟨returns, -⟩
        · exact absurd (mem_references_of_task (List.mem_of_mem_erase before) bound) outside
        · cases bound
          exact absurd (mem_references_of_task inside rfl) outside
        · exact returns
  · rw [Sockets.accept_of_ne accepts own, kept.exist k, mem_references, mem_references, socks]
    refine or_congr_right ⟨fun ⟨task, member, bound⟩ => ?_, fun ⟨task, member, bound⟩ => ?_⟩
    · by_cases same : task = .startAccept i true
      · rw [same] at bound
        exact ⟨.startAccept i false, (tasks _).mpr (.inr (.inl rfl)), bound⟩
      · exact ⟨task, (tasks task).mpr (.inl ((List.mem_erase_of_ne same).mpr member)), bound⟩
    · rcases (tasks task).mp member with before | rfl | ⟨-, rfl⟩
      · exact ⟨task, List.mem_of_mem_erase before, bound⟩
      · exact ⟨.startAccept i true, inside, bound⟩
      · exact absurd (Option.some.inj bound).symm own

/-- The function of `stop` refers to no socket. -/
theorem Kept.eraseStop (kept : t.Kept dropped) :
    Kept dropped { t with tasks := t.tasks.erase .stop } := by
  refine kept.congr (fun task member i bound => ?_) fun task member i bound => ?_
  · refine ⟨task, (List.mem_erase_of_ne ?_).mpr member, bound⟩
    rintro rfl
    cases bound
  · exact mem_references_of_task (List.mem_of_mem_erase member) bound

theorem Kept.step {action : Action I} (kept : t.Kept dropped) (taken : t.step action = some next) :
    next.Kept (action.dropped.toList ++ dropped) := by
  cases action with
  | bind empty attempts => exact (bind_spec kept taken).1
  | start =>
      cases taken
      exact kept.start
  | stop =>
      cases taken
      exact kept.stop
  | test sock => exact kept.test taken
  | accepted sock client newsock registered => exact kept.accepted taken
  | closeClient client =>
      obtain ⟨inside, taken⟩ := Option.ite_none_right_eq_some.mp taken
      obtain ⟨sockets, closes, ⟨⟩⟩ := Option.map_eq_some_iff.mp taken
      obtain ⟨before, there, -⟩ := Sockets.close_self closes
      refine ⟨kept.accounted.close closes, fun k => ?_⟩
      by_cases own : k = client
      · rw [own]
        exact iff_of_true there (mem_references_of_task inside rfl)
      · rw [Sockets.close_of_ne closes own]
        exact kept.exist k
  | handled client =>
      obtain ⟨inside, taken⟩ := Option.ite_none_right_eq_some.mp taken
      exact (release_kept kept rfl taken).1
  | closeAll =>
      obtain ⟨inside, taken⟩ := Option.ite_none_right_eq_some.mp taken
      exact (closeAll_kept kept.eraseStop taken).1
  | destroy =>
      obtain ⟨inside, taken⟩ := Option.ite_none_right_eq_some.mp taken
      exact (closeAll_kept kept taken).1

omit [DecidableEq I] in
theorem kept_initial : (initial : TcpServer I).Kept [] where
  accounted := Sockets.accounted_initial
  exist _ := iff_of_false (fun there => there rfl) List.not_mem_nil

theorem Kept.exec {actions : List (Action I)} (kept : t.Kept dropped)
    (ran : Library.exec TcpServer.step t actions = some next) :
    next.Kept ((droppedIn actions).reverse ++ dropped) :=
  exec_collects Kept.step kept ran

theorem exists_closeSocks {ids : List I} {s : Sockets I} (alive : ∀ i ∈ ids, s.sockets i ≠ none) :
    ∃ after, closeSocks s ids = some after := by
  induction ids generalizing s with
  | nil => exact ⟨s, rfl⟩
  | cons k rest inductionHypothesis =>
      obtain ⟨closed, closes⟩ := Sockets.exists_close (alive k List.mem_cons_self)
      have still : ∀ i ∈ rest, closed.sockets i ≠ none := by
        intro i member
        by_cases own : i = k
        · exact own ▸ (Sockets.close_self closes).2.1
        · rw [Sockets.close_of_ne closes own]
          exact alive i (List.mem_cons_of_mem _ member)
      obtain ⟨after, closesRest⟩ := inductionHypothesis still
      exact ⟨after, Option.bind_eq_some_iff.mpr ⟨closed, closes, closesRest⟩⟩

theorem exists_dropRefs (ids : List I) (t : TcpServer I) : ∃ next, t.dropRefs ids = some next := by
  induction ids generalizing t with
  | nil => exact ⟨t, rfl⟩
  | cons k rest inductionHypothesis =>
      rw [dropRefs]
      split
      · exact inductionHypothesis t
      · rename_i leaves
        have alive : t.sockets.sockets k ≠ none := fun gone => leaves (.inr (by rw [gone]; rfl))
        obtain ⟨closed, closes⟩ := Sockets.exists_close alive
        have destroys : t.sockets.destroy k = some (closed.setSocket k none) :=
          Option.bind_eq_some_iff.mpr ⟨closed, closes, rfl⟩
        obtain ⟨next, drops⟩ := inductionHypothesis { t with sockets := closed.setSocket k none }
        exact ⟨next, Option.bind_eq_some_iff.mpr ⟨_, destroys, drops⟩⟩

theorem exists_closeAll (kept : t.Kept dropped) : ∃ next, t.closeAll = some next := by
  have alive : ∀ i ∈ t.socks, t.sockets.sockets i ≠ none := fun i member =>
    (kept.exist i).mpr (mem_references.mpr (.inl member))
  obtain ⟨sockets, closes⟩ := exists_closeSocks alive
  obtain ⟨next, drops⟩ := exists_dropRefs t.socks { t with sockets := sockets, socks := [] }
  exact ⟨next, Option.bind_eq_some_iff.mpr ⟨sockets, closes, drops⟩⟩

/-- In every run of a server the open descriptors are those of the sockets that the server or one
of its functions refers to, and those of connections that `accept` did not want. When the functions
have returned, the server can be destroyed, and only the latter stay open. -/
theorem descriptors_returned {actions : List (Action I)} {final : TcpServer I}
    (ran : exec step initial actions = some final) :
    final.sockets.badCloses = 0 ∧
      (∀ fd, fd ∈ final.sockets.opened ↔ fd ∈ droppedIn actions ∨
        ∃ i ∈ final.references, final.sockets.descriptor i = some fd) ∧
      (final.tasks = [] → ∃ last, final.step .destroy = some last ∧ last.sockets.badCloses = 0 ∧
        ∀ fd, fd ∈ last.sockets.opened ↔ fd ∈ droppedIn actions) := by
  have open_ : ∀ {state : TcpServer I}, state.Kept ((droppedIn actions).reverse ++ []) → ∀ fd,
      fd ∈ state.sockets.opened ↔ fd ∈ droppedIn actions ∨
        ∃ i ∈ state.references, state.sockets.descriptor i = some fd := by
    intro state kept fd
    rw [List.append_nil] at kept
    constructor
    · intro inside
      refine (kept.accounted.owned.all inside).imp List.mem_reverse.mp fun ⟨i, holds⟩ => ?_
      refine ⟨i, (kept.exist i).mp fun gone => ?_, holds⟩
      rw [Sockets.descriptor, gone] at holds
      cases holds
    · rintro (member | ⟨i, -, holds⟩)
      · exact kept.accounted.owned.kept (List.mem_reverse.mpr member)
      · exact (kept.accounted.owned.held_open holds).1
  have kept := kept_initial.exec ran
  refine ⟨kept.accounted.closes, open_ kept, fun idle => ?_⟩
  obtain ⟨last, closes⟩ := exists_closeAll kept
  have taken : final.step .destroy = some last := by
    rw [step, idle]
    exact closes
  obtain ⟨keptLast, same, -⟩ := closeAll_kept kept closes
  refine ⟨last, taken, keptLast.accounted.closes, fun fd => (open_ keptLast fd).trans ?_⟩
  refine or_iff_left ?_
  rintro ⟨i, member, -⟩
  rcases mem_references.mp member with listed | ⟨task, inside, -⟩
  · rw [same.socks] at listed
    exact List.not_mem_nil listed
  · rw [same.tasks] at inside
    exact List.not_mem_nil (idle ▸ inside)

/-- A server is started, gets two connections and wants one of them, and stops. -/
def serves : List (Action (Fin 3)) :=
  [.bind true [⟨0, 2, some 3, none, true, true⟩], .start, .test 0, .accepted 0 1 (some 4) true, .test 0,
    .accepted 0 2 (some 5) false, .stop, .handled 1, .closeAll, .test 0]

theorem descriptors_returned_serves : ∃ final, exec step initial serves = some final ∧
    final.sockets.badCloses = 0 ∧
      (∀ fd, fd ∈ final.sockets.opened ↔ fd ∈ droppedIn serves ∨
        ∃ i ∈ final.references, final.sockets.descriptor i = some fd) ∧
      (final.tasks = [] → ∃ last, final.step .destroy = some last ∧ last.sockets.badCloses = 0 ∧
        ∀ fd, fd ∈ last.sockets.opened ↔ fd ∈ droppedIn serves) := by
  have runs : (exec step initial serves).isSome = true := by decide
  obtain ⟨final, ran⟩ := Option.isSome_iff_exists.mp runs
  exact ⟨final, ran, descriptors_returned ran⟩

end Sylar.TcpServer
