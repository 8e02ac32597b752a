import Sylar.TcpServer.Lifecycle

/-!
# Stopping a server and starting it again

`stop` only asks for the sockets to be closed. A server that is started again once everything of
its last run has returned accepts on open sockets; one that is started before that closes them
under its own functions, which never notice.
-/

namespace Sylar.TcpServer

open Library

variable {I : Type} [DecidableEq I] {t next : TcpServer I} {i j : I} {dropped : List Nat}

/-- Whether a function is about a connection. -/
def Task.serves : Task I → Bool
  | .handleClient _ => true
  | _ => false

/-- The functions of earlier calls of `start` and `stop` have returned. -/
def Quiet (t : TcpServer I) : Prop := ∀ task ∈ t.tasks, task.serves = true

/-- A stopped server is started when it is quiet. -/
def StartsQuiet (t : TcpServer I) : Action I → Prop
  | .start => t.isStop = true → t.Quiet
  | _ => True

instance (t : TcpServer I) : ∀ action, Decidable (t.StartsQuiet action)
  | .start => inferInstanceAs (Decidable (t.isStop = true → ∀ task ∈ t.tasks, task.serves = true))
  | .bind .. | .stop | .test _ | .accepted .. | .closeClient _ | .handled _ | .closeAll
  | .destroy => inferInstanceAs (Decidable True)

/-- A function accepts on the socket. -/
def Listening (t : TcpServer I) (i : I) : Prop := ∃ accepting, .startAccept i accepting ∈ t.tasks

/-- A server that was not stopped accepts on sockets that are open. -/
def Serving (t : TcpServer I) : Prop :=
  t.isStop = false → ∀ i, t.Listening i → t.sockets.descriptor i ≠ none

/-- What holds between the steps of a server that is started when it is quiet. -/
structure Orderly (t : TcpServer I) : Prop where
  kept : ∃ dropped, t.Kept dropped
  valid : ∀ i ∈ t.socks, t.sockets.descriptor i ≠ none
  clients : ∀ j, .handleClient j ∈ t.tasks → j ∉ t.socks ∧ ¬t.Listening j
  running : t.isStop = false → .stop ∉ t.tasks
  serving : t.Serving

omit [DecidableEq I] in
theorem Listening.mem_references (listening : t.Listening i) : i ∈ t.references :=
  mem_references_of_task listening.choose_spec rfl

omit [DecidableEq I] in
theorem orderly_initial : (initial : TcpServer I).Orderly where
  kept := ⟨[], kept_initial⟩
  valid _ := nofun
  clients _ := nofun
  running := nofun
  serving := nofun

namespace Orderly

omit [DecidableEq I] in
/-- No function and no listening socket is new, and the sockets in use have what they had. -/
theorem fewer (orderly : t.Orderly) (kept : next.Kept dropped) (isStop : next.isStop = t.isStop)
    (socks : ∀ i ∈ next.socks, i ∈ t.socks)
    (tasks : ∀ task ∈ next.tasks, task ∈ t.tasks ∨ ∃ i, t.Listening i ∧ ∃ accepting,
      task = .startAccept i accepting)
    (same : ∀ i, i ∈ next.socks ∨ next.isStop = false ∧ next.Listening i →
      next.sockets.descriptor i = t.sockets.descriptor i) : next.Orderly := by
  have listening : ∀ i, next.Listening i → t.Listening i := by
    rintro i ⟨accepting, inside⟩
    rcases tasks _ inside with before | ⟨j, listening, other, equal⟩
    · exact ⟨accepting, before⟩
    · cases equal
      exact listening
  refine ⟨⟨_, kept⟩, fun i member => ?_, fun j inside => ?_, fun starts inside => ?_,
    fun starts i listens => ?_⟩
  · rw [same i (.inl member)]
    exact orderly.valid i (socks i member)
  · rcases tasks _ inside with before | ⟨i, -, accepting, equal⟩
    · exact (orderly.clients j before).imp (mt (socks j)) (mt (listening j))
    · cases equal
  · rcases tasks _ inside with before | ⟨i, -, accepting, equal⟩
    · exact orderly.running (isStop ▸ starts) before
    · cases equal
  · rw [same i (.inr ⟨starts, listens⟩)]
    exact orderly.serving (isStop ▸ starts) i (listening i listens)

theorem bind {empty : Bool} {attempts : List (Attempt I)} (orderly : t.Orderly)
    (taken : t.bind empty attempts = some next) : next.Orderly := by
  obtain ⟨dropped, kept⟩ := orderly.kept
  obtain ⟨after, isStop, tasks, same, socks⟩ := bind_spec kept taken
  have held : ∀ task ∈ t.tasks, ∀ i, task.socket = some i →
      next.sockets.descriptor i = t.sockets.descriptor i := fun task inside i bound =>
    Sockets.descriptor_congr (same i (List.mem_filterMap.mpr ⟨task, inside, bound⟩))
  refine ⟨⟨dropped, after⟩, fun i member => ?_, fun j inside => ?_, ?_, fun starts i listens => ?_⟩
  · rcases socks i member with ⟨old, alike⟩ | ⟨-, valid⟩
    · rw [Sockets.descriptor_congr alike]
      exact orderly.valid i old
    · exact valid
  · rw [tasks] at inside
    obtain ⟨outside, idle⟩ := orderly.clients j inside
    refine ⟨fun member => ?_, fun ⟨accepting, listens⟩ => idle ⟨accepting, tasks ▸ listens⟩⟩
    rcases socks j member with ⟨old, -⟩ | ⟨fresh, -⟩
    · exact outside old
    · exact (kept.exist j).mpr (mem_references_of_task inside rfl) fresh
  · rw [isStop, tasks]
    exact orderly.running
  · obtain ⟨accepting, inside⟩ := listens
    rw [tasks] at inside
    rw [held _ inside i rfl]
    exact orderly.serving (isStop ▸ starts) i ⟨accepting, inside⟩

omit [DecidableEq I] in
theorem start (orderly : t.Orderly) (quiet : t.isStop = true → t.Quiet) : t.start.Orderly := by
  obtain ⟨dropped, kept⟩ := orderly.kept
  have after := kept.start
  unfold TcpServer.start at after ⊢
  split
  · rename_i stopped
    rw [if_pos stopped] at after
    have quiet := quiet stopped
    have listening : ∀ i accepting,
        .startAccept i accepting ∈ t.tasks ++ t.socks.map (.startAccept · false) → i ∈ t.socks := by
      intro i accepting inside
      rcases List.mem_append.mp inside with before | new
      · exact absurd (quiet _ before) nofun
      · obtain ⟨sock, member, equal⟩ := List.mem_map.mp new
        cases equal
        exact member
    refine ⟨⟨dropped, after⟩, orderly.valid, fun j inside => ?_, fun _ inside => ?_,
      fun _ i ⟨accepting, inside⟩ => orderly.valid i (listening i accepting inside)⟩
    · rcases List.mem_append.mp inside with before | new
      · have outside := (orderly.clients j before).1
        exact ⟨outside, fun ⟨accepting, inside⟩ => outside (listening j accepting inside)⟩
      · obtain ⟨sock, member, equal⟩ := List.mem_map.mp new
        cases equal
    · rcases List.mem_append.mp inside with before | new
      · exact absurd (quiet _ before) nofun
      · obtain ⟨sock, member, equal⟩ := List.mem_map.mp new
        cases equal
  · exact orderly

omit [DecidableEq I] in
theorem stop (orderly : t.Orderly) : t.stop.Orderly := by
  obtain ⟨dropped, kept⟩ := orderly.kept
  refine ⟨⟨dropped, kept.stop⟩, orderly.valid, fun j inside => ?_, nofun, nofun⟩
  have before : .handleClient j ∈ t.tasks := by
    rcases List.mem_append.mp inside with before | new
    · exact before
    · cases List.mem_singleton.mp new
  refine (orderly.clients j before).imp_right fun idle ⟨accepting, listens⟩ => idle ?_
  rcases List.mem_append.mp listens with listens | new
  · exact ⟨accepting, listens⟩
  · cases List.mem_singleton.mp new

theorem test (orderly : t.Orderly) (taken : t.step (.test i) = some next) : next.Orderly := by
  obtain ⟨dropped, kept⟩ := orderly.kept
  have after := kept.test taken
  obtain ⟨inside, taken⟩ := Option.ite_none_right_eq_some.mp taken
  split at taken
  · rename_i stopped
    obtain ⟨-, same, alike⟩ := release_kept kept rfl taken
    refine orderly.fewer after same.isStop (fun j member => same.socks ▸ member)
      (fun task member => ?_) fun j either => ?_
    · rw [same.tasks] at member
      exact .inl (List.mem_of_mem_erase member)
    · rcases either with member | ⟨starts, -⟩
      · exact Sockets.descriptor_congr (alike j (.inl (same.socks ▸ member)))
      · rw [same.isStop, stopped] at starts
        cases starts
  · cases taken
    refine orderly.fewer after rfl (fun _ => id) (fun task member => ?_) fun _ _ => rfl
    rcases List.mem_append.mp member with before | own
    · exact .inl (List.mem_of_mem_erase before)
    · exact .inr ⟨i, ⟨false, inside⟩, true, List.mem_singleton.mp own⟩

theorem accepted {newsock : Option Nat} {registered : Bool} (orderly : t.Orderly)
    (taken : t.step (.accepted i j newsock registered) = some next) : next.Orderly := by
  obtain ⟨dropped, kept⟩ := orderly.kept
  have after := kept.accepted taken
  obtain ⟨returned, accepts, inside, socks, isStop, tasks⟩ := accepted_cases taken
  have outside : j ∉ t.references := fun member =>
    (kept.exist j).mpr member (Sockets.accept_self accepts).1
  have same : ∀ k ∈ t.references, next.sockets.descriptor k = t.sockets.descriptor k := by
    intro k member
    refine Sockets.descriptor_congr (Sockets.accept_of_ne accepts ?_)
    rintro rfl
    exact outside member
  have listening : ∀ k, next.Listening k → t.Listening k := by
    rintro k ⟨accepting, member⟩
    rcases (tasks _).mp member with before | equal | ⟨-, equal⟩
    · exact ⟨accepting, List.mem_of_mem_erase before⟩
    · cases equal
      exact ⟨true, inside⟩
    · cases equal
  refine ⟨⟨_, after⟩, fun k member => ?_, fun k member => ?_, fun starts member => ?_,
    fun starts k listens => ?_⟩
  · rw [socks] at member
    rw [same k (mem_references.mpr (.inl member))]
    exact orderly.valid k member
  · rw [socks]
    rcases (tasks _).mp member with before | equal | ⟨-, equal⟩
    · exact (orderly.clients k (List.mem_of_mem_erase before)).imp_right (mt (listening k))
    · cases equal
    · cases equal
      exact ⟨fun listed => outside (mem_references.mpr (.inl listed)),
        fun listens => outside (listening j listens).mem_references⟩
  · rcases (tasks _).mp member with before | equal | ⟨-, equal⟩
    · exact orderly.running (isStop ▸ starts) (List.mem_of_mem_erase before)
    · cases equal
    · cases equal
  · rw [same k (listening k listens).mem_references]
    exact orderly.serving (isStop ▸ starts) k (listening k listens)

theorem closeClient (orderly : t.Orderly) (taken : t.step (.closeClient i) = some next) :
    next.Orderly := by
  obtain ⟨dropped, kept⟩ := orderly.kept
  have after := kept.step taken
  obtain ⟨inside, taken⟩ := Option.ite_none_right_eq_some.mp taken
  obtain ⟨sockets, closes, ⟨⟩⟩ := Option.map_eq_some_iff.mp taken
  obtain ⟨outside, idle⟩ := orderly.clients i inside
  refine orderly.fewer after rfl (fun _ => id) (fun _ => .inl) fun j either => ?_
  refine Sockets.descriptor_congr (Sockets.close_of_ne closes ?_)
  rintro rfl
  exact either.elim outside fun listens => idle listens.2

theorem handled (orderly : t.Orderly) (taken : t.step (.handled i) = some next) :
    next.Orderly := by
  obtain ⟨dropped, kept⟩ := orderly.kept
  obtain ⟨inside, taken⟩ := Option.ite_none_right_eq_some.mp taken
  obtain ⟨after, same, alike⟩ := release_kept kept rfl taken
  refine orderly.fewer after same.isStop (fun j member => same.socks ▸ member)
    (fun task member => ?_) fun j either => Sockets.descriptor_congr (alike j ?_)
  · rw [same.tasks] at member
    exact .inl (List.mem_of_mem_erase member)
  · refine either.imp (fun listed => same.socks ▸ listed) fun ⟨_, accepting, listens⟩ => ?_
    rw [same.tasks] at listens
    exact ⟨.startAccept j accepting, listens, rfl⟩

/-- The sockets are closed when the server was stopped or no function is left. -/
theorem closeAll (orderly : t.Orderly) (idle : t.isStop = true ∨ t.tasks = [])
    (taken : t.closeAll = some next) : next.Orderly := by
  obtain ⟨dropped, kept⟩ := orderly.kept
  obtain ⟨after, same, -⟩ := closeAll_kept kept taken
  refine orderly.fewer after same.isStop (fun j member => ?_) (fun task member => ?_) ?_
  · rw [same.socks] at member
    exact absurd member List.not_mem_nil
  · exact .inl (same.tasks ▸ member)
  · rintro j (member | ⟨starts, accepting, listens⟩)
    · rw [same.socks] at member
      exact absurd member List.not_mem_nil
    · rcases idle with stopped | idle
      · rw [same.isStop, stopped] at starts
        cases starts
      · rw [same.tasks, idle] at listens
        exact absurd listens List.not_mem_nil

theorem step {action : Action I} (orderly : t.Orderly) (quiet : t.StartsQuiet action)
    (taken : t.step action = some next) : next.Orderly := by
  cases action with
  | bind empty attempts => exact orderly.bind taken
  | start =>
      cases taken
      exact orderly.start quiet
  | stop =>
      cases taken
      exact orderly.stop
  | test sock => exact orderly.test taken
  | accepted sock client newsock registered => exact orderly.accepted taken
  | closeClient client => exact orderly.closeClient taken
  | handled client => exact orderly.handled taken
  | closeAll =>
      obtain ⟨inside, taken⟩ := Option.ite_none_right_eq_some.mp taken
      obtain ⟨dropped, kept⟩ := orderly.kept
      have stopped : t.isStop = true := by
        by_contra starts
        exact orderly.running (Bool.eq_false_of_not_eq_true starts) inside
      have erased : Orderly { t with tasks := t.tasks.erase .stop } :=
        orderly.fewer kept.eraseStop rfl (fun _ => id)
          (fun _ member => .inl (List.mem_of_mem_erase member)) fun _ _ => rfl
      exact erased.closeAll (.inl stopped) taken
  | destroy =>
      obtain ⟨idle, taken⟩ := Option.ite_none_right_eq_some.mp taken
      exact orderly.closeAll (.inr (List.isEmpty_iff.mp idle)) taken

end Orderly

/-- In every run in which a stopped server is started only when it is quiet, the server accepts on
open sockets as long as it is not stopped. -/
theorem serving_of_quiet {actions : List (Action I)}
    (quiet : Guarded step StartsQuiet (initial : TcpServer I) actions) :
    Along step Serving initial actions :=
  (along_of_guarded Orderly.step orderly_initial quiet).mono fun _ => Orderly.serving

/-- The server of a run is stopped, and started on other sockets when it is quiet. -/
def restarts : List (Action (Fin 3)) :=
  [.bind true [⟨0, 2, some 3, none, true, true⟩], .start, .test 0, .accepted 0 1 (some 4) true, .stop,
    .closeAll, .test 0, .bind true [⟨2, 2, some 3, none, true, true⟩], .start, .test 2]

theorem serving_of_quiet_restarts : Along step Serving initial restarts :=
  serving_of_quiet (by decide)

/-- A function accepts on a socket that was closed, and the server was not stopped. -/
structure Spinning (i : I) (t : TcpServer I) : Prop where
  kept : ∃ dropped, t.Kept dropped
  isStop : t.isStop = false
  listening : t.Listening i
  closed : t.sockets.descriptor i = none

namespace Spinning

/-- Nothing is accepted on a closed socket. -/
theorem accepts_nothing {client : I} {fd : Nat} {registered : Bool} (spinning : t.Spinning i) :
    t.step (.accepted i client (some fd) registered) = none := by
  by_contra taken
  obtain ⟨next, taken⟩ := Option.ne_none_iff_exists'.mp taken
  obtain ⟨returned, accepts, -⟩ := accepted_cases taken
  simp only [Sockets.accept, Bind.bind, Option.bind_eq_some_iff] at accepts
  obtain ⟨socket, found, accepts⟩ := accepts
  have empty : socket.sock = none := (Sockets.descriptor_eq found).symm.trans spinning.closed
  simp [empty] at accepts

omit [DecidableEq I] in
/-- The function stays, and so does its socket. -/
theorem stays (spinning : t.Spinning i) (kept : next.Kept dropped)
    (isStop : next.isStop = t.isStop) (listening : next.Listening i)
    (same : next.sockets.descriptor i = none ∨ next.sockets.sockets i = t.sockets.sockets i) :
    next.Spinning i where
  kept := ⟨dropped, kept⟩
  isStop := isStop.trans spinning.isStop
  listening := listening
  closed := same.elim id fun alike =>
    (Sockets.descriptor_congr alike).trans spinning.closed

theorem test (spinning : t.Spinning i) (taken : t.step (.test j) = some next) :
    next.Spinning i := by
  obtain ⟨dropped, kept⟩ := spinning.kept
  have after := kept.step taken
  obtain ⟨accepting, inside⟩ := spinning.listening
  obtain ⟨head, taken⟩ := Option.ite_none_right_eq_some.mp taken
  have starts : ¬t.isStop = true := Bool.not_eq_true _ ▸ spinning.isStop
  rw [if_neg starts] at taken
  cases taken
  refine spinning.stays after rfl ?_ (.inr rfl)
  by_cases own : Task.startAccept i accepting = .startAccept j false
  · cases own
    exact ⟨true, List.mem_append_right _ (List.mem_singleton_self _)⟩
  · exact ⟨accepting, List.mem_append_left _ ((List.mem_erase_of_ne own).mpr inside)⟩

theorem accepted {newsock : Option Nat} {registered : Bool} {client : I} (spinning : t.Spinning i)
    (taken : t.step (.accepted j client newsock registered) = some next) : next.Spinning i := by
  obtain ⟨dropped, kept⟩ := spinning.kept
  have after := kept.step taken
  obtain ⟨accepting, inside⟩ := spinning.listening
  obtain ⟨returned, accepts, -, -, isStop, tasks⟩ := accepted_cases taken
  refine spinning.stays after isStop ?_ (.inr (Sockets.accept_of_ne accepts ?_))
  · by_cases own : Task.startAccept i accepting = .startAccept j true
    · cases own
      exact ⟨false, (tasks _).mpr (.inr (.inl rfl))⟩
    · exact ⟨accepting, (tasks _).mpr (.inl ((List.mem_erase_of_ne own).mpr inside))⟩
  · rintro rfl
    exact (kept.exist i).mpr (mem_references_of_task inside rfl) (Sockets.accept_self accepts).1

theorem step {action : Action I} (spinning : t.Spinning i) (goes : action ≠ .stop)
    (taken : t.step action = some next) : next.Spinning i := by
  obtain ⟨dropped, kept⟩ := spinning.kept
  have after := kept.step taken
  obtain ⟨accepting, inside⟩ := spinning.listening
  cases action with
  | bind empty attempts =>
      obtain ⟨-, isStop, tasks, same, -⟩ := bind_spec kept taken
      refine spinning.stays after isStop ⟨accepting, tasks ▸ inside⟩ (.inr ?_)
      exact same i (List.mem_filterMap.mpr ⟨_, inside, rfl⟩)
  | start =>
      cases taken
      rw [TcpServer.start, spinning.isStop]
      exact spinning
  | stop => exact absurd rfl goes
  | test sock => exact spinning.test taken
  | accepted sock client newsock registered => exact spinning.accepted taken
  | closeClient client =>
      obtain ⟨-, taken⟩ := Option.ite_none_right_eq_some.mp taken
      obtain ⟨sockets, closes, ⟨⟩⟩ := Option.map_eq_some_iff.mp taken
      refine spinning.stays after rfl ⟨accepting, inside⟩ ?_
      by_cases own : i = client
      · rw [own]
        exact .inl (Sockets.close_self closes).2.2
      · exact .inr (Sockets.close_of_ne closes own)
  | handled client =>
      obtain ⟨-, taken⟩ := Option.ite_none_right_eq_some.mp taken
      obtain ⟨-, same, alike⟩ := release_kept kept rfl taken
      have other : Task.startAccept i accepting ≠ .handleClient client := nofun
      have still := (List.mem_erase_of_ne other).mpr inside
      refine spinning.stays after same.isStop ⟨accepting, same.tasks ▸ still⟩ (.inr ?_)
      exact alike i (.inr ⟨_, still, rfl⟩)
  | closeAll =>
      obtain ⟨-, taken⟩ := Option.ite_none_right_eq_some.mp taken
      obtain ⟨-, same, closed⟩ := closeAll_kept kept.eraseStop taken
      have other : Task.startAccept i accepting ≠ .stop := nofun
      have still := (List.mem_erase_of_ne other).mpr inside
      refine spinning.stays after same.isStop ⟨accepting, same.tasks ▸ still⟩ (.inl ?_)
      exact closed _ still i rfl (.inr spinning.closed)
  | destroy =>
      obtain ⟨idle, -⟩ := Option.ite_none_right_eq_some.mp taken
      rw [List.isEmpty_iff.mp idle] at inside
      exact absurd inside List.not_mem_nil

end Spinning

/-- When a server is started before the function of the last `stop` has run, the function closes
each socket that the server listens on and leaves its `startAccept` looping on it, which ends in no
run without another `stop` and accepts nothing. -/
theorem spinning_of_restart {actions : List (Action I)}
    (ran : exec step initial actions = some t) (stopped : t.isStop = true)
    (pending : .stop ∈ t.tasks) (listens : i ∈ t.socks) :
    ∃ restarted, exec step t [.start, .closeAll] = some restarted ∧
      ∀ more : List (Action I), .stop ∉ more → Along step (fun later => later.isStop = false ∧
        later.Listening i ∧ later.sockets.descriptor i = none ∧
        ∀ client fd registered, later.step (.accepted i client (some fd) registered) = none)
        restarted more := by
  have kept := (kept_initial.exec ran).start
  have running : t.start.isStop = false := by rw [TcpServer.start, if_pos stopped]
  have tasks : t.start.tasks = t.tasks ++ t.socks.map (.startAccept · false) := by
    rw [TcpServer.start, if_pos stopped]
  have socks : t.start.socks = t.socks := by rw [TcpServer.start, if_pos stopped]
  have inside : .stop ∈ t.start.tasks := by
    rw [tasks]
    exact List.mem_append_left _ pending
  have other : Task.startAccept i false ≠ .stop := nofun
  have scheduled : .startAccept i false ∈ t.start.tasks.erase .stop := by
    rw [List.mem_erase_of_ne other, tasks]
    exact List.mem_append_right _ (List.mem_map.mpr ⟨i, listens, rfl⟩)
  obtain ⟨restarted, closes⟩ := exists_closeAll kept.eraseStop
  obtain ⟨after, same, closed⟩ := closeAll_kept kept.eraseStop closes
  refine ⟨restarted, ?_, fun more goes => ?_⟩
  · have taken : t.start.step .closeAll = some restarted := (if_pos inside).trans closes
    rw [exec, step, Option.bind_some, exec, taken]
    rfl
  · have spinning : restarted.Spinning i := by
      refine ⟨⟨_, after⟩, same.isStop.trans running, ⟨false, same.tasks ▸ scheduled⟩, ?_⟩
      exact closed _ scheduled i rfl (.inl (socks ▸ listens))
    have guarded : Guarded step (fun _ action => action ≠ .stop) restarted more :=
      guarded_of_forall fun action member => ne_of_mem_of_not_mem member goes
    refine (along_of_guarded Spinning.step spinning guarded).mono fun later spins => ?_
    exact ⟨spins.isStop, spins.listening, spins.closed, fun _ _ _ => spins.accepts_nothing⟩

/-- The server of a run is stopped. -/
def stops : List (Action (Fin 3)) := [.bind true [⟨0, 2, some 3, none, true, true⟩], .start, .stop]

theorem spinning_of_restart_stops : ∃ stopped restarted : TcpServer (Fin 3),
    exec step initial stops = some stopped ∧
      exec step stopped [.start, .closeAll] = some restarted ∧
      ∀ more : List (Action (Fin 3)), .stop ∉ more → Along step (fun later =>
        later.isStop = false ∧ later.Listening 0 ∧ later.sockets.descriptor 0 = none ∧
        ∀ client fd registered, later.step (.accepted 0 client (some fd) registered) = none)
        restarted more := by
  have runs : ∃ stopped, exec step initial stops = some stopped ∧ stopped.isStop = true ∧
      .stop ∈ stopped.tasks ∧ (0 : Fin 3) ∈ stopped.socks := ⟨_, rfl, rfl, by decide, by decide⟩
  obtain ⟨stopped, ran, isStop, pending, listens⟩ := runs
  obtain ⟨restarted, restarts, spins⟩ := spinning_of_restart ran isStop pending listens
  exact ⟨stopped, restarted, ran, restarts, spins⟩

end Sylar.TcpServer
