import Dialogue.Proofs.Signal.Ledger
import Mathlib.Data.List.Perm.Subperm

/-!
# Every listener is served once

Listeners may settle signals and listen to them while they are called, so the work of settling a signal may
be interrupted by that of settling other ones, again and again. But only an action adds to the ledger of the
desk, and all other work does what was bound to happen anyway: the calls that are left stay in their order,
however much work is put before them. A listener that comes late is called in the very next step. So when no
call is left, every listener has been served.

Main results:

* `Signal.Desk.Step.kept` — a step keeps how the signals stand.
* `Signal.Desk.Step.prompt` — those who come late are called before anything else happens.
* `Signal.Desk.decisive` — the first action that is to settle a signal does, and is told so.
* `Signal.listeners_served` — every program ends, and after each of its actions every listener has been
  served.
-/

namespace Dialogue.Signal

/-! ## Listeners that come late -/

/-- Those who come late are called before anything else happens, unless they came on another occasion, and
nobody else is called out of turn. -/
inductive Attended : List Incident → Prop where
  | nil : Attended []
  | called {signal : Nat} {listener : Listener} {outcome : Outcome} {rest : List Incident}
      (hAdmits : listener.occasion.admits outcome = true) (hRest : Attended rest) :
      Attended (.came signal listener (some outcome) ::
        .called signal listener outcome false :: rest)
  | passed {signal : Nat} {listener : Listener} {outcome : Outcome} {rest : List Incident}
      (hOther : listener.occasion.admits outcome = false) (hRest : Attended rest) :
      Attended (.came signal listener (some outcome) :: rest)
  | other {incident : Incident} {rest : List Incident} (hInTime : incident.isLate = false)
      (hRest : Attended rest) : Attended (incident :: rest)

/-- One attended stretch can follow the other. -/
theorem Attended.append {first second : List Incident} (h : Attended first)
    (h' : Attended second) : Attended (first ++ second) := by
  induction h with
  | nil => exact h'
  | called hAdmits hRest ih => exact .called hAdmits ih
  | passed hOther hRest ih => exact .passed hOther ih
  | other hInTime hRest ih => exact .other hInTime ih

theorem Attended.snoc {journal : List Incident} (h : Attended journal) {incident : Incident}
    (hInTime : incident.isLate = false) : Attended (journal ++ [incident]) :=
  h.append (.other hInTime .nil)

/-- Whether a job is the call of a listener that came late. -/
def Job.isLate : Job → Bool
  | call _ _ _ waited => !waited
  | act _ | finish .. => false

namespace Desk

variable {desk later : Desk}

/-- Those who came late have been attended to, but for one whose call comes next. -/
inductive Prompt : Desk → Prop where
  | attended {board : Board} {jobs : List Job} {journal : List Incident}
      (hAttended : Attended journal) (hJobs : ∀ job ∈ jobs, job.isLate = false) :
      Prompt ⟨board, jobs, journal⟩
  | calling {board : Board} {signal : Nat} {listener : Listener} {outcome : Outcome}
      {rest : List Job} {early : List Incident} (hAttended : Attended early)
      (hJobs : ∀ job ∈ rest, job.isLate = false) :
      Prompt ⟨board, .call signal listener outcome false :: rest,
        early ++ [.came signal listener (some outcome)]⟩

/-- The actions of a listener are no calls. -/
theorem isLate_map_act {body : List Action} {rest : List Job}
    (hRest : ∀ job ∈ rest, job.isLate = false) :
    ∀ job ∈ body.map .act ++ rest, job.isLate = false := by
  refine List.forall_mem_append.mpr ⟨fun job hMem => ?_, hRest⟩
  obtain ⟨action, -, rfl⟩ := List.mem_map.mp hMem
  rfl

theorem Step.prompt (hStep : Step desk later) (h : Prompt desk) : Prompt later := by
  cases h with
  | @attended board jobs journal hAttended hJobs =>
    cases hStep with
    | @settles _ action signal outcome waiting rest _ hSettles hListens hPending =>
      have hRest := (List.forall_mem_cons.mp hJobs).2
      refine .attended hAttended (List.forall_mem_append.mpr
        ⟨fun job hMem => ?_, List.forall_mem_cons.mpr ⟨rfl, hRest⟩⟩)
      -- whoever is called at a settlement has waited for it
      obtain ⟨listener, -, rfl⟩ := List.mem_map.mp hMem
      rfl
    | idles hListens hAnswer hSettled =>
      have hRest := (List.forall_mem_cons.mp hJobs).2
      exact .attended hAttended (List.forall_mem_cons.mpr ⟨rfl, hRest⟩)
    | waits hPending =>
      have hRest := (List.forall_mem_cons.mp hJobs).2
      exact .attended (hAttended.snoc rfl) (List.forall_mem_cons.mpr ⟨rfl, hRest⟩)
    | comes hSettled =>
      have hRest := (List.forall_mem_cons.mp hJobs).2
      exact .calling hAttended (List.forall_mem_cons.mpr ⟨rfl, hRest⟩)
    | calls hAdmits =>
      -- whoever is called here has waited
      obtain ⟨hInTime, hRest⟩ := List.forall_mem_cons.mp hJobs
      exact .attended (hAttended.snoc hInTime) (isLate_map_act hRest)
    | passes hOther => exact .attended hAttended (List.forall_mem_cons.mp hJobs).2
    | finishes => exact .attended (hAttended.snoc rfl) (List.forall_mem_cons.mp hJobs).2
  | @calling board signal listener outcome rest early hAttended hJobs =>
    -- the next step is this call
    cases hStep with
    | calls hAdmits =>
      have hCalled : Attended [.came signal listener (some outcome),
        .called signal listener outcome false] := .called hAdmits .nil
      refine .attended ?_ (isLate_map_act hJobs)
      rw [List.append_assoc]
      exact hAttended.append hCalled
    | passes hOther => exact .attended (hAttended.append (.passed hOther .nil)) hJobs

/-- The desk is prompt at all times. -/
theorem prompt_after (count : Nat) (program : List Action) (moment : Nat) :
    Prompt ((opening count program).after moment) := by
  refine after_induction (next_of_step fun _ _ => Step.prompt) (.attended .nil fun job hMem => ?_) moment
  obtain ⟨action, -, rfl⟩ := List.mem_map.mp hMem
  rfl

/-! ## How the signals stand -/

/-- A step keeps how the signals stand: an action adds to the ledger what follows from it, and all other work
only does what was bound to happen. -/
theorem Step.kept (hStep : Step desk later) (h : Kept desk.board desk.ledger) :
    Kept later.board later.ledger := by
  cases hStep with
  | @settles board action signal outcome waiting rest journal hSettles hListens hPending =>
    have hLedger : ledger ⟨⟨board.signals.set signal ⟨some outcome, []⟩⟩,
        waiting.map (.call signal · outcome true) ++ .finish action (.settled true) :: rest, journal⟩ =
        journal ++ (settlement action signal outcome waiting ++ rest.flatMap Job.bound) := by
      rw [ledger, List.flatMap_append, bound_map_call, settlement, List.append_assoc]
      rfl
    rw [hLedger]
    exact Kept.settle h hSettles hListens hPending
  | idles hListens hAnswer hSettled => exact Kept.idle h hListens hAnswer hSettled
  | @waits board signal occasion id body rest journal hPending =>
    have hLedger : ledger ⟨board.enlist signal ⟨occasion, id, body⟩,
        .finish (.listen signal occasion id body) .nothing :: rest,
        journal ++ [.came signal ⟨occasion, id, body⟩ none]⟩ =
        journal ++ ([.came signal ⟨occasion, id, body⟩ none,
          .done (.listen signal occasion id body) .nothing] ++ rest.flatMap Job.bound) :=
      List.append_assoc ..
    rw [hLedger]
    exact Kept.wait h (waiters_bound · rest) rfl (by decide) hPending
  | @comes board signal occasion id body outcome rest journal hSettled =>
    have hLedger : ledger ⟨board, .call signal ⟨occasion, id, body⟩ outcome false ::
        .finish (.listen signal occasion id body) .nothing :: rest,
        journal ++ [.came signal ⟨occasion, id, body⟩ (some outcome)]⟩ =
        journal ++ ((.came signal ⟨occasion, id, body⟩ (some outcome) ::
          (Job.call signal ⟨occasion, id, body⟩ outcome false).bound ++
            [.done (.listen signal occasion id body) .nothing]) ++ rest.flatMap Job.bound) := by
      rw [List.append_assoc]
      exact List.append_assoc ..
    rw [hLedger]
    exact Kept.come h rfl (by decide) hSettled
  | @calls board signal listener outcome waited rest journal hAdmits =>
    have hLedger : ledger ⟨board, listener.body.map .act ++ rest,
        journal ++ [.called signal listener outcome waited]⟩ =
        ledger ⟨board, .call signal listener outcome waited :: rest, journal⟩ := by
      -- what was bound to be noted is noted now
      simp [ledger, bound_map_act, Job.bound, hAdmits]
    rw [hLedger]
    exact h
  | @passes board signal listener outcome waited rest journal hOther =>
    have hLedger : ledger ⟨board, rest, journal⟩ =
        ledger ⟨board, .call signal listener outcome waited :: rest, journal⟩ := by
      -- nothing was bound to be noted
      simp [ledger, Job.bound, hOther]
    rw [hLedger]
    exact h
  | @finishes board action answer rest journal =>
    have hLedger : ledger ⟨board, rest, journal ++ [.done action answer]⟩ =
        ledger ⟨board, .finish action answer :: rest, journal⟩ := List.append_assoc ..
    rw [hLedger]
    exact h

/-- At first nothing is noted, and nothing is settled. -/
theorem kept_opening (count : Nat) (program : List Action) :
    Kept (opening count program).board (opening count program).ledger := by
  have hLedger : (opening count program).ledger = [] := bound_map_act program
  have hNone : ∀ signal, (opening count program).board.outcome signal = none :=
    Board.outcome_ofCount count
  rw [hLedger]
  refine ⟨fun signal => ?_, fun signal => ?_, fun signal waiting hAt => ?_, fun _ _ _ hMem => ?_,
    .refl _, fun _ _ _ _ hMem => ?_⟩
  · rw [hNone]
    rfl
  · rw [hNone]
    rfl
  · -- nobody waits yet
    have hFresh := List.mem_of_getElem? hAt
    cases List.eq_of_mem_replicate hFresh
    rfl
  · cases hMem
  · cases hMem

/-- The books are kept at all times. -/
theorem kept_after (count : Nat) (program : List Action) (moment : Nat) :
    Kept ((opening count program).after moment).board ((opening count program).after moment).ledger :=
  after_induction (P := fun desk => Kept desk.board desk.ledger)
    (next_of_step fun _ _ => Step.kept) (kept_opening count program) moment

/-- A signal that has settled stays as it is. -/
theorem Step.outcome (hStep : Step desk later) {signal : Nat} {outcome : Outcome}
    (hSettled : desk.board.outcome signal = some outcome) :
    later.board.outcome signal = some outcome := by
  cases hStep with
  | @settles board action other found waiting rest journal hSettles hListens hPending =>
    rw [Board.outcome_set hPending, if_neg]
    · exact hSettled
    · -- the signal that is settled now was pending
      rintro rfl
      have hNone : board.outcome other = none := by
        rw [Board.outcome, hPending]
        rfl
      rw [hNone] at hSettled
      cases hSettled
  | @waits board other occasion id body rest journal hPending =>
    rw [board.outcome_enlist]
    exact hSettled
  | idles hListens hAnswer hBefore => exact hSettled
  | comes hFound => exact hSettled
  | calls hAdmits => exact hSettled
  | passes hOther => exact hSettled
  | finishes => exact hSettled

/-- What has happened is not forgotten. -/
theorem Step.journal (hStep : Step desk later) : desk.journal <+: later.journal := by
  cases hStep with
  | settles hSettles hListens hPending => exact List.prefix_rfl
  | idles hListens hAnswer hSettled => exact List.prefix_rfl
  | passes hOther => exact List.prefix_rfl
  | waits hPending => exact List.prefix_append ..
  | comes hFound => exact List.prefix_append ..
  | calls hAdmits => exact List.prefix_append ..
  | finishes => exact List.prefix_append ..

/-! ## Every listener -/

/-- When no call and no answer is under way, all listeners have been served. -/
structure Served (desk : Desk) : Prop where
  /-- Exactly one action settled each signal that has settled, with its outcome, and was told so. -/
  settlings : ∀ signal, settlings signal desk.journal = (desk.board.outcome signal).toList
  /-- No action that was to settle a signal on the board has left it pending. -/
  settled : ∀ action answer signal outcome, .done action answer ∈ desk.journal →
    action.settles? = some (signal, outcome) → signal < desk.board.signals.length →
    desk.board.outcome signal ≠ none
  /-- Of those who waited for a signal, all who came on the occasion were called once it settled, and nobody
  else, once each and in the order in which they came. -/
  released : ∀ signal,
    released signal desk.journal = due (desk.board.outcome signal) (waiters signal desk.journal)
  /-- Those who came late were called before anything else happened. -/
  attended : Attended desk.journal
  /-- They found, and were told, how the signal had settled. -/
  found : ∀ signal listener outcome, .came signal listener (some outcome) ∈ desk.journal →
    desk.board.outcome signal = some outcome
  /-- Whoever came was brought by an action that is through. -/
  comers : (comers desk.journal).Perm (brought desk.journal)

/-- Between two actions of the program everything that was begun is done. -/
theorem served_of_jobs {later : List Action} (hKept : Kept desk.board desk.ledger)
    (hPrompt : Prompt desk) (hJobs : desk.jobs = later.map .act) : Served desk := by
  have hLedger : desk.ledger = desk.journal := by
    rw [ledger, hJobs, bound_map_act, List.append_nil]
  rw [hLedger] at hKept
  refine ⟨hKept.settlings, hKept.settled, hKept.released, ?_, hKept.found, hKept.comers⟩
  cases hPrompt with
  | attended hAttended _ => exact hAttended
  | calling _ _ =>
    -- a call is not an action
    cases later <;> cases hJobs

/-- The first action that is to settle a signal on the board does so there and then, and is told that it
did; one that comes later changes nothing, and is told that it did not. -/
structure Decisive (desk : Desk) : Prop where
  first : ∀ action rest signal outcome, desk.jobs = .act action :: rest →
    action.settles? = some (signal, outcome) → signal < desk.board.signals.length →
    desk.board.outcome signal = none →
    desk.next.board.outcome signal = some outcome ∧ .finish action (.settled true) ∈ desk.next.jobs
  later : ∀ action rest signal outcome, desk.jobs = .act action :: rest →
    action.settles? = some (signal, outcome) → desk.board.outcome signal ≠ none →
    desk.next.board = desk.board ∧ desk.next.jobs = .finish action (.settled false) :: rest

/-- What the next step is when it is the turn of an action that is to settle a signal. -/
theorem next_of_settles {action : Action} {rest : List Job} {signal : Nat} {outcome : Outcome}
    (hJobs : desk.jobs = .act action :: rest) (hSettles : action.settles? = some (signal, outcome)) :
    desk.next.board = (desk.board.settle signal outcome).2 ∧
      desk.next.jobs = desk.board.release signal outcome ++
        .finish action (.settled (desk.board.settle? signal outcome).isSome) :: rest := by
  obtain ⟨hSummons, hAct, hAnswer, -, -⟩ := desk.board.settles_cases hSettles
  unfold next
  rw [hJobs]
  simp only [hSummons, hAct, hAnswer, true_and]

/-- On any desk an action that settles does so exactly if its signal is pending. -/
theorem decisive (desk : Desk) : Decisive desk := by
  constructor
  all_goals
    intro action rest signal outcome hJobs hSettles
    obtain ⟨hBoard, hLater⟩ := next_of_settles hJobs hSettles
    rw [hBoard, hLater]
    unfold Board.settle Board.release
  · intro hLt hPending
    rcases desk.board.settle?_cases signal outcome with ⟨waiting, hAt, hSettle⟩ | ⟨-, hSettled⟩
    · rw [hSettle]
      refine ⟨?_, List.mem_append_right _ (List.mem_cons_self ..)⟩
      rw [Board.outcome_set hAt, if_pos rfl]
    · exact absurd hPending (hSettled hLt)
  · intro hSettled
    rcases desk.board.settle?_cases signal outcome with ⟨waiting, hAt, -⟩ | ⟨hNone, -⟩
    · refine absurd ?_ hSettled
      rw [Board.outcome, hAt]
      rfl
    · rw [hNone]
      exact ⟨rfl, rfl⟩

/-- No signal is added to the board, and none is taken off it. -/
theorem length_after (count : Nat) (program : List Action) (moment : Nat) :
    ((opening count program).after moment).board.signals.length = count := by
  refine after_induction (P := fun desk => desk.board.signals.length = count)
    (next_of_step fun desk later hStep h => ?_) List.length_replicate moment
  cases hStep with
  -- a settlement sets a signal of the board, and a listener waits with one
  | settles hSettles hListens hPending => rw [List.length_set]; exact h
  | waits hPending => rw [Board.length_enlist]; exact h
  | idles hListens hAnswer hSettled => exact h
  | comes hFound => exact h
  | calls hAdmits => exact h
  | passes hOther => exact h
  | finishes => exact h

/-- What holds in the middle of the work too. -/
structure InOrder (desk : Desk) : Prop where
  /-- The calls so far are the first ones of those that are due. -/
  released : ∀ signal,
    released signal desk.journal <+: due (desk.board.outcome signal) (waiters signal desk.journal)
  /-- An action that brings a listener is not through before the listener has come. -/
  brought : (brought desk.journal).Subperm (comers desk.journal)

/-- A desk whose books are kept serves in order. -/
theorem inOrder_of_kept (hKept : Kept desk.board desk.ledger) : InOrder desk := by
  refine ⟨fun signal => ?_, ?_⟩
  · have hReleased := hKept.released signal
    rw [ledger, released_append, waiters_append, waiters_bound, List.append_nil] at hReleased
    exact ⟨_, hReleased⟩
  · have hComers := hKept.comers
    rw [ledger, comers_append, comers_bound, List.append_nil, brought_append] at hComers
    exact (List.sublist_append_left ..).subperm.trans hComers.symm.subperm

end Desk

/-- The actions `earlier` are through with all that they set off, and the actions `later` are still to come:
what was noted and how the board stands is what carrying out the former comes to, and every listener has
been served. -/
structure Through (count : Nat) (earlier later : List Action) (desk : Desk) : Prop where
  jobs : desk.jobs = later.map .act
  result : (desk.journal.filterMap Incident.note?, desk.board) =
    (Board.ofCount count).performAll earlier
  served : desk.Served

/-- What may happen between two moments: nothing is undone, and no outcome changes. -/
structure Continues (desk later : Desk) : Prop where
  journal : desk.journal <+: later.journal
  outcome : ∀ signal outcome, desk.board.outcome signal = some outcome →
    later.board.outcome signal = some outcome

/-- What has been noted stays noted, and what is settled stays settled. -/
theorem continues_after (desk : Desk) (moment : Nat) : Continues desk (desk.after moment) := by
  refine Desk.after_induction (P := Continues desk) (Desk.next_of_step fun last next hStep h => ?_)
    ⟨List.prefix_rfl, fun _ _ h => h⟩ moment
  exact ⟨h.journal.trans hStep.journal, fun signal outcome hSettled =>
    hStep.outcome (h.outcome signal outcome hSettled)⟩

/-- Every program comes to an end, whatever listeners do when they are called, and after each of its actions
there is a moment when every listener has been served. On the way, the first action that is to settle a signal
settles it and is told so, also where it is a listener that acts; calls are made in the order in which they are
due, nothing that has happened is undone, and no outcome changes. -/
theorem listeners_served (count : Nat) (earlier later : List Action) :
    ((Desk.opening count earlier).after (Action.totalWeight earlier)).jobs = [] ∧
      (∃ moment ≤ Action.totalWeight earlier,
        Through count earlier later ((Desk.opening count (earlier ++ later)).after moment)) ∧
      ∀ moment more,
        ((Desk.opening count (earlier ++ later)).after moment).board.signals.length = count ∧
        ((Desk.opening count (earlier ++ later)).after moment).Decisive ∧
        ((Desk.opening count (earlier ++ later)).after moment).InOrder ∧
        Continues ((Desk.opening count (earlier ++ later)).after moment)
          ((Desk.opening count (earlier ++ later)).after (moment + more)) := by
  refine ⟨Desk.jobs_after_totalWeight count earlier, ?_, fun moment more =>
    ⟨Desk.length_after .., Desk.decisive _, Desk.inOrder_of_kept (Desk.kept_after ..), ?_⟩⟩
  · obtain ⟨moment, hMoment, hJobs, hResult⟩ := Desk.exists_through count earlier later
    exact ⟨moment, hMoment, hJobs, hResult,
      Desk.served_of_jobs (Desk.kept_after ..) (Desk.prompt_after ..) hJobs⟩
  · rw [Desk.after_add]
    exact continues_after _ more

/-- A listener that settles another signal while it is called: those who wait for that one are called before
the next listener of the first signal, and a listener that comes then is called before both are through. -/
example :
    let crossing : List Action := [.listen 0 .always "first" [.resolve 1],
      .listen 0 .always "last" [], .listen 1 .resolved "nested" [.listen 0 .abandoned "late" []],
      .reject 0]
    (((Desk.opening 2 crossing).after (Action.totalWeight crossing)).journal.filterMap fun incident =>
      match incident with
      | .called _ listener outcome _ => some (listener.id, outcome)
      | .came .. | .done .. => none) =
      [("first", .abandoned), ("nested", .resolved), ("late", .abandoned), ("last", .abandoned)] := by
  decide

end Dialogue.Signal
