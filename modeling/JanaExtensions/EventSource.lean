import JanaExtensions.Evio

/-! The event source of an EVIO file. Every physics event that it passes on is
stamped with the run number known at that moment; the run number is to come from
the prestart events of the file. -/

namespace JanaExtensions

structure BlockEvent where
  runNumber : Int
  evioEvent : EvioEvent

namespace EventSource

inductive Result where
  | success (event : BlockEvent)
  | failureTryAgain
  | failureFinished

structure State where
  runNumber : Int := 0

def isPhysicsEvent (event : EvioEvent) : Bool :=
  event.tag == 0xFF50 || event.tag == 0xFF58

/-- The answer, and the run number that the call leaves in its reference argument. -/
def isRunControlEvent (event : EvioEvent) (runNumber : Int) : Except Fault (Bool × Int) :=
  if 0xFFD0 ≤ event.tag ∧ event.tag ≤ 0xFFDF then
    if event.tag = 0xFFD1 then
      match event.uintData[1]? with
      | some word => .ok (true, Int.bmod word.toNat (2 ^ 32))
      | none => .error (.jexception "Prestart event has no data")
    else .ok (true, runNumber)
  else .ok (false, runNumber)

/-- One call, with what the reader's `parseNextEvent` returns in it. -/
def emit (evioEvent : Option EvioEvent) (s : State) : Except Fault (Result × State) :=
  match evioEvent with
  | none => .ok (.failureFinished, s)
  | some event =>
    if event.children.isEmpty then .ok (.failureTryAgain, s)
    else if !isPhysicsEvent event then .ok (.failureTryAgain, s)
    else do
      let (runControl, runNumber) ← isRunControlEvent event s.runNumber
      if runControl then .ok (.failureTryAgain, { s with runNumber })
      else .ok (.success ⟨runNumber, event⟩, { s with runNumber })

def emitAll : State → List EvioEvent → Except Fault (List (Result × State))
  | s, [] => do
    let last ← emit none s
    .ok [last]
  | s, event :: events => do
    let call ← emit (some event) s
    let calls ← emitAll call.2 events
    .ok (call :: calls)

def isPrestart (event : EvioEvent) : Bool := event.tag == 0xFFD1

def announcedRun (event : EvioEvent) : Option Int :=
  event.uintData[1]?.map fun word => Int.bmod word.toNat (2 ^ 32)

def lastPrestart (events : List EvioEvent) : Option EvioEvent :=
  (events.filter isPrestart).getLast?

/-- The run number of an event with the given predecessors: announced by the most
recent prestart event, and zero only when there is none. -/
def RunNumberOf (events : List EvioEvent) (runNumber : Int) : Prop :=
  (∀ prestart, lastPrestart events = some prestart → announcedRun prestart = some runNumber) ∧
  (runNumber = 0 ↔ lastPrestart events = none)

/-- Along the whole file, each physics event passed on carries the run number of its
predecessors, and the call on a prestart event leaves the announced run in the state. -/
def FollowsPrestarts (events : List EvioEvent) : Prop :=
  ∃ calls, emitAll {} events = .ok calls ∧
    ∀ pre event post, events = pre ++ event :: post →
      ∃ result s, calls[pre.length]? = some (result, s) ∧
        (∀ block, result = .success block →
          block.evioEvent = event ∧ RunNumberOf pre block.runNumber) ∧
        (isPrestart event → announcedRun event = some s.runNumber)

def isPassedOn (event : EvioEvent) : Bool := !event.children.isEmpty && isPhysicsEvent event

theorem isRunControlEvent_of_physics {event : EvioEvent} (h : isPhysicsEvent event = true)
    (runNumber : Int) : isRunControlEvent event runNumber = .ok (false, runNumber) := by
  have htag : ¬ (0xFFD0 ≤ event.tag ∧ event.tag ≤ 0xFFDF) := by
    simp only [isPhysicsEvent, Bool.or_eq_true, beq_iff_eq] at h
    rcases h with h | h <;> rw [h] <;> decide
  simp only [isRunControlEvent, htag, if_false]

/-- Prestart events never reach the run control test, so no call changes the state. -/
theorem emit_some (event : EvioEvent) (s : State) :
    emit (some event) s =
      .ok (if isPassedOn event then .success ⟨s.runNumber, event⟩ else .failureTryAgain, s) := by
  cases hc : event.children.isEmpty with
  | true => simp [emit, isPassedOn, hc]
  | false =>
    cases hp : isPhysicsEvent event with
    | false => simp [emit, isPassedOn, hc, hp]
    | true =>
      have hrun := isRunControlEvent_of_physics hp s.runNumber
      simp [emit, isPassedOn, hc, hp, hrun]

theorem emitAll_eq (s : State) (events : List EvioEvent) :
    emitAll s events =
      .ok (events.map (fun event =>
        (if isPassedOn event then .success ⟨s.runNumber, event⟩ else .failureTryAgain, s)) ++
        [(.failureFinished, s)]) := by
  induction events with
  | nil => rfl
  | cons event events ih =>
    simp only [emitAll, emit_some, List.map_cons, List.cons_append]
    change (emitAll s events).bind _ = _
    rw [ih]
    rfl

theorem emitAll_call {s : State} {pre post : List EvioEvent} {event : EvioEvent}
    {calls : List (Result × State)} (h : emitAll s (pre ++ event :: post) = .ok calls) :
    calls[pre.length]? = some
      (if isPassedOn event then .success ⟨s.runNumber, event⟩ else .failureTryAgain, s) := by
  rw [emitAll_eq] at h
  rw [← Except.ok.inj h]
  simp

theorem lastPrestart_eq_none {events : List EvioEvent} :
    lastPrestart events = none ↔ ∀ event ∈ events, isPrestart event = false := by
  simp [lastPrestart]

/-- The state never leaves its initial value, so a prestart event is respected
only when it announces run zero. -/
theorem FollowsPrestarts.announced_zero {events : List EvioEvent} (h : FollowsPrestarts events)
    {event : EvioEvent} (hmem : event ∈ events) (hpre : isPrestart event = true) :
    announcedRun event = some 0 := by
  obtain ⟨calls, hcalls, h⟩ := h
  obtain ⟨pre, post, rfl⟩ := List.append_of_mem hmem
  obtain ⟨result, s, hcall, -, hrun⟩ := h pre event post rfl
  rw [emitAll_call hcalls] at hcall
  have hs := (Prod.mk.inj (Option.some.inj hcall)).2
  simpa only [← hs] using hrun hpre

theorem FollowsPrestarts.none_before {pre post : List EvioEvent} {event : EvioEvent}
    (h : FollowsPrestarts (pre ++ event :: post)) (hpassed : isPassedOn event = true) :
    ∀ earlier ∈ pre, isPrestart earlier = false := by
  obtain ⟨calls, hcalls, h⟩ := h
  obtain ⟨result, s, hcall, hsucc, -⟩ := h pre event post rfl
  rw [emitAll_call hcalls, if_pos hpassed] at hcall
  have hr := (Prod.mk.inj (Option.some.inj hcall)).1
  have hnum := (hsucc _ hr.symm).2
  exact lastPrestart_eq_none.mp (hnum.2.mp rfl)

theorem followsPrestarts_of {events : List EvioEvent}
    (hzero : ∀ event ∈ events, isPrestart event = true → announcedRun event = some 0)
    (hbefore : ∀ pre event post, events = pre ++ event :: post → isPassedOn event = true →
      ∀ earlier ∈ pre, isPrestart earlier = false) : FollowsPrestarts events := by
  refine ⟨_, emitAll_eq {} events, fun pre event post he => ?_⟩
  subst he
  refine ⟨_, _, emitAll_call (emitAll_eq {} _), fun block hblock => ?_,
    hzero event (by simp)⟩
  by_cases hpassed : isPassedOn event = true
  · rw [if_pos hpassed] at hblock
    have hnone := lastPrestart_eq_none.mpr (hbefore pre event post rfl hpassed)
    rw [← Result.success.inj hblock]
    refine ⟨rfl, fun prestart hlast => ?_, by simp [hnone]⟩
    rw [hnone] at hlast
    exact absurd hlast (by simp)
  · rw [if_neg hpassed] at hblock
    exact absurd hblock (by simp)

/-- Exactly the files are read right in which every prestart event announces run
zero and none of them precedes an event that is passed on. -/
theorem followsPrestarts_iff (events : List EvioEvent) :
    FollowsPrestarts events ↔
      (∀ event ∈ events, isPrestart event = true → announcedRun event = some 0) ∧
      ∀ pre event post, events = pre ++ event :: post → isPassedOn event = true →
        ∀ earlier ∈ pre, isPrestart earlier = false := by
  constructor
  · intro h
    refine ⟨fun event hmem hpre => h.announced_zero hmem hpre, fun pre event post he hp => ?_⟩
    subst he
    exact h.none_before hp
  · intro hh
    obtain ⟨hzero, hbefore⟩ := hh
    exact followsPrestarts_of hzero hbefore

/-- A prestart event announcing run 42, then a physics event. -/
theorem prestart_run_lost :
    ¬ FollowsPrestarts [⟨0xFFD1, [0, 42], []⟩, ⟨0xFF50, [], [.node 0xFF21 1 0x20 [] [] []]⟩] := by
  intro h
  have hzero : announcedRun ⟨0xFFD1, [0, 42], []⟩ = some 0 :=
    h.announced_zero (by simp) (by decide)
  exact absurd hzero (by decide)

end EventSource

end JanaExtensions
