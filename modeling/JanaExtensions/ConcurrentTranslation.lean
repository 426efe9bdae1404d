import JanaExtensions.LookupPrograms
import JanaExtensions.RegistryRuns

/-! Events translated in parallel. `translateEvent` holds the lock of the registry only to freeze
it, and then goes through the routes without the lock, while plugins may still call the registry. -/

namespace JanaExtensions

namespace DetectorTranslators

open Failing HitTypes DetectorTranslatorsMap LookupPrograms

variable {T S : Type} [DecidableEq T] [HitTypes T]

/-- What the translation of one raw hit type reads of the registry without the lock. -/
inductive Read (T : Type) where
  | contains (raw : T) (detector : String)
  | route (raw : T) (detector : String)

abbrev Read.Answer : Read T → Type
  | .contains .. => Bool
  | .route raw _ => Option (Route raw)

def Read.answer (service : DetectorTranslatorsMap T S) : (read : Read T) → read.Answer
  | .contains raw detector => ((service.translatorsOf raw).find detector).isSome
  | .route raw detector => (service.translatorsOf raw).find detector

abbrev TranslationProgram (T : Type) [DecidableEq T] [HitTypes T] (R : Type) :=
  Program (Read T) Read.Answer (Except String R)

section Programs

def matchProgram (table : TranslationTable) (raw : T) (matched : OrderedMap String (MatchedHits raw))
    (hit : Hit raw) : TranslationProgram T (OrderedMap String (MatchedHits raw)) :=
  match table.lookup (getDAQAddress hit) with
  | none => .done (.ok matched)
  | some address => .ask (.contains raw address.detector) fun (known : Bool) =>
    .done (.ok (if known then matched.push address.detector (hit, address) else matched))

def routeProgram {raw : T} (matched : OrderedMap String (MatchedHits raw)) (event : JEvent T)
    (detector : String) : TranslationProgram T (JEvent T) :=
  .ask (.route raw detector) fun (route : Option (Route raw)) =>
    .done (match route, matched.find detector with
      | some route, some hits => route.translate hits event detector
      | _, _ => .error "unordered_map::at")

def typeProgram (order : IterationOrder T) (table : TranslationTable) (event : JEvent T) (raw : T) :
    TranslationProgram T (JEvent T) :=
  (Program.foldExcept (matchProgram table raw) ∅ (event.hits raw "")).bind fun result =>
    match result with
    | .ok matched =>
      .foldExcept (routeProgram matched) event (order.detectors raw matched.keys)
    | .error message => .done (.error message)

variable (service : DetectorTranslatorsMap T S)

theorem eval_matchProgram (table : TranslationTable) (raw : T)
    (matched : OrderedMap String (MatchedHits raw)) (hit : Hit raw) :
    (matchProgram table raw matched hit).eval (Read.answer service) =
      .ok (match (service.translatorsOf raw).matchedAddress table hit with
        | some address => matched.push address.detector (hit, address)
        | none => matched) := by
  rw [matchProgram, TranslatorMap.matchedAddress]
  cases table.lookup (getDAQAddress hit) with
  | none => rfl
  | some address =>
    rw [Option.filter_some]
    change Except.ok (if ((service.translatorsOf raw).find address.detector).isSome = true then _
      else _) = _
    by_cases hknown : ((service.translatorsOf raw).find address.detector).isSome = true
    · rw [if_pos hknown, if_pos hknown]
    · rw [if_neg hknown, if_neg hknown]

theorem eval_typeProgram (order : IterationOrder T) (table : TranslationTable) (event : JEvent T)
    (raw : T) :
    (typeProgram order table event raw).eval (Read.answer service) =
      service.translateType order table event raw := by
  have hmatched : (Program.foldExcept (matchProgram table raw) ∅ (event.hits raw "")).eval
      (Read.answer service) =
        .ok ((service.translatorsOf raw).matched table (event.hits raw "")) := by
    rw [Program.eval_foldExcept]
    simp only [eval_matchProgram]
    exact List.foldlM_pure
  rw [typeProgram, Program.eval_bind, hmatched]
  exact Program.eval_foldExcept _ _ _ _

end Programs

/-- A call of `translateEvent`, with the order in which it goes through the maps. -/
structure Job (T : Type) [HitTypes T] where
  order : IterationOrder T
  table : TranslationTable
  event : JEvent T

def Job.types (job : Job T) (service : DetectorTranslatorsMap T S) : List T :=
  job.order.types service.translators.keys

/-- How far a call of `translateEvent` has come: it is at an entry of the map of raw hit types or
at its end, it translates the hits of the entry, or it has ended. -/
inductive Point (T : Type) [DecidableEq T] [HitTypes T] where
  | start
  | entry (k : Nat) (event : JEvent T)
  | reading (k : Nat) (program : TranslationProgram T (JEvent T))
  | ended (result : Except String (JEvent T))

variable {ι : Type} (jobs : ι → Job T)

/-- A turn of a call takes the lock once to freeze the registry, or reads it: one entry of the map
of raw hit types, or one translator. In the other turns the registry is called from elsewhere. -/
def translateStep (operation : Option (Operation T S)) (i : ι)
    (service : DetectorTranslatorsMap T S) (point : Point T) :
    Option (DetectorTranslatorsMap T S × Point T) :=
  match operation, point with
  | some operation, point => some (operation.apply service, point)
  | none, .start => some (service.freeze, .entry 0 (jobs i).event)
  | none, .entry k event =>
    some (service, match ((jobs i).types service)[k]? with
      | some raw => .reading k (typeProgram (jobs i).order (jobs i).table event raw)
      | none => .ended (.ok event))
  | none, .reading k (.ask read next) => some (service, .reading k (next (read.answer service)))
  | none, .reading k (.done (.ok event)) => some (service, .entry (k + 1) event)
  | none, .reading _ (.done (.error message)) => some (service, .ended (.error message))
  | none, .ended _ => none

section Rest

variable (job : Job T) (service : DetectorTranslatorsMap T S)

/-- What the entries from the `k`-th on make of the event. -/
def Job.rest (k : Nat) (event : JEvent T) : Except String (JEvent T) :=
  ((job.types service).drop k).foldlM (service.translateType job.order job.table) event

variable {job service} {k : Nat}

theorem Job.rest_of_entry {raw : T} (h : (job.types service)[k]? = some raw) (event : JEvent T) :
    job.rest service k event =
      service.translateType job.order job.table event raw >>= job.rest service (k + 1) := by
  obtain ⟨hk, rfl⟩ := List.getElem?_eq_some_iff.mp h
  rw [Job.rest, List.drop_eq_getElem_cons hk, List.foldlM_cons]
  rfl

theorem Job.rest_of_end (h : (job.types service)[k]? = none) (event : JEvent T) :
    job.rest service k event = .ok event := by
  rw [Job.rest, List.drop_eq_nil_of_le (List.getElem?_eq_none_iff.mp h)]
  rfl

end Rest

section Invariant

variable {jobs} {service service' : DetectorTranslatorsMap T S} {i : ι} {point point' : Point T}
  {operation : Option (Operation T S)}

theorem translateStep_of_frozen (hfrozen : service.frozen = true)
    (h : translateStep jobs operation i service point = some (service', point')) :
    service' = service := by
  cases operation with
  | some operation =>
    obtain ⟨rfl, -⟩ := Prod.mk.inj (Option.some.inj h)
    exact apply_of_frozen hfrozen operation
  | none =>
    match point, h with
    | .start, h =>
      obtain ⟨rfl, -⟩ := Prod.mk.inj (Option.some.inj h)
      exact apply_of_frozen hfrozen .freeze
    | .entry .., h | .reading _ (.ask ..), h | .reading _ (.done (.ok _)), h
    | .reading _ (.done (.error _)), h =>
      obtain ⟨rfl, -⟩ := Prod.mk.inj (Option.some.inj h)
      rfl

/-- A call that has left the lock reads a frozen registry, and what is left of it gives what the
whole call gives there. -/
def OnCourse (jobs : ι → Job T) (service : DetectorTranslatorsMap T S) (i : ι) : Point T → Prop
  | .start => True
  | .entry k event => service.frozen = true ∧ (jobs i).rest service k event =
      (service.translateEvent (jobs i).order (jobs i).table (jobs i).event).2
  | .reading k program => service.frozen = true ∧
      (program.eval (Read.answer service) >>= (jobs i).rest service (k + 1)) =
        (service.translateEvent (jobs i).order (jobs i).table (jobs i).event).2
  | .ended result => service.frozen = true ∧
      result = (service.translateEvent (jobs i).order (jobs i).table (jobs i).event).2

theorem OnCourse.frozen (h : OnCourse jobs service i point) (hpoint : point ≠ .start) :
    service.frozen = true := by
  cases point with
  | start => exact absurd rfl hpoint
  | entry | reading | ended => exact h.1

theorem OnCourse.step (hpoint : OnCourse jobs service i point)
    (h : translateStep jobs operation i service point = some (service', point')) :
    OnCourse jobs service' i point' := by
  cases operation with
  | some operation =>
    obtain ⟨rfl, rfl⟩ := Prod.mk.inj (Option.some.inj h)
    by_cases hstart : point = .start
    · subst hstart
      trivial
    · rw [apply_of_frozen (hpoint.frozen hstart)]
      exact hpoint
  | none =>
    match point, hpoint, h with
    | .start, _, h =>
      obtain ⟨rfl, rfl⟩ := Prod.mk.inj (Option.some.inj h)
      exact ⟨rfl, rfl⟩
    | .entry k event, hpoint, h =>
      obtain ⟨rfl, rfl⟩ := Prod.mk.inj (Option.some.inj h)
      obtain ⟨hfrozen, hrest⟩ := hpoint
      cases hentry : ((jobs i).types service)[k]? with
      | none => exact ⟨hfrozen, by rw [← hrest, Job.rest_of_end hentry]⟩
      | some raw =>
        refine ⟨hfrozen, ?_⟩
        rw [eval_typeProgram, ← Job.rest_of_entry hentry, hrest]
    | .reading k (.ask read next), hpoint, h =>
      obtain ⟨rfl, rfl⟩ := Prod.mk.inj (Option.some.inj h)
      exact hpoint
    | .reading k (.done (.ok event)), hpoint, h =>
      obtain ⟨rfl, rfl⟩ := Prod.mk.inj (Option.some.inj h)
      exact hpoint
    | .reading k (.done (.error message)), hpoint, h =>
      obtain ⟨rfl, rfl⟩ := Prod.mk.inj (Option.some.inj h)
      exact hpoint

theorem OnCourse.of_step {j : ι} {other : Point T} (hother : OnCourse jobs service j other)
    (h : translateStep jobs operation i service point = some (service', point')) :
    OnCourse jobs service' j other := by
  by_cases hstart : other = .start
  · subst hstart
    trivial
  · rw [translateStep_of_frozen (hother.frozen hstart) h]
    exact hother

end Invariant

section Progress

variable [DecidableEq ι] {i : ι}

theorem shared_of_frozen {s : Interleaving.State ι (DetectorTranslatorsMap T S) (Point T)}
    (h : s.shared.frozen = true) (more : List (ι × Option (Operation T S))) :
    (Interleaving.run (translateStep jobs) s more).shared = s.shared := by
  refine Interleaving.run_shared (G := fun service => service = s.shared) ?_ rfl more
  intro operation i service point service' point' hservice hstep
  subst hservice
  exact translateStep_of_frozen h hstep

variable {jobs}

theorem point_of_step {s : Interleaving.State ι (DetectorTranslatorsMap T S) (Point T)}
    {service : DetectorTranslatorsMap T S} {point : Point T}
    (h : translateStep jobs none i s.shared (s.point i) = some (service, point)) :
    (Interleaving.turn (translateStep jobs) s (i, none)).point i = point := by
  rw [Interleaving.turn_of_step h]
  exact Function.update_self _ _ _

/-- The program of an entry comes to its end, and then the call is at the next entry or has
ended. -/
theorem exists_entry_or_ended {s : Interleaving.State ι (DetectorTranslatorsMap T S) (Point T)}
    {k : Nat} {program : TranslationProgram T (JEvent T)}
    (hpoint : s.point i = .reading k program) :
    ∃ more : List (ι × Option (Operation T S)),
      (∃ event, (Interleaving.run (translateStep jobs) s more).point i = .entry (k + 1) event) ∨
      ∃ result, (Interleaving.run (translateStep jobs) s more).point i = .ended result := by
  have hask : ∀ (service : DetectorTranslatorsMap T S) (read : Read T)
      (next : read.Answer → TranslationProgram T (JEvent T)), ∃ service' answer,
      translateStep jobs none i service (.reading k (.ask read next)) =
        some (service', .reading k (next answer)) :=
    fun service read next => ⟨service, read.answer service, rfl⟩
  obtain ⟨reads, result, hdone⟩ := Program.exists_done (Point.reading k) hask program hpoint
  refine ⟨reads ++ [(i, none)], ?_⟩
  rw [Interleaving.run_append]
  cases result with
  | ok event => exact .inl ⟨event, point_of_step (by rw [hdone, translateStep])⟩
  | error message => exact .inr ⟨.error message, point_of_step (by rw [hdone, translateStep])⟩

/-- By induction on the entries that are left. -/
theorem exists_ended_of_entry (left : Nat)
    {s : Interleaving.State ι (DetectorTranslatorsMap T S) (Point T)} {k : Nat} {event : JEvent T}
    (hfrozen : s.shared.frozen = true) (hpoint : s.point i = .entry k event)
    (hleft : ((jobs i).types s.shared).length - k = left) :
    ∃ more result, (Interleaving.run (translateStep jobs) s more).point i = .ended result := by
  induction left generalizing s k event with
  | zero =>
    have hend : ((jobs i).types s.shared)[k]? = none := List.getElem?_eq_none (by omega)
    exact ⟨[(i, none)], .ok event, point_of_step (by rw [hpoint, translateStep, hend])⟩
  | succ left ih =>
    obtain ⟨raw, hentry⟩ : ∃ raw, ((jobs i).types s.shared)[k]? = some raw :=
      ⟨_, List.getElem?_eq_getElem (by omega)⟩
    have hreading : (Interleaving.turn (translateStep jobs) s (i, none)).point i = .reading k
        (typeProgram (jobs i).order (jobs i).table event raw) :=
      point_of_step (by rw [hpoint, translateStep, hentry])
    obtain ⟨reads, hreads⟩ := exists_entry_or_ended hreading
    rw [← Interleaving.run_cons] at hreads
    have hshared := shared_of_frozen jobs hfrozen ((i, none) :: reads)
    rcases hreads with ⟨event', hnext⟩ | ⟨result, hended⟩
    · obtain ⟨more, result, hmore⟩ := ih (by rw [hshared, hfrozen]) hnext (by rw [hshared]; omega)
      rw [← Interleaving.run_append] at hmore
      exact ⟨_, result, hmore⟩
    · exact ⟨_, result, hended⟩

end Progress

section Runs

variable [DecidableEq ι] (start : DetectorTranslatorsMap T S)

def afterTranslations (schedule : List (ι × Option (Operation T S))) :
    Interleaving.State ι (DetectorTranslatorsMap T S) (Point T) :=
  Interleaving.run (translateStep jobs) ⟨start, fun _ => .start⟩ schedule

theorem invariant_afterTranslations (schedule : List (ι × Option (Operation T S))) :
    Interleaving.Invariant (fun _ => True) (OnCourse jobs)
      (afterTranslations jobs start schedule) := by
  refine Interleaving.Invariant.run ?_ ?_ ⟨trivial, fun i => trivial⟩ schedule
  · exact fun operation i service point service' point' _ hpoint hstep =>
      ⟨trivial, hpoint.step hstep⟩
  · exact fun operation i service point service' point' _ _ hstep j _ other hother =>
      hother.of_step hstep

theorem exists_ended (schedule : List (ι × Option (Operation T S))) (i : ι) :
    ∃ more result, (afterTranslations jobs start (schedule ++ more)).point i = .ended result := by
  have hcourse := (invariant_afterTranslations jobs start schedule).each i
  simp only [afterTranslations, Interleaving.run_append]
  rw [afterTranslations] at hcourse
  generalize Interleaving.run (translateStep jobs) ⟨start, fun _ => .start⟩ schedule = s
    at hcourse ⊢
  cases hpoint : s.point i with
  | start =>
    have hentry : (Interleaving.turn (translateStep jobs) s (i, none)).point i =
        .entry 0 (jobs i).event := point_of_step (by rw [hpoint, translateStep])
    have hfrozen : (Interleaving.turn (translateStep jobs) s (i, none)).shared.frozen = true := by
      rw [Interleaving.turn_of_step (by rw [hpoint, translateStep])]
      rfl
    obtain ⟨more, result, hmore⟩ := exists_ended_of_entry _ hfrozen hentry rfl
    exact ⟨(i, none) :: more, result, hmore⟩
  | entry k event =>
    exact exists_ended_of_entry _ (hcourse.frozen (by simp [hpoint])) hpoint rfl
  | reading k program =>
    have hfrozen := hcourse.frozen (by simp [hpoint])
    obtain ⟨reads, ⟨event, hentry⟩ | ⟨result, hended⟩⟩ := exists_entry_or_ended hpoint
    · have hshared := shared_of_frozen jobs hfrozen reads
      obtain ⟨more, result, hmore⟩ := exists_ended_of_entry _ (by rw [hshared, hfrozen]) hentry rfl
      exact ⟨reads ++ more, result, by rw [Interleaving.run_append, hmore]⟩
    · exact ⟨reads, result, hended⟩
  | ended result => exact ⟨[], result, hpoint⟩

/-- Whatever the order in which any number of calls of `translateEvent` read the registry and it
is called from elsewhere: from the first turn of a call on the registry stays as it is, and a call
that has ended gave what it gives alone on this registry. No call is kept from its end. -/
theorem translate_interleaved (schedule : List (ι × Option (Operation T S))) :
    (∀ i, (afterTranslations jobs start schedule).point i ≠ .start →
      ∀ more, (afterTranslations jobs start (schedule ++ more)).shared =
        (afterTranslations jobs start schedule).shared) ∧
    (∀ i result, (afterTranslations jobs start schedule).point i = .ended result →
      result = ((afterTranslations jobs start schedule).shared.translateEvent (jobs i).order
        (jobs i).table (jobs i).event).2) ∧
    ∀ i, ∃ more result, (afterTranslations jobs start (schedule ++ more)).point i =
      .ended result := by
  have hinvariant := invariant_afterTranslations jobs start schedule
  refine ⟨fun i hpoint more => ?_, fun i result hpoint => ?_, fun i => ?_⟩
  · rw [afterTranslations, Interleaving.run_append]
    exact shared_of_frozen jobs ((hinvariant.each i).frozen hpoint) more
  · have hi := hinvariant.each i
    rw [hpoint] at hi
    exact hi.2
  · exact exists_ended jobs start schedule i

end Runs

end DetectorTranslators

end JanaExtensions
