import JanaExtensions.DetectorTranslators
import JanaExtensions.Grouping

/-! What one translation of an event does for each route, whatever the order in which the
unordered maps are iterated over. -/

namespace JanaExtensions

namespace DetectorTranslators

open Failing HitTypes

variable {T S : Type} [HitTypes T] {raw : T}

/-- What a route publishes in an event. -/
structure Publication (T : Type) [HitTypes T] where
  raw : T
  digi : T
  detector : String
  values : List (Hit digi)

section Matching

variable {route : Route raw}

def Route.Converts (route : Route raw) (x : Hit raw × DetectorAddress) : Prop :=
  ∃ hit, route.translator x.1 x.2 = .ok hit

def Route.converted (route : Route raw) (hits : MatchedHits raw) : List (Hit route.digi) :=
  hits.filterMap fun x => (route.translator x.1 x.2).toOption

theorem converted_cons {x : Hit raw × DetectorAddress} {hit : Hit route.digi}
    (h : route.translator x.1 x.2 = .ok hit) (hits : MatchedHits raw) :
    route.converted (x :: hits) = hit :: route.converted hits := by
  simp [Route.converted, h, Except.toOption]

theorem forall₂_converted (route : Route raw) {xs : MatchedHits raw}
    (h : ∀ x ∈ xs, route.Converts x) :
    List.Forall₂ (fun x hit => route.translator x.1 x.2 = .ok hit) xs (route.converted xs) := by
  induction xs with
  | nil => exact .nil
  | cons x xs ih =>
    obtain ⟨⟨hit, hhit⟩, hxs⟩ := List.forall_mem_cons.mp h
    rw [converted_cons hhit]
    exact .cons hhit (ih hxs)

/-- The hits that are mapped to a detector with a route, with their addresses. -/
def TranslatorMap.routed (translators : TranslatorMap raw) (table : TranslationTable)
    (hits : List (Hit raw)) : MatchedHits raw :=
  hits.filterMap fun hit => (translators.matchedAddress table hit).map fun address => (hit, address)

def grouped (xs : MatchedHits raw) : OrderedMap String (MatchedHits raw) :=
  xs.foldl (fun matched x => matched.push x.2.detector x) ∅

theorem matched_eq_grouped (translators : TranslatorMap raw) (table : TranslationTable)
    (hits : List (Hit raw)) :
    translators.matched table hits = grouped (translators.routed table hits) := by
  rw [grouped, TranslatorMap.routed, List.foldl_filterMap, TranslatorMap.matched]
  congr 1
  funext matched hit
  cases translators.matchedAddress table hit <;> rfl

def detectorHits (xs : MatchedHits raw) (detector : String) : MatchedHits raw :=
  xs.filter fun x => x.2.detector = detector

theorem find_grouped (xs : MatchedHits raw) (detector : String) :
    (grouped xs).find detector =
      if detector ∈ xs.map (fun x => x.2.detector) then some (detectorHits xs detector) else none :=
  OrderedMap.find_foldl_push (fun x : Hit raw × DetectorAddress => x.2.detector) xs detector

theorem mem_keys_grouped {xs : MatchedHits raw} {detector : String} :
    detector ∈ (grouped xs).keys ↔ ∃ x ∈ xs, x.2.detector = detector := by
  rw [OrderedMap.mem_keys_iff, find_grouped, ← List.mem_map]
  by_cases hmem : detector ∈ xs.map (fun x => x.2.detector) <;> simp [hmem]

def TranslatorMap.Converts (translators : TranslatorMap raw) (xs : MatchedHits raw) : Prop :=
  ∀ x ∈ xs, ∀ route, translators.find x.2.detector = some route → route.Converts x

def TranslatorMap.publications (translators : TranslatorMap raw) (xs : MatchedHits raw)
    (detectors : List String) : List (Publication T) :=
  detectors.filterMap fun detector => (translators.find detector).map fun route =>
    ⟨raw, route.digi, detector, route.converted (detectorHits xs detector)⟩

theorem find_of_mem_routed {translators : TranslatorMap raw} {table : TranslationTable}
    {hits : List (Hit raw)} {x : Hit raw × DetectorAddress}
    (hx : x ∈ translators.routed table hits) : ∃ route, translators.find x.2.detector = some route := by
  obtain ⟨hit, -, haddress⟩ := List.mem_filterMap.mp hx
  obtain ⟨address, hmatched, rfl⟩ := Option.map_eq_some_iff.mp haddress
  exact Option.isSome_iff_exists.mp (Option.filter_eq_some_iff.mp hmatched).2

theorem TranslatorMap.mem_publications {translators : TranslatorMap raw} {xs : MatchedHits raw}
    {detectors : List String} {p : Publication T} :
    p ∈ translators.publications xs detectors ↔ ∃ detector ∈ detectors, ∃ route,
      translators.find detector = some route ∧
        p = ⟨raw, route.digi, detector, route.converted (detectorHits xs detector)⟩ := by
  simp [TranslatorMap.publications, List.mem_filterMap, eq_comm]

/-- The hits that are mapped to the detector, with their addresses. -/
def selected (table : TranslationTable) (detector : String) (hits : List (Hit raw)) :
    MatchedHits raw :=
  hits.filterMap fun hit => ((table.lookup (getDAQAddress hit)).filter fun address =>
    address.detector = detector).map fun address => (hit, address)

theorem detectorHits_routed {translators : TranslatorMap raw} {detector : String}
    (hroute : translators.find detector = some route) (table : TranslationTable)
    (hits : List (Hit raw)) :
    detectorHits (translators.routed table hits) detector = selected table detector hits := by
  rw [detectorHits, TranslatorMap.routed, selected, List.filter_filterMap]
  congr 1
  funext hit
  rw [TranslatorMap.matchedAddress]
  cases table.lookup (getDAQAddress hit) with
  | none => rfl
  | some address =>
    by_cases hdetector : address.detector = detector
    · simp [Option.filter, hdetector, hroute]
    · cases hfind : translators.find address.detector <;> simp [Option.filter, hdetector, hfind]

/-- What the routes of the map make of a hit with its address. -/
def TranslatorMap.digiHitOf (translators : TranslatorMap raw) (x : Hit raw × DetectorAddress) :
    Option (Σ t : T, Hit t) :=
  (translators.find x.2.detector).bind fun route =>
    (route.translator x.1 x.2).toOption.map (Sigma.mk route.digi)

def Publication.typed (p : Publication T) : List (Σ t : T, Hit t) := p.values.map (Sigma.mk p.digi)

theorem flatMap_typed_filter (ps : List (Publication T)) :
    (ps.filter fun p => !p.values.isEmpty).flatMap Publication.typed =
      ps.flatMap Publication.typed := by
  induction ps with
  | nil => rfl
  | cons p ps ih =>
    cases hvalues : p.values with
    | nil => simp [hvalues, ih, Publication.typed]
    | cons hit hits => simp [hvalues, ih]

theorem typed_of_find {translators : TranslatorMap raw} {detector : String}
    (hroute : translators.find detector = some route) (xs : MatchedHits raw) :
    (⟨raw, route.digi, detector, route.converted (detectorHits xs detector)⟩ : Publication T).typed =
      (detectorHits xs detector).filterMap translators.digiHitOf := by
  rw [Publication.typed, Route.converted, List.map_filterMap]
  apply List.filterMap_congr
  intro x hx
  have hdetector : x.2.detector = detector := by simpa using (List.mem_filter.mp hx).2
  simp [TranslatorMap.digiHitOf, hdetector, hroute]

theorem publications_typed (translators : TranslatorMap raw) (xs : MatchedHits raw)
    (detectors : List String) :
    (translators.publications xs detectors).flatMap Publication.typed =
      detectors.flatMap fun detector => (detectorHits xs detector).filterMap translators.digiHitOf := by
  induction detectors with
  | nil => rfl
  | cons detector detectors ih =>
    rw [List.flatMap_cons, ← ih, TranslatorMap.publications, List.filterMap_cons]
    cases hroute : translators.find detector with
    | none =>
      have hnone : (detectorHits xs detector).filterMap translators.digiHitOf = [] := by
        refine List.filterMap_eq_nil_iff.mpr fun x hx => ?_
        have hdetector : x.2.detector = detector := by simpa using (List.mem_filter.mp hx).2
        simp [TranslatorMap.digiHitOf, hdetector, hroute]
      rw [hnone]
      rfl
    | some route =>
      rw [← typed_of_find hroute]
      rfl

theorem publications_typed_perm (translators : TranslatorMap raw) (xs : MatchedHits raw)
    {detectors : List String} (hnodup : detectors.Nodup)
    (hcover : ∀ x ∈ xs, x.2.detector ∈ detectors) :
    ((translators.publications xs detectors).flatMap Publication.typed).Perm
      (xs.filterMap translators.digiHitOf) := by
  have hpartition := Grouping.flatMap_filter_perm (fun x : Hit raw × DetectorAddress => x.2.detector)
    hnodup xs hcover
  have hconverted := hpartition.filterMap translators.digiHitOf
  rw [List.filterMap_flatMap] at hconverted
  rw [publications_typed]
  exact hconverted

theorem routed_eq_nil {translators : TranslatorMap raw}
    (h : ∀ detector, translators.find detector = none) (table : TranslationTable)
    (hits : List (Hit raw)) : translators.routed table hits = [] := by
  refine List.eq_nil_iff_forall_not_mem.mpr fun x hx => ?_
  obtain ⟨route, hroute⟩ := find_of_mem_routed hx
  rw [h] at hroute
  cases hroute

/-- The references of the collection are for these DigiHits. -/
def JEvent.Refers (event : JEvent T) (digi : T) (collection : DetectorTranslationOutput)
    (hits : List (Hit digi)) : Prop :=
  collection.hits.map (fun place => (event.hits digi "")[place]?) = hits.map some

theorem JEvent.Refers.resolve {event : JEvent T} {digi : T} {collection : DetectorTranslationOutput}
    {hits : List (Hit digi)} (h : event.Refers digi collection hits) :
    event.resolve digi collection = hits := by
  have hfilter := congrArg (List.filterMap id) h
  rw [JEvent.resolve]
  simpa [List.filterMap_map, Function.comp_def] using hfilter

end Matching

variable [DecidableEq T]

section Events

def JEvent.insertAll (event : JEvent T) {t : T} (hits : List (Hit t)) : JEvent T :=
  hits.foldl (fun event hit => event.insert hit) event

theorem hits_insert (event : JEvent T) {t : T} (hit : Hit t) (tag : String) :
    (event.insert hit).hits t tag =
      if tag = "" then event.hits t "" ++ [hit] else event.hits t tag := by
  simp only [JEvent.insert, Function.update_self, Function.update_apply]

theorem hits_insert_of_ne (event : JEvent T) {t u : T} (hit : Hit t) (h : u ≠ t) (tag : String) :
    (event.insert hit).hits u tag = event.hits u tag := by
  simp only [JEvent.insert, Function.update_of_ne h]

theorem hits_insertAll (event : JEvent T) {t : T} (hits : List (Hit t)) (tag : String) :
    (event.insertAll hits).hits t tag =
      if tag = "" then event.hits t "" ++ hits else event.hits t tag := by
  induction hits generalizing event with
  | nil =>
    by_cases htag : tag = "" <;> simp [JEvent.insertAll, htag]
  | cons hit hits ih =>
    change ((event.insert hit).insertAll hits).hits t tag = _
    rw [ih, hits_insert, hits_insert, if_pos rfl]
    by_cases htag : tag = "" <;> simp [htag]

theorem hits_insertAll_of_ne (event : JEvent T) {t u : T} (hits : List (Hit t)) (h : u ≠ t)
    (tag : String) : (event.insertAll hits).hits u tag = event.hits u tag := by
  induction hits generalizing event with
  | nil => rfl
  | cons hit hits ih => exact (ih (event.insert hit)).trans (hits_insert_of_ne event hit h tag)

@[simp]
theorem outputs_insertAll (event : JEvent T) {t : T} (hits : List (Hit t)) :
    (event.insertAll hits).outputs = event.outputs := by
  induction hits generalizing event with
  | nil => rfl
  | cons hit hits ih => exact ih (event.insert hit)

@[simp]
theorem eventNumber_insertAll (event : JEvent T) {t : T} (hits : List (Hit t)) :
    (event.insertAll hits).eventNumber = event.eventNumber := by
  induction hits generalizing event with
  | nil => rfl
  | cons hit hits ih => exact ih (event.insert hit)

/-- The event with the DigiHits of the route, and its references to them. -/
def JEvent.publish (event : JEvent T) (p : Publication T) : JEvent T :=
  (event.insertAll p.values).insertOutput p.raw p.digi p.detector
    ⟨List.range' (event.hits p.digi "").length p.values.length⟩

@[simp]
theorem eventNumber_publish (event : JEvent T) (p : Publication T) :
    (event.publish p).eventNumber = event.eventNumber :=
  eventNumber_insertAll event p.values

theorem hits_publish (event : JEvent T) (p : Publication T) (tag : String) :
    (event.publish p).hits p.digi tag =
      if tag = "" then event.hits p.digi "" ++ p.values else event.hits p.digi tag :=
  hits_insertAll event p.values tag

theorem hits_publish_of_ne (event : JEvent T) (p : Publication T) {u : T} (h : u ≠ p.digi)
    (tag : String) : (event.publish p).hits u tag = event.hits u tag :=
  hits_insertAll_of_ne event p.values h tag

theorem outputs_publish (event : JEvent T) (p : Publication T) (r d : T) (tag : String) :
    (event.publish p).outputs r d tag =
      if r = p.raw ∧ d = p.digi ∧ tag = p.detector then
        event.outputs r d tag ++
          [⟨List.range' (event.hits p.digi "").length p.values.length⟩]
      else event.outputs r d tag := by
  rw [JEvent.publish, JEvent.insertOutput]
  simp only [outputs_insertAll]

def JEvent.publishAll (event : JEvent T) (ps : List (Publication T)) : JEvent T :=
  ps.foldl JEvent.publish event

@[simp]
theorem eventNumber_publishAll (event : JEvent T) (ps : List (Publication T)) :
    (event.publishAll ps).eventNumber = event.eventNumber := by
  induction ps generalizing event with
  | nil => rfl
  | cons p ps ih => exact (ih (event.publish p)).trans (eventNumber_publish event p)

theorem publishAll_append (event : JEvent T) (ps qs : List (Publication T)) :
    event.publishAll (ps ++ qs) = (event.publishAll ps).publishAll qs :=
  List.foldl_append

theorem hits_publishAll_tag (event : JEvent T) (ps : List (Publication T)) (u : T) {tag : String}
    (htag : tag ≠ "") : (event.publishAll ps).hits u tag = event.hits u tag := by
  induction ps generalizing event with
  | nil => rfl
  | cons p ps ih =>
    refine (ih (event.publish p)).trans ?_
    by_cases hu : u = p.digi
    · subst hu
      rw [hits_publish, if_neg htag]
    · exact hits_publish_of_ne event p hu tag

theorem hits_publishAll_of_ne (event : JEvent T) (ps : List (Publication T)) {u : T}
    (h : ∀ p ∈ ps, u ≠ p.digi) (tag : String) :
    (event.publishAll ps).hits u tag = event.hits u tag := by
  induction ps generalizing event with
  | nil => rfl
  | cons p ps ih =>
    obtain ⟨hp, hps⟩ := List.forall_mem_cons.mp h
    exact (ih (event.publish p) hps).trans (hits_publish_of_ne event p hp tag)

/-- The untagged collection of a type gets the DigiHits of the type, behind those it has. -/
theorem exists_hits_publishAll (event : JEvent T) (ps : List (Publication T)) (u : T) :
    ∃ gained : List (Hit u), (event.publishAll ps).hits u "" = event.hits u "" ++ gained ∧
      gained.map (Sigma.mk u) = (ps.flatMap Publication.typed).filter fun x => x.1 = u := by
  induction ps generalizing event with
  | nil => exact ⟨[], by simp [JEvent.publishAll], rfl⟩
  | cons p ps ih =>
    obtain ⟨gained, hgained, htyped⟩ := ih (event.publish p)
    change (event.publishAll (p :: ps)).hits u "" = _ at hgained
    rw [List.flatMap_cons, List.filter_append, ← htyped]
    by_cases hu : u = p.digi
    · subst hu
      refine ⟨p.values ++ gained, ?_, ?_⟩
      · rw [hgained, hits_publish, if_pos rfl, List.append_assoc]
      · have hall : p.typed.filter (fun x => x.1 = p.digi) = p.typed :=
          List.filter_eq_self.mpr (by simp [Publication.typed])
        rw [hall, List.map_append]
        rfl
    · refine ⟨gained, ?_, ?_⟩
      · rw [hgained, hits_publish_of_ne event p hu]
      · have hnone : p.typed.filter (fun x => x.1 = u) = [] :=
          List.filter_eq_nil_iff.mpr (by simp [Publication.typed, Ne.symm hu])
        rw [hnone, List.nil_append]

theorem outputs_publishAll_of_ne (event : JEvent T) (ps : List (Publication T)) {r d : T}
    {tag : String} (h : ∀ p ∈ ps, ¬ (r = p.raw ∧ d = p.digi ∧ tag = p.detector)) :
    (event.publishAll ps).outputs r d tag = event.outputs r d tag := by
  induction ps generalizing event with
  | nil => rfl
  | cons p ps ih =>
    obtain ⟨hp, hps⟩ := List.forall_mem_cons.mp h
    refine (ih (event.publish p) hps).trans ?_
    rw [outputs_publish, if_neg hp]

theorem getElem?_range' {α : Type} (before xs after : List α) :
    (List.range' before.length xs.length).map (fun i => (before ++ (xs ++ after))[i]?) =
      xs.map some := by
  induction xs generalizing before with
  | nil => rfl
  | cons x xs ih =>
    have hsplit : before ++ (x :: xs ++ after) = (before ++ [x]) ++ (xs ++ after) := by simp
    have hrest := ih (before ++ [x])
    rw [List.length_append, List.length_singleton] at hrest
    have hhead : (before ++ (x :: xs ++ after))[before.length]? = some x := by simp
    rw [List.length_cons, List.range'_succ, List.map_cons, List.map_cons, hhead, hsplit, hrest]

/-- If each route publishes once, its collection has the places of its DigiHits. -/
theorem exists_output_publishAll (event : JEvent T) {ps : List (Publication T)}
    (hnodup : (ps.map fun p => (p.raw, p.detector)).Nodup) {p : Publication T} (hp : p ∈ ps) :
    ∃ output, (event.publishAll ps).outputs p.raw p.digi p.detector =
        event.outputs p.raw p.digi p.detector ++ [output] ∧
      (event.publishAll ps).Refers p.digi output p.values := by
  obtain ⟨before, after, rfl⟩ := List.append_of_mem hp
  have hother : ∀ q ∈ before ++ after, ¬ (p.raw = q.raw ∧ p.digi = q.digi ∧
      p.detector = q.detector) := by
    rw [List.map_append, List.map_cons, List.nodup_middle, ← List.map_append,
      List.nodup_cons] at hnodup
    intro q hq hsame
    exact hnodup.1 (List.mem_map.mpr ⟨q, hq, by rw [hsame.1, hsame.2.2]⟩)
  rw [publishAll_append]
  generalize hstart : event.publishAll before = start
  have houtputs : start.outputs p.raw p.digi p.detector = event.outputs p.raw p.digi p.detector :=
    hstart ▸ outputs_publishAll_of_ne event before fun q hq => hother q (by simp [hq])
  change ∃ output, ((start.publish p).publishAll after).outputs _ _ _ = _ ∧
    ((start.publish p).publishAll after).Refers _ _ _
  obtain ⟨more, hmore, -⟩ := exists_hits_publishAll (start.publish p) after p.digi
  refine ⟨⟨List.range' (start.hits p.digi "").length p.values.length⟩, ?_, ?_⟩
  · rw [outputs_publishAll_of_ne _ after fun q hq => hother q (by simp [hq]), outputs_publish,
      if_pos ⟨rfl, rfl, rfl⟩, houtputs]
  · rw [JEvent.Refers, hmore, hits_publish, if_pos rfl, List.append_assoc]
    exact getElem?_range' _ _ _

end Events

section Routes

variable {route : Route raw}

theorem addHit_iff {s s' : JEvent T × List Nat} {x : Hit raw × DetectorAddress} :
    route.addHit s x = .ok s' ↔ ∃ hit, route.translator x.1 x.2 = .ok hit ∧
      s' = (s.1.insert hit, s.2 ++ [(s.1.hits route.digi "").length]) := by
  rw [Route.addHit, bind_eq_ok]
  simp only [Except.ok.injEq, eq_comm]

theorem addHits_iff {s s' : JEvent T × List Nat} {hits : MatchedHits raw} :
    hits.foldlM route.addHit s = .ok s' ↔ (∀ x ∈ hits, route.Converts x) ∧
      s' = (s.1.insertAll (route.converted hits),
        s.2 ++ List.range' (s.1.hits route.digi "").length (route.converted hits).length) := by
  induction hits generalizing s with
  | nil => simp [pure, Except.pure, Route.converted, JEvent.insertAll, eq_comm]
  | cons x hits ih =>
    rw [foldlM_cons_ok, List.forall_mem_cons]
    simp only [addHit_iff, ih]
    have hlength (hit : Hit route.digi) : ((s.1.insert hit).hits route.digi "").length =
        (s.1.hits route.digi "").length + 1 := by
      rw [hits_insert, if_pos rfl, List.length_append, List.length_singleton]
    constructor
    · intro hh
      obtain ⟨t, ⟨hit, hhit, rfl⟩, hall, rfl⟩ := hh
      refine ⟨⟨⟨hit, hhit⟩, hall⟩, ?_⟩
      rw [converted_cons hhit, hlength, List.length_cons, List.range'_succ, List.append_assoc]
      rfl
    · intro hh
      obtain ⟨⟨⟨hit, hhit⟩, hall⟩, rfl⟩ := hh
      refine ⟨_, ⟨hit, hhit, rfl⟩, hall, ?_⟩
      rw [converted_cons hhit, hlength, List.length_cons, List.range'_succ, List.append_assoc]
      rfl

theorem Route.translate_iff {hits : MatchedHits raw} {event event' : JEvent T} {detector : String} :
    route.translate hits event detector = .ok event' ↔ (∀ x ∈ hits, route.Converts x) ∧
      event' = event.publish ⟨raw, route.digi, detector, route.converted hits⟩ := by
  rw [Route.translate, bind_eq_ok]
  simp only [addHits_iff, Except.ok.injEq]
  constructor
  · intro hh
    obtain ⟨s, ⟨hall, rfl⟩, rfl⟩ := hh
    exact ⟨hall, rfl⟩
  · intro hh
    obtain ⟨hall, rfl⟩ := hh
    exact ⟨_, ⟨hall, rfl⟩, rfl⟩

theorem TranslatorMap.translate_iff {order : IterationOrder T} {translators : TranslatorMap raw}
    {table : TranslationTable} {event event' : JEvent T} {xs : MatchedHits raw}
    (hxs : translators.routed table (event.hits raw "") = xs) :
    translators.translate order table event = .ok event' ↔ translators.Converts xs ∧
      event' = event.publishAll
        (translators.publications xs (order.detectors raw (grouped xs).keys)) := by
  rw [TranslatorMap.translate, matched_eq_grouped, hxs]
  have hkeys (detector : String) : detector ∈ order.detectors raw (grouped xs).keys ↔
      ∃ x ∈ xs, x.2.detector = detector := by
    rw [(order.detectors_perm _ _).mem_iff, mem_keys_grouped]
  rw [foldlM_checked_iff (P := fun detector => ∀ route, translators.find detector = some route →
    ∀ x ∈ detectorHits xs detector, route.Converts x) (g := fun event detector =>
      match (translators.find detector).map fun route =>
        (⟨raw, route.digi, detector, route.converted (detectorHits xs detector)⟩ : Publication T) with
      | some p => event.publish p
      | none => event)]
  · refine and_congr ⟨fun hall x hx route hroute => ?_, fun hall detector _ route hroute x hx => ?_⟩ ?_
    · exact hall x.2.detector ((hkeys _).mpr ⟨x, hx, rfl⟩) route hroute x
        (List.mem_filter.mpr ⟨hx, by simp⟩)
    · obtain ⟨hx, hdetector⟩ := List.mem_filter.mp hx
      exact hall x hx route (by simpa [of_decide_eq_true hdetector] using hroute)
    · rw [JEvent.publishAll, TranslatorMap.publications, List.foldl_filterMap]
      refine iff_of_eq (congrArg (event' = ·) ?_)
      congr 1
      funext start detector
      cases translators.find detector <;> rfl
  · intro detector hdetector t t'
    obtain ⟨x, hx, rfl⟩ := (hkeys detector).mp hdetector
    obtain ⟨route, hroute⟩ := find_of_mem_routed (hxs.symm ▸ hx)
    have hgroup : (grouped xs).find x.2.detector = some (detectorHits xs x.2.detector) := by
      rw [find_grouped, if_pos (List.mem_map.mpr ⟨x, hx, rfl⟩)]
    simp only [TranslatorMap.translateMatched, hroute, hgroup, Route.translate_iff,
      Option.some.injEq, forall_eq', Option.map_some]

end Routes

section Types

variable {service : DetectorTranslatorsMap T S} {table : TranslationTable}

namespace DetectorTranslatorsMap

/-- No DigiHit type of a route is a raw hit type with routes, its own apart. -/
def Unchained (service : DetectorTranslatorsMap T S) : Prop :=
  ∀ raw detector route, (service.translatorsOf raw).find detector = some route →
    ∀ detector' route', (service.translatorsOf route.digi).find detector' = some route' →
      route.digi = raw

def routedHits (service : DetectorTranslatorsMap T S) (table : TranslationTable) (event : JEvent T)
    (raw : T) : MatchedHits raw :=
  (service.translatorsOf raw).routed table (event.hits raw "")

def publicationsOf (service : DetectorTranslatorsMap T S) (order : IterationOrder T)
    (table : TranslationTable) (event : JEvent T) (raw : T) : List (Publication T) :=
  (service.translatorsOf raw).publications (service.routedHits table event raw)
    (order.detectors raw (grouped (service.routedHits table event raw)).keys)

/-- The routes of the raw hit type convert all hits of the event that they get. -/
def ConvertsType (service : DetectorTranslatorsMap T S) (table : TranslationTable)
    (event : JEvent T) (raw : T) : Prop :=
  (service.translatorsOf raw).Converts (service.routedHits table event raw)

/-- In an unchained service the routes of one raw hit type do not give hits to another one. -/
theorem routedHits_publishAll (h : service.Unchained) (event start : JEvent T)
    (order : IterationOrder T) {raw other : T} (hne : other ≠ raw) :
    service.routedHits table (start.publishAll (service.publicationsOf order table event raw)) other =
      service.routedHits table start other := by
  by_cases hroutes : ∀ detector, (service.translatorsOf other).find detector = none
  · rw [routedHits, routedHits, routed_eq_nil hroutes, routed_eq_nil hroutes]
  · push Not at hroutes
    obtain ⟨detector', hsome⟩ := hroutes
    obtain ⟨route', hroute'⟩ := Option.ne_none_iff_exists'.mp hsome
    rw [routedHits, routedHits, hits_publishAll_of_ne]
    intro p hp hdigi
    obtain ⟨detector, -, route, hroute, rfl⟩ := TranslatorMap.mem_publications.mp hp
    subst hdigi
    exact hne (h raw detector route hroute detector' route' hroute')

theorem translateTypes_iff (h : service.Unchained) (order : IterationOrder T) {ts : List T}
    (hnodup : ts.Nodup) {event start event' : JEvent T} (hstart : ∀ raw ∈ ts,
      service.routedHits table start raw = service.routedHits table event raw) :
    ts.foldlM (service.translateType order table) start = .ok event' ↔
      (∀ raw ∈ ts, service.ConvertsType table event raw) ∧
        event' = start.publishAll (ts.flatMap (service.publicationsOf order table event)) := by
  induction ts generalizing start with
  | nil => simp [pure, Except.pure, JEvent.publishAll, eq_comm]
  | cons raw ts ih =>
    obtain ⟨hraw, hts⟩ := List.nodup_cons.mp hnodup
    obtain ⟨hfirst, hrest⟩ := List.forall_mem_cons.mp hstart
    have hnext : ∀ other ∈ ts, service.routedHits table
        (start.publishAll (service.publicationsOf order table event raw)) other =
          service.routedHits table event other := by
      intro other hother
      have hne : other ≠ raw := fun heq => hraw (heq ▸ hother)
      rw [routedHits_publishAll h event start order hne, hrest other hother]
    rw [foldlM_cons_ok, List.forall_mem_cons, List.flatMap_cons, publishAll_append]
    have hstep (t : JEvent T) : service.translateType order table start raw = .ok t ↔
        service.ConvertsType table event raw ∧
          t = start.publishAll (service.publicationsOf order table event raw) :=
      TranslatorMap.translate_iff hfirst
    simp only [hstep]
    constructor
    · intro hh
      obtain ⟨t, ⟨hconverts, rfl⟩, hloop⟩ := hh
      obtain ⟨hall, rfl⟩ := (ih hts hnext).mp hloop
      exact ⟨⟨hconverts, hall⟩, rfl⟩
    · intro hh
      obtain ⟨⟨hconverts, hall⟩, rfl⟩ := hh
      exact ⟨_, ⟨hconverts, rfl⟩, (ih hts hnext).mpr ⟨hall, rfl⟩⟩

def publications (service : DetectorTranslatorsMap T S) (order : IterationOrder T)
    (table : TranslationTable) (event : JEvent T) : List (Publication T) :=
  (order.types service.translators.keys).flatMap (service.publicationsOf order table event)

/-- A translation of an event publishes what the routes make of its hits. It throws if a
conversion does. -/
theorem translateEvent_iff (h : service.Unchained) (order : IterationOrder T)
    {event event' : JEvent T} : (service.translateEvent order table event).2 = .ok event' ↔
      (∀ raw ∈ service.translators.keys, service.ConvertsType table event raw) ∧
        event' = event.publishAll (service.publications order table event) := by
  have hperm := order.types_perm service.translators.keys
  have hnodup := hperm.nodup_iff.mpr service.translators.keys_nodup
  rw [translateEvent, translateTypes_iff h order hnodup fun _ _ => rfl]
  simp only [hperm.mem_iff]
  rfl

theorem publicationsOf_keys_sublist (service : DetectorTranslatorsMap T S) (order : IterationOrder T)
    (table : TranslationTable) (event : JEvent T) (raw : T) :
    ((service.publicationsOf order table event raw).map fun p => (p.raw, p.detector)).Sublist
      ((order.detectors raw (grouped (service.routedHits table event raw)).keys).map
        fun detector => (raw, detector)) := by
  rw [publicationsOf, TranslatorMap.publications]
  generalize order.detectors raw (grouped (service.routedHits table event raw)).keys = detectors
  induction detectors with
  | nil => exact .slnil
  | cons detector detectors ih =>
    rw [List.filterMap_cons]
    cases (service.translatorsOf raw).find detector with
    | none => exact ih.cons _
    | some route => exact ih.cons_cons _

theorem publications_nodup (service : DetectorTranslatorsMap T S) (order : IterationOrder T)
    (table : TranslationTable) (event : JEvent T) :
    ((service.publications order table event).map fun p => (p.raw, p.detector)).Nodup := by
  have htypes : (order.types service.translators.keys).Nodup :=
    (order.types_perm _).nodup_iff.mpr service.translators.keys_nodup
  have hsub := service.publicationsOf_keys_sublist order table event
  rw [publications, List.map_flatMap, List.nodup_flatMap]
  refine ⟨fun raw _ => ?_, htypes.imp fun {raw other} hne => ?_⟩
  · refine (hsub raw).nodup (List.Nodup.map (fun a b h => (Prod.mk.inj h).2) ?_)
    exact (order.detectors_perm _ _).nodup_iff.mpr (grouped _).keys_nodup
  · intro key hkey hkey'
    obtain ⟨detector, -, rfl⟩ := List.mem_map.mp ((hsub raw).subset hkey)
    obtain ⟨detector', -, heq⟩ := List.mem_map.mp ((hsub other).subset hkey')
    exact hne (Prod.mk.inj heq).1.symm

theorem mem_keys_of_find {raw : T} {detector : String} {route : Route raw}
    (h : (service.translatorsOf raw).find detector = some route) :
    raw ∈ service.translators.keys := by
  refine AList.lookup_isSome.mp ?_
  rw [translatorsOf] at h
  cases hlookup : service.translators.lookup raw with
  | none => simp [hlookup] at h
  | some translators => rfl

theorem mem_publications (service : DetectorTranslatorsMap T S) (order : IterationOrder T)
    (event : JEvent T) {p : Publication T} :
    p ∈ service.publications order table event ↔ ∃ raw detector route,
      (service.translatorsOf raw).find detector = some route ∧
      selected table detector (event.hits raw "") ≠ [] ∧
      p = ⟨raw, route.digi, detector,
        route.converted (selected table detector (event.hits raw ""))⟩ := by
  rw [publications, List.mem_flatMap]
  constructor
  · intro hh
    obtain ⟨raw, -, hp⟩ := hh
    obtain ⟨detector, hdetector, route, hroute, rfl⟩ := TranslatorMap.mem_publications.mp hp
    obtain ⟨x, hx, hxd⟩ := mem_keys_grouped.mp ((order.detectors_perm _ _).mem_iff.mp hdetector)
    have hhits := detectorHits_routed hroute table (event.hits raw "")
    refine ⟨raw, detector, route, hroute, ?_, by rw [← hhits]; rfl⟩
    rw [← hhits]
    exact List.ne_nil_of_mem (List.mem_filter.mpr ⟨hx, by simpa using hxd⟩)
  · intro hh
    obtain ⟨raw, detector, route, hroute, hne, rfl⟩ := hh
    have hhits := detectorHits_routed hroute table (event.hits raw "")
    refine ⟨raw, (order.types_perm _).mem_iff.mpr (mem_keys_of_find hroute),
      TranslatorMap.mem_publications.mpr ⟨detector, ?_, route, hroute, by rw [← hhits]; rfl⟩⟩
    obtain ⟨x, hx⟩ := List.exists_mem_of_ne_nil _ (hhits ▸ hne)
    obtain ⟨hx, hxd⟩ := List.mem_filter.mp hx
    exact (order.detectors_perm _ _).mem_iff.mpr
      (mem_keys_grouped.mpr ⟨x, hx, by simpa using hxd⟩)

/-- What a raw hit becomes, if it is mapped to a detector with a route for its type. -/
def digiHit (service : DetectorTranslatorsMap T S) (table : TranslationTable) (hit : Hit raw) :
    Option (Σ t : T, Hit t) :=
  (table.lookup (getDAQAddress hit)).bind fun address =>
    (service.translatorsOf raw).digiHitOf (hit, address)

def digiHits (service : DetectorTranslatorsMap T S) (table : TranslationTable) (event : JEvent T) :
    List (Σ t : T, Hit t) :=
  service.translators.keys.flatMap fun raw => (event.hits raw "").filterMap (service.digiHit table)

theorem routedHits_digiHits (service : DetectorTranslatorsMap T S) (event : JEvent T) (raw : T) :
    (service.routedHits table event raw).filterMap (service.translatorsOf raw).digiHitOf =
      (event.hits raw "").filterMap (service.digiHit table) := by
  rw [routedHits, TranslatorMap.routed, List.filterMap_filterMap]
  congr 1
  funext hit
  rw [digiHit, TranslatorMap.matchedAddress]
  cases table.lookup (getDAQAddress hit) with
  | none => rfl
  | some address =>
    cases hroute : (service.translatorsOf raw).find address.detector <;>
      simp [Option.filter, TranslatorMap.digiHitOf, hroute]

theorem publications_perm_digiHits (service : DetectorTranslatorsMap T S) (order : IterationOrder T)
    (event : JEvent T) : ((service.publications order table event).flatMap Publication.typed).Perm
      (service.digiHits table event) := by
  rw [publications, List.flatMap_assoc]
  refine ((order.types_perm _).flatMap_right _).trans (List.Perm.flatMap_left _ fun raw _ => ?_)
  rw [← routedHits_digiHits]
  refine publications_typed_perm _ _ ?_ ?_
  · exact (order.detectors_perm _ _).nodup_iff.mpr (grouped _).keys_nodup
  · intro x hx
    exact (order.detectors_perm _ _).mem_iff.mpr (mem_keys_grouped.mpr ⟨x, hx, rfl⟩)

end DetectorTranslatorsMap

end Types

end DetectorTranslators

end JanaExtensions
