import JanaExtensions.TranslatedHits
import JanaExtensions.RelatedLists

/-! A registry built by `addTranslator` translates each raw hit by one route at most, and
the outputs of its routes do not mix. -/

namespace JanaExtensions

namespace DetectorTranslators

open Failing HitTypes DetectorTranslatorsMap RelatedLists

variable {T S : Type} [DecidableEq T] [HitTypes T]

section Registry

variable {service : DetectorTranslatorsMap T S} {r : Registration T S}

@[simp]
theorem translatorsOf_getOrCreate (service : DetectorTranslatorsMap T S) (raw other : T) :
    (service.getOrCreateTranslators raw).translatorsOf other = service.translatorsOf other := by
  rw [getOrCreateTranslators]
  cases hlookup : service.translators.lookup raw with
  | some translators => rfl
  | none =>
    by_cases hraw : other = raw
    · subst hraw
      simp [translatorsOf, hlookup]
    · simp [translatorsOf, AList.lookup_insert_ne hraw]

@[simp]
theorem dump_getOrCreate (service : DetectorTranslatorsMap T S) (raw : T) :
    (service.getOrCreateTranslators raw).dump = service.dump := by
  rw [getOrCreateTranslators]
  cases service.translators.lookup raw <;> rfl

/-- What a translator that is accepted adds to the service. -/
structure Accepted (service service' : DetectorTranslatorsMap T S) (r : Registration T S)
    (translator : Translator r.raw r.digi) (writeRow : RowWriter S r.digi) : Prop where
  translator_eq : r.translator = some translator
  writeRow_eq : r.writeRow = some writeRow
  detector_ne : r.detector ≠ ""
  fresh : (service.translatorsOf r.raw).find r.detector = none
  added : service'.translatorsOf r.raw =
    (service.translatorsOf r.raw).insert r.detector ⟨r.digi, translator⟩
  kept : ∀ raw, raw ≠ r.raw → service'.translatorsOf raw = service.translatorsOf raw
  writer : ∃ filename, rawHitFilename r.raw = .ok filename ∧
    service'.dump.outputs = service.dump.outputs ++ [⟨pathComponent r.detector, filename,
      r.csvHeader, writeCollections r.raw r.digi r.detector writeRow⟩]

theorem addTranslator_cases (service : DetectorTranslatorsMap T S) (r : Registration T S) :
    (∃ message, (service.addTranslator r).2 = .error message ∧
      (∀ raw, (service.addTranslator r).1.translatorsOf raw = service.translatorsOf raw) ∧
      (service.addTranslator r).1.dump = service.dump) ∨
    ((service.addTranslator r).2 = .ok () ∧ ∃ translator writeRow,
      Accepted service (service.addTranslator r).1 r translator writeRow) := by
  rw [addTranslator]
  by_cases hfrozen : service.frozen = true
  · rw [if_pos hfrozen]
    exact .inl ⟨_, rfl, fun _ => rfl, rfl⟩
  rw [if_neg hfrozen]
  cases htranslator : r.translator with
  | none => exact .inl ⟨_, rfl, fun _ => rfl, rfl⟩
  | some translator =>
    cases hwriteRow : r.writeRow with
    | none => exact .inl ⟨_, rfl, fun _ => rfl, rfl⟩
    | some writeRow =>
      dsimp only
      by_cases hdetector : r.detector = ""
      · rw [if_pos hdetector]
        exact .inl ⟨_, rfl, fun _ => rfl, rfl⟩
      rw [if_neg hdetector]
      have htranslators := translatorsOf_getOrCreate service r.raw
      have hdump := dump_getOrCreate service r.raw
      generalize service.getOrCreateTranslators r.raw = created at htranslators hdump ⊢
      cases hfind : (created.translatorsOf r.raw).find r.detector with
      | some route =>
        rw [Option.isSome_some, if_pos rfl]
        exact .inl ⟨_, rfl, htranslators, hdump⟩
      | none =>
        rw [Option.isSome_none, if_neg Bool.false_ne_true]
        cases hwriter : created.dump.addWriter r.raw r.digi r.detector r.csvHeader
            (some writeRow) with
        | error message => exact .inl ⟨_, rfl, htranslators, hdump⟩
        | ok dump =>
          refine .inr ⟨rfl, translator, writeRow, htranslator, hwriteRow, hdetector, ?_, ?_, ?_, ?_⟩
          · rw [← htranslators, hfind]
          · rw [← htranslators]
            simp [translatorsOf]
          · intro raw hraw
            rw [← htranslators]
            simp [translatorsOf, AList.lookup_insert_ne hraw]
          · rw [← hdump]
            exact addWriter_eq_ok hwriter

/-- A service after calls of `addTranslator`, with the accepted ones in their order. -/
inductive Built : List (Registration T S) → DetectorTranslatorsMap T S → Prop
  | empty : Built [] {}
  | accepted {calls : List (Registration T S)} {service : DetectorTranslatorsMap T S}
      (h : Built calls service) (r : Registration T S) (hok : (service.addTranslator r).2 = .ok ()) :
      Built (calls ++ [r]) (service.addTranslator r).1
  | refused {calls : List (Registration T S)} {service : DetectorTranslatorsMap T S}
      (h : Built calls service) (r : Registration T S) {message : String}
      (herror : (service.addTranslator r).2 = .error message) :
      Built calls (service.addTranslator r).1
  | frozen {calls : List (Registration T S)} {service : DetectorTranslatorsMap T S}
      (h : Built calls service) : Built calls service.freeze

def Registration.IsRoute (r : Registration T S) (raw : T) (detector : String) (route : Route raw) :
    Prop :=
  ∃ translator, r.translator = some translator ∧ r.detector = detector ∧
    (⟨r.raw, ⟨r.digi, translator⟩⟩ : Σ t : T, Route t) = ⟨raw, route⟩

def Registration.IsOutput (r : Registration T S) (output : Output T S) : Prop :=
  ∃ writeRow filename, r.writeRow = some writeRow ∧ rawHitFilename r.raw = .ok filename ∧
    output = ⟨pathComponent r.detector, filename, r.csvHeader,
      writeCollections r.raw r.digi r.detector writeRow⟩

/-- The service holds the routes and the writers of the calls, each route once. -/
structure Holds (calls : List (Registration T S)) (service : DetectorTranslatorsMap T S) : Prop where
  routes : ∀ raw detector route, (service.translatorsOf raw).find detector = some route ↔
    ∃ call ∈ calls, call.IsRoute raw detector route
  outputs : List.Forall₂ Registration.IsOutput calls service.dump.outputs
  registered : ∀ call ∈ calls, ∃ route, call.IsRoute call.raw call.detector route
  nodup : (calls.map fun call => (call.raw, call.detector)).Nodup

theorem Holds.accepted {calls : List (Registration T S)} {service' : DetectorTranslatorsMap T S}
    {translator : Translator r.raw r.digi} {writeRow : RowWriter S r.digi} (h : Holds calls service)
    (ha : Accepted service service' r translator writeRow) : Holds (calls ++ [r]) service' := by
  have hr : r.IsRoute r.raw r.detector ⟨r.digi, translator⟩ :=
    ⟨translator, ha.translator_eq, rfl, rfl⟩
  have hnew : ∀ call ∈ calls, ¬ (call.raw = r.raw ∧ call.detector = r.detector) := by
    intro call hcall hsame
    obtain ⟨route, translator', htranslator, -, -⟩ := h.registered call hcall
    have hfind := (h.routes call.raw call.detector ⟨call.digi, translator'⟩).mpr
      ⟨call, hcall, translator', htranslator, rfl, rfl⟩
    obtain ⟨hraw, hdetector⟩ := hsame
    have hfresh := ha.fresh
    rw [← hdetector, ← hraw, hfind] at hfresh
    cases hfresh
  refine ⟨fun raw detector route => ?_, ?_, ?_, ?_⟩
  · rw [exists_mem_concat, ← h.routes]
    by_cases hraw : raw = r.raw
    · subst hraw
      rw [ha.added, OrderedMap.find_insert]
      by_cases hdetector : detector = r.detector
      · subst hdetector
        rw [if_pos rfl, ha.fresh, Option.some.injEq]
        constructor
        · rintro rfl
          exact .inr hr
        · intro hh
          rcases hh with hh | ⟨translator', htranslator', -, hroute⟩
          · cases hh
          · obtain rfl := Option.some.inj (ha.translator_eq.symm.trans htranslator')
            exact eq_of_heq (Sigma.mk.inj hroute).2
      · rw [if_neg hdetector]
        refine (or_iff_left ?_).symm
        rintro ⟨_, _, heq, _⟩
        exact hdetector heq.symm
    · rw [ha.kept raw hraw]
      refine (or_iff_left ?_).symm
      rintro ⟨_, _, _, heq⟩
      exact hraw (Sigma.mk.inj heq).1.symm
  · obtain ⟨filename, hfilename, houtputs⟩ := ha.writer
    rw [houtputs]
    exact List.rel_append h.outputs
      (.cons ⟨writeRow, filename, ha.writeRow_eq, hfilename, rfl⟩ .nil)
  · exact forall_mem_concat.mpr ⟨h.registered, _, hr⟩
  · rw [List.map_append, List.nodup_append]
    refine ⟨h.nodup, List.nodup_singleton _, ?_⟩
    rintro key hkey key' hkey' rfl
    obtain ⟨call, hcall, hsame⟩ := List.mem_map.mp hkey
    have hkeys := hsame.trans (List.mem_singleton.mp hkey')
    exact hnew call hcall ⟨(Prod.mk.inj hkeys).1, (Prod.mk.inj hkeys).2⟩

theorem Built.holds {calls : List (Registration T S)} (h : Built calls service) :
    Holds calls service := by
  induction h with
  | empty => exact ⟨by simp [translatorsOf], .nil, by simp, by simp⟩
  | @accepted calls service hbuilt r hok ih =>
    rcases addTranslator_cases service r with ⟨message, herror, -⟩ | ⟨-, translator, writeRow, ha⟩
    · rw [hok] at herror
      cases herror
    · exact ih.accepted ha
  | @refused calls service hbuilt r message herror ih =>
    rcases addTranslator_cases service r with ⟨-, -, hkept, hdump⟩ | ⟨hok, -⟩
    · exact ⟨fun raw detector route => by rw [hkept, ih.routes], hdump ▸ ih.outputs, ih.registered,
        ih.nodup⟩
    · rw [herror] at hok
      cases hok
  | frozen _ ih => exact ⟨ih.routes, ih.outputs, ih.registered, ih.nodup⟩

/-- The service counts the accepted calls for a raw hit type. -/
theorem Holds.getTranslatorCount {calls : List (Registration T S)} (h : Holds calls service)
    (raw : T) : service.getTranslatorCount raw = (calls.filter fun call => call.raw = raw).length := by
  have hpairs : (calls.filter fun call => call.raw = raw).map (fun call => (call.raw, call.detector)) =
      ((calls.filter fun call => call.raw = raw).map Registration.detector).map (Prod.mk raw) := by
    rw [List.map_map]
    refine List.map_congr_left fun call hcall => ?_
    have hraw : call.raw = raw := by simpa using (List.mem_filter.mp hcall).2
    simp [hraw]
  have hnodup : ((calls.filter fun call => call.raw = raw).map Registration.detector).Nodup := by
    refine List.Nodup.of_map (Prod.mk raw) ?_
    rw [← hpairs]
    exact (List.filter_sublist.map _).nodup h.nodup
  have hperm : ((calls.filter fun call => call.raw = raw).map Registration.detector).Perm
      (service.translatorsOf raw).keys := by
    refine (List.perm_ext_iff_of_nodup hnodup (OrderedMap.keys_nodup _)).mpr fun detector => ?_
    rw [OrderedMap.mem_keys_iff, List.mem_map]
    simp only [h.routes]
    constructor
    · intro hh
      obtain ⟨call, hmem, rfl⟩ := hh
      obtain ⟨hcall, hraw⟩ := List.mem_filter.mp hmem
      rw [decide_eq_true_eq] at hraw
      subst hraw
      obtain ⟨route, hroute⟩ := h.registered call hcall
      exact ⟨route, call, hcall, hroute⟩
    · intro hh
      obtain ⟨route, call, hcall, translator, -, hdetector, hsigma⟩ := hh
      have hraw : call.raw = raw := (Sigma.mk.inj hsigma).1
      exact ⟨call, List.mem_filter.mpr ⟨hcall, by simpa using hraw⟩, hdetector⟩
  have hlength := hperm.length_eq
  rw [List.length_map] at hlength
  rw [hlength, OrderedMap.keys, List.length_map]
  rfl

end Registry

section Event

variable {calls : List (Registration T S)} {service : DetectorTranslatorsMap T S}
  {table : TranslationTable} {event event' : JEvent T}

/-- What an event gets from a route, and what its dump writer then prints. -/
structure Translated (table : TranslationTable) (event event' : JEvent T) (r : Registration T S)
    (output : Output T S) (convert : Translator r.raw r.digi) (writeRow : RowWriter S r.digi)
    (values : List (Hit r.digi)) : Prop where
  translator_eq : r.translator = some convert
  writeRow_eq : r.writeRow = some writeRow
  converted : List.Forall₂ (fun x hit => convert x.1 x.2 = .ok hit)
    (selected table r.detector (event.hits r.raw "")) values
  absent : values = [] →
    event'.outputs r.raw r.digi r.detector = event.outputs r.raw r.digi r.detector
  collected : values ≠ [] → ∃ collection, event'.outputs r.raw r.digi r.detector =
    event.outputs r.raw r.digi r.detector ++ [collection] ∧ event'.Refers r.digi collection values
  printed : event.outputs r.raw r.digi r.detector = [] → ∀ stream, output.writeEvent stream event' =
    values.foldl (fun stream hit => writeRow stream event.eventNumber hit) stream

theorem Holds.unchained (h : Holds calls service)
    (hdigi : ∀ call ∈ calls, ∀ other ∈ calls, call.digi = other.raw → call.digi = call.raw) :
    service.Unchained := by
  intro raw detector route hroute detector' route' hroute'
  obtain ⟨call, hcall, translator, -, -, hsigma⟩ := (h.routes raw detector route).mp hroute
  obtain ⟨other, hother, translator', -, -, hsigma'⟩ :=
    (h.routes route.digi detector' route').mp hroute'
  cases hsigma
  exact hdigi call hcall other hother (Sigma.mk.inj hsigma').1.symm

theorem Holds.find (h : Holds calls service) {call : Registration T S} (hcall : call ∈ calls)
    {convert : Translator call.raw call.digi} (hconvert : call.translator = some convert) :
    (service.translatorsOf call.raw).find call.detector = some ⟨call.digi, convert⟩ :=
  (h.routes _ _ _).mpr ⟨call, hcall, convert, hconvert, rfl, rfl⟩

theorem Holds.converts_iff (h : Holds calls service) :
    (∀ raw ∈ service.translators.keys, service.ConvertsType table event raw) ↔
      ∀ call ∈ calls, ∀ convert, call.translator = some convert →
        ∀ x ∈ selected table call.detector (event.hits call.raw ""),
          ∃ hit, convert x.1 x.2 = .ok hit := by
  constructor
  · intro hall call hcall convert hconvert x hx
    have hroute := h.find hcall hconvert
    rw [← detectorHits_routed hroute] at hx
    obtain ⟨hx, hdetector⟩ := List.mem_filter.mp hx
    have hdetector : x.2.detector = call.detector := by simpa using hdetector
    exact hall call.raw (mem_keys_of_find hroute) x hx _ (hdetector ▸ hroute)
  · intro hall raw _ x hx route hroute
    obtain ⟨call, hcall, convert, hconvert, hdetector, hsigma⟩ := (h.routes _ _ _).mp hroute
    cases hsigma
    refine hall call hcall convert hconvert x ?_
    rw [← detectorHits_routed (h.find hcall hconvert), hdetector]
    exact List.mem_filter.mpr ⟨hx, by simp⟩

theorem writeEvent_of_refers {r : Registration T S} {writeRow : RowWriter S r.digi}
    {collection : DetectorTranslationOutput} {values : List (Hit r.digi)}
    (houtputs : event'.outputs r.raw r.digi r.detector = [collection])
    (hrefers : event'.Refers r.digi collection values) (stream : S) :
    writeCollections r.raw r.digi r.detector writeRow stream event' =
      values.foldl (fun stream hit => writeRow stream event'.eventNumber hit) stream := by
  rw [writeCollections, houtputs, List.foldl_cons, List.foldl_nil, hrefers.resolve]

theorem Holds.translated (h : Holds calls service) (order : IterationOrder T)
    (hconverts : ∀ raw ∈ service.translators.keys, service.ConvertsType table event raw)
    {call : Registration T S} (hcall : call ∈ calls) {output : Output T S}
    (houtput : call.IsOutput output) : ∃ convert writeRow values,
      Translated table event (event.publishAll (service.publications order table event)) call output
        convert writeRow values := by
  obtain ⟨route, convert, hconvert, -, -⟩ := h.registered call hcall
  obtain ⟨writeRow, filename, hwriteRow, -, rfl⟩ := houtput
  have hroute := h.find hcall hconvert
  have hall := h.converts_iff.mp hconverts call hcall convert hconvert
  have hconverted := forall₂_converted ⟨call.digi, convert⟩ hall
  generalize hvalues : Route.converted ⟨call.digi, convert⟩
    (selected table call.detector (event.hits call.raw "")) = values at hconverted
  generalize hevent' : event.publishAll (service.publications order table event) = event'
  have hnumber : event'.eventNumber = event.eventNumber := by
    rw [← hevent', eventNumber_publishAll]
  have habsent : values = [] →
      event'.outputs call.raw call.digi call.detector =
        event.outputs call.raw call.digi call.detector := by
    rintro rfl
    have hnil := List.forall₂_nil_right_iff.mp hconverted
    rw [← hevent']
    refine outputs_publishAll_of_ne _ _ fun p hp hsame => ?_
    obtain ⟨raw, detector, route', -, hne, rfl⟩ := (service.mem_publications order event).mp hp
    obtain ⟨rfl, -, rfl⟩ := hsame
    exact hne hnil
  have hcollected : values ≠ [] → ∃ collection, event'.outputs call.raw call.digi call.detector =
      event.outputs call.raw call.digi call.detector ++ [collection] ∧
        event'.Refers call.digi collection values := by
    intro hne
    have hselected : selected table call.detector (event.hits call.raw "") ≠ [] := by
      intro hnil
      rw [hnil] at hconverted
      exact hne (List.forall₂_nil_left_iff.mp hconverted)
    have hp : (⟨call.raw, call.digi, call.detector, values⟩ : Publication T) ∈
        service.publications order table event :=
      (service.mem_publications order event).mpr
        ⟨call.raw, call.detector, _, hroute, hselected, by rw [← hvalues]⟩
    exact hevent' ▸ exists_output_publishAll event (service.publications_nodup order table event) hp
  refine ⟨convert, writeRow, values, hconvert, hwriteRow, hconverted, habsent, hcollected, ?_⟩
  intro hempty stream
  change writeCollections call.raw call.digi call.detector writeRow stream event' = _
  rw [← hnumber]
  by_cases hnil : values = []
  · rw [writeCollections, habsent hnil, hempty, hnil]
    rfl
  · obtain ⟨collection, houtputs, hrefers⟩ := hcollected hnil
    rw [hempty, List.nil_append] at houtputs
    exact writeEvent_of_refers houtputs hrefers stream

def Registration.publication (r : Registration T S) (table : TranslationTable) (event : JEvent T) :
    Publication T :=
  ⟨r.raw, r.digi, r.detector, match r.translator with
    | some convert =>
      Route.converted ⟨r.digi, convert⟩ (selected table r.detector (event.hits r.raw ""))
    | none => []⟩

theorem publication_of_translator {call : Registration T S} {convert : Translator call.raw call.digi}
    (hconvert : call.translator = some convert) (table : TranslationTable) (event : JEvent T) :
    call.publication table event = ⟨call.raw, call.digi, call.detector,
      Route.converted ⟨call.digi, convert⟩
        (selected table call.detector (event.hits call.raw ""))⟩ := by
  rw [Registration.publication, hconvert]

theorem Holds.mem_publications_iff (h : Holds calls service) (order : IterationOrder T)
    (hconverts : ∀ raw ∈ service.translators.keys, service.ConvertsType table event raw)
    {p : Publication T} : p ∈ service.publications order table event ↔
      p ∈ calls.map (fun call => call.publication table event) ∧ p.values ≠ [] := by
  have hvalues {call : Registration T S} (hcall : call ∈ calls)
      {convert : Translator call.raw call.digi} (hconvert : call.translator = some convert) :
      Route.converted ⟨call.digi, convert⟩
        (selected table call.detector (event.hits call.raw "")) = [] ↔
          selected table call.detector (event.hits call.raw "") = [] := by
    have hall := forall₂_converted ⟨call.digi, convert⟩
      (h.converts_iff.mp hconverts call hcall convert hconvert)
    rw [← List.length_eq_zero_iff, ← List.length_eq_zero_iff, hall.length_eq]
  rw [service.mem_publications order event, List.mem_map]
  constructor
  · intro hh
    obtain ⟨raw, detector, route, hroute, hne, rfl⟩ := hh
    obtain ⟨call, hcall, convert, hconvert, rfl, hsigma⟩ := (h.routes _ _ _).mp hroute
    cases hsigma
    exact ⟨⟨call, hcall, publication_of_translator hconvert table event⟩,
      fun hnil => hne ((hvalues hcall hconvert).mp hnil)⟩
  · intro hh
    obtain ⟨⟨call, hcall, rfl⟩, hne⟩ := hh
    obtain ⟨-, convert, hconvert, -, -⟩ := h.registered call hcall
    rw [publication_of_translator hconvert] at hne ⊢
    exact ⟨call.raw, call.detector, _, h.find hcall hconvert,
      fun hnil => hne ((hvalues hcall hconvert).mpr hnil), rfl⟩

theorem Holds.publications_perm (h : Holds calls service) (order : IterationOrder T)
    (hconverts : ∀ raw ∈ service.translators.keys, service.ConvertsType table event raw) :
    ((service.publications order table event).flatMap Publication.typed).Perm
      (calls.flatMap fun call => (call.publication table event).typed) := by
  have hcalls : (calls.map fun call => call.publication table event).Nodup := by
    refine List.Nodup.of_map (fun p : Publication T => (p.raw, p.detector)) ?_
    rw [List.map_map]
    exact h.nodup
  have hperm : (service.publications order table event).Perm
      ((calls.map fun call => call.publication table event).filter fun p => !p.values.isEmpty) := by
    refine (List.perm_ext_iff_of_nodup ?_ (hcalls.filter _)).mpr fun p => ?_
    · exact List.Nodup.of_map _ (service.publications_nodup order table event)
    · rw [h.mem_publications_iff order hconverts, List.mem_filter]
      simp
  have hmap : (calls.flatMap fun call => (call.publication table event).typed) =
      (calls.map fun call => call.publication table event).flatMap Publication.typed := by
    rw [List.flatMap_map]
  rw [hmap, ← flatMap_typed_filter (calls.map _)]
  exact hperm.flatMap_right _

/-- The untagged collection of a type gets the results of the routes that produce it. -/
structure Gains (service : DetectorTranslatorsMap T S) (calls : List (Registration T S))
    (table : TranslationTable) (event event' : JEvent T) (digi : T) (gained : List (Hit digi)) :
    Prop where
  appended : event'.hits digi "" = event.hits digi "" ++ gained
  routes : (gained.map (Sigma.mk digi)).Perm
    ((calls.flatMap fun call => (call.publication table event).typed).filter fun x => x.1 = digi)
  hits : (gained.map (Sigma.mk digi)).Perm
    ((service.digiHits table event).filter fun x => x.1 = digi)

/-- If no route produces hits that other routes translate, then each route collects the results
of the hits that the event had for it, which its writer prints, and nothing else is
published. -/
theorem translateEvent_exact (hbuilt : Built calls service)
    (hdigi : ∀ call ∈ calls, ∀ other ∈ calls, call.digi = other.raw → call.digi = call.raw)
    (order : IterationOrder T) (table : TranslationTable) (event : JEvent T) :
    ((∃ event', (service.translateEvent order table event).2 = .ok event') ↔
      ∀ call ∈ calls, ∀ convert, call.translator = some convert →
        ∀ x ∈ selected table call.detector (event.hits call.raw ""),
          ∃ hit, convert x.1 x.2 = .ok hit) ∧
    ∀ event', (service.translateEvent order table event).2 = .ok event' →
      List.Forall₂ (fun call output => ∃ convert writeRow values,
        Translated table event event' call output convert writeRow values)
        calls service.dump.outputs ∧
      (∀ raw digi tag, (∀ call ∈ calls,
          ¬ (raw = call.raw ∧ digi = call.digi ∧ tag = call.detector)) →
        event'.outputs raw digi tag = event.outputs raw digi tag) ∧
      (∀ digi, ∃ gained, Gains service calls table event event' digi gained) ∧
      ∀ t tag, tag ≠ "" → event'.hits t tag = event.hits t tag := by
  have h := hbuilt.holds
  have hiff (event' : JEvent T) : (service.translateEvent order table event).2 = .ok event' ↔
      (∀ raw ∈ service.translators.keys, service.ConvertsType table event raw) ∧
        event' = event.publishAll (service.publications order table event) :=
    translateEvent_iff (h.unchained hdigi) order
  refine ⟨?_, fun event' hevent' => ?_⟩
  · rw [← h.converts_iff]
    simp only [hiff, exists_and_left, exists_eq, and_true]
  · obtain ⟨hconverts, rfl⟩ := (hiff event').mp hevent'
    refine ⟨?_, fun raw digi tag hnone => ?_, fun digi => ?_, fun t tag htag => ?_⟩
    · exact forall₂_of_mem h.outputs fun call hcall output houtput =>
        h.translated order hconverts hcall houtput
    · refine outputs_publishAll_of_ne _ _ fun p hp hsame => ?_
      obtain ⟨hp, -⟩ := (h.mem_publications_iff order hconverts).mp hp
      obtain ⟨call, hcall, rfl⟩ := List.mem_map.mp hp
      exact hnone call hcall hsame
    · obtain ⟨gained, hgained, htyped⟩ :=
        exists_hits_publishAll event (service.publications order table event) digi
      refine ⟨gained, hgained, ?_, ?_⟩
      · rw [htyped]
        exact (h.publications_perm order hconverts).filter _
      · rw [htyped]
        exact (service.publications_perm_digiHits order event).filter _
    · exact hits_publishAll_tag event _ t htag

end Event

section Test

inductive TestHit
  | rawHit
  | otherRawHit
  | digiHit
  deriving DecidableEq

/-- A raw hit has a channel and a value, a DigiHit a channel to read it from, too. -/
instance : HitTypes TestHit where
  Hit _ := UInt32 × Nat
  getDAQAddress hit := ⟨1, 2, hit.1⟩
  typeName
    | .rawHit => "6RawHit"
    | .otherRawHit => "11OtherRawHit"
    | .digiHit => "7DigiHit"
  demangledName
    | .rawHit => some "RawHit"
    | .otherRawHit => some "OtherRawHit"
    | .digiHit => some "DigiHit"

def testRoute (raw digi : TestHit) (detector : String) (channel : UInt32) :
    Registration TestHit String where
  raw
  digi
  detector
  translator := some fun hit _ => .ok (channel, hit.2)
  csvHeader := "event,value"
  writeRow := some fun stream number hit =>
    stream ++ toString number.toNat ++ "," ++ toString hit.2 ++ "\n"

def testService (calls : List (Registration TestHit String)) :
    DetectorTranslatorsMap TestHit String :=
  calls.foldl (fun service r => (service.addTranslator r).1) {}

def testTable : TranslationTable where
  entries := ((OrderedMap.insert ∅ ⟨1, 2, 3⟩ ⟨"A", []⟩).insert ⟨1, 2, 4⟩ ⟨"B", []⟩).insert
    ⟨1, 2, 5⟩ ⟨"C", []⟩

def testEvent : JEvent TestHit where
  eventNumber := 42
  hits
    | .rawHit, "" => [(3, 7), (3, 70), (4, 8), (5, 90), (99, 100)]
    | .otherRawHit, "" => [(3, 9)]
    | .digiHit, "" => [(0, 999)]
    | _, _ => []
  outputs _ _ _ := []

def IterationOrder.reversed : IterationOrder TestHit where
  types := List.reverse
  types_perm := List.reverse_perm
  detectors _ := List.reverse
  detectors_perm _ := List.reverse_perm

def testCalls : List (Registration TestHit String) :=
  [testRoute .rawHit .digiHit "A" 0, testRoute .rawHit .digiHit "B" 0,
    testRoute .otherRawHit .digiHit "A" 0]

example : ((testService testCalls).translateEvent .reversed testTable testEvent).2.toOption.map
    (fun event => (testService testCalls).dump.outputs.map fun output => output.writeEvent "" event) =
      some ["42,7\n42,70\n", "42,8\n", "42,9\n"] := by
  decide +kernel

theorem built_testCalls : Built testCalls (testService testCalls) :=
  (((Built.empty.accepted _ (by decide +kernel)).accepted _ (by decide +kernel)).accepted _
    (by decide +kernel))

theorem translateEvent_exact_test :
    ∃ event', ((testService testCalls).translateEvent .reversed testTable testEvent).2 =
      .ok event' := by
  refine (translateEvent_exact built_testCalls (by decide +kernel) .reversed testTable
    testEvent).1.mpr ?_
  intro call hcall convert hconvert x _
  simp only [testCalls, List.mem_cons, List.not_mem_nil, or_false] at hcall
  rcases hcall with rfl | rfl | rfl
  all_goals
    obtain rfl := Option.some.inj hconvert
    exact ⟨_, rfl⟩

/-- The DigiHits of the first route are raw hits of the second one. -/
def chainedCalls : List (Registration TestHit String) :=
  [testRoute .rawHit .otherRawHit "A" 4, testRoute .otherRawHit .digiHit "B" 0]

def chainedEvent : JEvent TestHit where
  eventNumber := 42
  hits
    | .rawHit, "" => [(3, 7)]
    | _, _ => []
  outputs _ _ _ := []

/-- An event without hits for a route gets a result of the route, or none, depending on the
iteration order. -/
theorem translateEvent_chained : Built chainedCalls (testService chainedCalls) ∧
    selected testTable "B" (chainedEvent.hits .otherRawHit "") = [] ∧
    ((testService chainedCalls).translateEvent .reversed testTable chainedEvent).2.toOption.map
      (fun event => event.outputs .otherRawHit .digiHit "B") = some [⟨[0]⟩] ∧
    ((testService chainedCalls).translateEvent .stored testTable chainedEvent).2.toOption.map
      (fun event => event.outputs .otherRawHit .digiHit "B") = some [] := by
  refine ⟨(Built.empty.accepted _ (by decide +kernel)).accepted _ (by decide +kernel), ?_⟩
  decide +kernel

end Test

end DetectorTranslators

end JanaExtensions
