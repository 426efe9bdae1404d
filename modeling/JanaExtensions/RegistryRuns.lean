import JanaExtensions.RouteIsolation

/-! Runs of the registry: whatever calls it gets, its routes and its dump outputs stay in
one-to-one correspondence, and the first use of either makes both final. -/

namespace JanaExtensions

namespace DetectorTranslators

open Failing HitTypes DetectorTranslatorsMap RelatedLists

section Paths

variable {T S : Type} [HitTypes T]

/-- The path of the file that an output is written to. -/
def Output.path (output : Output T S) : String := output.detector ++ "/" ++ output.filename

/-- The paths that the dump remembers are those of its outputs, each once. -/
structure PathsOf (dump : DetectorTranslationDump T S) : Prop where
  paths : dump.paths = (dump.outputs.map Output.path).reverse
  nodup : dump.paths.Nodup

theorem addWriter_paths {dump dump' : DetectorTranslationDump T S} {raw digi : T}
    {detector header : String} {writeRow : Option (RowWriter S digi)}
    (h : dump.addWriter raw digi detector header writeRow = .ok dump') :
    ∃ output : Output T S, dump'.outputs = dump.outputs ++ [output] ∧
      dump'.paths = output.path :: dump.paths ∧ output.path ∉ dump.paths := by
  rw [DetectorTranslationDump.addWriter.eq_def] at h
  split at h
  · cases h
  · obtain ⟨-, h⟩ := ite_error_eq_ok.mp h
    obtain ⟨filename, -, h⟩ := bind_eq_ok.mp h
    obtain ⟨hnew, h⟩ := ite_error_eq_ok.mp h
    obtain rfl := Except.ok.inj h
    exact ⟨_, rfl, rfl, hnew⟩

end Paths

variable {T S : Type} [DecidableEq T] [HitTypes T]

inductive Operation (T S : Type) [DecidableEq T] [HitTypes T] where
  | addTranslator (r : Registration T S)
  | freeze
  | getDumpOutputs
  | translateEvent (order : IterationOrder T) (table : TranslationTable) (event : JEvent T)

def Operation.apply (service : DetectorTranslatorsMap T S) :
    Operation T S → DetectorTranslatorsMap T S
  | .addTranslator r => (service.addTranslator r).1
  | .freeze => service.freeze
  | .getDumpOutputs => service.getDumpOutputs.1
  | .translateEvent order table event => (service.translateEvent order table event).1

def Operation.Freezes : Operation T S → Prop
  | .addTranslator _ => False
  | .freeze | .getDumpOutputs | .translateEvent .. => True

def afterOperations (operations : List (Operation T S)) : DetectorTranslatorsMap T S :=
  operations.foldl Operation.apply {}

/-- The output dumps what the route makes of the hits of the type for the detector. -/
def Dumps (raw : T) (detector : String) (route : Route raw) (output : Output T S) : Prop :=
  ∃ filename header writeRow, rawHitFilename raw = .ok filename ∧ output =
    ⟨pathComponent detector, filename, header, writeCollections raw route.digi detector writeRow⟩

section Registry

theorem addTranslator_dump (service : DetectorTranslatorsMap T S) (r : Registration T S) :
    (service.addTranslator r).1.dump = service.dump ∨ ∃ writeRow,
      service.dump.addWriter r.raw r.digi r.detector r.csvHeader writeRow =
        .ok (service.addTranslator r).1.dump := by
  rw [addTranslator]
  have hdump := dump_getOrCreate service r.raw
  split
  · exact .inl rfl
  · split
    · split
      · exact .inl rfl
      · dsimp only
        split
        · exact .inl hdump
        · rw [hdump]
          split
          · exact .inl hdump
          · rename_i hwriter
            exact .inr ⟨_, hwriter⟩
    · exact .inl rfl

theorem PathsOf.addTranslator {service : DetectorTranslatorsMap T S} (h : PathsOf service.dump)
    (r : Registration T S) : PathsOf (service.addTranslator r).1.dump := by
  rcases addTranslator_dump service r with hkept | ⟨writeRow, hwriter⟩
  · rwa [hkept]
  · obtain ⟨output, houtputs, hpaths, hnew⟩ := addWriter_paths hwriter
    refine ⟨?_, ?_⟩
    · rw [hpaths, houtputs, h.paths]
      simp
    · rw [hpaths]
      exact List.nodup_cons.mpr ⟨hnew, h.nodup⟩

/-- A translator that is accepted has its route from then on, and a dump output behind the
others. -/
theorem addTranslator_registers {service : DetectorTranslatorsMap T S} {r : Registration T S}
    (h : (service.addTranslator r).2 = .ok ()) :
    (service.translatorsOf r.raw).find r.detector = none ∧ ∃ translator output,
      r.translator = some translator ∧
      ((service.addTranslator r).1.translatorsOf r.raw).find r.detector =
        some ⟨r.digi, translator⟩ ∧
      (service.addTranslator r).1.dump.outputs = service.dump.outputs ++ [output] ∧
      Dumps r.raw r.detector ⟨r.digi, translator⟩ output := by
  rcases addTranslator_cases service r with ⟨message, herror, -⟩ | ⟨-, translator, writeRow, ha⟩
  · rw [herror] at h
    cases h
  · obtain ⟨filename, hfilename, houtputs⟩ := ha.writer
    have hfind : ((service.addTranslator r).1.translatorsOf r.raw).find r.detector =
        some ⟨r.digi, translator⟩ := by
      rw [ha.added, OrderedMap.find_insert_self]
    exact ⟨ha.fresh, translator, _, ha.translator_eq, hfind, houtputs, filename, _, writeRow,
      hfilename, rfl⟩

end Registry

section Runs

theorem addTranslator_of_frozen {service : DetectorTranslatorsMap T S}
    (h : service.frozen = true) (r : Registration T S) :
    service.addTranslator r = (service, .error "Detector translators map is already frozen") := by
  rw [addTranslator, if_pos h]

theorem apply_of_freezes (service : DetectorTranslatorsMap T S) {operation : Operation T S}
    (h : operation.Freezes) : operation.apply service = service.freeze := by
  cases operation with
  | addTranslator r => exact h.elim
  | freeze => rfl
  | getDumpOutputs => rfl
  | translateEvent order table event => rfl

theorem apply_of_frozen {service : DetectorTranslatorsMap T S} (h : service.frozen = true)
    (operation : Operation T S) : operation.apply service = service := by
  have hfreeze : service.freeze = service := by
    rw [freeze, ← h]
  cases operation with
  | addTranslator r => rw [Operation.apply, addTranslator_of_frozen h]
  | freeze => exact hfreeze
  | getDumpOutputs => exact hfreeze
  | translateEvent order table event => exact hfreeze

theorem foldl_apply_of_frozen {service : DetectorTranslatorsMap T S} (h : service.frozen = true)
    (operations : List (Operation T S)) : operations.foldl Operation.apply service = service := by
  induction operations with
  | nil => rfl
  | cons operation operations ih => rw [List.foldl_cons, apply_of_frozen h, ih]

/-- Only the flag changes from a call that freezes the registry on. -/
theorem afterOperations_freezes (before : List (Operation T S)) {operation : Operation T S}
    (h : operation.Freezes) (rest : List (Operation T S)) :
    afterOperations (before ++ operation :: rest) = (afterOperations before).freeze := by
  rw [afterOperations, List.foldl_append, List.foldl_cons, apply_of_freezes _ h,
    foldl_apply_of_frozen rfl]
  rfl

structure Kept (calls : List (Registration T S)) (service : DetectorTranslatorsMap T S) : Prop where
  built : Built calls service
  paths : PathsOf service.dump

theorem Kept.apply {calls : List (Registration T S)} {service : DetectorTranslatorsMap T S}
    (h : Kept calls service) (operation : Operation T S) :
    ∃ calls', Kept calls' (operation.apply service) := by
  cases operation with
  | addTranslator r =>
    have hpaths := h.paths.addTranslator r
    cases hresult : (service.addTranslator r).2 with
    | ok u => exact ⟨calls ++ [r], h.built.accepted r hresult, hpaths⟩
    | error message => exact ⟨calls, h.built.refused r hresult, hpaths⟩
  | freeze => exact ⟨calls, h.built.frozen, h.paths⟩
  | getDumpOutputs => exact ⟨calls, h.built.frozen, h.paths⟩
  | translateEvent order table event => exact ⟨calls, h.built.frozen, h.paths⟩

theorem exists_kept (operations : List (Operation T S)) :
    ∃ calls, Kept calls (afterOperations operations) := by
  induction operations using List.reverseRecOn with
  | nil => exact ⟨[], .empty, rfl, .nil⟩
  | append_singleton operations operation ih =>
    obtain ⟨calls, h⟩ := ih
    rw [afterOperations, List.foldl_append]
    exact h.apply operation

end Runs

section Correspondence

variable {calls : List (Registration T S)} {service : DetectorTranslatorsMap T S}

/-- The routes with their outputs, in the order of the outputs. -/
structure Correspond (service : DetectorTranslatorsMap T S) (routes : List (T × String)) :
    Prop where
  nodup : routes.Nodup
  mem_iff : ∀ raw detector, (raw, detector) ∈ routes ↔
    ∃ route, (service.translatorsOf raw).find detector = some route
  outputs : List.Forall₂ (fun key output => ∃ route,
    (service.translatorsOf key.1).find key.2 = some route ∧ Dumps key.1 key.2 route output)
    routes service.dump.outputs

theorem Holds.correspond (h : Holds calls service) :
    Correspond service (calls.map fun call => (call.raw, call.detector)) := by
  refine ⟨h.nodup, fun raw detector => ?_, ?_⟩
  · rw [List.mem_map]
    constructor
    · intro hh
      obtain ⟨call, hcall, hkey⟩ := hh
      obtain ⟨rfl, rfl⟩ := Prod.mk.inj hkey
      obtain ⟨route, hroute⟩ := h.registered call hcall
      exact ⟨route, (h.routes _ _ _).mpr ⟨call, hcall, hroute⟩⟩
    · intro hh
      obtain ⟨route, hfind⟩ := hh
      obtain ⟨call, hcall, translator, -, hdetector, hsigma⟩ := (h.routes _ _ _).mp hfind
      exact ⟨call, hcall, Prod.ext (Sigma.mk.inj hsigma).1 hdetector⟩
  · rw [List.forall₂_map_left_iff]
    refine forall₂_of_mem h.outputs fun call hcall output houtput => ?_
    obtain ⟨route, translator, htranslator, -, -⟩ := h.registered call hcall
    obtain ⟨writeRow, filename, -, hfilename, rfl⟩ := houtput
    exact ⟨⟨call.digi, translator⟩, h.find hcall htranslator, filename, call.csvHeader, writeRow,
      hfilename, rfl⟩

theorem Correspond.exists_output {routes : List (T × String)} (h : Correspond service routes)
    {raw : T} {detector : String} {route : Route raw}
    (hroute : (service.translatorsOf raw).find detector = some route) :
    ∃ output ∈ service.dump.outputs, Dumps raw detector route output := by
  have hmem := (h.mem_iff raw detector).mpr ⟨route, hroute⟩
  obtain ⟨output, houtput, route', hroute', hdumps⟩ := exists_of_forall₂_mem h.outputs hmem
  rw [hroute] at hroute'
  obtain rfl := Option.some.inj hroute'
  exact ⟨output, houtput, hdumps⟩

end Correspondence

/-- After every sequence of calls each route has exactly one dump output, in its own file, and
there are no other outputs. A translator that is accepted has a new route and its output behind
the others. One that is refused changes neither, and neither changes any more once the registry is
frozen, so that the routes of any translated event are among the outputs that any call returns. -/
theorem routes_correspond (operations : List (Operation T S)) :
    (∃ routes, Correspond (afterOperations operations) routes) ∧
      ((afterOperations operations).dump.outputs.map Output.path).Nodup ∧
      (∀ r, ((afterOperations operations).addTranslator r).2 = .ok () →
        ((afterOperations operations).translatorsOf r.raw).find r.detector = none ∧
          ∃ translator output, r.translator = some translator ∧
            (((afterOperations operations).addTranslator r).1.translatorsOf r.raw).find r.detector =
              some ⟨r.digi, translator⟩ ∧
            ((afterOperations operations).addTranslator r).1.dump.outputs =
              (afterOperations operations).dump.outputs ++ [output] ∧
            Dumps r.raw r.detector ⟨r.digi, translator⟩ output) ∧
      (∀ r message, ((afterOperations operations).addTranslator r).2 = .error message →
        (∀ raw, ((afterOperations operations).addTranslator r).1.translatorsOf raw =
            (afterOperations operations).translatorsOf raw) ∧
          ((afterOperations operations).addTranslator r).1.dump.outputs =
            (afterOperations operations).dump.outputs) ∧
      (∀ before operation rest, operations = before ++ operation :: rest → operation.Freezes →
        (∀ raw, (afterOperations operations).translatorsOf raw =
            (afterOperations before).translatorsOf raw) ∧
          (afterOperations operations).dump.outputs = (afterOperations before).dump.outputs) ∧
      ∀ before order table event rest before' rest',
        operations = before ++ .translateEvent order table event :: rest →
        operations = before' ++ .getDumpOutputs :: rest' →
        ∀ raw detector route, ((afterOperations before).translatorsOf raw).find detector =
          some route →
          ∃ output ∈ (afterOperations before').getDumpOutputs.2, Dumps raw detector route output := by
  obtain ⟨calls, hkept⟩ := exists_kept operations
  have hcorrespond := hkept.built.holds.correspond
  refine ⟨⟨_, hcorrespond⟩, ?_, fun r => addTranslator_registers, fun r message herror => ?_,
    fun before operation rest hsplit hfreezes => ?_,
    fun before order table event rest before' rest' hsplit hsplit' raw detector route hroute => ?_⟩
  · have hnodup := hkept.paths.nodup
    rwa [hkept.paths.paths, List.nodup_reverse] at hnodup
  · rcases addTranslator_cases (afterOperations operations) r with ⟨-, -, hroutes, hdump⟩ | ⟨hok, -⟩
    · exact ⟨hroutes, by rw [hdump]⟩
    · rw [herror] at hok
      cases hok
  · rw [hsplit, afterOperations_freezes before hfreezes]
    exact ⟨fun _ => rfl, rfl⟩
  · have hroutes : (afterOperations operations).translatorsOf raw =
        (afterOperations before).translatorsOf raw := by
      rw [hsplit, afterOperations_freezes before (by trivial)]
      rfl
    have houtputs : (afterOperations operations).dump.outputs =
        (afterOperations before').dump.outputs := by
      rw [hsplit', afterOperations_freezes before' (by trivial)]
      rfl
    rw [← hroutes] at hroute
    obtain ⟨output, houtput, hdumps⟩ := hcorrespond.exists_output hroute
    rw [houtputs] at houtput
    exact ⟨output, houtput, hdumps⟩

/-- Two registered routes, a refused one, and the outputs asked for. -/
example : (afterOperations [.addTranslator (testRoute .rawHit .digiHit "A" 0),
    .addTranslator (testRoute .rawHit .digiHit "A" 4),
    .addTranslator (testRoute .otherRawHit .digiHit "A" 0), .getDumpOutputs,
    .addTranslator (testRoute .rawHit .digiHit "B" 0)]).dump.outputs.map Output.path =
      ["A/RawHit.csv", "A/OtherRawHit.csv"] := by
  decide +kernel

end DetectorTranslators

end JanaExtensions
