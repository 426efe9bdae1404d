import JanaExtensions.TranslationTable
import Mathlib.Data.List.AList
import Mathlib.Data.String.Basic
import Mathlib.Logic.Function.Basic

/-! The registry of detector translators, which turns the raw hits of an event into
DigiHits, and the dump writers of its routes. -/

namespace JanaExtensions

/-- The hit types of a program, with their objects and their names. -/
class HitTypes (T : Type) where
  Hit : T → Type
  getDAQAddress : {t : T} → Hit t → DAQAddress
  typeName : T → String
  demangledName : T → Option String

namespace DetectorTranslators

open Failing HitTypes

/-- Non-owning references to the DigiHits of a route: their places in the untagged
collection of their type. -/
structure DetectorTranslationOutput where
  hits : List Nat
  deriving DecidableEq, Repr

structure JEvent (T : Type) [HitTypes T] where
  eventNumber : UInt64
  hits : (t : T) → String → List (Hit t)
  outputs : T → T → String → List DetectorTranslationOutput

/-- The iteration order of the unordered maps. -/
structure IterationOrder (T : Type) where
  types : List T → List T
  types_perm : ∀ ts, (types ts).Perm ts
  detectors : T → List String → List String
  detectors_perm : ∀ t ds, (detectors t ds).Perm ds

def IterationOrder.stored : IterationOrder T := ⟨id, fun _ => .rfl, fun _ => id, fun _ _ => .rfl⟩

section Dump

/-- The bytes that stand for themselves in a path. -/
def isPlain (byte : UInt8) : Bool :=
  ('a'.toNat ≤ byte.toNat && byte.toNat ≤ 'z'.toNat) ||
    ('A'.toNat ≤ byte.toNat && byte.toNat ≤ 'Z'.toNat) ||
    ('0'.toNat ≤ byte.toNat && byte.toNat ≤ '9'.toNat) ||
    byte.toNat = '_'.toNat || byte.toNat = '-'.toNat

def hexDigit (n : Nat) : Char := "0123456789ABCDEF".toList.getD n '0'

def encodeByte (byte : UInt8) : List Char :=
  if isPlain byte then [Char.ofNat byte.toNat]
  else ['%', hexDigit (byte.toNat / 16), hexDigit (byte.toNat % 16)]

def pathComponent (name : String) : String :=
  String.ofList (name.toUTF8.toList.flatMap encodeByte)

variable {T S : Type} [HitTypes T]

/-- What a writer does with the stream for a row. -/
abbrev RowWriter (S : Type) {T : Type} [HitTypes T] (digi : T) := S → UInt64 → Hit digi → S

structure Output (T S : Type) [HitTypes T] where
  detector : String
  filename : String
  header : String
  writeEvent : S → JEvent T → S

structure DetectorTranslationDump (T S : Type) [HitTypes T] where
  paths : List String := []
  outputs : List (Output T S) := []

def rawHitFilename (raw : T) : Except String String :=
  match demangledName raw with
  | some name => .ok (pathComponent name ++ ".csv")
  | none => .error "Cannot determine detector dump raw-hit type name"

/-- The DigiHits that the references of a collection are for. -/
def JEvent.resolve (event : JEvent T) (digi : T) (collection : DetectorTranslationOutput) :
    List (Hit digi) :=
  collection.hits.filterMap fun place => (event.hits digi "")[place]?

def writeCollections (raw digi : T) (detector : String) (writeRow : RowWriter S digi) (stream : S)
    (event : JEvent T) : S :=
  (event.outputs raw digi detector).foldl (fun stream collection =>
    (event.resolve digi collection).foldl (fun stream hit =>
      writeRow stream event.eventNumber hit) stream) stream

def DetectorTranslationDump.addWriter (dump : DetectorTranslationDump T S) (raw digi : T)
    (detector header : String) (writeRow : Option (RowWriter S digi)) :
    Except String (DetectorTranslationDump T S) :=
  match writeRow with
  | none => .error "A detector dump requires a CSV header and row writer"
  | some writeRow =>
    if header = "" then .error "A detector dump requires a CSV header and row writer"
    else do
      let directory := pathComponent detector
      let filename ← rawHitFilename raw
      let path := directory ++ "/" ++ filename
      if path ∈ dump.paths then
        .error ("Duplicate generated detector dump path '" ++ path ++ "'")
      else .ok ⟨path :: dump.paths, dump.outputs ++
        [⟨directory, filename, header, writeCollections raw digi detector writeRow⟩]⟩

theorem addWriter_eq_ok {dump dump' : DetectorTranslationDump T S} {raw digi : T}
    {detector header : String} {writeRow : RowWriter S digi}
    (h : dump.addWriter raw digi detector header (some writeRow) = .ok dump') :
    ∃ filename, rawHitFilename raw = .ok filename ∧ dump'.outputs = dump.outputs ++
      [⟨pathComponent detector, filename, header, writeCollections raw digi detector writeRow⟩] := by
  rw [DetectorTranslationDump.addWriter] at h
  obtain ⟨-, h⟩ := ite_error_eq_ok.mp h
  obtain ⟨filename, hfilename, h⟩ := bind_eq_ok.mp h
  obtain ⟨-, h⟩ := ite_error_eq_ok.mp h
  obtain rfl := Except.ok.inj h
  exact ⟨filename, hfilename, rfl⟩

end Dump

section Translate

variable {T S : Type} [DecidableEq T] [HitTypes T] {raw : T}

def JEvent.insert (event : JEvent T) {t : T} (hit : Hit t) : JEvent T :=
  { event with
    hits := Function.update event.hits t
      (Function.update (event.hits t) "" (event.hits t "" ++ [hit])) }

def JEvent.insertOutput (event : JEvent T) (raw digi : T) (tag : String)
    (output : DetectorTranslationOutput) : JEvent T :=
  { event with
    outputs := fun r d t =>
      if r = raw ∧ d = digi ∧ t = tag then event.outputs r d t ++ [output]
      else event.outputs r d t }

/-- A conversion, which may throw. -/
abbrev Translator (raw digi : T) := Hit raw → DetectorAddress → Except String (Hit digi)

structure Route (raw : T) where
  digi : T
  translator : Translator raw digi

abbrev MatchedHits (raw : T) := List (Hit raw × DetectorAddress)

def Route.addHit (route : Route raw) (s : JEvent T × List Nat) (x : Hit raw × DetectorAddress) :
    Except String (JEvent T × List Nat) := do
  let hit ← route.translator x.1 x.2
  .ok (s.1.insert hit, s.2 ++ [(s.1.hits route.digi "").length])

def Route.translate (route : Route raw) (hits : MatchedHits raw) (event : JEvent T)
    (detector : String) : Except String (JEvent T) := do
  let s ← hits.foldlM route.addHit (event, [])
  .ok (s.1.insertOutput raw route.digi detector ⟨s.2⟩)

abbrev TranslatorMap (raw : T) := OrderedMap String (Route raw)

def TranslatorMap.matchedAddress (translators : TranslatorMap raw) (table : TranslationTable)
    (hit : Hit raw) : Option DetectorAddress :=
  (table.lookup (getDAQAddress hit)).filter fun address =>
    (translators.find address.detector).isSome

def TranslatorMap.matched (translators : TranslatorMap raw) (table : TranslationTable)
    (hits : List (Hit raw)) : OrderedMap String (MatchedHits raw) :=
  hits.foldl (fun matched hit =>
    match translators.matchedAddress table hit with
    | some address => matched.push address.detector (hit, address)
    | none => matched) ∅

def TranslatorMap.translateMatched (translators : TranslatorMap raw)
    (matched : OrderedMap String (MatchedHits raw)) (event : JEvent T) (detector : String) :
    Except String (JEvent T) :=
  match translators.find detector, matched.find detector with
  | some route, some hits => route.translate hits event detector
  | _, _ => .error "unordered_map::at"

def TranslatorMap.translate (order : IterationOrder T) (translators : TranslatorMap raw)
    (table : TranslationTable) (event : JEvent T) : Except String (JEvent T) :=
  let matched := translators.matched table (event.hits raw "")
  (order.detectors raw matched.keys).foldlM (translators.translateMatched matched) event

/-- The service, with a map of translators for each raw hit type. -/
structure DetectorTranslatorsMap (T S : Type) [DecidableEq T] [HitTypes T] where
  translators : AList fun raw : T => TranslatorMap raw := ∅
  dump : DetectorTranslationDump T S := {}
  frozen : Bool := false

/-- The arguments of `addTranslator`. Functions may be empty. -/
structure Registration (T S : Type) [DecidableEq T] [HitTypes T] where
  raw : T
  digi : T
  detector : String
  translator : Option (Translator raw digi)
  csvHeader : String
  writeRow : Option (RowWriter S digi)

namespace DetectorTranslatorsMap

def translatorsOf (service : DetectorTranslatorsMap T S) (raw : T) : TranslatorMap raw :=
  (service.translators.lookup raw).getD ∅

def getOrCreateTranslators (service : DetectorTranslatorsMap T S) (raw : T) :
    DetectorTranslatorsMap T S :=
  match service.translators.lookup raw with
  | some _ => service
  | none => { service with translators := service.translators.insert raw ∅ }

/-- A translator that is refused may leave an empty map for its raw hit type. -/
def addTranslator (service : DetectorTranslatorsMap T S) (r : Registration T S) :
    DetectorTranslatorsMap T S × Except String Unit :=
  if service.frozen then (service, .error "Detector translators map is already frozen")
  else
    match r.translator, r.writeRow with
    | some translator, some writeRow =>
      if r.detector = "" then
        (service, .error "A detector route requires a detector, translator, and writer")
      else
        let service := service.getOrCreateTranslators r.raw
        let translators := service.translatorsOf r.raw
        if (translators.find r.detector).isSome then
          (service, .error ("Duplicate detector route for raw hit type '" ++ typeName r.raw ++
            "' and detector '" ++ r.detector ++ "'"))
        else
          match service.dump.addWriter r.raw r.digi r.detector r.csvHeader (some writeRow) with
          | .error message => (service, .error message)
          | .ok dump =>
            ({ service with
                dump
                translators := service.translators.insert r.raw
                  (translators.insert r.detector ⟨r.digi, translator⟩) }, .ok ())
    | _, _ => (service, .error "A detector route requires a detector, translator, and writer")

def freeze (service : DetectorTranslatorsMap T S) : DetectorTranslatorsMap T S :=
  { service with frozen := true }

def getDumpOutputs (service : DetectorTranslatorsMap T S) :
    DetectorTranslatorsMap T S × List (Output T S) :=
  (service.freeze, service.dump.outputs)

def getTranslatorCount (service : DetectorTranslatorsMap T S) (raw : T) : Nat :=
  (service.translatorsOf raw).entries.length

def translateType (order : IterationOrder T) (service : DetectorTranslatorsMap T S)
    (table : TranslationTable) (event : JEvent T) (raw : T) : Except String (JEvent T) :=
  (service.translatorsOf raw).translate order table event

def translateEvent (order : IterationOrder T) (service : DetectorTranslatorsMap T S)
    (table : TranslationTable) (event : JEvent T) :
    DetectorTranslatorsMap T S × Except String (JEvent T) :=
  (service.freeze,
    (order.types service.translators.keys).foldlM (service.translateType order table) event)

end DetectorTranslatorsMap

end Translate

end DetectorTranslators

end JanaExtensions
