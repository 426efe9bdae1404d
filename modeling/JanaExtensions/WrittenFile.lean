import JanaExtensions.DumpRuns
import JanaExtensions.EventCollections
import JanaExtensions.EventSource

/-! Files that are written from blocks, from the event source to the dump: the rows of the dump
are those of the hits that the banks of the blocks were written from. -/

namespace JanaExtensions

open EvioEventParser DetectorTranslators CommonHitTypes

def EncodedBlock.rawHits (services : Services CommonParser) (b : EncodedBlock) (k : Nat)
    (t : RawHitType) : List t.Hit :=
  (b.hitsAt services k).flatMap fun container => container.collection t

/-- What a file is written from: blocks, and events that are left as they are. -/
inductive FileEvent where
  | block (b : EncodedBlock)
  | other (event : EvioEvent)

namespace FileEvent

def encode : FileEvent → EvioEvent
  | block b => b.encode
  | other event => event

/-- The blocks have the tags of physics events, and go to the parsers for their banks. -/
def Readable (services : Services CommonParser) : FileEvent → Prop
  | block b => (b.tag = 0xFF50 ∨ b.tag = 0xFF58) ∧ b.Fits services ∧ ∃ k, b.hitsAt services k ≠ []
  | other event => EventSource.isPassedOn event = false

/-- The `k`-th event of a block, as the unfolder makes it. -/
def child (services : Services CommonParser) (b : EncodedBlock) (k : Nat) :
    JanaExtensions.JEvent EventHits :=
  EventUnfolder.childOf 0 ⟨toCInt (eventKey b.firstEventNumber k), b.hitsAt services k⟩

variable {T S : Type} [DecidableEq T] [HitTypes T] [CommonHitTypes T]

/-- What the processors find in the `k`-th event of the `n`-th block of the file. -/
def eventOf (services : Services CommonParser) (file : List FileEvent) (i : Nat × Nat) :
    DetectorTranslators.JEvent T :=
  match file[i.1]? with
  | some (block b) => ofChild (child services b i.2)
  | _ => { eventNumber := 0, hits := fun _ _ => [], outputs := fun _ _ _ => [] }

section Read

variable {services : Services CommonParser} {file : List FileEvent}

theorem isPassedOn_encode {b : EncodedBlock} (htag : b.tag = 0xFF50 ∨ b.tag = 0xFF58) :
    EventSource.isPassedOn b.encode = true := by
  have hphysics : EventSource.isPhysicsEvent b.encode = true := by
    change (b.tag == 0xFF50 || b.tag == 0xFF58) = true
    rcases htag with h | h <;> simp [h]
  rw [EventSource.isPassedOn, hphysics]
  rfl

/-- The source, the block parser and the unfolder make the events of a block from it. -/
structure ReadsBlock (services : Services CommonParser)
    (calls : List (EventSource.Result × EventSource.State)) (n : Nat) (b : EncodedBlock) :
    Prop where
  emitted : ∃ s, calls[n]? = some (.success ⟨0, b.encode⟩, s)
  parsed : ∀ eventNumber, ∃ events services',
    parse CommonParser.invoke eventNumber b.encode services = .ok (events, services') ∧
    events.Pairwise (fun pe pe' => pe.eventNum < pe'.eventNum) ∧
    EventUnfolder.UnfoldsFrom events 0 0 (events.map (EventUnfolder.childOf 0)) ∧
    ∀ c, c ∈ events.map (EventUnfolder.childOf 0) ↔
      ∃ k, b.hitsAt services k ≠ [] ∧ c = child services b k

theorem exists_unfolded {b : EncodedBlock} (hfits : b.Fits services)
    (hhits : ∃ k, b.hitsAt services k ≠ []) (eventNumber : UInt64) : ∃ events services',
    parse CommonParser.invoke eventNumber b.encode services = .ok (events, services') ∧
    events.Pairwise (fun pe pe' => pe.eventNum < pe'.eventNum) ∧
    EventUnfolder.UnfoldsFrom events 0 0 (events.map (EventUnfolder.childOf 0)) ∧
    ∀ c, c ∈ events.map (EventUnfolder.childOf 0) ↔
      ∃ k, b.hitsAt services k ≠ [] ∧ c = child services b k := by
  obtain ⟨services', published, hparse, hcarries⟩ := b.parse_encode_published hfits eventNumber
  obtain ⟨k, hk⟩ := hhits
  have hne : published ≠ [] := fun hnil => hk (hcarries.eq_nil_iff.mp hnil k)
  have hpos : 0 < (consolidate published).length :=
    List.length_pos_of_mem (hcarries.mem_consolidate_iff.mpr ⟨k, hk, rfl⟩)
  refine ⟨consolidate published, services', ?_, consolidate_sorted published,
    EventUnfolder.unfoldsFrom_drop 0 hpos, fun c => ?_⟩
  · rw [hparse, if_neg (by simpa using hne)]
  · rw [List.mem_map]
    constructor
    · intro hh
      obtain ⟨pe, hpe, rfl⟩ := hh
      obtain ⟨j, hj, rfl⟩ := hcarries.mem_consolidate_iff.mp hpe
      exact ⟨j, hj, rfl⟩
    · intro hh
      obtain ⟨j, hj, rfl⟩ := hh
      exact ⟨_, hcarries.mem_consolidate_iff.mpr ⟨j, hj, rfl⟩, rfl⟩

theorem readsBlock (hfile : ∀ event ∈ file, event.Readable services) {n : Nat} {b : EncodedBlock}
    (hb : file[n]? = some (block b)) {calls : List (EventSource.Result × EventSource.State)}
    (hcalls : EventSource.emitAll {} (file.map encode) = .ok calls) :
    ReadsBlock services calls n b := by
  obtain ⟨htag, hfits, hhits⟩ := hfile _ (List.mem_of_getElem? hb)
  refine ⟨⟨{}, ?_⟩, exists_unfolded hfits hhits⟩
  rw [EventSource.emitAll_eq] at hcalls
  obtain rfl := Except.ok.inj hcalls
  have hlt : n < file.length := (List.getElem?_eq_some_iff.mp hb).1
  rw [List.map_map, List.getElem?_append_left (by simpa using hlt), List.getElem?_map, hb,
    Option.map_some]
  simp only [Function.comp_apply, encode, isPassedOn_encode htag, if_true]

theorem eq_block_of_emitted (hfile : ∀ event ∈ file, event.Readable services) {n : Nat}
    {calls : List (EventSource.Result × EventSource.State)}
    (hcalls : EventSource.emitAll {} (file.map encode) = .ok calls) {event : BlockEvent}
    {s : EventSource.State} (hn : calls[n]? = some (.success event, s)) :
    ∃ b, file[n]? = some (block b) ∧ event = ⟨0, b.encode⟩ := by
  rw [EventSource.emitAll_eq] at hcalls
  obtain rfl := Except.ok.inj hcalls
  rw [List.map_map] at hn
  by_cases hlt : n < file.length
  · rw [List.getElem?_append_left (by simpa using hlt), List.getElem?_map] at hn
    obtain ⟨written, hwritten, hcall⟩ := Option.map_eq_some_iff.mp hn
    cases written with
    | block b =>
      obtain ⟨htag, -⟩ := hfile _ (List.mem_of_getElem? hwritten)
      simp only [Function.comp_apply, encode, isPassedOn_encode htag, if_true] at hcall
      obtain ⟨hevent, -⟩ := Prod.mk.inj hcall
      exact ⟨b, hwritten, (EventSource.Result.success.inj hevent).symm⟩
    | other event =>
      have hskipped : EventSource.isPassedOn event = false := hfile _ (List.mem_of_getElem? hwritten)
      simp [encode, hskipped] at hcall
  · rw [List.getElem?_append_right (by simpa using hlt), List.getElem?_singleton] at hn
    split at hn
    · cases hn
    · cases hn

end Read

theorem hits_eventOf {services : Services CommonParser} {file : List FileEvent} {n : Nat}
    {b : EncodedBlock} (hb : file[n]? = some (block b)) (k : Nat) (t : RawHitType) :
    (eventOf services file (n, k) : DetectorTranslators.JEvent T).hits (type t) "" =
      (b.rawHits services k t).map (hit t) := by
  rw [eventOf, hb]
  exact hits_ofChild (child services b k) t

theorem outputs_eventOf (services : Services CommonParser) (file : List FileEvent) (i : Nat × Nat)
    (raw digi : T) (tag : String) : (eventOf services file i).outputs raw digi tag = [] := by
  rw [eventOf]
  split
  · rw [(gainsRaw_ofChild _).outputs]
  · rfl

theorem eventNumber_eventOf {services : Services CommonParser} {file : List FileEvent} {n : Nat}
    {b : EncodedBlock} (hb : file[n]? = some (block b)) (k : Nat) :
    (eventOf services file (n, k) : DetectorTranslators.JEvent T).eventNumber =
      UInt64.ofInt (toCInt (eventKey b.firstEventNumber k)) := by
  rw [eventOf, hb]
  dsimp only
  rw [(gainsRaw_ofChild _).eventNumber, child, EventUnfolder.childOf]

section Test

inductive TestType where
  | raw (t : RawHitType)
  | samples
  deriving DecidableEq

instance : HitTypes TestType where
  Hit
    | .raw t => t.Hit
    | .samples => List UInt32
  getDAQAddress {t} x :=
    match t, x with
    | .raw t, x => (t.getDAQAddress? x).getD ⟨0, 0, 0⟩
    | .samples, _ => ⟨0, 0, 0⟩
  typeName
    | .raw _ => "6RawHit"
    | .samples => "7Samples"
  demangledName
    | .raw _ => some "RawHit"
    | .samples => some "Samples"

instance : CommonHitTypes TestType where
  type := .raw
  type_injective := fun _ _ h => TestType.raw.inj h
  hit _ x := x
  getDAQAddress_hit t x daq hdaq := by
    change (t.getDAQAddress? x).getD ⟨0, 0, 0⟩ = daq
    rw [Option.mem_def.mp hdaq, Option.getD_some]

def testRoute : Registration TestType String where
  raw := .raw .fadc250Waveform
  digi := .samples
  detector := "A"
  translator := some fun (x : FADC250WaveformHit) _ => .ok x.waveform
  csvHeader := "event,samples"
  writeRow := some fun stream number (samples : List UInt32) =>
    stream ++ toString number.toNat ++ "," ++ toString (samples.map UInt32.toNat) ++ "\n"

/-- A user event and the block of two events, of which the second has no waveforms. -/
def testFile : List FileEvent := [.other ⟨0xFFD2, [], []⟩, .block EncodedBlock.testBlock]

def testActions : List (Action (Nat × Nat) TestType String) :=
  [.addCatalog "hms" "/maps", .useRegistry (.addTranslator testRoute),
    .processParallel (testFiles "1 3 2 7") .stored (1, 1),
    .processParallel (testFiles "") .stored (1, 0), .processSequential (1, 0),
    .processSequential (1, 1)]

def testProgram : Except String (Program (Nat × Nat) TestType String) :=
  run testDirectory (fun _ => 0) ⟨"", [], []⟩ (eventOf EncodedBlock.testServices testFile)
    testActions

example : testProgram.toOption.map (fun program => program.dump.outputs) =
    some ["event,samples\n5,[7, 8, 9]\n"] := by
  decide +kernel

theorem readable_testFile :
    ∀ event ∈ testFile, event.Readable EncodedBlock.testServices := by
  intro event hevent
  rcases List.mem_pair.mp hevent with rfl | rfl
  · rfl
  · exact ⟨.inl rfl, by decide +kernel, 0, by decide +kernel⟩

end Test

end FileEvent

end JanaExtensions
