import JanaExtensions.HelicityDecoder
import JanaExtensions.LatePublication

/-! Banks of complete helicity decoder blocks, and when the parser publishes all their
events, under which event numbers. -/

namespace JanaExtensions.HelicityDecoder

open BitFields Failing LatePublication

structure Filler where
  dataType : BitVec 4
  ignored : dataType ∈ [4, 5, 6, 7, 9, 10, 11, 12, 13, 14, 15]
  payload : BitVec 27

def Filler.encode (f : Filler) : UInt32 := definingWord f.dataType [⟨27, f.payload⟩]

structure Event where
  triggerTime : BitVec 10
  triggerNum : BitVec 12
  timestamp1 : BitVec 24
  timestamp2 : BitVec 24
  decoderWords : List UInt32
  hlen : decoderWords.length < 64

/-- A complete block, and the fillers after its trailer. -/
structure Block where
  slot : BitVec 5
  moduleId : BitVec 4
  blockNumber : BitVec 10
  events : List Event
  hlen : events.length < 256
  trailerWords : BitVec 22
  fillers : List Filler

def Event.encode (slot : BitVec 5) (e : Event) : List UInt32 :=
  [definingWord 2 [⟨5, slot⟩, ⟨10, e.triggerTime⟩, ⟨12, e.triggerNum⟩]] ++
    [definingWord 3 [⟨3, 0⟩, ⟨24, e.timestamp1⟩], BitFields.word [⟨8, 0⟩, ⟨24, e.timestamp2⟩]] ++
    definingWord 8 [⟨21, 0⟩, ⟨6, BitVec.ofNat 6 e.decoderWords.length⟩] :: e.decoderWords

def Block.trailer (b : Block) : UInt32 := definingWord 1 [⟨5, b.slot⟩, ⟨22, b.trailerWords⟩]

def Block.encode (b : Block) : List UInt32 :=
  definingWord 0 [⟨5, b.slot⟩, ⟨4, b.moduleId⟩, ⟨10, b.blockNumber⟩,
      ⟨8, BitVec.ofNat 8 b.events.length⟩] ::
    (b.events.flatMap (Event.encode b.slot) ++ b.trailer :: b.fillers.map Filler.encode)

def Event.record (rocid : UInt32) (b : Block) (e : Event) : HelicityDecoderData :=
  parseDecoderData e.decoderWords e.decoderWords.length
    { triggerNum := UInt64.ofNat e.triggerNum.toNat
      timestamp1 := UInt32.ofNat e.timestamp1.toNat
      timestamp2 := UInt32.ofNat e.timestamp2.toNat
      rocid
      slot := UInt32.ofNat b.slot.toNat
      moduleId := UInt32.ofNat b.moduleId.toNat }

def Event.hits (rocid : UInt32) (b : Block) (e : Event) : EventHitsHelicityDecoder :=
  ⟨[e.record rocid b]⟩

def Block.hits (rocid : UInt32) (b : Block) : List EventHitsHelicityDecoder :=
  b.events.map (Event.hits rocid b)

def publication (first : UInt64) (x : EventHitsHelicityDecoder × Nat) :
    PhysicsEvent EventHitsHelicityDecoder :=
  ⟨toCInt (eventKey first x.2), [x.1]⟩

section Reads

variable (rocid : UInt32) (triggerData : TriggerData)

/-- The parser reads the segment in the same way whatever follows it. -/
abbrev ReadsAlways (seg : List UInt32) (s s' : State) : Prop :=
  WordLoop.Reads (parseWord rocid triggerData) (fun _ => True) seg s s'

theorem starts_any (ws : List UInt32) : WordLoop.Starts (fun _ : UInt32 => True) ws :=
  fun _ _ => trivial

theorem reads_fillers (fillers : List Filler) (s : State) :
    ReadsAlways rocid triggerData (fillers.map Filler.encode) s s := by
  have hfiller (f : Filler) : ReadsAlways rocid triggerData [f.encode] s s := by
    apply WordLoop.Reads.of_body
    intro post _
    obtain ⟨dataType, ignored, payload⟩ := f
    rw [Filler.encode, parseWord, dispatch_definingWord _ _ (by simp)]
    simp only [List.mem_cons, List.not_mem_nil, or_false] at ignored
    rcases ignored with rfl | rfl | rfl | rfl | rfl | rfl | rfl | rfl | rfl | rfl | rfl <;> rfl
  exact WordLoop.Reads.map (fun _ => trivial) hfiller fillers

def State.afterEvent (b : Block) (e : Event) (s : State) : State :=
  { s with
    blockNevents := s.blockNevents - 1
    eventIndex := if s.eventHits.isSome then s.eventIndex + 1 else s.eventIndex
    triggerNum := UInt32.ofNat e.triggerNum.toNat
    timestamp1 := UInt32.ofNat e.timestamp1.toNat
    timestamp2 := UInt32.ofNat e.timestamp2.toNat
    eventHits := some (e.hits rocid b)
    physicsEvents := publish triggerData s }

theorem reads_event (b : Block) (e : Event) {s : State} (hn : 0 < s.blockNevents)
    (hslot : s.blockSlot = UInt32.ofNat b.slot.toNat)
    (hmodule : s.moduleId = UInt32.ofNat b.moduleId.toNat) :
    ReadsAlways rocid triggerData (e.encode b.slot) s
      (s.afterEvent rocid triggerData b e) := by
  have hopen : ¬ s.blockNevents - 1 < 0 := by omega
  have hheader : ReadsAlways rocid triggerData
      [definingWord 2 [⟨5, b.slot⟩, ⟨10, e.triggerTime⟩, ⟨12, e.triggerNum⟩]] s
      { s.afterEvent rocid triggerData b e with
        timestamp1 := s.timestamp1
        timestamp2 := s.timestamp2
        eventHits := some {} } := by
    apply WordLoop.Reads.of_body
    intro post _
    rw [parseWord, dispatch_definingWord _ _ (by simp)]
    change (eventHeader _ _ _ >>= fun s => Except.ok (0, s)) = _
    have hle : ¬ s.blockNevents ≤ 0 := by omega
    simp [eventHeader, BlockFrame.countEvent, hle, getBitsInRange_definingWord, aligned,
      fieldValue, hslot, State.afterEvent]
  have htime : ReadsAlways rocid triggerData
      [definingWord 3 [⟨3, 0⟩, ⟨24, e.timestamp1⟩], BitFields.word [⟨8, 0⟩, ⟨24, e.timestamp2⟩]]
      { s.afterEvent rocid triggerData b e with
        timestamp1 := s.timestamp1
        timestamp2 := s.timestamp2
        eventHits := some {} }
      { s.afterEvent rocid triggerData b e with eventHits := some {} } := by
    apply WordLoop.Reads.of_body
    intro post _
    rw [parseWord, dispatch_definingWord _ _ (by simp)]
    change triggerTime (definingWord 3 _) (_ :: post) _ = _
    simp [triggerTime, BlockFrame.requireBlock, hopen, getBitsInRange_definingWord,
      getBitsInRange_word, aligned, fieldValue, State.afterEvent]
  have hdata : ReadsAlways rocid triggerData
      (definingWord 8 [⟨21, 0⟩, ⟨6, BitVec.ofNat 6 e.decoderWords.length⟩] :: e.decoderWords)
      { s.afterEvent rocid triggerData b e with eventHits := some {} }
      (s.afterEvent rocid triggerData b e) := by
    apply WordLoop.Reads.of_body
    intro post _
    rw [parseWord, dispatch_definingWord _ _ (by simp)]
    change decoderData _ _ _ _ = _
    have hcount : (UInt32.ofNat (BitVec.ofNat 6 e.decoderWords.length).toNat).toNat =
        e.decoderWords.length := toNat_ofNat_field (by omega) e.hlen
    generalize BitVec.ofNat 6 e.decoderWords.length = nwords at *
    have htrigger := toUInt64_ofNat_field (by omega) e.triggerNum
    simp [decoderData, decoderHit, BlockFrame.requireBlock, hopen, getBitsInRange_definingWord,
      aligned, fieldValue, hcount, State.afterEvent, Event.hits, Event.record, parseDecoderData, hslot,
      hmodule, htrigger]
  exact (hheader.append (starts_any _) htime).append (starts_any _) hdata

/-- The remaining events of a block. The hits that are published are those pending and
those of the events but the last, from the event index on. -/
theorem reads_events (b : Block) (events : List Event) {i : Nat} {s : State}
    (hn : s.blockNevents = events.length) (hi : s.eventIndex = UInt64.ofNat i)
    (hslot : s.blockSlot = UInt32.ofNat b.slot.toNat)
    (hmodule : s.moduleId = UInt32.ofNat b.moduleId.toNat) :
    ∃ s', ReadsAlways rocid triggerData (events.flatMap (Event.encode b.slot)) s s' ∧
      s'.blockNevents = 0 ∧
      s'.eventIndex = UInt64.ofNat
        (i + ((s.eventHits.toList ++ events.map (Event.hits rocid b)).length - 1)) ∧
      s'.eventHits = (s.eventHits.toList ++ events.map (Event.hits rocid b)).getLast? ∧
      s'.physicsEvents = s.physicsEvents ++
        ((s.eventHits.toList ++ events.map (Event.hits rocid b)).dropLast.zipIdx i).map
          (publication triggerData.firstEventNumber) := by
  induction events generalizing i s with
  | nil =>
    refine ⟨s, WordLoop.Reads.nil s, hn, ?_, ?_, ?_⟩ <;> cases hh : s.eventHits <;> simp [hi]
  | cons e events ih =>
    have hpos : 0 < s.blockNevents := by
      rw [hn, List.length_cons]
      omega
    have hrest : (s.afterEvent rocid triggerData b e).blockNevents = events.length := by
      change s.blockNevents - 1 = _
      rw [hn, List.length_cons]
      omega
    have hread := reads_event rocid triggerData b e hpos hslot hmodule
    cases hh : s.eventHits with
    | none =>
      have hindex : (s.afterEvent rocid triggerData b e).eventIndex = UInt64.ofNat i := by
        simp [State.afterEvent, hh, hi]
      obtain ⟨s', hreads, hzero, hi', hhits, hpublished⟩ := ih hrest hindex hslot hmodule
      refine ⟨s', ?_, hzero, ?_, ?_, ?_⟩
      · rw [List.flatMap_cons]
        exact hread.append (starts_any _) hreads
      · simpa [State.afterEvent] using hi'
      · simpa [State.afterEvent] using hhits
      · simpa [State.afterEvent, publish, hh] using hpublished
    | some pending =>
      have hindex : (s.afterEvent rocid triggerData b e).eventIndex = UInt64.ofNat (i + 1) := by
        simp [State.afterEvent, hh, hi, UInt64.ofNat_add]
      obtain ⟨s', hreads, hzero, hi', hhits, hpublished⟩ := ih hrest hindex hslot hmodule
      refine ⟨s', ?_, hzero, ?_, ?_, ?_⟩
      · rw [List.flatMap_cons]
        exact hread.append (starts_any _) hreads
      · rw [hi']
        simp [State.afterEvent, Nat.add_comm, Nat.add_left_comm]
      · simpa [State.afterEvent] using hhits
      · simpa [State.afterEvent, publish, hh, publication, eventKey, hi] using hpublished

theorem publish_last {s : State} {out : List (PhysicsEvent EventHitsHelicityDecoder)}
    {items : List EventHitsHelicityDecoder}
    (hi : s.eventIndex = UInt64.ofNat (items.length - 1)) (hhits : s.eventHits = items.getLast?)
    (hout : s.physicsEvents = out ++ items.dropLast.zipIdx.map
      (publication triggerData.firstEventNumber)) :
    publish triggerData s =
      out ++ items.zipIdx.map (publication triggerData.firstEventNumber) := by
  rcases List.eq_nil_or_concat items with rfl | ⟨init, x, rfl⟩
  · simpa [publish, hhits] using hout
  · simp [publish, hhits, hout, hi, List.zipIdx_append, publication, eventKey]

def State.closed (isLast : Bool) (s : State) : State :=
  { s with
    blockNevents := -1
    eventIndex := 0
    physicsEvents := if isLast then publish triggerData s else s.physicsEvents }

theorem run_block (b : Block) (post : List UInt32) {s : State} (hi : s.eventIndex = 0) :
    ∃ s', WordLoop.run (parseWord rocid triggerData) 0 (b.encode ++ post) s =
        WordLoop.run (parseWord rocid triggerData) 0 post s' ∧
      s'.eventIndex = 0 ∧ s'.eventHits = (s.eventHits.toList ++ b.hits rocid).getLast? ∧
      s'.physicsEvents = s.physicsEvents ++
        (if b.fillers = [] ∧ post = [] then (s.eventHits.toList ++ b.hits rocid).zipIdx
          else (s.eventHits.toList ++ b.hits rocid).dropLast.zipIdx).map
          (publication triggerData.firstEventNumber) := by
  have hcount : (UInt32.ofNat (BitVec.ofNat 8 b.events.length).toNat).toNat = b.events.length :=
    toNat_ofNat_field (by omega) b.hlen
  have hheader : ReadsAlways rocid triggerData
      [definingWord 0 [⟨5, b.slot⟩, ⟨4, b.moduleId⟩, ⟨10, b.blockNumber⟩,
        ⟨8, BitVec.ofNat 8 b.events.length⟩]] s
      { s with
        blockSlot := UInt32.ofNat b.slot.toNat
        blockNevents := b.events.length
        moduleId := UInt32.ofNat b.moduleId.toNat } := by
    apply WordLoop.Reads.of_body
    intro post _
    rw [parseWord, dispatch_definingWord _ _ (by simp)]
    change Except.ok _ = _
    generalize BitVec.ofNat 8 b.events.length = n at *
    simp [BlockFrame.openBlock, getBitsInRange_definingWord, aligned, fieldValue, hcount]
  obtain ⟨t, hevents, hzero, hindex, hhits, hpublished⟩ :=
    reads_events rocid triggerData b b.events (i := 0) (s := { s with
      blockSlot := UInt32.ofNat b.slot.toNat
      blockNevents := b.events.length
      moduleId := UInt32.ofNat b.moduleId.toNat }) rfl hi rfl rfl
  simp only [Nat.zero_add] at hindex
  have htrailer : parseWord rocid triggerData b.trailer (b.fillers.map Filler.encode ++ post) t =
      .ok (0, t.closed triggerData (b.fillers = [] ∧ post = [])) := by
    rw [Block.trailer, parseWord, dispatch_definingWord _ _ (by simp)]
    change (BlockFrame.closeBlock name _ >>= fun _ => _) >>= _ = _
    rw [BlockFrame.closeBlock_of_zero hzero]
    simp [State.closed]
  refine ⟨t.closed triggerData (b.fillers = [] ∧ post = []), ?_, rfl, hhits, ?_⟩
  · have hopened := (hheader.cons (starts_any _) hevents)
      (b.trailer :: (b.fillers.map Filler.encode ++ post)) (starts_any _)
    have hfillers := reads_fillers rocid triggerData b.fillers
      (t.closed triggerData (b.fillers = [] ∧ post = [])) post (starts_any _)
    rw [WordLoop.run_of_body htrailer, hfillers] at hopened
    rw [← hopened, Block.encode]
    simp
  · by_cases hend : b.fillers = [] ∧ post = []
    · simp only [State.closed, hend, and_self, decide_true, if_true]
      exact publish_last triggerData hindex hhits hpublished
    · simp only [State.closed, hend, decide_false, if_false]
      exact hpublished

/-- Reading a bank of complete blocks publishes the hits of all events late. -/
theorem run_blocks (blocks : List Block) (last : Block) {s : State} (hi : s.eventIndex = 0) :
    ∃ s', WordLoop.run (parseWord rocid triggerData) 0
        ((blocks ++ [last]).flatMap Block.encode) s = .ok s' ∧
      s'.physicsEvents = s.physicsEvents ++
        (publications (last.fillers = []) s.eventHits (blocks.map (Block.hits rocid))
          (last.hits rocid)).map (publication triggerData.firstEventNumber) := by
  induction blocks generalizing s with
  | nil =>
    obtain ⟨s', hrun, -, -, hpublished⟩ := run_block rocid triggerData last [] hi
    refine ⟨s', by simpa [WordLoop.run_nil] using hrun, ?_⟩
    simpa [publications] using hpublished
  | cons b blocks ih =>
    obtain ⟨t, hrun, hi', hhits, hpublished⟩ :=
      run_block rocid triggerData b ((blocks ++ [last]).flatMap Block.encode) hi
    obtain ⟨s', hrest, hpublished'⟩ := ih hi'
    refine ⟨s', ?_, ?_⟩
    · rw [List.cons_append, List.flatMap_cons, hrun, hrest]
    · have hmore : ¬ (b.fillers = [] ∧ (blocks ++ [last]).flatMap Block.encode = []) := by
        simp [Block.encode]
      rw [if_neg hmore] at hpublished
      rw [hpublished', hpublished, hhits, List.map_cons, publications, List.map_append,
        List.append_assoc]

end Reads

theorem parse_encode_eq (rocid : UInt32) (triggerData : TriggerData) (blocks : List Block)
    (last : Block) :
    parse rocid triggerData ((blocks ++ [last]).flatMap Block.encode) =
      .ok ((publications (last.fillers = []) none (blocks.map (Block.hits rocid))
        (last.hits rocid)).map (publication triggerData.firstEventNumber)) := by
  obtain ⟨s, hrun, hpublished⟩ := run_blocks rocid triggerData blocks last (s := {}) rfl
  rw [parse, hrun, bind_ok, hpublished]
  rfl

def records (rocid : UInt32) (blocks : List Block) : List HelicityDecoderData :=
  blocks.flatMap fun b => b.events.map (Event.record rocid b)

/-- The parser returns one hits container for each event header, and in them each
record of the bank once. -/
def KeepsAllEvents (rocid : UInt32) (triggerData : TriggerData) (blocks : List Block) : Prop :=
  ∃ events, parse rocid triggerData (blocks.flatMap Block.encode) = .ok events ∧
    (events.flatMap fun event => event.hitsList).length =
      (blocks.flatMap fun b => b.events).length ∧
    ((events.flatMap fun event => event.hitsList).flatMap fun hits => hits.helicity).Perm
      (records rocid blocks)

theorem hitsList_publications (first : UInt64) (xs : List (EventHitsHelicityDecoder × Nat)) :
    (xs.map (publication first)).flatMap (fun event => event.hitsList) = xs.map Prod.fst := by
  induction xs with
  | nil => rfl
  | cons x xs ih => simpa [publication] using ih

theorem length_hits (rocid : UInt32) (blocks : List Block) :
    (blocks.map (Block.hits rocid)).flatten.length =
      (blocks.flatMap fun b => b.events).length := by
  simp [List.length_flatMap, List.length_flatten, Block.hits, Function.comp_def]

theorem helicity_hits (rocid : UInt32) (blocks : List Block) :
    (blocks.map (Block.hits rocid)).flatten.flatMap (fun hits => hits.helicity) =
      records rocid blocks := by
  induction blocks with
  | nil => rfl
  | cons b blocks ih =>
    have hb : (Block.hits rocid b).flatMap (fun hits => hits.helicity) =
        b.events.map (Event.record rocid b) := by
      rw [Block.hits, List.flatMap_map]
      exact (List.map_eq_flatMap ..).symm
    rw [List.map_cons, List.flatten_cons, List.flatMap_append, ih, hb]
    rfl

/-- No event is lost exactly if there is none, or if the bank ends with a trailer. -/
theorem keepsAllEvents_iff (rocid : UInt32) (triggerData : TriggerData) (blocks : List Block) :
    KeepsAllEvents rocid triggerData blocks ↔
      (∀ b ∈ blocks, b.events = []) ∨ ∀ last ∈ blocks.getLast?, last.fillers = [] := by
  rcases List.eq_nil_or_concat blocks with rfl | ⟨before, last, rfl⟩
  · simp only [List.not_mem_nil, false_implies, implies_true, true_or, iff_true]
    exact ⟨[], rfl, rfl, .nil⟩
  rw [List.concat_eq_append]
  have hparse := parse_encode_eq rocid triggerData before last
  have hall := map_fst_publications (decide (last.fillers = [])) none
    (before.map (Block.hits rocid)) (last.hits rocid)
  have hbank : before.map (Block.hits rocid) ++ [last.hits rocid] =
      (before ++ [last]).map (Block.hits rocid) := by simp
  have hlength := length_hits rocid (before ++ [last])
  rw [hbank, Option.toList_none, List.nil_append] at hall
  constructor
  · intro hh
    obtain ⟨events, hevents, hcount, -⟩ := hh
    rw [hparse] at hevents
    rw [← Except.ok.inj hevents, hitsList_publications, hall] at hcount
    by_cases hfillers : last.fillers = []
    · exact .inr (by simpa using hfillers)
    · left
      simp only [hfillers, decide_false, Bool.false_eq_true, if_false, List.length_dropLast] at hcount
      have hnil : ((before ++ [last]).flatMap fun b => b.events).length = 0 := by omega
      exact List.flatMap_eq_nil_iff.mp (List.length_eq_zero_iff.mp hnil)
  · intro h
    have hkept : (publications (decide (last.fillers = [])) none (before.map (Block.hits rocid))
        (last.hits rocid)).map Prod.fst = ((before ++ [last]).map (Block.hits rocid)).flatten := by
      rcases h with hempty | hfillers
      · have hnil : ((before ++ [last]).map (Block.hits rocid)).flatten = [] := by
          refine List.length_eq_zero_iff.mp ?_
          rw [hlength, List.flatMap_eq_nil_iff.mpr hempty, List.length_nil]
        rw [hall, hnil]
        simp
      · have hf : last.fillers = [] := by simpa using hfillers
        rw [hall, if_pos (by simp [hf])]
    refine ⟨_, hparse, ?_, ?_⟩
    · rw [hitsList_publications, hkept, hlength]
    · rw [hitsList_publications, hkept, helicity_hits]

def singleEventBlock (triggerNum : BitVec 12) (fillers : List Filler) : Block where
  slot := 1
  moduleId := 0
  blockNumber := 1
  events := [⟨0, triggerNum, 0, 0, [], by decide⟩]
  hlen := by simp
  trailerWords := 0
  fillers := fillers

theorem event_before_filler_lost :
    ¬ KeepsAllEvents 0 ⟨1, 1⟩ [singleEventBlock 1 [⟨15, by decide, 0⟩]] := by
  intro hh
  obtain ⟨events, hevents, hcount, -⟩ := hh
  have hnone : parse 0 ⟨1, 1⟩ ([singleEventBlock 1 [⟨15, by decide, 0⟩]].flatMap Block.encode) =
      .ok [] := by decide +kernel
  rw [hnone] at hevents
  rw [← Except.ok.inj hevents] at hcount
  simp [singleEventBlock] at hcount

/-- The events of a bank in bank order, each under the number of its trigger. -/
def eventsByTrigger (rocid : UInt32) (first : UInt64) (blocks : List Block) :
    List (PhysicsEvent EventHitsHelicityDecoder) :=
  blocks.flatMap fun b =>
    b.events.zipIdx.map fun e => ⟨toCInt (eventKey first e.2), [e.1.hits rocid b]⟩

theorem eventsByTrigger_eq (rocid : UInt32) (first : UInt64) (blocks : List Block) :
    eventsByTrigger rocid first blocks =
      (inPlace (blocks.map (Block.hits rocid))).map (publication first) := by
  induction blocks with
  | nil => rfl
  | cons b blocks ih =>
    have hb : (Block.hits rocid b).zipIdx.map (publication first) =
        b.events.zipIdx.map fun e => ⟨toCInt (eventKey first e.2), [e.1.hits rocid b]⟩ := by
      rw [Block.hits, List.zipIdx_map, List.map_map]
      rfl
    rw [List.map_cons, inPlace_cons, List.map_append, ← ih, hb]
    rfl

/-- When the bank ends with the trailer of its last block, the events are published
under the numbers of their triggers exactly if all of them are in the last block, or
if the last block has none and the others at most one. -/
theorem publishesByTrigger_iff (rocid : UInt32) (triggerData : TriggerData) (before : List Block)
    (last : Block) (hlast : last.fillers = []) :
    parse rocid triggerData ((before ++ [last]).flatMap Block.encode) =
        .ok (eventsByTrigger rocid triggerData.firstEventNumber (before ++ [last])) ↔
      (∀ b ∈ before, b.events = []) ∨ last.events = [] ∧ ∀ b ∈ before, b.events.length ≤ 1 := by
  have hlen : ∀ items ∈ before.map (Block.hits rocid) ++ [last.hits rocid],
      items.length < 256 := by
    have hbound (b : Block) : (Block.hits rocid b).length < 256 := by
      rw [Block.hits, List.length_map]
      exact b.hlen
    refine forall_mem_concat.mpr ⟨fun items hitems => ?_, hbound last⟩
    obtain ⟨b, -, rfl⟩ := List.mem_map.mp hitems
    exact hbound b
  have hinj : ∀ x y : EventHitsHelicityDecoder × Nat, x.2 < 256 → y.2 < 256 →
      publication triggerData.firstEventNumber x = publication triggerData.firstEventNumber y →
      x = y := by
    intro x y hx hy h
    obtain ⟨hnum, hhits⟩ := PhysicsEvent.mk.inj h
    exact Prod.ext (List.cons.inj hhits).1
      (toCInt_eventKey_inj (hx.trans (by decide)) (hy.trans (by decide)) hnum)
  have hbank : (before ++ [last]).map (Block.hits rocid) =
      before.map (Block.hits rocid) ++ [last.hits rocid] := by simp
  have hflush : decide (last.fillers = []) = true := by simp [hlast]
  have hiff := publications_none_eq_iff (before.map (Block.hits rocid)) (last.hits rocid)
  rw [parse_encode_eq, eventsByTrigger_eq, hbank, hflush, Except.ok.injEq]
  have hmap : (publications true none (before.map (Block.hits rocid)) (last.hits rocid)).map
        (publication triggerData.firstEventNumber) =
        (inPlace (before.map (Block.hits rocid) ++ [last.hits rocid])).map
          (publication triggerData.firstEventNumber) ↔
      publications true none (before.map (Block.hits rocid)) (last.hits rocid) =
        inPlace (before.map (Block.hits rocid) ++ [last.hits rocid]) := by
    constructor
    · exact map_eq_map hinj (fun x hx => snd_lt_of_mem_publications hlen hx)
        (fun x hx => snd_lt_of_mem_inPlace (fun items hitems => (hlen items hitems).le) hx)
    · exact fun h => by rw [h]
  rw [hmap, hiff]
  simp [Block.hits]

theorem publishesByTrigger_single :
    parse 0 ⟨1, 1⟩ (([] ++ [singleEventBlock 1 []]).flatMap Block.encode) =
      .ok (eventsByTrigger 0 1 ([] ++ [singleEventBlock 1 []])) :=
  (publishesByTrigger_iff 0 ⟨1, 1⟩ [] (singleEventBlock 1 []) rfl).mpr (.inl (by simp))

/-- Of two blocks of one event, the event of the second is published under the next number. -/
theorem second_block_misnumbered :
    parse 0 ⟨1, 1⟩ (([singleEventBlock 1 []] ++ [singleEventBlock 2 []]).flatMap Block.encode) ≠
      .ok (eventsByTrigger 0 1 ([singleEventBlock 1 []] ++ [singleEventBlock 2 []])) := by
  decide +kernel

end JanaExtensions.HelicityDecoder
