import JanaExtensions.BlockCodec
import JanaExtensions.FADC
import Mathlib.Data.List.MinMax

/-! The word layout of FADC250 banks, and that parsing a bank in this layout
recovers its hits event by event. -/

namespace JanaExtensions.FADC

open BitFields WordLoop

structure Filler where
  dataType : BitVec 4
  ignored : dataType ∈ [5, 6, 11, 12, 13, 14, 15]
  payload : BitVec 27

def Filler.encode (f : Filler) : UInt32 := definingWord f.dataType [⟨27, f.payload⟩]

structure Pulse where
  integralSum : BitVec 18
  integralQuality : BitVec 3
  nsamplesAboveTh : BitVec 9
  coarseTime : BitVec 9
  fineTime : BitVec 6
  pulsePeak : BitVec 12
  timeQuality : BitVec 3

def Pulse.encode (p : Pulse) : List UInt32 :=
  [word [⟨1, 0⟩, ⟨1, 0⟩, ⟨18, p.integralSum⟩, ⟨3, p.integralQuality⟩, ⟨9, p.nsamplesAboveTh⟩],
    word [⟨1, 0⟩, ⟨1, 0⟩, ⟨9, p.coarseTime⟩, ⟨6, p.fineTime⟩, ⟨12, p.pulsePeak⟩,
      ⟨3, p.timeQuality⟩]]

/-- What may stand between the trigger time of an event and the next event header. -/
inductive Record where
  | waveform (chan : BitVec 4) (samples : List (BitVec 13)) (hlen : samples.length < 4096)
      (pad : BitVec 13)
  | pulseIntegral (chan : BitVec 4) (pulseNumber : BitVec 2) (integral : BitVec 21)
  | pulseTime (chan : BitVec 4) (pulseNumber quality : BitVec 2) (coarse : BitVec 10)
      (fine : BitVec 6)
  | pulseRaw (eventNumber : BitVec 8) (chan : BitVec 4) (pedestalQuality : BitVec 1)
      (pedestalSum : BitVec 14) (pulses : List Pulse)
  | pulsePeak (chan : BitVec 4) (pulseNumber : BitVec 2) (vmin : BitVec 9) (vpeak : BitVec 12)
  | filler (f : Filler)

/-- A waveform continuation word of a valid sample and one with the given flag. -/
def sampleWord (x y : BitVec 13) (notValid : BitVec 1) : UInt32 :=
  word [⟨1, 0⟩, ⟨1, 0⟩, ⟨1, 0⟩, ⟨13, x⟩, ⟨2, 0⟩, ⟨1, notValid⟩, ⟨13, y⟩]

/-- Two samples a word; an odd last sample is paired with one flagged not valid. -/
def encodeSamples (pad : BitVec 13) : List (BitVec 13) → List UInt32
  | [] => []
  | [x] => [sampleWord x pad 1]
  | x :: y :: samples => sampleWord x y 0 :: encodeSamples pad samples

def Record.encode : Record → List UInt32
  | .waveform chan samples _ pad =>
    definingWord 4 [⟨4, chan⟩, ⟨11, 0⟩, ⟨12, BitVec.ofNat 12 samples.length⟩] ::
      encodeSamples pad samples
  | .pulseIntegral chan pulseNumber integral =>
    [definingWord 7 [⟨4, chan⟩, ⟨2, pulseNumber⟩, ⟨21, integral⟩]]
  | .pulseTime chan pulseNumber quality coarse fine =>
    [definingWord 8 [⟨4, chan⟩, ⟨2, pulseNumber⟩, ⟨2, quality⟩, ⟨3, 0⟩, ⟨10, coarse⟩, ⟨6, fine⟩]]
  | .pulseRaw eventNumber chan pedestalQuality pedestalSum pulses =>
    definingWord 9 [⟨8, eventNumber⟩, ⟨4, chan⟩, ⟨1, pedestalQuality⟩, ⟨14, pedestalSum⟩] ::
      pulses.flatMap Pulse.encode
  | .pulsePeak chan pulseNumber vmin vpeak =>
    [definingWord 10 [⟨4, chan⟩, ⟨2, pulseNumber⟩, ⟨9, vmin⟩, ⟨12, vpeak⟩]]
  | .filler f => [f.encode]

structure Event where
  triggerTime : BitVec 10
  triggerNum : BitVec 12
  timestamp1 : BitVec 24
  timestamp2 : BitVec 24
  headerFillers : List Filler
  records : List Record

/-- A complete block. Fillers may also follow its header and its trailer. -/
structure Block where
  slot : BitVec 5
  moduleId : BitVec 4
  blockNumber : BitVec 10
  headerFillers : List Filler
  events : List Event
  hlen : events.length < 256
  trailerWords : BitVec 22
  trailerFillers : List Filler

def Event.encode (slot : BitVec 5) (e : Event) : List UInt32 :=
  definingWord 2 [⟨5, slot⟩, ⟨10, e.triggerTime⟩, ⟨12, e.triggerNum⟩] ::
    (e.headerFillers.map Filler.encode ++
      [definingWord 3 [⟨3, 0⟩, ⟨24, e.timestamp1⟩], word [⟨8, 0⟩, ⟨24, e.timestamp2⟩]] ++
      e.records.flatMap Record.encode)

def Block.encode (b : Block) : List UInt32 :=
  definingWord 0 [⟨5, b.slot⟩, ⟨4, b.moduleId⟩, ⟨10, b.blockNumber⟩,
      ⟨8, BitVec.ofNat 8 b.events.length⟩] ::
    (b.headerFillers.map Filler.encode ++ b.events.flatMap (Event.encode b.slot) ++
      definingWord 1 [⟨5, b.slot⟩, ⟨22, b.trailerWords⟩] :: b.trailerFillers.map Filler.encode)

structure Bank where
  fillers : List Filler
  blocks : List Block

def Bank.encode (bank : Bank) : List UInt32 :=
  bank.fillers.map Filler.encode ++ bank.blocks.flatMap Block.encode

def Event.hitBase (rocid : UInt32) (b : Block) (e : Event) (chan : BitVec 4) : FADC250Hit where
  triggerNum := UInt64.ofNat e.triggerNum.toNat
  timestamp1 := UInt32.ofNat e.timestamp1.toNat
  timestamp2 := UInt32.ofNat e.timestamp2.toNat
  rocid := rocid
  slot := UInt32.ofNat b.slot.toNat
  moduleId := UInt32.ofNat b.moduleId.toNat
  chan := UInt32.ofNat chan.toNat

def Pulse.hit (base : FADC250Hit) (pedestalQuality : BitVec 1) (pedestalSum : BitVec 14)
    (p : Pulse) : FADC250PulseHit :=
  { base with
    pedestalQuality := UInt32.ofNat pedestalQuality.toNat
    pedestalSum := UInt32.ofNat pedestalSum.toNat
    integralSum := UInt32.ofNat p.integralSum.toNat
    integralQuality := UInt32.ofNat p.integralQuality.toNat
    nsamplesAboveTh := UInt32.ofNat p.nsamplesAboveTh.toNat
    coarseTime := UInt32.ofNat p.coarseTime.toNat
    fineTime := UInt32.ofNat p.fineTime.toNat
    pulsePeak := UInt32.ofNat p.pulsePeak.toNat
    timeQuality := UInt32.ofNat p.timeQuality.toNat }

/-- The hits that a record stands for, given the common part for each channel. -/
def Record.hits (base : BitVec 4 → FADC250Hit) : Record → EventHitsFADC
  | .waveform chan samples _ _ =>
    { waveforms := [{ base chan with waveform := samples.map fun x => UInt32.ofNat x.toNat }] }
  | .pulseIntegral chan pulseNumber integral =>
    { pulseIntegrals := [{ base chan with
        pulseNumber := UInt32.ofNat pulseNumber.toNat
        pulseIntegral := UInt32.ofNat integral.toNat }] }
  | .pulseTime chan pulseNumber quality coarse fine =>
    { pulseTimes := [{ base chan with
        pulseNumber := UInt32.ofNat pulseNumber.toNat
        measurementQualityFactor := UInt32.ofNat quality.toNat
        coarsePulseTime := UInt32.ofNat coarse.toNat
        finePulseTime := UInt32.ofNat fine.toNat }] }
  | .pulseRaw _ chan pedestalQuality pedestalSum pulses =>
    { pulses := pulses.map (Pulse.hit (base chan) pedestalQuality pedestalSum) }
  | .pulsePeak chan pulseNumber vmin vpeak =>
    { pulsePeaks := [{ base chan with
        pulseNumber := UInt32.ofNat pulseNumber.toNat
        vmin := UInt32.ofNat vmin.toNat
        vpeak := UInt32.ofNat vpeak.toNat }] }
  | .filler _ => {}

def Event.hits (rocid : UInt32) (b : Block) (e : Event) : EventHitsFADC :=
  (e.records.map (Record.hits (e.hitBase rocid b))).sum

/-- The hits of the `k`-th events of all blocks, in bank order. -/
def Bank.hits (rocid : UInt32) (bank : Bank) (k : Nat) : EventHitsFADC :=
  (bank.blocks.filterMap fun b => b.events[k]?.map (Event.hits rocid b)).sum

def Bank.maxEvents (bank : Bank) : Nat :=
  (bank.blocks.map fun b => b.events.length).foldr max 0

theorem length_encodeSamples (pad : BitVec 13) (samples : List (BitVec 13)) :
    (encodeSamples pad samples).length = (samples.length + 1) / 2 := by
  fun_induction encodeSamples pad samples with
  | case1 => rfl
  | case2 x => simp
  | case3 x y samples ih =>
    simp only [List.length_cons, ih]
    omega

theorem sampleWord_continues (x y : BitVec 13) (notValid : BitVec 1) :
    getBitsInRange (sampleWord x y notValid) 31 31 = 0 := by
  simp [sampleWord, getBitsInRange_word, aligned, fieldValue]

theorem waveformWordSamples_sampleWord (x y : BitVec 13) (notValid : BitVec 1) :
    waveformWordSamples (sampleWord x y notValid) =
      UInt32.ofNat x.toNat :: if notValid = 0 then [UInt32.ofNat y.toNat] else [] := by
  have hflag : UInt32.ofNat notValid.toNat = 0 ↔ notValid = 0 := by
    revert notValid
    decide
  simp [waveformWordSamples, sampleWord, getBitsInRange_word, aligned, fieldValue, hflag]

theorem waveformSamples_encode (pad : BitVec 13) (samples : List (BitVec 13))
    (post : List UInt32) :
    waveformSamples (encodeSamples pad samples).length (encodeSamples pad samples ++ post) =
      .ok (samples.map fun x => UInt32.ofNat x.toNat) := by
  fun_induction encodeSamples pad samples with
  | case1 => rfl
  | case2 x =>
    simp [waveformSamples, sampleWord_continues, waveformWordSamples_sampleWord]
  | case3 x y samples ih =>
    simp [waveformSamples, sampleWord_continues, waveformWordSamples_sampleWord, ih]

theorem parseWaveformData_encode {samples : List (BitVec 13)} (hlen : samples.length < 4096)
    (pad : BitVec 13) (post : List UInt32) (base : FADC250Hit) :
    parseWaveformData (encodeSamples pad samples ++ post) base
        (UInt32.ofNat (BitVec.ofNat 12 samples.length).toNat) =
      .ok ((encodeSamples pad samples).length,
        { base with waveform := samples.map fun x => UInt32.ofNat x.toNat }) := by
  have hmod : (BitVec.ofNat 12 samples.length).toNat = samples.length := by
    simp only [BitVec.toNat_ofNat]
    omega
  have hn : (UInt32.ofNat samples.length).toNat = samples.length :=
    UInt32.toNat_ofNat_of_lt' (by simp only [UInt32.size]; omega)
  have hwords : ((UInt32.ofNat samples.length + 1) / 2).toNat =
      (encodeSamples pad samples).length := by
    rw [length_encodeSamples, UInt32.toNat_div, UInt32.toNat_add, hn]
    simp only [UInt32.toNat_one, UInt32.reduceToNat]
    omega
  simp [parseWaveformData, hmod, hwords, hn, waveformSamples_encode]

theorem pulseHit_encode (base : FADC250Hit) (pedestalQuality : BitVec 1)
    (pedestalSum : BitVec 14) (p : Pulse) :
    ∃ w2 w3, p.encode = [w2, w3] ∧ getBitsInRange w2 31 31 = 0 ∧ getBitsInRange w3 31 31 = 0 ∧
      pulseHit base (UInt32.ofNat pedestalQuality.toNat) (UInt32.ofNat pedestalSum.toNat) w2 w3 =
        p.hit base pedestalQuality pedestalSum := by
  refine ⟨_, _, rfl, ?_, ?_, ?_⟩
  · simp [getBitsInRange_word, aligned, fieldValue]
  · simp [getBitsInRange_word, aligned, fieldValue]
  · simp [pulseHit, Pulse.hit, getBitsInRange_word, aligned, fieldValue]

theorem parsePulseData_encode (base : FADC250Hit) (pedestalQuality : BitVec 1)
    (pedestalSum : BitVec 14) (pulses : List Pulse) {post : List UInt32}
    (hpost : Starts Defines post) :
    parsePulseData base (UInt32.ofNat pedestalQuality.toNat) (UInt32.ofNat pedestalSum.toNat)
        (pulses.flatMap Pulse.encode ++ post) =
      pulses.map (Pulse.hit base pedestalQuality pedestalSum) := by
  induction pulses with
  | nil =>
    match post with
    | [] => rfl
    | [w] => rfl
    | w :: w' :: rest =>
      have hw : Defines w := hpost w (by simp)
      rw [Defines] at hw
      simp [parsePulseData, hw]
  | cons p pulses ih =>
    obtain ⟨w2, w3, he, h2, h3, hhit⟩ := pulseHit_encode base pedestalQuality pedestalSum p
    simp only [List.flatMap_cons, he, List.cons_append, List.nil_append, List.map_cons]
    simp [parsePulseData, h2, h3, hhit, ih]

instance : HasHitsTable State EventHitsFADC where
  table s := s.toEventHitsTable
  setTable t s := { s with toEventHitsTable := t }
  table_setTable _ _ := rfl
  setTable_setTable _ _ _ := rfl
  setTable_table _ := rfl

section Reads

variable (rocid : UInt32) (triggerData : TriggerData)

theorem skips_filler (f : Filler) : Skips (parseWord rocid triggerData) [f.encode] := by
  intro s
  apply ReadsBefore.of_body
  intro post _
  obtain ⟨dataType, ignored, payload⟩ := f
  rw [Filler.encode, parseWord, dispatch_definingWord _ _ (by simp)]
  simp only [List.mem_cons, List.not_mem_nil, or_false] at ignored
  rcases ignored with rfl | rfl | rfl | rfl | rfl | rfl | rfl <;> rfl

theorem skips_fillers (fillers : List Filler) :
    Skips (parseWord rocid triggerData) (fillers.map Filler.encode) :=
  skips_map (skips_filler rocid triggerData) fillers

theorem reads_record (r : Record) {s : State} (hs : s.InEvent) :
    ReadsBefore (parseWord rocid triggerData) (Starts Defines) r.encode s
      (withHits (r.hits fun chan => hitBase rocid (UInt32.ofNat chan.toNat) s) s) := by
  cases r with
  | waveform chan samples hlen pad =>
    apply ReadsBefore.of_body
    intro post _
    rw [parseWord, dispatch_definingWord _ _ (by simp)]
    change waveformData _ _ _ _ = _
    have hwave := parseWaveformData_encode hlen pad post
    generalize BitVec.ofNat 12 samples.length = len at *
    simp [waveformData, hs.requireBlock, getBitsInRange_definingWord, aligned, fieldValue, hwave,
      EventHitsTable.addHits_of_container hs.2, Record.hits, withHits,
      HasHitsTable.table, HasHitsTable.setTable]
  | pulseIntegral chan pulseNumber integral =>
    apply ReadsBefore.of_body
    intro post _
    rw [parseWord, dispatch_definingWord _ _ (by simp)]
    change pulseIntegralData _ _ _ = _
    simp [pulseIntegralData, pulseIntegralHit, hs.requireBlock, getBitsInRange_definingWord,
      aligned, fieldValue, EventHitsTable.addHits_of_container hs.2, Record.hits, withHits,
      HasHitsTable.table, HasHitsTable.setTable]
  | pulseTime chan pulseNumber quality coarse fine =>
    apply ReadsBefore.of_body
    intro post _
    rw [parseWord, dispatch_definingWord _ _ (by simp)]
    change pulseTimeData _ _ _ = _
    simp [pulseTimeData, pulseTimeHit, hs.requireBlock, getBitsInRange_definingWord, aligned,
      fieldValue, EventHitsTable.addHits_of_container hs.2, Record.hits, withHits,
      HasHitsTable.table, HasHitsTable.setTable]
  | pulseRaw eventNumber chan pedestalQuality pedestalSum pulses =>
    apply ReadsBefore.of_body
    intro post hpost
    rw [parseWord, dispatch_definingWord _ _ (by simp)]
    change pulseRawData _ _ _ _ = _
    have hpulses := fun base => parsePulseData_encode base pedestalQuality pedestalSum pulses hpost
    simp [pulseRawData, pulseRawHits, hs.requireBlock, getBitsInRange_definingWord, aligned,
      fieldValue, hpulses, addPulses_of_container _ hs.2, Record.hits, withHits,
      HasHitsTable.table, HasHitsTable.setTable]
    simp [Pulse.encode, Nat.mul_comm]
  | pulsePeak chan pulseNumber vmin vpeak =>
    apply ReadsBefore.of_body
    intro post _
    rw [parseWord, dispatch_definingWord _ _ (by simp)]
    change pulsePeakData _ _ _ = _
    simp [pulsePeakData, pulsePeakHit, hs.requireBlock, getBitsInRange_definingWord, aligned,
      fieldValue, EventHitsTable.addHits_of_container hs.2, Record.hits, withHits,
      HasHitsTable.table, HasHitsTable.setTable]
  | filler f =>
    have hnone : withHits ((Record.filler f).hits fun chan =>
        hitBase rocid (UInt32.ofNat chan.toNat) s) s = s := withHits_zero hs.2
    rw [hnone]
    exact (skips_filler rocid triggerData f s).mono fun _ _ => trivial

theorem starts_record (r : Record) : Starts Defines r.encode := by
  cases r <;> exact Starts.cons (defines_definingWord (by simp)) _

theorem reads_records (records : List Record) {s : State} (hs : s.InEvent) :
    ReadsBefore (parseWord rocid triggerData) (Starts Defines) (records.flatMap Record.encode) s
      (withHits ((records.map
        (Record.hits fun chan => hitBase rocid (UInt32.ofNat chan.toNat) s)).sum) s) := by
  refine JanaExtensions.reads_records (I := fun t => t.InEvent ∧
    (fun chan : BitVec 4 => hitBase rocid (UInt32.ofNat chan.toNat) t) =
      fun chan => hitBase rocid (UInt32.ofNat chan.toNat) s) ?_ ?_ (fun t ht => ht.1.2)
    (fun r post => (starts_record r).append) records ⟨hs, rfl⟩
  · intro r t ht
    rw [← ht.2]
    exact reads_record rocid triggerData r ht.1
  · exact fun t hits ht => ⟨⟨ht.1.1, EventHitsTable.withHits_hasContainer hits _⟩, ht.2⟩

def State.enterEvent (e : Event) (s : State) : State :=
  { s with
    toBlockState := ({ s.toBlockState with blockNevents := s.blockNevents - 1 } :
      BlockState EventHitsFADC).selectEvent (triggerData.firstEventNumber + s.eventIndex)
    triggerNum := UInt32.ofNat e.triggerNum.toNat
    timestamp1 := UInt32.ofNat e.timestamp1.toNat
    timestamp2 := UInt32.ofNat e.timestamp2.toNat }

theorem reads_enterEvent {slot : BitVec 5} (e : Event) {s : State} (hn : 0 < s.blockNevents)
    (hslot : s.blockSlot = UInt32.ofNat slot.toNat) :
    ReadsBefore (parseWord rocid triggerData) (fun _ => True)
      ([definingWord 2 [⟨5, slot⟩, ⟨10, e.triggerTime⟩, ⟨12, e.triggerNum⟩]] ++
        (e.headerFillers.map Filler.encode ++
          [definingWord 3 [⟨3, 0⟩, ⟨24, e.timestamp1⟩], word [⟨8, 0⟩, ⟨24, e.timestamp2⟩]]))
      s (s.enterEvent triggerData e) := by
  have hheader : ReadsBefore (parseWord rocid triggerData) (fun _ => True)
      [definingWord 2 [⟨5, slot⟩, ⟨10, e.triggerTime⟩, ⟨12, e.triggerNum⟩]] s
      { s.enterEvent triggerData e with timestamp1 := s.timestamp1, timestamp2 := s.timestamp2 } := by
    apply ReadsBefore.of_body
    intro post _
    rw [parseWord, dispatch_definingWord _ _ (by simp)]
    change (eventHeader _ _ _ >>= fun s => Except.ok (0, s)) = _
    simp [eventHeader, BlockFrame.countEvent_of_pos hn, getBitsInRange_definingWord, aligned,
      fieldValue, hslot, State.enterEvent]
  refine hheader.append (fun _ _ => trivial) ?_
  refine (skips_fillers rocid triggerData e.headerFillers _).append (fun _ _ => trivial) ?_
  apply ReadsBefore.of_body
  intro post _
  rw [parseWord, dispatch_definingWord _ _ (by simp)]
  change triggerTime (definingWord 3 _) (_ :: post) _ = _
  have hopen : 0 ≤ (s.enterEvent triggerData e).blockNevents := Int.le_sub_one_of_lt hn
  rw [triggerTime, BlockFrame.requireBlock_of_nonneg (by exact hopen)]
  simp [getBitsInRange_definingWord, getBitsInRange_word, aligned, fieldValue, State.enterEvent]

/-- The states in which the block is open. -/
def Block.Ready (b : Block) (s : State) : Prop :=
  s.blockSlot = UInt32.ofNat b.slot.toNat ∧ s.moduleId = UInt32.ofNat b.moduleId.toNat

theorem hitBase_enterEvent (b : Block) (e : Event) {s : State} (hs : b.Ready s)
    (chan : BitVec 4) :
    hitBase rocid (UInt32.ofNat chan.toNat) (s.enterEvent triggerData e) =
      e.hitBase rocid b chan := by
  have htrigger := toUInt64_ofNat_field (by omega) e.triggerNum
  simp [hitBase, Event.hitBase, State.enterEvent, BlockState.selectEvent, hs.1, hs.2, htrigger]

theorem reads_event (b : Block) (e : Event) :
    ReadsEvent (parseWord rocid triggerData) State.toBlockState
      (triggerData.firstEventNumber + ·) (Starts Defines) b.Ready (e.encode b.slot)
      (fun _ => e.hits rocid b) := by
  intro s hs hn
  have hin : (s.enterEvent triggerData e).InEvent :=
    ⟨Int.le_sub_one_of_lt hn, EventHitsTable.select_hasContainer _ _⟩
  have hrecords := reads_records rocid triggerData e.records hin
  simp only [hitBase_enterEvent rocid triggerData b e hs] at hrecords
  refine ⟨_, (reads_enterEvent rocid triggerData e hn hs.1).append (fun _ _ => trivial) hrecords,
    hs, rfl, rfl, ?_⟩
  exact EventHitsTable.select_withHits_map _ (e.hits rocid b) s.toEventHitsTable

theorem readsFrame (b : Block) :
    ReadsFrame (parseWord rocid triggerData) State.toBlockState b.Ready
      ([definingWord 0 [⟨5, b.slot⟩, ⟨4, b.moduleId⟩, ⟨10, b.blockNumber⟩,
        ⟨8, BitVec.ofNat 8 b.events.length⟩]] ++ b.headerFillers.map Filler.encode)
      ([definingWord 1 [⟨5, b.slot⟩, ⟨22, b.trailerWords⟩]] ++ b.trailerFillers.map Filler.encode)
      b.events.length where
  header s := by
    have hcount : (UInt32.ofNat (BitVec.ofNat 8 b.events.length).toNat).toNat = b.events.length :=
      toNat_ofNat_field (by omega) b.hlen
    have hheader : ReadsBefore (parseWord rocid triggerData) (fun _ => True)
        [definingWord 0 [⟨5, b.slot⟩, ⟨4, b.moduleId⟩, ⟨10, b.blockNumber⟩,
          ⟨8, BitVec.ofNat 8 b.events.length⟩]] s
        { s with
          blockSlot := UInt32.ofNat b.slot.toNat
          blockNevents := b.events.length
          moduleId := UInt32.ofNat b.moduleId.toNat } := by
      apply ReadsBefore.of_body
      intro post _
      rw [parseWord, dispatch_definingWord _ _ (by simp)]
      change Except.ok _ = _
      generalize BitVec.ofNat 8 b.events.length = n at *
      simp [BlockFrame.openBlock, getBitsInRange_definingWord, aligned, fieldValue, hcount]
    exact ⟨_, hheader.append (fun _ _ => trivial)
      (skips_fillers rocid triggerData b.headerFillers _), ⟨rfl, rfl⟩, rfl, rfl, rfl⟩
  trailer s _ hzero := by
    have htrailer : ReadsBefore (parseWord rocid triggerData) (fun _ => True)
        [definingWord 1 [⟨5, b.slot⟩, ⟨22, b.trailerWords⟩]] s
        { s with blockNevents := -1, eventIndex := 0 } := by
      apply ReadsBefore.of_body
      intro post _
      rw [parseWord, dispatch_definingWord _ _ (by simp)]
      change (BlockFrame.closeBlock name _ >>= fun _ => _) = _
      rw [BlockFrame.closeBlock_of_zero hzero]
      rfl
    exact ⟨_, htrailer.append (fun _ _ => trivial)
      (skips_fillers rocid triggerData b.trailerFillers _), rfl, rfl⟩

theorem reads_block (b : Block) :
    ReadsBlock (parseWord rocid triggerData) State.toBlockState (triggerData.firstEventNumber + ·)
      b.encode (b.events.map (Event.hits rocid b)) := by
  have hread := readsBlock (readsFrame rocid triggerData b)
    (fun _ _ => Starts.cons (defines_definingWord (by simp)) _)
    (fun _ => Starts.cons (defines_definingWord (by simp)) _)
    fun e _ => reads_event rocid triggerData b e
  rw [mapIdx_eq_map] at hread
  simpa [Block.encode] using hread

end Reads

/-- Parsing an encoded bank gives back its hits, event by event. -/
theorem parse_encode (rocid : UInt32) (triggerData : TriggerData) (bank : Bank) :
    ∃ events, parse rocid triggerData bank.encode = .ok events ∧
      events.Perm ((List.range bank.maxEvents).map fun k =>
        ⟨toCInt (eventKey triggerData.firstEventNumber k), [bank.hits rocid k]⟩) := by
  obtain ⟨s, hrun, hperm⟩ := physicsEvents_bank ({} : State)
    (skips_fillers rocid triggerData bank.fillers)
    (fun b _ => reads_block rocid triggerData b) rfl (by
      intro b _
      have := b.hlen
      rw [List.length_map]
      omega)
  have hmax : maxEvents (bank.blocks.map fun b => b.events.map (Event.hits rocid b)) =
      bank.maxEvents := by
    simp [maxEvents, Bank.maxEvents, Function.comp_def]
  have hhits (k : Nat) : hitsAt (bank.blocks.map fun b => b.events.map (Event.hits rocid b)) k =
      bank.hits rocid k := by
    simp [hitsAt, Bank.hits, List.filterMap_map]
  refine ⟨physicsEvents s.eventHitsMap, ?_, ?_⟩
  · rw [parse, Bank.encode, hrun]
    rfl
  · simpa only [hmax, hhits] using hperm

end JanaExtensions.FADC
