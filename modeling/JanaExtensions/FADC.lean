import JanaExtensions.BlockFraming
import JanaExtensions.DataObjects

/-! The module parser of FADC250 banks. A cursor into the data words is kept as the
list of words after the current one; a helper that advances it answers by how much. -/

namespace JanaExtensions.FADC

open Failing

def name : String := "ModuleParser_FADC"

/-- The parser's variables, without those that only the debug log reads. -/
structure State extends BlockState EventHitsFADC where
  moduleId : UInt32 := 0
  triggerNum : UInt32 := 0
  timestamp1 : UInt32 := 0
  timestamp2 : UInt32 := 0

def hitBase (rocid chan : UInt32) (s : State) : FADC250Hit where
  triggerNum := s.triggerNum.toUInt64
  timestamp1 := s.timestamp1
  timestamp2 := s.timestamp2
  rocid := rocid
  slot := s.blockSlot
  moduleId := s.moduleId
  chan := chan

/-- The valid samples of one waveform continuation word. -/
def waveformWordSamples (ww : UInt32) : List UInt32 :=
  (if getBitsInRange ww 29 29 = 0 then [getBitsInRange ww 28 16] else []) ++
    (if getBitsInRange ww 13 13 = 0 then [getBitsInRange ww 12 0] else [])

/-- The samples of at most `n` continuation words, fewer if the words end. -/
def waveformSamples : Nat → List UInt32 → Except Fault (List UInt32)
  | 0, _ => .ok []
  | _ + 1, [] => .ok []
  | n + 1, ww :: following =>
    if getBitsInRange ww 31 31 ≠ 0 then
      .error (.jexception (name ++ "::parseWaveformData: Invalid data format — " ++
        "lesser words than required for getting all waveform samples"))
    else do
      let more ← waveformSamples n following
      .ok (waveformWordSamples ww ++ more)

def parseWaveformData (following : List UInt32) (base : FADC250Hit) (waveformLen : UInt32) :
    Except Fault (Nat × FADC250WaveformHit) := do
  let nwaveformWords := ((waveformLen + 1) / 2).toNat
  let waveform ← waveformSamples nwaveformWords following
  if waveformLen.toNat ≠ waveform.length then
    .error (.jexception (name ++ "::parseWaveformData: Invalid data — " ++
      s!"Header given waveform size ({waveformLen}) != Obtained waveform size ({waveform.length})"))
  else .ok (nwaveformWords, { base with waveform })

def pulseHit (base : FADC250Hit) (pedestalQuality pedestalSum w2 w3 : UInt32) :
    FADC250PulseHit :=
  { base with
    pedestalQuality
    pedestalSum
    integralSum := getBitsInRange w2 29 12
    integralQuality := getBitsInRange w2 11 9
    nsamplesAboveTh := getBitsInRange w2 8 0
    coarseTime := getBitsInRange w3 29 21
    fineTime := getBitsInRange w3 20 15
    pulsePeak := getBitsInRange w3 14 3
    timeQuality := getBitsInRange w3 2 0 }

/-- One hit for each pair of continuation words; a pair with a data type defining
word in it is left unread. -/
def parsePulseData (base : FADC250Hit) (pedestalQuality pedestalSum : UInt32) :
    List UInt32 → List FADC250PulseHit
  | w2 :: w3 :: following =>
    if getBitsInRange w2 31 31 ≠ 0 ∨ getBitsInRange w3 31 31 ≠ 0 then []
    else pulseHit base pedestalQuality pedestalSum w2 w3 ::
      parsePulseData base pedestalQuality pedestalSum following
  | _ => []

def addPulses : List FADC250PulseHit → EventHitsTable EventHitsFADC →
    Except Fault (EventHitsTable EventHitsFADC)
  | [], t => .ok t
  | hit :: hits, t => do
    let t ← t.addHits { pulses := [hit] }
    addPulses hits t

theorem addPulses_of_container (hits : List FADC250PulseHit) {t : EventHitsTable EventHitsFADC}
    (h : t.HasContainer) : addPulses hits t = .ok (t.withHits { pulses := hits }) := by
  induction hits generalizing t with
  | nil => rw [addPulses, show ({ pulses := [] } : EventHitsFADC) = 0 from rfl,
      EventHitsTable.withHits_zero h]
  | cons hit hits ih =>
    rw [addPulses, EventHitsTable.addHits_of_container h, bind_ok,
      ih (t.withHits_hasContainer _), EventHitsTable.withHits_withHits]
    rfl

def eventHeader (triggerData : TriggerData) (d : UInt32) (s : State) : Except Fault State := do
  let frame ← s.countEvent name
  let s := { s with toBlockFrame := frame }
  let ehSlot := getBitsInRange d 26 22
  if ehSlot ≠ s.blockSlot then
    .error (.jexception (name ++
      s!"::parse: Invalid data — event slot({ehSlot}) != block slot({s.blockSlot})"))
  else
    .ok { s with
      toBlockState := s.selectEvent (triggerData.firstEventNumber + s.eventIndex)
      triggerNum := getBitsInRange d 11 0 }

def triggerTime (d : UInt32) (following : List UInt32) (s : State) :
    Except Fault (Nat × State) := do
  s.requireBlock name "trigger time"
  match following with
  | [] => .error .outOfBounds
  | d2 :: _ =>
    .ok (1, { s with
      timestamp1 := getBitsInRange d 23 0
      timestamp2 := getBitsInRange d2 23 0 })

def waveformData (rocid d : UInt32) (following : List UInt32) (s : State) :
    Except Fault (Nat × State) := do
  s.requireBlock name "waveform data"
  let chan := getBitsInRange d 26 23
  let waveformLen := getBitsInRange d 11 0
  let (used, hit) ← parseWaveformData following (hitBase rocid chan s) waveformLen
  let t ← s.addHits { waveforms := [hit] }
  .ok (used, { s with toEventHitsTable := t })

def pulseIntegralHit (rocid d : UInt32) (s : State) : FADC250HallBPulseIntegralHit :=
  { hitBase rocid (getBitsInRange d 26 23) s with
    pulseNumber := getBitsInRange d 22 21
    pulseIntegral := getBitsInRange d 20 0 }

def pulseIntegralData (rocid d : UInt32) (s : State) : Except Fault (Nat × State) := do
  s.requireBlock name "pulse integral data"
  let t ← s.addHits { pulseIntegrals := [pulseIntegralHit rocid d s] }
  .ok (0, { s with toEventHitsTable := t })

def pulseTimeHit (rocid d : UInt32) (s : State) : FADC250HallBPulseTimeHit :=
  { hitBase rocid (getBitsInRange d 26 23) s with
    pulseNumber := getBitsInRange d 22 21
    measurementQualityFactor := getBitsInRange d 20 19
    coarsePulseTime := getBitsInRange d 15 6
    finePulseTime := getBitsInRange d 5 0 }

def pulseTimeData (rocid d : UInt32) (s : State) : Except Fault (Nat × State) := do
  s.requireBlock name "pulse time data"
  let t ← s.addHits { pulseTimes := [pulseTimeHit rocid d s] }
  .ok (0, { s with toEventHitsTable := t })

def pulseRawHits (rocid d : UInt32) (following : List UInt32) (s : State) :
    List FADC250PulseHit :=
  let chan := getBitsInRange d 18 15
  let pedestalQuality := getBitsInRange d 14 14
  let pedestalSum := getBitsInRange d 13 0
  parsePulseData (hitBase rocid chan s) pedestalQuality pedestalSum following

def pulseRawData (rocid d : UInt32) (following : List UInt32) (s : State) :
    Except Fault (Nat × State) := do
  s.requireBlock name "pulse data"
  let hits := pulseRawHits rocid d following s
  let t ← addPulses hits s.toEventHitsTable
  .ok (2 * hits.length, { s with toEventHitsTable := t })

def pulsePeakHit (rocid d : UInt32) (s : State) : FADC250HallBPulsePeakHit :=
  { hitBase rocid (getBitsInRange d 26 23) s with
    pulseNumber := getBitsInRange d 22 21
    vmin := getBitsInRange d 20 12
    vpeak := getBitsInRange d 11 0 }

def pulsePeakData (rocid d : UInt32) (s : State) : Except Fault (Nat × State) := do
  s.requireBlock name "pulse peak data"
  let t ← s.addHits { pulsePeaks := [pulsePeakHit rocid d s] }
  .ok (0, { s with toEventHitsTable := t })

def parseDefiningWord (rocid : UInt32) (triggerData : TriggerData) (dataType : Nat) (d : UInt32)
    (following : List UInt32) (s : State) : Except Fault (Nat × State) :=
  match dataType with
  | 0 => .ok (0, { s with
      toBlockFrame := s.openBlock d
      moduleId := getBitsInRange d 21 18 })
  | 1 => do
    let frame ← s.closeBlock name
    .ok (0, { s with toBlockFrame := frame })
  | 2 => do
    let s ← eventHeader triggerData d s
    .ok (0, s)
  | 3 => triggerTime d following s
  | 4 => waveformData rocid d following s
  | 7 => pulseIntegralData rocid d s
  | 8 => pulseTimeData rocid d s
  | 9 => pulseRawData rocid d following s
  | 10 => pulsePeakData rocid d s
  | _ => .ok (0, s)

def parseWord (rocid : UInt32) (triggerData : TriggerData) (d : UInt32)
    (following : List UInt32) (s : State) : Except Fault (Nat × State) :=
  dispatch (parseDefiningWord rocid triggerData) d following s

def parse (rocid : UInt32) (triggerData : TriggerData) (dataWords : List UInt32) :
    Except Fault (List (PhysicsEvent EventHitsFADC)) := do
  let s ← WordLoop.run (parseWord rocid triggerData) 0 dataWords {}
  .ok (physicsEvents s.eventHitsMap)

end JanaExtensions.FADC
