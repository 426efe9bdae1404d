import JanaExtensions.DataObjects
import JanaExtensions.EventHitsTable

/-! The module parser of CAEN1190 banks. -/

namespace JanaExtensions.CAEN1190

open Failing

/-- The parser's variables that outlive a word and reach a hit. -/
structure Carried where
  flags : UInt32 := 0
  trigTime : UInt32 := 0
  hdrChipId : UInt32 := 0
  hdrEventId : UInt32 := 0
  hdrBunchId : UInt32 := 0
  glbHdrSlot : UInt32 := 0
  glbTrlStatus : UInt32 := 0
  deriving DecidableEq, Repr

/-- The carried variables and the hits containers. Event numbers are kept in 32 bits. -/
structure State extends EventHitsTable EventHitsCAEN1190, Carried where
  eventIndex : UInt32 := 0

def globalHeader (triggerData : TriggerData) (d : UInt32) (s : State) : State :=
  let eventNumber := (triggerData.firstEventNumber + s.eventIndex.toUInt64).toUInt32
  { s with
    toEventHitsTable := s.select eventNumber.toUInt64
    glbHdrSlot := getBitsInRange d 4 0
    eventIndex := s.eventIndex + 1 }

def measurementHit (rocid d : UInt32) (s : Carried) : CAEN1190Hit where
  rocid := rocid
  slot := s.glbHdrSlot
  chan := getBitsInRange d 25 19
  measurement := getBitsInRange d 18 0
  opt := getBitsInRange d 26 26
  flags := s.flags
  trigTime := s.trigTime
  hdrChipId := s.hdrChipId
  hdrEventId := s.hdrEventId
  hdrBunchId := s.hdrBunchId
  glbTrlStatus := s.glbTrlStatus

def tdcMeasurement (rocid d : UInt32) (s : State) : Except Fault State := do
  let t ← s.addHits { caenHits := [measurementHit rocid d s.toCarried] }
  .ok { s with toEventHitsTable := t }

theorem tdcMeasurement_of_container {s : State} (h : s.HasContainer) (rocid d : UInt32) :
    tdcMeasurement rocid d s = .ok { s with
      toEventHitsTable := s.toEventHitsTable.withHits
        { caenHits := [measurementHit rocid d s.toCarried] } } := by
  rw [tdcMeasurement, EventHitsTable.addHits_of_container h, bind_ok]

theorem tdcMeasurement_of_not_container {s : State} (h : ¬ s.HasContainer) (rocid d : UInt32) :
    tdcMeasurement rocid d s = .error .nullEventHits := by
  rw [tdcMeasurement, EventHitsTable.addHits_of_not_container h, bind_error]

def parseWord (rocid : UInt32) (triggerData : TriggerData) (s : State) (d : UInt32) :
    Except Fault State :=
  match (getBitsInRange d 31 27).toNat with
  | 8 => .ok (globalHeader triggerData d s)
  | 16 => .ok { s with glbTrlStatus := getBitsInRange d 26 24, eventIndex := 0 }
  | 1 => .ok { s with
      hdrChipId := getBitsInRange d 25 24
      hdrEventId := getBitsInRange d 23 12
      hdrBunchId := getBitsInRange d 11 0 }
  | 0 => tdcMeasurement rocid d s
  | 4 => .ok { s with flags := getBitsInRange d 14 0 }
  | 17 => .ok { s with trigTime := getBitsInRange d 26 0 }
  | _ => .ok s

def parse (rocid : UInt32) (triggerData : TriggerData) (dataWords : List UInt32) :
    Except Fault (List (PhysicsEvent EventHitsCAEN1190)) := do
  let s ← dataWords.foldlM (parseWord rocid triggerData) {}
  .ok (physicsEvents s.eventHitsMap)

end JanaExtensions.CAEN1190
