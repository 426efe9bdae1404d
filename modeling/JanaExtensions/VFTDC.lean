import JanaExtensions.BlockFraming
import JanaExtensions.DataObjects

/-! The module parser of VFTDC banks. -/

namespace JanaExtensions.VFTDC

def name : String := "ModuleParser_VFTDC"

structure State extends BlockState EventHitsVFTDC where
  blockBoardId : UInt32 := 0
  eventTimestamp : UInt64 := 0

def eventHeader (triggerData : TriggerData) (d : UInt32) (s : State) : Except Fault State := do
  let frame ← s.countEvent name
  let s := { s with toBlockFrame := frame }
  let eventSlot := getBitsInRange d 26 22
  if eventSlot ≠ s.blockSlot then
    .error (.jexception (name ++
      "::parse: Invalid data format — event slot mismatch with block slot"))
  else
    .ok { s with
      toBlockState := s.selectEvent (triggerData.firstEventNumber + s.eventIndex) }

def triggerTime (d : UInt32) (following : List UInt32) (s : State) :
    Except Fault (Nat × State) := do
  s.requireBlock name "trigger time"
  let timestampLow := getBitsInRange d 23 0
  match following with
  | [] => .error .outOfBounds
  | d2 :: _ =>
    let timestampHigh := getBitsInRange d2 23 0
    .ok (1, { s with eventTimestamp := ((timestampHigh <<< 24) ||| timestampLow).toUInt64 })

def dataHit (rocid d : UInt32) (s : State) : VFTDCHit where
  rocid := rocid
  slot := s.blockSlot
  boardId := s.blockBoardId
  timestamp := s.eventTimestamp
  groupNum := getBitsInRange d 26 24
  channelNum := getBitsInRange d 23 19
  edgeType := getBitsInRange d 18 18
  coarseTime := getBitsInRange d 17 8
  twoNs := getBitsInRange d 7 7
  fineTime := getBitsInRange d 6 0

def dataWord (rocid d : UInt32) (s : State) : Except Fault (Nat × State) := do
  s.requireBlock name "data"
  let t ← s.addHits { vftdcHits := [dataHit rocid d s] }
  .ok (0, { s with toEventHitsTable := t })

def parseDefiningWord (rocid : UInt32) (triggerData : TriggerData) (dataType : Nat) (d : UInt32)
    (following : List UInt32) (s : State) : Except Fault (Nat × State) :=
  match dataType with
  | 0 => .ok (0, { s with
      toBlockFrame := s.openBlock d
      blockBoardId := getBitsInRange d 21 18 })
  | 1 => do
    let frame ← s.closeBlock name
    .ok (0, { s with toBlockFrame := frame })
  | 2 => do
    let s ← eventHeader triggerData d s
    .ok (0, s)
  | 3 => triggerTime d following s
  | 7 => dataWord rocid d s
  | _ => .ok (0, s)

def parseWord (rocid : UInt32) (triggerData : TriggerData) (d : UInt32)
    (following : List UInt32) (s : State) : Except Fault (Nat × State) :=
  dispatch (parseDefiningWord rocid triggerData) d following s

def parse (rocid : UInt32) (triggerData : TriggerData) (dataWords : List UInt32) :
    Except Fault (List (PhysicsEvent EventHitsVFTDC)) := do
  let s ← WordLoop.run (parseWord rocid triggerData) 0 dataWords {}
  .ok (physicsEvents s.eventHitsMap)

end JanaExtensions.VFTDC
