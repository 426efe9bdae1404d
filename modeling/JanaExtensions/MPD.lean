import JanaExtensions.BlockFraming
import JanaExtensions.DataObjects

/-! The module parser of MPD banks. It keeps its event numbers in 32 bits, compares
slots at the block trailer, and does not compare them at event headers. -/

namespace JanaExtensions.MPD

def name : String := "ModuleParser_MPD"

structure State extends BlockState EventHitsMPD where
  eventTimestamp : UInt64 := 0

def blockTrailer (d : UInt32) (s : State) : Except Fault State := do
  let frame ← s.closeBlock name
  let blockTrailerSlot := getBitsInRange d 26 22
  if blockTrailerSlot ≠ s.blockSlot then
    .error (.jexception (name ++ "::parse: Invalid data — " ++
      s!"block trailer slot({blockTrailerSlot}) != block slot({s.blockSlot})"))
  else .ok { s with toBlockFrame := frame }

def eventHeader (triggerData : TriggerData) (s : State) : Except Fault State := do
  let frame ← s.countEvent name
  let s := { s with toBlockFrame := frame }
  let eventNumber := (triggerData.firstEventNumber + s.eventIndex).toUInt32
  .ok { s with toBlockState := s.selectEvent eventNumber.toUInt64 }

def triggerTime (d : UInt32) (following : List UInt32) (s : State) :
    Except Fault (Nat × State) := do
  s.requireBlock name "trigger time"
  let triggerTimeLow := getBitsInRange d 23 0
  match following with
  | [] => .error .outOfBounds
  | d2 :: _ =>
    let triggerTimeHigh := getBitsInRange d2 23 0
    .ok (1, { s with eventTimestamp := ((triggerTimeHigh <<< 24) ||| triggerTimeLow).toUInt64 })

def apvHit (rocid d : UInt32) (s : State) (d2 d3 d4 : UInt32) : MPDHit where
  rocid := rocid
  slot := s.blockSlot
  triggerNum := s.eventNumber.toUInt32
  triggerTime := s.eventTimestamp
  fiberId := getBitsInRange d 20 16
  mpdId := getBitsInRange d 4 0
  apvChannel := (getBitsInRange d3 30 26 <<< 5) ||| getBitsInRange d2 30 26
  apvId := getBitsInRange d4 30 26
  apvSamples := #v[getBitsInRange d2 12 0, getBitsInRange d2 25 13, getBitsInRange d3 12 0,
    getBitsInRange d3 25 13, getBitsInRange d4 12 0, getBitsInRange d4 25 13]

/-- Groups of three APV sample words, up to a data type defining word. The word
after each group is read before the loop ends. -/
def apvGroups (rocid d : UInt32) : List UInt32 → State → Except Fault (Nat × State)
  | [], _ => .error .outOfBounds
  | d2 :: following, s =>
    if getBitsInRange d2 31 31 = 0 then
      match following with
      | d3 :: d4 :: following => do
        let t ← s.addHits { mpd := [apvHit rocid d s d2 d3 d4] }
        let (used, s) ← apvGroups rocid d following { s with toEventHitsTable := t }
        .ok (used + 3, s)
      | _ => .error .outOfBounds
    else .ok (0, s)

def mpdFrame (rocid d : UInt32) (following : List UInt32) (s : State) :
    Except Fault (Nat × State) := do
  s.requireBlock name "mpd frame"
  apvGroups rocid d following s

def parseDefiningWord (rocid : UInt32) (triggerData : TriggerData) (dataType : Nat) (d : UInt32)
    (following : List UInt32) (s : State) : Except Fault (Nat × State) :=
  match dataType with
  | 0 => .ok (0, { s with toBlockFrame := s.openBlock d })
  | 1 => do
    let s ← blockTrailer d s
    .ok (0, s)
  | 2 => do
    let s ← eventHeader triggerData s
    .ok (0, s)
  | 3 => triggerTime d following s
  | 5 => mpdFrame rocid d following s
  | _ => .ok (0, s)

def parseWord (rocid : UInt32) (triggerData : TriggerData) (d : UInt32)
    (following : List UInt32) (s : State) : Except Fault (Nat × State) :=
  dispatch (parseDefiningWord rocid triggerData) d following s

def parse (rocid : UInt32) (triggerData : TriggerData) (dataWords : List UInt32) :
    Except Fault (List (PhysicsEvent EventHitsMPD)) := do
  let s ← WordLoop.run (parseWord rocid triggerData) 0 dataWords {}
  .ok (physicsEvents s.eventHitsMap)

end JanaExtensions.MPD
