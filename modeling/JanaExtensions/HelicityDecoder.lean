import JanaExtensions.BlockFraming
import JanaExtensions.DataObjects

/-! The module parser of helicity decoder banks. It has no map of hits containers:
a container is published under the event number of the moment when the next event
header, or a block trailer as the last word of the bank, is read. -/

namespace JanaExtensions.HelicityDecoder

def name : String := "ModuleParser_HelicityDecoder"

/-- The parser's variables, with the physics events appended so far. -/
structure State extends BlockFrame where
  moduleId : UInt32 := 0
  triggerNum : UInt32 := 0
  timestamp1 : UInt32 := 0
  timestamp2 : UInt32 := 0
  eventHits : Option EventHitsHelicityDecoder := none
  physicsEvents : List (PhysicsEvent EventHitsHelicityDecoder) := []

def publish (triggerData : TriggerData) (s : State) : List (PhysicsEvent EventHitsHelicityDecoder) :=
  match s.eventHits with
  | some eventHits =>
    s.physicsEvents ++ [⟨toCInt (triggerData.firstEventNumber + s.eventIndex), [eventHits]⟩]
  | none => s.physicsEvents

def blockTrailer (triggerData : TriggerData) (following : List UInt32) (s : State) :
    Except Fault State := do
  let frame ← s.closeBlock name
  .ok { s with
    toBlockFrame := frame
    physicsEvents := if following = [] then publish triggerData s else s.physicsEvents }

def eventHeader (triggerData : TriggerData) (d : UInt32) (s : State) : Except Fault State := do
  let s := { s with
    physicsEvents := publish triggerData s
    eventIndex := if s.eventHits.isSome then s.eventIndex + 1 else s.eventIndex }
  let frame ← s.countEvent name
  let s := { s with toBlockFrame := frame }
  let ehSlot := getBitsInRange d 26 22
  if ehSlot ≠ s.blockSlot then
    .error (.jexception (name ++
      s!"::parse: Invalid data — event slot({ehSlot}) != block slot({s.blockSlot})"))
  else .ok { s with triggerNum := getBitsInRange d 11 0, eventHits := some {} }

def triggerTime (d : UInt32) (following : List UInt32) (s : State) :
    Except Fault (Nat × State) := do
  s.requireBlock name "trigger time"
  match following with
  | [] => .error .outOfBounds
  | d2 :: _ =>
    .ok (1, { s with
      timestamp1 := getBitsInRange d 23 0
      timestamp2 := getBitsInRange d2 23 0 })

/-- What the `n`-th word after the decoder data header stands for. -/
def decoderWord (n : Nat) (ww : UInt32) (hit : HelicityDecoderData) : HelicityDecoderData :=
  match n with
  | 1 => { hit with helicitySeed := ww }
  | 2 => { hit with nTstableFall := ww }
  | 3 => { hit with nTstableRise := ww }
  | 4 => { hit with nPattsync := ww }
  | 5 => { hit with nPairsync := ww }
  | 6 => { hit with timeTstableStart := ww }
  | 7 => { hit with timeTstableEnd := ww }
  | 8 => { hit with lastTstableDuration := ww }
  | 9 => { hit with lastTsettleDuration := ww }
  | 10 => { hit with
      trigTstable := getBitsInRange ww 0 0
      trigPattsync := getBitsInRange ww 1 1
      trigPairsync := getBitsInRange ww 2 2
      trigHelicity := getBitsInRange ww 3 3
      trigPat0Helicity := getBitsInRange ww 4 4
      trigPolarity := getBitsInRange ww 5 5
      trigPatCount := getBitsInRange ww 15 8 }
  | 11 => { hit with last32winsPattsync := ww }
  | 12 => { hit with last32winsPairsync := ww }
  | 13 => { hit with last32winsHelicity := ww }
  | 14 => { hit with last32winsPattsyncHel := ww }
  | _ => hit

/-- The record of the first `nwords` words, fewer if the bank ends. -/
def parseDecoderData (following : List UInt32) (nwords : Nat) (hit : HelicityDecoderData) :
    HelicityDecoderData :=
  ((following.take nwords).zipIdx 1).foldl (fun hit ww => decoderWord ww.2 ww.1 hit) hit

def decoderHit (rocid : UInt32) (following : List UInt32) (nwords : Nat) (s : State) :
    HelicityDecoderData :=
  parseDecoderData following nwords
    { triggerNum := s.triggerNum.toUInt64
      timestamp1 := s.timestamp1
      timestamp2 := s.timestamp2
      rocid
      slot := s.blockSlot
      moduleId := s.moduleId }

def decoderData (rocid d : UInt32) (following : List UInt32) (s : State) :
    Except Fault (Nat × State) := do
  s.requireBlock name "helicity decoder data"
  let nwords := (getBitsInRange d 5 0).toNat
  let hit := decoderHit rocid following nwords s
  match s.eventHits with
  | none => .error .nullEventHits
  | some eventHits =>
    .ok (nwords, { s with eventHits := some { helicity := eventHits.helicity ++ [hit] } })

def parseDefiningWord (rocid : UInt32) (triggerData : TriggerData) (dataType : Nat) (d : UInt32)
    (following : List UInt32) (s : State) : Except Fault (Nat × State) :=
  match dataType with
  | 0 => .ok (0, { s with
      toBlockFrame := s.openBlock d
      moduleId := getBitsInRange d 21 18 })
  | 1 => do
    let s ← blockTrailer triggerData following s
    .ok (0, s)
  | 2 => do
    let s ← eventHeader triggerData d s
    .ok (0, s)
  | 3 => triggerTime d following s
  | 8 => decoderData rocid d following s
  | _ => .ok (0, s)

def parseWord (rocid : UInt32) (triggerData : TriggerData) (d : UInt32)
    (following : List UInt32) (s : State) : Except Fault (Nat × State) :=
  dispatch (parseDefiningWord rocid triggerData) d following s

def parse (rocid : UInt32) (triggerData : TriggerData) (dataWords : List UInt32) :
    Except Fault (List (PhysicsEvent EventHitsHelicityDecoder)) := do
  let s ← WordLoop.run (parseWord rocid triggerData) 0 dataWords {}
  .ok s.physicsEvents

end JanaExtensions.HelicityDecoder
