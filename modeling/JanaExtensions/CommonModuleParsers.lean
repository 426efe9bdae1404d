import JanaExtensions.CAEN1190
import JanaExtensions.EvioEventParser
import JanaExtensions.FADC
import JanaExtensions.HelicityDecoder
import JanaExtensions.MPD
import JanaExtensions.Scalers
import JanaExtensions.VFTDC

/-! The common module parsers under their module IDs, and how the block parser calls them. -/

namespace JanaExtensions

inductive EventHits where
  | caen1190 (hits : EventHitsCAEN1190)
  | fadc (hits : EventHitsFADC)
  | fadcScaler (hits : EventHitsFADCScaler)
  | tiScaler (hits : EventHitsTIScaler)
  | helicityDecoder (hits : EventHitsHelicityDecoder)
  | mpd (hits : EventHitsMPD)
  | vftdc (hits : EventHitsVFTDC)
  deriving DecidableEq, Repr

inductive CommonParser where
  | caen1190
  | fadc
  | fadcScaler
  | tiScaler
  | helicityDecoder
  | mpd
  | vftdc
  deriving DecidableEq, Repr

def PhysicsEvent.map {H H' : Type} (f : H → H') (pe : PhysicsEvent H) : PhysicsEvent H' :=
  ⟨pe.eventNum, pe.hitsList.map f⟩

namespace CommonParser

def moduleParsers : List (Int × CommonParser) :=
  [(1190, .caen1190), (250, .fadc), (9250, .fadcScaler), (9001, .tiScaler),
    (0xdec, .helicityDecoder), (3561, .mpd), (9, .vftdc)]

/-- The initialization of the service that registers the common module parsers. -/
def init (parsers : ModuleParsersMap CommonParser) :
    Except String (ModuleParsersMap CommonParser) :=
  moduleParsers.foldlM (fun parsers entry =>
    let (result, parsers) := parsers.addParser entry.1 (some entry.2)
    result.map fun _ => parsers) parsers

def parse (rocid : UInt32) (triggerData : TriggerData) (dataWords : List UInt32) :
    CommonParser → Except Fault (List (PhysicsEvent EventHits))
  | caen1190 => (CAEN1190.parse rocid triggerData dataWords).map (List.map (PhysicsEvent.map .caen1190))
  | fadc => (FADC.parse rocid triggerData dataWords).map (List.map (PhysicsEvent.map .fadc))
  | fadcScaler =>
    (FADCScaler.parse rocid triggerData dataWords).map (List.map (PhysicsEvent.map .fadcScaler))
  | tiScaler => (TIScaler.parse rocid triggerData dataWords).map (List.map (PhysicsEvent.map .tiScaler))
  | helicityDecoder =>
    (HelicityDecoder.parse rocid triggerData dataWords).map
      (List.map (PhysicsEvent.map .helicityDecoder))
  | mpd => (MPD.parse rocid triggerData dataWords).map (List.map (PhysicsEvent.map .mpd))
  | vftdc => (VFTDC.parse rocid triggerData dataWords).map (List.map (PhysicsEvent.map .vftdc))

def invoke (parser : CommonParser) (dma : BaseStructure) (context : BankContext)
    (shared : EvioEventParser.Shared EventHits) :
    Except Fault (EvioEventParser.Shared EventHits) := do
  let events ← parser.parse context.rocid shared.triggerData dma.uintData
  .ok { shared with physicsEvents := shared.physicsEvents ++ events }

end CommonParser

end JanaExtensions
