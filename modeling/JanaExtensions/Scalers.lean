import JanaExtensions.DataObjects
import JanaExtensions.ModuleParser

/-! The module parsers of scaler banks. Such a bank is one record of the whole block, and
its physics event has the number of the last event. -/

namespace JanaExtensions

namespace FADCScaler

/-- One record: a header word and up to 16 counts, fewer if the words end. -/
def parseRecord (rocid d : UInt32) (following : List UInt32) (scalers : List FADCScalerHit) :
    Except Fault (Nat × List FADCScalerHit) :=
  let hit : FADCScalerHit :=
    { rocid
      wordsIdx := getBitsInRange d 31 16
      slot := getBitsInRange d 15 8
      ncounts := getBitsInRange d 7 0
      counts := Vector.ofFn fun j => following.getD j 0 }
  .ok (min 16 following.length, scalers ++ [hit])

def parse (rocid : UInt32) (triggerData : TriggerData) (dataWords : List UInt32) :
    Except Fault (List (PhysicsEvent EventHitsFADCScaler)) := do
  let scalers ← WordLoop.run (parseRecord rocid) 0 dataWords []
  .ok [⟨toCInt triggerData.lastEventNumber, [⟨scalers⟩]⟩]

end FADCScaler

namespace TIScaler

def parse (rocid : UInt32) (triggerData : TriggerData) (dataWords : List UInt32) :
    Except Fault (List (PhysicsEvent EventHitsTIScaler)) :=
  match dataWords with
  | headerWord :: liveTime :: busyTime :: tsInput1 :: tsInput2 :: tsInput3 :: tsInput4 ::
      tsInput5 :: tsInput6 :: allTriggersBeforeBusy :: w10 :: w11 :: tsInputsBeforeBusy :: _ =>
    let hit : TIScalerHit :=
      { rocid
        wordsIdx := getBitsInRange headerWord 31 16
        slot := getBitsInRange headerWord 15 8
        nscalerwords := getBitsInRange headerWord 7 0
        liveTime, busyTime, tsInput1, tsInput2, tsInput3, tsInput4, tsInput5, tsInput6,
        allTriggersBeforeBusy, tsInputsBeforeBusy
        tiEventNumber := ((w10.toUInt64 <<< 16) ||| w11.toUInt64).toUInt32 }
    let eventNumber := triggerData.lastEventNumber.toUInt32
    .ok [⟨toCInt eventNumber.toUInt64, [⟨[hit]⟩]⟩]
  | _ =>
    .error (.jexception (s!"ModuleParser_TIScaler::parse: Not enough words ({dataWords.length}) " ++
      "for TI scaler bank"))

end TIScaler

section EventNumber

open Failing

variable {rocid : UInt32} {triggerData : TriggerData} {dataWords : List UInt32}

theorem FADCScaler.parse_ok (rocid : UInt32) (triggerData : TriggerData) (dataWords : List UInt32) :
    ∃ hits, FADCScaler.parse rocid triggerData dataWords =
      .ok [⟨toCInt triggerData.lastEventNumber, [hits]⟩] := by
  have hrun : ∀ skip (ws : List UInt32) scalers,
      ∃ scalers', WordLoop.run (FADCScaler.parseRecord rocid) skip ws scalers = .ok scalers' := by
    intro skip ws
    induction ws generalizing skip with
    | nil => exact fun scalers => ⟨scalers, WordLoop.run_nil skip scalers⟩
    | cons d ws ih =>
      intro scalers
      cases skip with
      | zero => exact ih _ _
      | succ skip => exact ih skip scalers
  obtain ⟨scalers, hscalers⟩ := hrun 0 dataWords []
  exact ⟨⟨scalers⟩, by rw [FADCScaler.parse, hscalers, bind_ok]⟩

theorem TIScaler.parse_ok {events : List (PhysicsEvent EventHitsTIScaler)}
    (h : TIScaler.parse rocid triggerData dataWords = .ok events) :
    ∃ hits, events = [⟨toCInt triggerData.lastEventNumber, [hits]⟩] := by
  unfold TIScaler.parse at h
  split at h
  · obtain rfl := Except.ok.inj h
    exact ⟨_, by rw [toCInt_toUInt32]⟩
  · exact absurd h (by simp)

end EventNumber

end JanaExtensions
