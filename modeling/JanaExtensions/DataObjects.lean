import Mathlib.Algebra.Group.Defs
import Mathlib.Tactic.Ext

/-! The raw hits that the module parsers produce, and for each module the container
of all its hits in one event. Containers of one module are joined list by list. -/

namespace JanaExtensions

structure FADC250Hit where
  triggerNum : UInt64
  timestamp1 : UInt32
  timestamp2 : UInt32
  rocid : UInt32
  slot : UInt32
  moduleId : UInt32
  chan : UInt32
  deriving DecidableEq, Repr

structure FADC250WaveformHit extends FADC250Hit where
  waveform : List UInt32
  deriving DecidableEq, Repr

structure FADC250PulseHit extends FADC250Hit where
  pedestalQuality : UInt32
  pedestalSum : UInt32
  integralSum : UInt32
  integralQuality : UInt32
  nsamplesAboveTh : UInt32
  coarseTime : UInt32
  fineTime : UInt32
  pulsePeak : UInt32
  timeQuality : UInt32
  deriving DecidableEq, Repr

structure FADC250HallBPulseIntegralHit extends FADC250Hit where
  pulseNumber : UInt32
  pulseIntegral : UInt32
  deriving DecidableEq, Repr

structure FADC250HallBPulseTimeHit extends FADC250Hit where
  pulseNumber : UInt32
  measurementQualityFactor : UInt32
  coarsePulseTime : UInt32
  finePulseTime : UInt32
  deriving DecidableEq, Repr

structure FADC250HallBPulsePeakHit extends FADC250Hit where
  pulseNumber : UInt32
  vmin : UInt32
  vpeak : UInt32
  deriving DecidableEq, Repr

structure VFTDCHit where
  rocid : UInt32
  slot : UInt32
  boardId : UInt32
  timestamp : UInt64
  groupNum : UInt32
  channelNum : UInt32
  edgeType : UInt32
  coarseTime : UInt32
  fineTime : UInt32
  twoNs : UInt32
  deriving DecidableEq, Repr

structure MPDHit where
  rocid : UInt32
  slot : UInt32
  triggerNum : UInt32
  triggerTime : UInt64
  mpdId : UInt32
  fiberId : UInt32
  apvChannel : UInt32
  apvId : UInt32
  apvSamples : Vector UInt32 6
  deriving DecidableEq, Repr

structure CAEN1190Hit where
  rocid : UInt32
  slot : UInt32
  chan : UInt32
  measurement : UInt32
  opt : UInt32
  flags : UInt32
  trigTime : UInt32
  hdrChipId : UInt32
  hdrEventId : UInt32
  hdrBunchId : UInt32
  glbTrlStatus : UInt32
  deriving DecidableEq, Repr

structure HelicityDecoderData where
  triggerNum : UInt64 := 0
  timestamp1 : UInt32 := 0
  timestamp2 : UInt32 := 0
  rocid : UInt32 := 0
  slot : UInt32 := 0
  moduleId : UInt32 := 0
  helicitySeed : UInt32 := 0
  nTstableFall : UInt32 := 0
  nTstableRise : UInt32 := 0
  nPattsync : UInt32 := 0
  nPairsync : UInt32 := 0
  timeTstableStart : UInt32 := 0
  timeTstableEnd : UInt32 := 0
  lastTstableDuration : UInt32 := 0
  lastTsettleDuration : UInt32 := 0
  trigTstable : UInt32 := 0
  trigPattsync : UInt32 := 0
  trigPairsync : UInt32 := 0
  trigHelicity : UInt32 := 0
  trigPat0Helicity : UInt32 := 0
  trigPolarity : UInt32 := 0
  trigPatCount : UInt32 := 0
  last32winsPattsync : UInt32 := 0
  last32winsPairsync : UInt32 := 0
  last32winsHelicity : UInt32 := 0
  last32winsPattsyncHel : UInt32 := 0
  deriving DecidableEq, Repr

structure FADCScalerHit where
  rocid : UInt32
  wordsIdx : UInt32
  slot : UInt32
  ncounts : UInt32
  counts : Vector UInt32 16
  deriving DecidableEq, Repr

structure TIScalerHit where
  rocid : UInt32
  wordsIdx : UInt32
  slot : UInt32
  nscalerwords : UInt32
  liveTime : UInt32
  busyTime : UInt32
  tsInput1 : UInt32
  tsInput2 : UInt32
  tsInput3 : UInt32
  tsInput4 : UInt32
  tsInput5 : UInt32
  tsInput6 : UInt32
  allTriggersBeforeBusy : UInt32
  tsInputsBeforeBusy : UInt32
  tiEventNumber : UInt32
  deriving DecidableEq, Repr

@[ext]
structure EventHitsFADC where
  waveforms : List FADC250WaveformHit := []
  pulses : List FADC250PulseHit := []
  pulseIntegrals : List FADC250HallBPulseIntegralHit := []
  pulseTimes : List FADC250HallBPulseTimeHit := []
  pulsePeaks : List FADC250HallBPulsePeakHit := []
  deriving DecidableEq, Repr

@[ext]
structure EventHitsVFTDC where
  vftdcHits : List VFTDCHit := []
  deriving DecidableEq, Repr

@[ext]
structure EventHitsMPD where
  mpd : List MPDHit := []
  deriving DecidableEq, Repr

@[ext]
structure EventHitsCAEN1190 where
  caenHits : List CAEN1190Hit := []
  deriving DecidableEq, Repr

structure EventHitsHelicityDecoder where
  helicity : List HelicityDecoderData := []
  deriving DecidableEq, Repr

structure EventHitsFADCScaler where
  scalers : List FADCScalerHit := []
  deriving DecidableEq, Repr

structure EventHitsTIScaler where
  scalers : List TIScalerHit := []
  deriving DecidableEq, Repr

instance : Zero EventHitsFADC := ⟨{}⟩
instance : Zero EventHitsVFTDC := ⟨{}⟩
instance : Zero EventHitsMPD := ⟨{}⟩
instance : Zero EventHitsCAEN1190 := ⟨{}⟩

instance : Add EventHitsFADC where
  add a b := ⟨a.waveforms ++ b.waveforms, a.pulses ++ b.pulses,
    a.pulseIntegrals ++ b.pulseIntegrals, a.pulseTimes ++ b.pulseTimes,
    a.pulsePeaks ++ b.pulsePeaks⟩

instance : Add EventHitsVFTDC := ⟨fun a b => ⟨a.vftdcHits ++ b.vftdcHits⟩⟩
instance : Add EventHitsMPD := ⟨fun a b => ⟨a.mpd ++ b.mpd⟩⟩
instance : Add EventHitsCAEN1190 := ⟨fun a b => ⟨a.caenHits ++ b.caenHits⟩⟩

instance : AddMonoid EventHitsFADC where
  add_assoc _ _ _ := EventHitsFADC.ext (List.append_assoc ..) (List.append_assoc ..)
    (List.append_assoc ..) (List.append_assoc ..) (List.append_assoc ..)
  zero_add _ := rfl
  add_zero _ := EventHitsFADC.ext (List.append_nil _) (List.append_nil _) (List.append_nil _)
    (List.append_nil _) (List.append_nil _)
  nsmul := nsmulRec

instance : AddMonoid EventHitsVFTDC where
  add_assoc _ _ _ := EventHitsVFTDC.ext (List.append_assoc ..)
  zero_add _ := rfl
  add_zero _ := EventHitsVFTDC.ext (List.append_nil _)
  nsmul := nsmulRec

instance : AddMonoid EventHitsMPD where
  add_assoc _ _ _ := EventHitsMPD.ext (List.append_assoc ..)
  zero_add _ := rfl
  add_zero _ := EventHitsMPD.ext (List.append_nil _)
  nsmul := nsmulRec

instance : AddMonoid EventHitsCAEN1190 where
  add_assoc _ _ _ := EventHitsCAEN1190.ext (List.append_assoc ..)
  zero_add _ := rfl
  add_zero _ := EventHitsCAEN1190.ext (List.append_nil _)
  nsmul := nsmulRec

instance : IsLeftCancelAdd EventHitsFADC where
  add_left_cancel a b c h := by
    have hh := EventHitsFADC.ext_iff.mp h
    exact EventHitsFADC.ext (List.append_cancel_left hh.1) (List.append_cancel_left hh.2.1)
      (List.append_cancel_left hh.2.2.1) (List.append_cancel_left hh.2.2.2.1)
      (List.append_cancel_left hh.2.2.2.2)

instance : IsLeftCancelAdd EventHitsVFTDC where
  add_left_cancel _ _ _ h := EventHitsVFTDC.ext
    (List.append_cancel_left (EventHitsVFTDC.ext_iff.mp h))

instance : IsLeftCancelAdd EventHitsMPD where
  add_left_cancel _ _ _ h := EventHitsMPD.ext (List.append_cancel_left (EventHitsMPD.ext_iff.mp h))

end JanaExtensions
