import JanaExtensions.BlockRoundTrip
import JanaExtensions.RouteIsolation

/-! The collections of a child event: the hits containers that the unfolder inserts into it,
as the raw hits that the translators find there. -/

namespace JanaExtensions

inductive RawHitType where
  | fadc250Waveform
  | fadc250Pulse
  | fadc250HallBPulseIntegral
  | fadc250HallBPulseTime
  | fadc250HallBPulsePeak
  | caen1190
  | fadcScaler
  | tiScaler
  | helicityDecoder
  | mpd
  | vftdc
  deriving DecidableEq, Repr

namespace RawHitType

abbrev Hit : RawHitType → Type
  | fadc250Waveform => FADC250WaveformHit
  | fadc250Pulse => FADC250PulseHit
  | fadc250HallBPulseIntegral => FADC250HallBPulseIntegralHit
  | fadc250HallBPulseTime => FADC250HallBPulseTimeHit
  | fadc250HallBPulsePeak => FADC250HallBPulsePeakHit
  | caen1190 => CAEN1190Hit
  | fadcScaler => FADCScalerHit
  | tiScaler => TIScalerHit
  | helicityDecoder => HelicityDecoderData
  | mpd => MPDHit
  | vftdc => VFTDCHit

end RawHitType

def FADC250Hit.getDAQAddress (hit : FADC250Hit) : DAQAddress := ⟨hit.rocid, hit.slot, hit.chan⟩

def CAEN1190Hit.getDAQAddress (hit : CAEN1190Hit) : DAQAddress := ⟨hit.rocid, hit.slot, hit.chan⟩

/-- A scaler hit is for all channels of its slot. -/
def FADCScalerHit.getDAQAddress (hit : FADCScalerHit) : DAQAddress :=
  ⟨hit.rocid, hit.slot, DAQAddress.unspecifiedChannel⟩

def MPDHit.getDAQAddress (hit : MPDHit) : DAQAddress := ⟨hit.rocid, hit.slot, hit.apvChannel⟩

def VFTDCHit.getDAQAddress (hit : VFTDCHit) : DAQAddress := ⟨hit.rocid, hit.slot, hit.channelNum⟩

/-- The TI scalers and the helicity data have no address, so that they cannot be translated. -/
def RawHitType.getDAQAddress? : (t : RawHitType) → t.Hit → Option DAQAddress
  | fadc250Waveform, hit => some hit.toFADC250Hit.getDAQAddress
  | fadc250Pulse, hit => some hit.toFADC250Hit.getDAQAddress
  | fadc250HallBPulseIntegral, hit => some hit.toFADC250Hit.getDAQAddress
  | fadc250HallBPulseTime, hit => some hit.toFADC250Hit.getDAQAddress
  | fadc250HallBPulsePeak, hit => some hit.toFADC250Hit.getDAQAddress
  | caen1190, hit => some (CAEN1190Hit.getDAQAddress hit)
  | fadcScaler, hit => some (FADCScalerHit.getDAQAddress hit)
  | tiScaler, _ => none
  | helicityDecoder, _ => none
  | mpd, hit => some (MPDHit.getDAQAddress hit)
  | vftdc, hit => some (VFTDCHit.getDAQAddress hit)

/-- The hit types of a program, with those of the common modules among them. -/
class CommonHitTypes (T : Type) [HitTypes T] where
  type : RawHitType → T
  type_injective : Function.Injective type
  hit : (t : RawHitType) → t.Hit → HitTypes.Hit (type t)
  getDAQAddress_hit : ∀ t (x : t.Hit), ∀ daq ∈ t.getDAQAddress? x,
    HitTypes.getDAQAddress (hit t x) = daq

namespace EventHits

def collection : EventHits → (t : RawHitType) → List t.Hit
  | fadc hits, .fadc250Waveform => hits.waveforms
  | fadc hits, .fadc250Pulse => hits.pulses
  | fadc hits, .fadc250HallBPulseIntegral => hits.pulseIntegrals
  | fadc hits, .fadc250HallBPulseTime => hits.pulseTimes
  | fadc hits, .fadc250HallBPulsePeak => hits.pulsePeaks
  | caen1190 hits, .caen1190 => hits.caenHits
  | fadcScaler hits, .fadcScaler => hits.scalers
  | tiScaler hits, .tiScaler => hits.scalers
  | helicityDecoder hits, .helicityDecoder => hits.helicity
  | mpd hits, .mpd => hits.mpd
  | vftdc hits, .vftdc => hits.vftdcHits
  | _, _ => []

end EventHits

namespace DetectorTranslators

open CommonHitTypes

variable {T : Type} [HitTypes T] [CommonHitTypes T]

/-- The event gains untagged hits of the common types, and nothing else. -/
structure GainsRaw (event event' : JEvent T) (gained : (t : RawHitType) → List t.Hit) : Prop where
  eventNumber : event'.eventNumber = event.eventNumber
  outputs : event'.outputs = event.outputs
  hits : ∀ t, event'.hits (type t) "" = event.hits (type t) "" ++ (gained t).map (hit t)
  tagged : ∀ t tag, tag ≠ "" → event'.hits t tag = event.hits t tag
  others : ∀ t, (∀ raw, t ≠ type raw) → event'.hits t "" = event.hits t ""

theorem GainsRaw.refl (event : JEvent T) : GainsRaw event event fun _ => [] where
  eventNumber := rfl
  outputs := rfl
  hits t := by simp
  tagged t tag _ := rfl
  others t _ := rfl

theorem GainsRaw.trans {event event' event'' : JEvent T} {gained gained' : (t : RawHitType) → List t.Hit}
    (h : GainsRaw event event' gained) (h' : GainsRaw event' event'' gained') :
    GainsRaw event event'' fun t => gained t ++ gained' t where
  eventNumber := h'.eventNumber.trans h.eventNumber
  outputs := h'.outputs.trans h.outputs
  hits t := by rw [h'.hits, h.hits, List.map_append, List.append_assoc]
  tagged t tag htag := (h'.tagged t tag htag).trans (h.tagged t tag htag)
  others t ht := (h'.others t ht).trans (h.others t ht)

theorem GainsRaw.congr {event event' : JEvent T} {gained gained' : (t : RawHitType) → List t.Hit}
    (h : GainsRaw event event' gained) (heq : ∀ t, gained t = gained' t) :
    GainsRaw event event' gained' := by
  obtain rfl : gained = gained' := funext heq
  exact h

variable [DecidableEq T]

def insertRaw (t : RawHitType) (hits : List t.Hit) (event : JEvent T) : JEvent T :=
  hits.foldl (fun event x => event.insert (hit t x)) event

def insertIntoEvent (event : JEvent T) : EventHits → JEvent T
  | .fadc hits =>
    let event := insertRaw .fadc250Waveform hits.waveforms event
    let event := insertRaw .fadc250Pulse hits.pulses event
    let event := insertRaw .fadc250HallBPulseIntegral hits.pulseIntegrals event
    let event := insertRaw .fadc250HallBPulseTime hits.pulseTimes event
    insertRaw .fadc250HallBPulsePeak hits.pulsePeaks event
  | .caen1190 hits => insertRaw .caen1190 hits.caenHits event
  | .fadcScaler hits => insertRaw .fadcScaler hits.scalers event
  | .tiScaler hits => insertRaw .tiScaler hits.scalers event
  | .helicityDecoder hits => insertRaw .helicityDecoder hits.helicity event
  | .mpd hits => insertRaw .mpd hits.mpd event
  | .vftdc hits => insertRaw .vftdc hits.vftdcHits event

def insertHitsIntoEvent (hitsList : List EventHits) (event : JEvent T) : JEvent T :=
  hitsList.foldl insertIntoEvent event

/-- What the processors find in a child of the unfolder. -/
def ofChild (child : JanaExtensions.JEvent EventHits) : JEvent T :=
  insertHitsIntoEvent child.inserted
    { eventNumber := child.eventNumber, hits := fun _ _ => [], outputs := fun _ _ _ => [] }

theorem gainsRaw_insertRaw (t : RawHitType) (hits : List t.Hit) (event : JEvent T) :
    GainsRaw event (insertRaw t hits event) (Function.update (fun _ => []) t hits) := by
  have hall : insertRaw t hits event = event.insertAll (hits.map (hit t)) := by
    rw [JEvent.insertAll, List.foldl_map]
    rfl
  rw [hall]
  refine ⟨eventNumber_insertAll event _, outputs_insertAll event _, fun raw => ?_,
    fun other tag htag => ?_, fun other hother => hits_insertAll_of_ne event _ (hother t) ""⟩
  · by_cases hraw : raw = t
    · subst hraw
      rw [hits_insertAll, if_pos rfl, Function.update_self]
    · have hne : type raw ≠ (type t : T) := fun h => hraw (type_injective h)
      rw [hits_insertAll_of_ne event _ hne, Function.update_of_ne hraw, List.map_nil,
        List.append_nil]
  · by_cases hother : other = type t
    · subst hother
      rw [hits_insertAll, if_neg htag]
    · exact hits_insertAll_of_ne event _ hother tag

theorem gainsRaw_insertIntoEvent (container : EventHits) (event : JEvent T) :
    GainsRaw event (insertIntoEvent event container) container.collection := by
  cases container with
  | fadc hits =>
    have h := ((((gainsRaw_insertRaw .fadc250Waveform hits.waveforms event).trans
      (gainsRaw_insertRaw .fadc250Pulse hits.pulses _)).trans
      (gainsRaw_insertRaw .fadc250HallBPulseIntegral hits.pulseIntegrals _)).trans
      (gainsRaw_insertRaw .fadc250HallBPulseTime hits.pulseTimes _)).trans
      (gainsRaw_insertRaw .fadc250HallBPulsePeak hits.pulsePeaks _)
    refine h.congr fun t => ?_
    cases t <;> simp [EventHits.collection, Function.update]
  | caen1190 hits =>
    refine (gainsRaw_insertRaw .caen1190 hits.caenHits event).congr fun t => ?_
    cases t <;> rfl
  | fadcScaler hits =>
    refine (gainsRaw_insertRaw .fadcScaler hits.scalers event).congr fun t => ?_
    cases t <;> rfl
  | tiScaler hits =>
    refine (gainsRaw_insertRaw .tiScaler hits.scalers event).congr fun t => ?_
    cases t <;> rfl
  | helicityDecoder hits =>
    refine (gainsRaw_insertRaw .helicityDecoder hits.helicity event).congr fun t => ?_
    cases t <;> rfl
  | mpd hits =>
    refine (gainsRaw_insertRaw .mpd hits.mpd event).congr fun t => ?_
    cases t <;> rfl
  | vftdc hits =>
    refine (gainsRaw_insertRaw .vftdc hits.vftdcHits event).congr fun t => ?_
    cases t <;> rfl

theorem gainsRaw_insertHitsIntoEvent (hitsList : List EventHits) (event : JEvent T) :
    GainsRaw event (insertHitsIntoEvent hitsList event) fun t =>
      hitsList.flatMap fun container => container.collection t := by
  induction hitsList generalizing event with
  | nil => exact .refl event
  | cons container hitsList ih =>
    exact (gainsRaw_insertIntoEvent container event).trans (ih _)

theorem gainsRaw_ofChild (child : JanaExtensions.JEvent EventHits) :
    GainsRaw ⟨child.eventNumber, fun _ _ => [], fun _ _ _ => []⟩ (ofChild child : JEvent T)
      fun t => child.inserted.flatMap fun container => container.collection t :=
  gainsRaw_insertHitsIntoEvent child.inserted _

theorem hits_ofChild (child : JanaExtensions.JEvent EventHits) (t : RawHitType) :
    (ofChild child : JEvent T).hits (type t) "" =
      (child.inserted.flatMap fun container => container.collection t).map (hit t) := by
  rw [(gainsRaw_ofChild child).hits, List.nil_append]

end DetectorTranslators

end JanaExtensions
