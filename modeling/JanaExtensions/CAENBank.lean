import JanaExtensions.BlockFraming
import JanaExtensions.CAEN1190
import JanaExtensions.Transducer

/-! Banks of complete CAEN1190 events, and what the parser publishes of them. -/

namespace JanaExtensions.CAEN1190

open BitFields Failing

def typedWord (dataType : BitVec 5) (payload : List Field) : UInt32 :=
  BitFields.word (⟨5, dataType⟩ :: payload)

section TypedWord

variable {dataType : BitVec 5} {payload : List Field}

theorem dataType_typedWord (h : width payload = 27) :
    (getBitsInRange (typedWord dataType payload) 31 27).toNat = dataType.toNat := by
  have hlt := dataType.isLt
  rw [typedWord, getBitsInRange_word (by simp [h]) (by decide) (by decide) (by simp [aligned, h])]
  simp only [fieldValue, h, if_true]
  exact UInt32.toNat_ofNat_of_lt' (by simp [UInt32.size]; omega)

theorem getBitsInRange_typedWord {high low : Nat} (h : width payload = 27) (hhigh : high < 27)
    (hlow : low ≤ high) (ha : aligned (high - low + 1) low payload = true) :
    getBitsInRange (typedWord dataType payload) high low =
      UInt32.ofNat (fieldValue low payload) := by
  have hne : ¬ 27 = low := by omega
  rw [typedWord, getBitsInRange_word (by simp [h]) (by omega) hlow
    (by simpa [aligned, h, hne] using ha)]
  simp [fieldValue, h, hne]

end TypedWord

inductive ChipWord where
  | header (chipId : BitVec 2) (eventId bunchId : BitVec 12)
  | measurement (opt : BitVec 1) (chan : BitVec 7) (value : BitVec 19)
  | error (chipId : BitVec 2) (flags : BitVec 15)
  | trailer (chipId : BitVec 2) (eventId wordCount : BitVec 12)
  deriving DecidableEq, Repr

/-- The global words of an event. -/
structure EventFrame where
  slot : BitVec 5
  eventCount : BitVec 22
  triggerTime : Option (BitVec 27)
  status : BitVec 3
  wordCount : BitVec 16
  deriving DecidableEq, Repr

structure Event extends EventFrame where
  chipWords : List ChipWord
  deriving DecidableEq, Repr

def ChipWord.encode : ChipWord → UInt32
  | .header chipId eventId bunchId =>
    typedWord 1 [⟨1, 0⟩, ⟨2, chipId⟩, ⟨12, eventId⟩, ⟨12, bunchId⟩]
  | .measurement opt chan value => typedWord 0 [⟨1, opt⟩, ⟨7, chan⟩, ⟨19, value⟩]
  | .error chipId flags => typedWord 4 [⟨1, 0⟩, ⟨2, chipId⟩, ⟨9, 0⟩, ⟨15, flags⟩]
  | .trailer chipId eventId wordCount =>
    typedWord 3 [⟨1, 0⟩, ⟨2, chipId⟩, ⟨12, eventId⟩, ⟨12, wordCount⟩]

def EventFrame.headerWord (f : EventFrame) : UInt32 :=
  typedWord 8 [⟨22, f.eventCount⟩, ⟨5, f.slot⟩]

def triggerTimeWord (time : BitVec 27) : UInt32 := typedWord 17 [⟨27, time⟩]

def EventFrame.trailerWord (f : EventFrame) : UInt32 :=
  typedWord 16 [⟨3, f.status⟩, ⟨3, 0⟩, ⟨16, f.wordCount⟩, ⟨5, f.slot⟩]

def EventFrame.trailerWords (f : EventFrame) : List UInt32 :=
  (f.triggerTime.map triggerTimeWord).toList ++ [f.trailerWord]

def Event.encode (e : Event) : List UInt32 :=
  e.headerWord :: (e.chipWords.map ChipWord.encode ++ e.trailerWords)

def EventFrame.slotValue (f : EventFrame) : UInt32 := UInt32.ofNat f.slot.toNat

def EventFrame.statusValue (f : EventFrame) : UInt32 := UInt32.ofNat f.status.toNat

def EventFrame.triggerTimeValue (f : EventFrame) : Option UInt32 :=
  f.triggerTime.map fun time => UInt32.ofNat time.toNat

structure Measurement where
  slot : UInt32
  chan : UInt32
  measurement : UInt32
  opt : UInt32
  deriving DecidableEq, Repr

def measurementOf (h : CAEN1190Hit) : Measurement := ⟨h.slot, h.chan, h.measurement, h.opt⟩

def ChipWord.measurementIn (slot : UInt32) : ChipWord → Option Measurement
  | .measurement opt chan value =>
    some ⟨slot, UInt32.ofNat chan.toNat, UInt32.ofNat value.toNat, UInt32.ofNat opt.toNat⟩
  | _ => none

def Event.measurements (e : Event) : List Measurement :=
  e.chipWords.filterMap (ChipWord.measurementIn e.slotValue)

def chipReader (rocid : UInt32) : Transducer ChipWord Carried CAEN1190Hit where
  carry w c :=
    match w with
    | .header chipId eventId bunchId =>
      { c with
        hdrChipId := UInt32.ofNat chipId.toNat
        hdrEventId := UInt32.ofNat eventId.toNat
        hdrBunchId := UInt32.ofNat bunchId.toNat }
    | .error _ flags => { c with flags := UInt32.ofNat flags.toNat }
    | _ => c
  emit w c :=
    match w with
    | .measurement opt chan value =>
      [{ rocid
         slot := c.glbHdrSlot
         chan := UInt32.ofNat chan.toNat
         measurement := UInt32.ofNat value.toNat
         opt := UInt32.ofNat opt.toNat
         flags := c.flags
         trigTime := c.trigTime
         hdrChipId := c.hdrChipId
         hdrEventId := c.hdrEventId
         hdrBunchId := c.hdrBunchId
         glbTrlStatus := c.glbTrlStatus }]
    | _ => []

def Carried.enter (f : EventFrame) (c : Carried) : Carried := { c with glbHdrSlot := f.slotValue }

def Carried.leave (f : EventFrame) (c : Carried) : Carried :=
  { c with
    trigTime := f.triggerTimeValue.getD c.trigTime
    glbTrlStatus := f.statusValue }

def eventReader (rocid : UInt32) : Transducer Event Carried CAEN1190Hit where
  carry e c := ((chipReader rocid).carried e.chipWords (c.enter e.toEventFrame)).leave e.toEventFrame
  emit e c := (chipReader rocid).emitted e.chipWords (c.enter e.toEventFrame)

theorem map_emitted_chipWords (rocid : UInt32) (ws : List ChipWord) (c : Carried) :
    ((chipReader rocid).emitted ws c).map measurementOf =
      ws.filterMap (ChipWord.measurementIn c.glbHdrSlot) := by
  induction ws generalizing c with
  | nil => rfl
  | cons w ws ih =>
    rw [Transducer.emitted_cons, List.map_append, ih]
    cases w <;> rfl

theorem map_emissions (rocid : UInt32) (bank : List Event) (c : Carried) :
    ((eventReader rocid).emissions bank c).map (List.map measurementOf) =
      bank.map Event.measurements := by
  induction bank generalizing c with
  | nil => rfl
  | cons e bank ih =>
    rw [Transducer.emissions, List.map_cons, List.map_cons, ih]
    exact congrArg (· :: _) (map_emitted_chipWords rocid e.chipWords (c.enter e.toEventFrame))

theorem map_emitted (rocid : UInt32) (bank : List Event) (c : Carried) :
    ((eventReader rocid).emitted bank c).map measurementOf =
      bank.flatMap Event.measurements := by
  rw [Transducer.emitted, List.map_flatten, map_emissions, List.flatMap_def]

section Reads

variable (rocid : UInt32) (triggerData : TriggerData)

theorem parseWord_chipWord (w : ChipWord) {s : State} (hc : s.HasContainer) :
    parseWord rocid triggerData s w.encode = .ok { s with
      toEventHitsTable := s.withHits ⟨(chipReader rocid).emit w s.toCarried⟩
      toCarried := (chipReader rocid).carry w s.toCarried } := by
  have hnone : s.withHits ⟨[]⟩ = s.toEventHitsTable := EventHitsTable.withHits_zero hc
  cases w with
  | header chipId eventId bunchId =>
    rw [ChipWord.encode, parseWord, dataType_typedWord (by simp)]
    simp [chipReader, hnone, getBitsInRange_typedWord, aligned, fieldValue]
  | measurement opt chan value =>
    rw [ChipWord.encode, parseWord, dataType_typedWord (by simp)]
    change tdcMeasurement _ _ _ = _
    rw [tdcMeasurement_of_container hc]
    simp [chipReader, measurementHit, getBitsInRange_typedWord, aligned, fieldValue]
  | error chipId flags =>
    rw [ChipWord.encode, parseWord, dataType_typedWord (by simp)]
    simp [chipReader, hnone, getBitsInRange_typedWord, aligned, fieldValue]
  | trailer chipId eventId wordCount =>
    rw [ChipWord.encode, parseWord, dataType_typedWord (by simp)]
    simp [chipReader, hnone]

theorem foldlM_chipWords (ws : List ChipWord) {s : State} (hc : s.HasContainer) :
    (ws.map ChipWord.encode).foldlM (parseWord rocid triggerData) s = .ok { s with
      toEventHitsTable := s.withHits ⟨(chipReader rocid).emitted ws s.toCarried⟩
      toCarried := (chipReader rocid).carried ws s.toCarried } := by
  induction ws generalizing s with
  | nil =>
    have hnone : s.withHits ⟨[]⟩ = s.toEventHitsTable := EventHitsTable.withHits_zero hc
    simp [hnone]
    rfl
  | cons w ws ih =>
    rw [List.map_cons, List.foldlM_cons, parseWord_chipWord rocid triggerData w hc, bind_ok,
      ih (EventHitsTable.withHits_hasContainer _ _)]
    simp only [EventHitsTable.withHits_withHits]
    rfl

theorem foldlM_trailerWords (f : EventFrame) (s : State) :
    f.trailerWords.foldlM (parseWord rocid triggerData) s =
      .ok { s with toCarried := s.toCarried.leave f, eventIndex := 0 } := by
  have htrailer (s : State) : parseWord rocid triggerData s f.trailerWord =
      .ok { s with glbTrlStatus := f.statusValue, eventIndex := 0 } := by
    rw [EventFrame.trailerWord, parseWord, dataType_typedWord (by simp)]
    simp [EventFrame.statusValue, getBitsInRange_typedWord, aligned, fieldValue]
  have htime (time : BitVec 27) : parseWord rocid triggerData s (triggerTimeWord time) =
      .ok { s with trigTime := UInt32.ofNat time.toNat } := by
    rw [triggerTimeWord, parseWord, dataType_typedWord (by simp)]
    simp [getBitsInRange_typedWord, aligned, fieldValue]
  rw [EventFrame.trailerWords]
  cases ht : f.triggerTime with
  | none => simp [htrailer, Carried.leave, EventFrame.triggerTimeValue, ht]
  | some time => simp [htrailer, htime, Carried.leave, EventFrame.triggerTimeValue, ht]

/-- The number of every event of a bank of complete events. -/
def bankNumber : UInt64 := triggerData.firstEventNumber.toUInt32.toUInt64

theorem foldlM_event (e : Event) {s : State} (hi : s.eventIndex = 0) :
    e.encode.foldlM (parseWord rocid triggerData) s = .ok { s with
      toEventHitsTable := (s.select (bankNumber triggerData)).withHits
        ⟨(eventReader rocid).emit e s.toCarried⟩
      toCarried := (eventReader rocid).carry e s.toCarried } := by
  have hheader : parseWord rocid triggerData s e.headerWord = .ok { s with
      toEventHitsTable := s.select (bankNumber triggerData)
      toCarried := s.toCarried.enter e.toEventFrame
      eventIndex := 1 } := by
    rw [EventFrame.headerWord, parseWord, dataType_typedWord (by simp)]
    simp [globalHeader, hi, bankNumber, Carried.enter, EventFrame.slotValue,
      getBitsInRange_typedWord, aligned, fieldValue]
  rw [Event.encode, List.foldlM_cons, hheader, bind_ok, List.foldlM_append,
    foldlM_chipWords rocid triggerData _ (EventHitsTable.select_hasContainer _ _), bind_ok,
    foldlM_trailerWords, hi]
  rfl

theorem foldlM_events (bank : List Event) {s : State} (hi : s.eventIndex = 0) :
    ∃ s', (bank.flatMap Event.encode).foldlM (parseWord rocid triggerData) s = .ok s' ∧
      s'.eventHitsMap = if bank = [] then s.eventHitsMap
        else s.eventHitsMap.addAt (bankNumber triggerData)
          ⟨(eventReader rocid).emitted bank s.toCarried⟩ := by
  induction bank generalizing s with
  | nil => exact ⟨s, rfl, rfl⟩
  | cons e bank ih =>
    obtain ⟨s', hrest, hmap⟩ := ih (s := { s with
      toEventHitsTable := (s.select (bankNumber triggerData)).withHits
        ⟨(eventReader rocid).emit e s.toCarried⟩
      toCarried := (eventReader rocid).carry e s.toCarried }) hi
    refine ⟨s', ?_, ?_⟩
    · rw [List.flatMap_cons, List.foldlM_append, foldlM_event rocid triggerData e hi, bind_ok,
        hrest]
    · rw [hmap, EventHitsTable.select_withHits_map, if_neg (List.cons_ne_nil e bank)]
      split
      · rename_i hnil
        simp [hnil]
      · rw [OrderedMap.addAt_addAt]
        rfl

end Reads

/-- All hits of a bank are published in one event, under the first event number. -/
theorem parse_bank (rocid : UInt32) (triggerData : TriggerData) (bank : List Event) :
    parse rocid triggerData (bank.flatMap Event.encode) =
      .ok (if bank = [] then []
        else [⟨toCInt triggerData.firstEventNumber,
          [⟨(eventReader rocid).emitted bank {}⟩]⟩]) := by
  obtain ⟨s, hrun, hmap⟩ := foldlM_events rocid triggerData bank (s := {}) rfl
  rw [parse, hrun, bind_ok, hmap]
  split
  · rfl
  · rw [← toCInt_toUInt32]
    simp [physicsEvents, OrderedMap.addAt, OrderedMap.insert, OrderedMap.insertEntry, bankNumber]

end JanaExtensions.CAEN1190
