import JanaExtensions.BlockParsing

/-! Whether the physics events of a block keep to the numbers that its trigger bank
announces. The data banks are not compared with the announced number of events, and the
number of the last event comes from the length of the EB1 payload in unsigned arithmetic. -/

namespace JanaExtensions

def Word.declaredCount : Word → Option Nat
  | .blockHeader _ nevents => some nevents
  | _ => none

namespace EvioEventParser

def declaredCounts (dataWords : List UInt32) : CommonParser → List Nat
  | .fadc => (classified FADC.readAs dataWords).filterMap Word.declaredCount
  | .helicityDecoder => (classified HelicityDecoder.readAs dataWords).filterMap Word.declaredCount
  | .mpd => (classified MPD.readAs dataWords).filterMap Word.declaredCount
  | .vftdc => (classified VFTDC.readAs dataWords).filterMap Word.declaredCount
  | .caen1190 | .fadcScaler | .tiScaler => []

/-- No bank declares more events than the trigger bank announces. -/
def DeclaresAnnounced (services : Services CommonParser) (event : EvioEvent) : Prop :=
  ∀ inv ∈ invocations services (dataBanks event),
    (∀ count ∈ declaredCounts inv.dma.uintData inv.parser, count ≤ announcedEvents event) ∧
    ∀ i ∈ inv.publishedIndices (triggerDataOf event), i.toNat < announcedEvents event

/-- What a block that is parsed should satisfy: its trigger data are a range of the announced
number of events, no bank declares more events, and the physics events lie in the range. -/
structure StaysInBlock (services : Services CommonParser) (event : EvioEvent)
    (events : List (PhysicsEvent EventHits)) : Prop where
  announces : 0 < announcedEvents event
  declares : DeclaresAnnounced services event
  ordered : (triggerDataOf event).firstEventNumber ≤ (triggerDataOf event).lastEventNumber
  exact : (triggerDataOf event).lastEventNumber.toNat + 1 =
    (triggerDataOf event).firstEventNumber.toNat + announcedEvents event
  inside : ∀ pe ∈ events, ((triggerDataOf event).firstEventNumber.toNat : Int) ≤ pe.eventNum ∧
    pe.eventNum ≤ (triggerDataOf event).lastEventNumber.toNat

/-- The blocks that are small enough: the EB1 payload has a timestamp and its numbers fit in
64 bits, no bank declares more events, and the numbers of the events fit in an `int`. Of an
event index only the low 32 bits reach a physics event. -/
structure FitsBlock (services : Services CommonParser) (event : EvioEvent) : Prop where
  announces : 0 < announcedEvents event
  declares : DeclaresAnnounced services event
  bounded : (triggerDataOf event).firstEventNumber.toNat + announcedEvents event ≤ 2 ^ 64
  fits : ∀ inv ∈ invocations services (dataBanks event),
    ∀ i ∈ inv.publishedIndices (triggerDataOf event),
      (triggerDataOf event).firstEventNumber.toNat + i.toNat % 2 ^ 32 < 2 ^ 31

section Arithmetic

theorem toCInt_of_lt {n : UInt64} (h : n.toNat % 2 ^ 32 < 2 ^ 31) :
    toCInt n = ((n.toNat % 2 ^ 32 : Nat) : Int) := by
  unfold toCInt
  generalize n.toNat = a at h ⊢
  rw [Int.bmod_def]
  split <;> omega

theorem toCInt_of_le {n : UInt64} (h : 2 ^ 31 ≤ n.toNat % 2 ^ 32) :
    toCInt n = ((n.toNat % 2 ^ 32 : Nat) : Int) - 2 ^ 32 := by
  unfold toCInt
  generalize n.toNat = a at h ⊢
  rw [Int.bmod_def]
  split <;> omega

theorem toCInt_mem_range_iff {first i : UInt64} {n : Nat} (hi : i.toNat < n)
    (hbounded : first.toNat + n ≤ 2 ^ 64) :
    ((first.toNat : Int) ≤ toCInt (first + i) ∧ toCInt (first + i) + 1 ≤ first.toNat + n) ↔
      first.toNat + i.toNat % 2 ^ 32 < 2 ^ 31 := by
  have hadd : (first + i).toNat = first.toNat + i.toNat := by
    rw [UInt64.toNat_add]
    exact Nat.mod_eq_of_lt (by omega)
  by_cases hlow : (first + i).toNat % 2 ^ 32 < 2 ^ 31
  · rw [toCInt_of_lt hlow]
    rw [hadd] at hlow ⊢
    omega
  · rw [toCInt_of_le (by omega)]
    rw [hadd] at hlow ⊢
    omega

theorem lastEventNumber_exact_iff (event : EvioEvent) :
    ((triggerDataOf event).firstEventNumber ≤ (triggerDataOf event).lastEventNumber ∧
      (triggerDataOf event).lastEventNumber.toNat + 1 =
        (triggerDataOf event).firstEventNumber.toNat + announcedEvents event) ↔
      0 < announcedEvents event ∧
        (triggerDataOf event).firstEventNumber.toNat + announcedEvents event ≤ 2 ^ 64 := by
  have hlast : (triggerDataOf event).lastEventNumber.toNat =
      ((triggerDataOf event).firstEventNumber.toNat + announcedEvents event + (2 ^ 64 - 1)) %
        2 ^ 64 := by
    simp only [triggerDataOf, UInt64.toNat_sub, UInt64.toNat_add, UInt64.toNat_ofNat']
    simp only [UInt64.toNat_one]
    omega
  rw [UInt64.le_iff_toNat_le, hlast]
  have hfirst := (triggerDataOf event).firstEventNumber.toNat_lt
  omega

end Arithmetic

section StaysInBlock

variable {eventNumber : UInt64} {event : EvioEvent} {services services' : Services CommonParser}
  {events : List (PhysicsEvent EventHits)}

theorem inside_iff (hparse : parse CommonParser.invoke eventNumber event services =
      .ok (events, services')) (hdeclares : DeclaresAnnounced services event)
    (hbounded : (triggerDataOf event).firstEventNumber.toNat + announcedEvents event ≤ 2 ^ 64)
    (hexact : (triggerDataOf event).lastEventNumber.toNat + 1 =
      (triggerDataOf event).firstEventNumber.toNat + announcedEvents event) :
    (∀ pe ∈ events, ((triggerDataOf event).firstEventNumber.toNat : Int) ≤ pe.eventNum ∧
        pe.eventNum ≤ (triggerDataOf event).lastEventNumber.toNat) ↔
      ∀ inv ∈ invocations services (dataBanks event),
        ∀ i ∈ inv.publishedIndices (triggerDataOf event),
          (triggerDataOf event).firstEventNumber.toNat + i.toNat % 2 ^ 32 < 2 ^ 31 := by
  have hrange (inv) (hinv : inv ∈ invocations services (dataBanks event)) (i)
      (hi : i ∈ inv.publishedIndices (triggerDataOf event)) :=
    toCInt_mem_range_iff ((hdeclares inv hinv).2 i hi) hbounded
  constructor
  · intro hinside inv hinv i hi
    obtain ⟨pe, hpe, hnum⟩ := List.mem_map.mp ((mem_eventNum_iff hparse _).mpr ⟨inv, hinv, i, hi, rfl⟩)
    have hh := hinside pe hpe
    rw [hnum] at hh
    apply (hrange inv hinv i hi).mp
    omega
  · intro hfits pe hpe
    obtain ⟨inv, hinv, i, hi, hnum⟩ :=
      (mem_eventNum_iff hparse pe.eventNum).mp (List.mem_map.mpr ⟨pe, hpe, rfl⟩)
    have hh := (hrange inv hinv i hi).mpr (hfits inv hinv i hi)
    rw [← hnum] at hh
    omega

/-- A block that is parsed keeps to its numbers exactly if it is small enough. -/
theorem staysInBlock_iff (hparse : parse CommonParser.invoke eventNumber event services =
    .ok (events, services')) : StaysInBlock services event events ↔ FitsBlock services event := by
  have hlast := lastEventNumber_exact_iff event
  constructor
  · intro hh
    obtain ⟨hannounces, hdeclares, hordered, hexact, hinside⟩ := hh
    obtain ⟨-, hbounded⟩ := hlast.mp ⟨hordered, hexact⟩
    exact ⟨hannounces, hdeclares, hbounded,
      (inside_iff hparse hdeclares hbounded hexact).mp hinside⟩
  · intro hh
    obtain ⟨hannounces, hdeclares, hbounded, hfits⟩ := hh
    obtain ⟨hordered, hexact⟩ := hlast.mpr ⟨hannounces, hbounded⟩
    exact ⟨hannounces, hdeclares, hordered, hexact,
      (inside_iff hparse hdeclares hbounded hexact).mpr hfits⟩

end StaysInBlock

/-- A block of one ROC with one FADC scaler bank, given the payload of the EB1 segment. -/
def scalerBlock (eb1Data : List UInt64) : EvioEvent where
  tag := 0xFF50
  uintData := []
  children :=
    [.node 0xFF27 1 0x20 [] [] [.node 1 0 0xA [] eb1Data [], .node 1 0 uint32DataType [] [] []],
      .node 1 0 0x10 [] [] [.node 7 0 uint32DataType [0x00010500] [] []]]

def scalerServices : Services CommonParser where
  filterDB := {}
  bankToModule := (BankToModuleMap.addRoute 7 9250 {}).2
  moduleParsers := (CommonParser.init {}).toOption.getD {}

def scalerEvents (num : Int) : List (PhysicsEvent EventHits) :=
  [⟨num, [.fadcScaler ⟨[⟨1, 1, 5, 0, Vector.replicate 16 0⟩]⟩]⟩]

abbrev PublishesRecord (eb1Data : List UInt64) (num : Int) : Prop :=
  (parse CommonParser.invoke 1 (scalerBlock eb1Data) scalerServices).map Prod.fst =
    .ok (scalerEvents num)

theorem parse_of_publishesRecord {eb1Data : List UInt64} {num : Int}
    (h : PublishesRecord eb1Data num) : ∃ services',
      parse CommonParser.invoke 1 (scalerBlock eb1Data) scalerServices =
        .ok (scalerEvents num, services') := by
  obtain ⟨result, hparse, hevents⟩ := Failing.map_eq_ok.mp h
  exact ⟨result.2, by rw [hparse, ← hevents]⟩

/-- A block of two events, with an FADC bank and a scaler bank. -/
def twoEventBlock : EvioEvent where
  tag := 0xFF50
  uintData := []
  children :=
    [.node 0xFF27 1 0x20 [] []
        [.node 1 0 0xA [] [5, 0, 0] [], .node 1 0 uint32DataType [] [] []],
      .node 1 0 0x10 [] []
        [.node 2 0 uint32DataType twoEventBank [] [],
          .node 7 0 uint32DataType [0x00010500] [] []]]

def twoEventServices : Services CommonParser :=
  { scalerServices with
    bankToModule := (BankToModuleMap.addRoute 2 250 (BankToModuleMap.addRoute 7 9250 {}).2).2 }

theorem parse_twoEventBlock : ∃ events services', events.length = 2 ∧
    parse CommonParser.invoke 1 twoEventBlock twoEventServices = .ok (events, services') := by
  have hresult : (parse CommonParser.invoke 1 twoEventBlock twoEventServices).map
      (fun result => result.1.length) = .ok 2 := by decide +kernel
  obtain ⟨result, hparse, hlength⟩ := Failing.map_eq_ok.mp hresult
  exact ⟨result.1, result.2, hlength, hparse⟩

theorem staysInBlock_iff_of_twoEvents : ∃ events, events.length = 2 ∧
    (StaysInBlock twoEventServices twoEventBlock events ↔
      FitsBlock twoEventServices twoEventBlock) := by
  obtain ⟨events, services', hlength, hparse⟩ := parse_twoEventBlock
  exact ⟨events, hlength, staysInBlock_iff hparse⟩

/-- A trigger segment without timestamps, whose scaler record gets the number before the
first one. -/
theorem event_before_block : PublishesRecord [5] 4 ∧
    ¬ StaysInBlock scalerServices (scalerBlock [5]) (scalerEvents 4) := by
  refine ⟨by decide +kernel, fun hh => ?_⟩
  exact absurd hh.announces (by decide)

end EvioEventParser

end JanaExtensions
