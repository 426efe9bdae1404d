import JanaExtensions.EncodedBanks

/-! EVIO blocks written from their ROCs, data banks and events, and what the block parser and
the unfolder make of them: one child for each event that some bank has hits for, with the hits
of all banks that the filter and the routes let through. -/

namespace JanaExtensions

open Failing

structure DataBank where
  tag : UInt16
  number : UInt8
  dataType : UInt8
  content : BankContent

/-- A ROC with its data banks. The status bits stand above the ROC ID in the tag of its bank. -/
structure ROC where
  rocid : BitVec 12
  status : BitVec 4
  banks : List DataBank

structure EncodedBlock where
  tag : UInt16
  firstEventNumber : UInt64
  timestamps : List UInt64
  rocs : List ROC
  hne : timestamps ≠ []
  hlen : timestamps.length < 2 ^ 31
  hrocs : rocs.length < 256

def DataBank.encode (bank : DataBank) : BaseStructure :=
  .node bank.tag bank.number bank.dataType bank.content.encode [] []

def ROC.id (roc : ROC) : UInt32 := UInt32.ofNat roc.rocid.toNat

def ROC.encode (roc : ROC) : BaseStructure :=
  .node (UInt16.ofBitVec (roc.status ++ roc.rocid)) 0 0x10 [] [] (roc.banks.map DataBank.encode)

def ROC.segment (roc : ROC) : BaseStructure :=
  .node (UInt16.ofNat roc.rocid.toNat) 0 EvioEventParser.uint32DataType [] [] []

namespace EncodedBlock

def eb1Segment (b : EncodedBlock) : BaseStructure :=
  .node 1 0 0xA [] (b.firstEventNumber :: b.timestamps) []

/-- The segment of the event types, which the parser leaves out. -/
def eb2Segment : BaseStructure := .node 1 0 0x5 [] [] []

def triggerBank (b : EncodedBlock) : BaseStructure :=
  .node 0xFF27 (UInt8.ofNat b.rocs.length) 0x20 [] []
    (b.eb1Segment :: eb2Segment :: b.rocs.map ROC.segment)

def encode (b : EncodedBlock) : EvioEvent where
  tag := b.tag
  uintData := []
  children := b.triggerBank :: b.rocs.map ROC.encode

def triggerData (b : EncodedBlock) : TriggerData :=
  ⟨b.firstEventNumber, b.firstEventNumber + UInt64.ofNat b.timestamps.length - 1⟩

open EvioEventParser

variable {P : Type}

/-- The banks that the filter and the routes let through, in the order of the block. -/
def selected (services : Services P) (b : EncodedBlock) : List (UInt32 × DataBank) :=
  b.rocs.flatMap fun roc =>
    (roc.banks.filter fun bank => Selected services roc.id bank.encode).map fun bank =>
      (roc.id, bank)

/-- The hits of the `k`-th event, in the order of the banks. -/
def hitsAt (services : Services P) (b : EncodedBlock) (k : Nat) : List EventHits :=
  (b.selected services).filterMap fun x =>
    x.2.content.hits x.1 b.firstEventNumber b.timestamps.length k

/-- The routes send each bank that they let through to the parser for its content. -/
def Fits (services : Services CommonParser) (b : EncodedBlock) : Prop :=
  ∀ x ∈ b.selected services, x.2.content.parser ≠ none ∧
    parserOf services x.2.encode = x.2.content.parser

instance (services : Services CommonParser) (b : EncodedBlock) : Decidable (b.Fits services) :=
  List.decidableBAll ..

section Tree

theorem rocid_encode (roc : ROC) : rocid roc.encode = roc.id := by
  have hlt := roc.rocid.isLt
  have htag : (UInt16.ofBitVec (roc.status ++ roc.rocid)).toNat =
      roc.status.toNat * 2 ^ 12 + roc.rocid.toNat := by
    change (roc.status ++ roc.rocid).toNat = _
    rw [BitVec.toNat_append, ← Nat.shiftLeft_add_eq_or_of_lt hlt, Nat.shiftLeft_eq]
  have hmask : (0x0FFF : UInt32).toNat = 2 ^ 12 - 1 := rfl
  apply UInt32.toNat.inj
  rw [rocid, UInt32.toNat_and, hmask, Nat.and_two_pow_sub_one_eq_mod]
  change (UInt16.ofBitVec (roc.status ++ roc.rocid)).toUInt32.toNat % 2 ^ 12 = _
  rw [UInt16.toNat_toUInt32, htag, ROC.id, UInt32.toNat_ofNat_of_lt' (by simp [UInt32.size]; omega)]
  omega

theorem tag_segment (roc : ROC) : roc.segment.tag.toUInt32 = rocid roc.encode := by
  have hlt := roc.rocid.isLt
  rw [rocid_encode]
  apply UInt32.toNat.inj
  change (UInt16.ofNat roc.rocid.toNat).toUInt32.toNat = _
  rw [UInt16.toNat_toUInt32, UInt16.toNat_ofNat_of_lt' (by simp [UInt16.size]; omega), ROC.id,
    UInt32.toNat_ofNat_of_lt' (by simp [UInt32.size]; omega)]

theorem parseTriggerBank_encode (b : EncodedBlock) :
    parseTriggerBank b.triggerBank = .ok (b.rocs.map ROC.segment, b.triggerData) := by
  have hsegments : (b.eb1Segment :: eb2Segment :: b.rocs.map ROC.segment).filter
      (fun child => child.dataType = uint32DataType) = b.rocs.map ROC.segment := by
    have heb1 : ¬ b.eb1Segment.dataType = uint32DataType := by
      change ¬ (0xA : UInt8) = 0x1
      decide
    have heb2 : ¬ eb2Segment.dataType = uint32DataType := by decide
    rw [List.filter_cons_of_neg (by simpa using heb1), List.filter_cons_of_neg (by simpa using heb2)]
    refine List.filter_eq_self.mpr fun child hchild => ?_
    obtain ⟨roc, -, rfl⟩ := List.mem_map.mp hchild
    exact decide_eq_true rfl
  have hcount : (UInt8.ofNat b.rocs.length).toNat = b.rocs.length :=
    UInt8.toNat_ofNat_of_lt' b.hrocs
  have hnumber : b.triggerBank.number.toNat = (b.rocs.map ROC.segment).length := by
    rw [List.length_map]
    exact hcount
  rw [parseTriggerBank]
  change (if b.triggerBank.number.toNat ≠ ((b.eb1Segment :: eb2Segment ::
    b.rocs.map ROC.segment).filter fun child => child.dataType = uint32DataType).length then _
      else _) = _
  rw [hsegments, if_neg (not_not.mpr hnumber)]
  exact congrArg (fun segments => Except.ok (segments, b.triggerData)) hsegments

theorem not_rejected {services : Services CommonParser} {b : EncodedBlock}
    (hfits : b.Fits services) :
    ¬ Rejected services (b.rocs.map ROC.encode) (b.rocs.map ROC.segment) := by
  intro hh
  rcases hh with hlength | ⟨banks, hbanks, hmismatch⟩ | ⟨dataBank, hdata, dma, hdma, hsel, hparser⟩
  · exact hlength (by simp)
  · rw [List.zip_map', List.mem_map] at hbanks
    obtain ⟨roc, -, rfl⟩ := hbanks
    exact hmismatch (tag_segment roc)
  · obtain ⟨roc, hroc, rfl⟩ := List.mem_map.mp hdata
    obtain ⟨bank, hbank, rfl⟩ := List.mem_map.mp hdma
    rw [rocid_encode] at hsel
    have hmem : (roc.id, bank) ∈ b.selected services :=
      List.mem_flatMap.mpr ⟨roc, hroc, List.mem_map.mpr
        ⟨bank, List.mem_filter.mpr ⟨hbank, by simpa using hsel⟩, rfl⟩⟩
    obtain ⟨hsome, hroute⟩ := hfits _ hmem
    exact hsome (hroute.symm.trans hparser)

theorem invocations_encode (services : Services CommonParser) (b : EncodedBlock) :
    invocations services (b.rocs.map ROC.encode) =
      (b.selected services).filterMap fun x => invocation? services x.1 x.2.encode := by
  rw [invocations, selected, List.flatMap_map, List.filterMap_flatMap]
  refine List.flatMap_congr fun roc _ => ?_
  rw [rocid_encode, List.filterMap_map, List.filterMap_filter]
  change (roc.banks.map DataBank.encode).filterMap _ = _
  rw [List.filterMap_map]
  refine List.filterMap_congr fun bank _ => ?_
  by_cases hsel : Selected services roc.id bank.encode
  · simp [hsel]
  · simp [invocation?, hsel]

end Tree

/-- The published events are those of the positions with hits, and carry their hits. -/
structure Carries (first : UInt64) (hits : Nat → List EventHits)
    (published : List (PhysicsEvent EventHits)) : Prop where
  lt : ∀ k, hits k ≠ [] → k < 2 ^ 32
  hitsOf_eq : ∀ k < 2 ^ 32, hitsOf published (toCInt (eventKey first k)) = hits k
  mem_iff : ∀ num, num ∈ published.map PhysicsEvent.eventNum ↔
    ∃ k, hits k ≠ [] ∧ num = toCInt (eventKey first k)

section Carries

variable {first : UInt64}

theorem Carries.nil : Carries first (fun _ => []) [] := ⟨by simp, fun _ _ => rfl, by simp⟩

theorem Carries.cons {hits : Nat → Option EventHits} {hits' : Nat → List EventHits}
    {events published : List (PhysicsEvent EventHits)} (h : Delivers first hits events)
    (h' : Carries first hits' published) :
    Carries first (fun k => (hits k).toList ++ hits' k) (events ++ published) := by
  have hne (k : Nat) : (hits k).toList ++ hits' k ≠ [] ↔ hits k ≠ none ∨ hits' k ≠ [] := by
    cases hits k <;> simp
  refine ⟨fun k hk => ?_, fun k hk => ?_, fun num => ?_⟩
  · rcases (hne k).mp hk with hhits | hhits
    · exact h.lt hhits
    · exact h'.lt k hhits
  · rw [hitsOf_append, h.hitsOf_eq hk, h'.hitsOf_eq k hk]
  · rw [List.map_append, List.mem_append, h.mem_eventNum_iff, h'.mem_iff]
    simp only [hne, or_and_right, exists_or]

theorem Carries.eq_nil_iff {hits : Nat → List EventHits}
    {published : List (PhysicsEvent EventHits)} (h : Carries first hits published) :
    published = [] ↔ ∀ k, hits k = [] := by
  constructor
  · intro hnil k
    by_contra hne
    have hmem := (h.mem_iff _).mpr ⟨k, hne, rfl⟩
    rw [hnil] at hmem
    cases hmem
  · intro hnone
    by_contra hne
    obtain ⟨pe, hpe⟩ := List.exists_mem_of_ne_nil _ hne
    obtain ⟨k, hhits, -⟩ := (h.mem_iff pe.eventNum).mp (List.mem_map_of_mem hpe)
    exact hhits (hnone k)

theorem Carries.mem_consolidate_iff {hits : Nat → List EventHits}
    {published : List (PhysicsEvent EventHits)} (h : Carries first hits published)
    {pe : PhysicsEvent EventHits} :
    pe ∈ consolidate published ↔
      ∃ k, hits k ≠ [] ∧ pe = ⟨toCInt (eventKey first k), hits k⟩ := by
  constructor
  · intro hpe
    have hnum : pe.eventNum ∈ published.map PhysicsEvent.eventNum := by
      rw [← mem_keys_foldl_mergeEvent, ← eventNum_consolidate]
      exact List.mem_map_of_mem hpe
    obtain ⟨k, hne, hkey⟩ := (h.mem_iff _).mp hnum
    have hhits := hitsList_of_mem_consolidate hpe
    rw [hkey, h.hitsOf_eq k (h.lt k hne)] at hhits
    obtain ⟨num, hitsList⟩ := pe
    dsimp only at hkey hhits
    exact ⟨k, hne, by rw [hkey, hhits]⟩
  · intro hh
    obtain ⟨k, hne, rfl⟩ := hh
    have hnum : toCInt (eventKey first k) ∈ (consolidate published).map PhysicsEvent.eventNum := by
      rw [eventNum_consolidate, mem_keys_foldl_mergeEvent]
      exact (h.mem_iff _).mpr ⟨k, hne, rfl⟩
    obtain ⟨pe, hpe, heq⟩ := List.mem_map.mp hnum
    have hhits := hitsList_of_mem_consolidate hpe
    rw [heq, h.hitsOf_eq k (h.lt k hne)] at hhits
    obtain ⟨num, hitsList⟩ := pe
    dsimp only at heq hhits
    rwa [← heq, ← hhits]

end Carries

section Parse

variable {services : Services CommonParser} {b : EncodedBlock}

theorem exists_published_selected (banks : List (UInt32 × DataBank))
    (hbanks : ∀ x ∈ banks, Selected services x.1 x.2.encode ∧ x.2.content.parser ≠ none ∧
      parserOf services x.2.encode = x.2.content.parser)
    (pre : List (PhysicsEvent EventHits)) :
    ∃ published, (banks.filterMap fun x => invocation? services x.1 x.2.encode).foldlM
        (call CommonParser.invoke) ⟨b.triggerData, pre⟩ = .ok ⟨b.triggerData, pre ++ published⟩ ∧
      Carries b.firstEventNumber (fun k => banks.filterMap fun x =>
        x.2.content.hits x.1 b.firstEventNumber b.timestamps.length k) published := by
  induction banks generalizing pre with
  | nil => exact ⟨[], by rw [List.append_nil]; rfl, .nil⟩
  | cons x banks ih =>
    obtain ⟨⟨hsel, hsome, hroute⟩, hrest⟩ := List.forall_mem_cons.mp hbanks
    obtain ⟨parser, hparser⟩ := Option.ne_none_iff_exists'.mp hsome
    have hpos : 0 < b.timestamps.length := List.length_pos_iff.mpr b.hne
    have hlen := b.hlen
    obtain ⟨events, hparse, hdelivers⟩ :=
      BankContent.delivers hparser x.1 b.firstEventNumber hpos (by omega)
    -- The other banks find the events of this one in front of their own.
    obtain ⟨published, hfold, hcarries⟩ := ih hrest (pre ++ events)
    have hinv : invocation? services x.1 x.2.encode =
        some ⟨parser, x.2.encode, bankContext x.1 x.2.encode⟩ := by
      simp [invocation?, hsel, hroute, hparser]
    have hcall : call CommonParser.invoke ⟨b.triggerData, pre⟩
        ⟨parser, x.2.encode, bankContext x.1 x.2.encode⟩ = .ok ⟨b.triggerData, pre ++ events⟩ := by
      change (parser.parse x.1 b.triggerData x.2.content.encode >>= _) = _
      rw [triggerData, hparse]
      rfl
    refine ⟨events ++ published, ?_, ?_⟩
    · rw [List.filterMap_cons, hinv]
      dsimp only
      rw [List.foldlM_cons, hcall, bind_ok, hfold, List.append_assoc]
    · have hcons := Carries.cons hdelivers hcarries
      have hhits (k : Nat) : ((x :: banks).filterMap fun x =>
          x.2.content.hits x.1 b.firstEventNumber b.timestamps.length k) =
          (x.2.content.hits x.1 b.firstEventNumber b.timestamps.length k).toList ++
            banks.filterMap fun x =>
              x.2.content.hits x.1 b.firstEventNumber b.timestamps.length k := by
        rw [List.filterMap_cons]
        cases x.2.content.hits x.1 b.firstEventNumber b.timestamps.length k <;> rfl
      simpa only [hhits] using hcons

theorem selected_of_mem {x : UInt32 × DataBank} (hx : x ∈ b.selected services) :
    Selected services x.1 x.2.encode := by
  obtain ⟨roc, -, hroc⟩ := List.mem_flatMap.mp hx
  obtain ⟨bank, hbank, rfl⟩ := List.mem_map.mp hroc
  simpa using (List.mem_filter.mp hbank).2

theorem parseROCBanks_encode (hfits : b.Fits services) : ∃ s published,
    parseROCBanks CommonParser.invoke (b.rocs.map ROC.encode) (b.rocs.map ROC.segment)
        ⟨services, b.triggerData, []⟩ = .ok s ∧
      s.shared = ⟨b.triggerData, published⟩ ∧
      Carries b.firstEventNumber (b.hitsAt services) published := by
  have hsim := parseROCBanks_simulates CommonParser.invoke
    (s := ⟨services, ⟨b.triggerData, []⟩⟩) (not_rejected hfits)
  obtain ⟨published, hfold, hcarries⟩ := exists_published_selected (b := b)
    (b.selected services) (fun x hx => ⟨selected_of_mem hx, hfits x hx⟩) []
  rw [List.nil_append] at hfold
  rw [invocations_encode, hfold] at hsim
  obtain ⟨s, hs, hshared⟩ := map_eq_ok.mp hsim
  exact ⟨s, published, hs, hshared, hcarries⟩

theorem parse_encode_published (hfits : b.Fits services) (eventNumber : UInt64) :
    ∃ services' published, parse CommonParser.invoke eventNumber b.encode services =
        (if published.isEmpty then .error (.jexception
          ("EvioEventParser::parse: No physics events found for evio block " ++
            toString eventNumber))
        else .ok (consolidate published, services')) ∧
      Carries b.firstEventNumber (b.hitsAt services) published := by
  obtain ⟨s, published, hs, hshared, hcarries⟩ := parseROCBanks_encode hfits
  refine ⟨s.services, published, ?_, hcarries⟩
  change (parseTriggerBank b.triggerBank >>= _) = _
  rw [parseTriggerBank_encode, bind_ok]
  change (parseROCBanks _ _ _ _ >>= _) = _
  rw [hs, bind_ok, hshared]

/-- A block that is written from its events is read back: the block parser returns one event
for each event that a selected bank has hits for, in the order of the event numbers as signed
32-bit numbers and with the hits of all these banks in the order of the block, and the
unfolder makes one child of each. A block without hits throws. -/
theorem parse_block_encode (hfits : b.Fits services) (eventNumber : UInt64) (parentRun : Int) :
    ((∀ k, b.hitsAt services k = []) →
      parse CommonParser.invoke eventNumber b.encode services = .error (.jexception
        ("EvioEventParser::parse: No physics events found for evio block " ++
          toString eventNumber))) ∧
    ((∃ k, b.hitsAt services k ≠ []) → ∃ events services',
      parse CommonParser.invoke eventNumber b.encode services = .ok (events, services') ∧
      events.Pairwise (fun pe pe' => pe.eventNum < pe'.eventNum) ∧
      (∀ pe, pe ∈ events ↔ ∃ k, b.hitsAt services k ≠ [] ∧
        pe = ⟨toCInt (eventKey b.firstEventNumber k), b.hitsAt services k⟩) ∧
      EventUnfolder.UnfoldsFrom events parentRun 0
        (events.map (EventUnfolder.childOf parentRun))) := by
  obtain ⟨services', published, hparse, hcarries⟩ := parse_encode_published hfits eventNumber
  rw [hparse]
  constructor
  · intro hnone
    rw [hcarries.eq_nil_iff.mpr hnone]
    rfl
  · intro hh
    obtain ⟨k, hk⟩ := hh
    have hne : published ≠ [] := fun hnil => hk (hcarries.eq_nil_iff.mp hnil k)
    have hpos : 0 < (consolidate published).length :=
      List.length_pos_of_mem (hcarries.mem_consolidate_iff.mpr ⟨k, hk, rfl⟩)
    refine ⟨consolidate published, services', if_neg (by simpa using hne),
      consolidate_sorted published, fun pe => hcarries.mem_consolidate_iff, ?_⟩
    exact EventUnfolder.unfoldsFrom_drop parentRun hpos

def testFADC : FADC.Bank where
  fillers := []
  blocks := [{
    slot := 3
    moduleId := 1
    blockNumber := 1
    headerFillers := []
    events := [⟨0, 1, 0, 0, [], [.waveform 2 [7, 8, 9] (by decide) 0]⟩, ⟨0, 2, 0, 0, [], []⟩]
    hlen := by decide
    trailerWords := 0
    trailerFillers := [] }]

/-- Two events of a ROC with an FADC bank, a scaler bank and a bank without route. -/
def testBlock : EncodedBlock where
  tag := 0xFF50
  firstEventNumber := 5
  timestamps := [0, 0]
  rocs := [⟨1, 0, [⟨2, 0, 1, .fadc testFADC⟩, ⟨9, 0, 1, .other [5]⟩,
    ⟨7, 0, 1, .fadcScaler [⟨1, 3, [], by decide⟩] (by simp)⟩]⟩]
  hne := by simp
  hlen := by simp
  hrocs := by simp

def testServices : Services CommonParser where
  filterDB := {}
  bankToModule := (BankToModuleMap.addRoute 7 9250 (BankToModuleMap.addRoute 2 250 {}).2).2
  moduleParsers := (CommonParser.init {}).toOption.getD {}

theorem parse_block_encode_two : ∃ events services',
    parse CommonParser.invoke 1 testBlock.encode testServices = .ok (events, services') ∧
      ∀ pe, pe ∈ events ↔ ∃ k, testBlock.hitsAt testServices k ≠ [] ∧
        pe = ⟨toCInt (eventKey 5 k), testBlock.hitsAt testServices k⟩ := by
  have hfits : testBlock.Fits testServices := by decide +kernel
  have hhits : testBlock.hitsAt testServices 0 ≠ [] := by decide +kernel
  obtain ⟨events, services', hparse, -, hmem, -⟩ :=
    (parse_block_encode hfits 1 0).2 ⟨0, hhits⟩
  exact ⟨events, services', hparse, hmem⟩

end Parse

end EncodedBlock

end JanaExtensions
