import JanaExtensions.BlockParsing
import JanaExtensions.DecodedEvents

/-! The identity of an event across the decoders. Each parser computes event numbers in its
own integer width, but all numbers of one event are equal as an `int`, and those of
different events of a block differ, so that consolidation merges exactly what belongs
together. -/

namespace JanaExtensions

open Failing

section Containers

variable {σ H : Type} [AddMonoid H] {classify : UInt32 → List UInt32 → Word}
  {body : UInt32 → List UInt32 → σ → Except Fault (Nat × σ)} {blockState : σ → BlockState H}
  {key : UInt64 → UInt64} {init : σ} {first : UInt64}

/-- All hits that are decoded from a bank for the event at a position, as one container. -/
def DecodedContainer (classify : UInt32 → List UInt32 → Word)
    (body : UInt32 → List UInt32 → σ → Except Fault (Nat × σ)) (blockState : σ → BlockState H)
    (init : σ) (dataWords : List UInt32) (k : Nat) (container : H) : Prop :=
  ∃ log, Decodes classify body blockState init (interpretedWords classify dataWords) log ∧
    k ∈ log.map Prod.fst ∧ container = OrderedMap.sumAt log k

theorem mem_physicsEvents_iff (hkey : ∀ i, toCInt (key i) = toCInt (first + i))
    {log : List (Nat × H)} (hpositions : ∀ x ∈ log, x.1 < 256) (pe : PhysicsEvent H) :
    pe ∈ physicsEvents ((log.map fun x => (key (UInt64.ofNat x.1), x.2)).foldl
        (fun m x => m.addAt x.1 x.2) ∅) ↔
      ∃ k ∈ log.map Prod.fst, pe = ⟨toCInt (eventKey first k), [OrderedMap.sumAt log k]⟩ := by
  have hinj : ∀ k ∈ log.map Prod.fst, ∀ x ∈ log,
      key (UInt64.ofNat x.1) = key (UInt64.ofNat k) → x.1 = k := by
    intro k hk x hx he
    obtain ⟨y, hy, rfl⟩ := List.mem_map.mp hk
    have hh := congrArg toCInt he
    rw [hkey, hkey] at hh
    have hx' := hpositions x hx
    have hy' := hpositions y hy
    exact toCInt_eventKey_inj (by omega) (by omega) hh
  rw [physicsEvents, List.mem_map]
  constructor
  · intro hh
    obtain ⟨⟨number, container⟩, hentry, rfl⟩ := hh
    have hfind := OrderedMap.mem_entries_iff.mp hentry
    rw [OrderedMap.find_foldl_addAt] at hfind
    split at hfind
    · rename_i hmem
      obtain ⟨x, hx, rfl⟩ := List.mem_map.mp hmem
      obtain ⟨y, hy, rfl⟩ := List.mem_map.mp hx
      have hk : y.1 ∈ log.map Prod.fst := List.mem_map.mpr ⟨y, hy, rfl⟩
      refine ⟨y.1, hk, ?_⟩
      have hsum := OrderedMap.sumAt_map_key (f := fun k => key (UInt64.ofNat k)) (hinj y.1 hk)
      rw [← Option.some.inj hfind, hkey, ← hsum]
      rfl
    · exact absurd hfind (by simp)
  · intro hh
    obtain ⟨k, hk, rfl⟩ := hh
    have hsum := OrderedMap.sumAt_map_key (f := fun k => key (UInt64.ofNat k)) (hinj k hk)
    have hmem : key (UInt64.ofNat k) ∈
        (log.map fun x => (key (UInt64.ofNat x.1), x.2)).map Prod.fst := by
      obtain ⟨x, hx, rfl⟩ := List.mem_map.mp hk
      exact List.mem_map.mpr ⟨_, List.mem_map.mpr ⟨x, hx, rfl⟩, rfl⟩
    refine ⟨(key (UInt64.ofNat k), OrderedMap.sumAt log k), ?_, ?_⟩
    · rw [OrderedMap.mem_entries_iff, OrderedMap.find_foldl_addAt, if_pos hmem, ← hsum]
    · rw [hkey]
      rfl

/-- The physics events of a well-formed bank are the containers of its events, under the
numbers of the positions. -/
theorem mem_bankEvents_iff [IsLeftCancelAdd H]
    (hc : Conforms classify body (TracksIn blockState key) (Appends blockState))
    (hsteps : ∀ d following s used s', body d following s = .ok (used, s') →
      StepsTable key (classify d following) (blockState s) (blockState s'))
    (hcounts : ∀ d following slot nevents, classify d following = .blockHeader slot nevents →
      nevents < 256)
    (hinit : blockState init = {}) (hkey : ∀ i, toCInt (key i) = toCInt (first + i))
    {dataWords : List UInt32} {events : List (PhysicsEvent H)}
    (h : (WordLoop.run body 0 dataWords init >>= fun s =>
      .ok (physicsEvents (blockState s).eventHitsMap)) = .ok events)
    (hformed : WellFormed (classified classify dataWords)) :
    (∃ log, Decodes classify body blockState init (interpretedWords classify dataWords) log ∧
      ∀ x ∈ log, x.1 < 256) ∧
    ∀ pe, pe ∈ events ↔ ∃ k container, k < 256 ∧
      DecodedContainer classify body blockState init dataWords k container ∧
      pe = ⟨toCInt (eventKey first k), [container]⟩ := by
  have hR : TracksIn blockState key {} init := .init hinit
  obtain ⟨s, hs, hevents⟩ := bind_eq_ok.mp h
  obtain rfl := Except.ok.inj hevents
  rw [hc.run_eq_fold hR] at hs
  have hclosed : ∀ pre slot nevents rest,
      (interpretedWords classify dataWords).map (fun m => classify m.1 m.2) =
        pre ++ .blockHeader slot nevents :: rest → isOpen pre = false := by
    intro pre slot nevents rest he
    have hcl := hformed.framed.closed
    rw [classified, he] at hcl
    exact hcl.isOpen_eq_false
  obtain ⟨log, hlog, hpositions, hmap⟩ :=
    exists_decodes hc hsteps hcounts hinit hs hclosed hformed.inEvents
  refine ⟨⟨log, hlog, hpositions⟩, fun pe => ?_⟩
  rw [hmap]
  refine (mem_physicsEvents_iff hkey hpositions pe).trans ?_
  constructor
  · intro hh
    obtain ⟨k, hk, hpe⟩ := hh
    obtain ⟨x, hx, rfl⟩ := List.mem_map.mp hk
    exact ⟨x.1, _, hpositions x hx, ⟨log, hlog, hk, rfl⟩, hpe⟩
  · intro hh
    obtain ⟨k, container, -, ⟨log', hlog', hk, rfl⟩, hpe⟩ := hh
    obtain rfl := hlog.unique hlog'
    exact ⟨k, hk, hpe⟩

end Containers

def EventHits.source : EventHits → CommonParser
  | .caen1190 _ => .caen1190
  | .fadc _ => .fadc
  | .fadcScaler _ => .fadcScaler
  | .tiScaler _ => .tiScaler
  | .helicityDecoder _ => .helicityDecoder
  | .mpd _ => .mpd
  | .vftdc _ => .vftdc

theorem CommonParser.source_of_parse {parser : CommonParser} {rocid : UInt32}
    {triggerData : TriggerData} {dataWords : List UInt32} {events : List (PhysicsEvent EventHits)}
    (h : parser.parse rocid triggerData dataWords = .ok events) {pe : PhysicsEvent EventHits}
    (hpe : pe ∈ events) {container : EventHits} (hcontainer : container ∈ pe.hitsList) :
    container.source = parser := by
  have hmap : ∀ {H : Type} {result : Except Fault (List (PhysicsEvent H))} {f : H → EventHits},
      result.map (List.map (PhysicsEvent.map f)) = .ok events → ∃ hits, container = f hits := by
    intro H result f hresult
    obtain ⟨bankEvents, -, rfl⟩ := map_eq_ok.mp hresult
    obtain ⟨pe', -, rfl⟩ := List.mem_map.mp hpe
    obtain ⟨hits, -, rfl⟩ := List.mem_map.mp hcontainer
    exact ⟨hits, rfl⟩
  cases parser <;> obtain ⟨hits, rfl⟩ := hmap h <;> rfl

namespace EvioEventParser

def Invocation.WellFormed (inv : Invocation CommonParser) : Prop :=
  match inv.parser with
  | .fadc => JanaExtensions.WellFormed (classified FADC.readAs inv.dma.uintData)
  | .mpd => JanaExtensions.WellFormed (classified MPD.readAs inv.dma.uintData)
  | .vftdc => JanaExtensions.WellFormed (classified VFTDC.readAs inv.dma.uintData)
  | _ => True

/-- What a bank holds for the event at a position of the block. A scaler record belongs to
the last event that the trigger bank announces. -/
def Invocation.Holds (event : EvioEvent) (inv : Invocation CommonParser) (k : Nat)
    (container : EventHits) : Prop :=
  let rocid := inv.context.rocid
  let triggerData := triggerDataOf event
  match inv.parser with
  | .fadc => ∃ hits, container = .fadc hits ∧ DecodedContainer FADC.readAs
      (FADC.parseWord rocid triggerData) FADC.State.toBlockState {} inv.dma.uintData k hits
  | .mpd => ∃ hits, container = .mpd hits ∧ DecodedContainer MPD.readAs
      (MPD.parseWord rocid triggerData) MPD.State.toBlockState {} inv.dma.uintData k hits
  | .vftdc => ∃ hits, container = .vftdc hits ∧ DecodedContainer VFTDC.readAs
      (VFTDC.parseWord rocid triggerData) VFTDC.State.toBlockState {} inv.dma.uintData k hits
  | .fadcScaler | .tiScaler =>
    k + 1 = announcedEvents event ∧ ∃ num, inv.parse triggerData = .ok [⟨num, [container]⟩]
  | .caen1190 | .helicityDecoder => False

/-- The bank is decoded: every data word gives hits for one of 256 events, or there is a
scaler record. -/
def Invocation.Decoded (event : EvioEvent) (inv : Invocation CommonParser) : Prop :=
  let rocid := inv.context.rocid
  let triggerData := triggerDataOf event
  let dataWords := inv.dma.uintData
  match inv.parser with
  | .fadc => ∃ log, Decodes FADC.readAs (FADC.parseWord rocid triggerData) FADC.State.toBlockState
      {} (interpretedWords FADC.readAs dataWords) log ∧ ∀ x ∈ log, x.1 < 256
  | .mpd => ∃ log, Decodes MPD.readAs (MPD.parseWord rocid triggerData) MPD.State.toBlockState
      {} (interpretedWords MPD.readAs dataWords) log ∧ ∀ x ∈ log, x.1 < 256
  | .vftdc => ∃ log, Decodes VFTDC.readAs (VFTDC.parseWord rocid triggerData)
      VFTDC.State.toBlockState {} (interpretedWords VFTDC.readAs dataWords) log ∧
      ∀ x ∈ log, x.1 < 256
  | .fadcScaler | .tiScaler => ∃ k container, inv.Holds event k container
  | .caen1190 | .helicityDecoder => False

/-- The parsers of hits, and the scaler parsers in a block of 1 to 256 events. -/
def Identifies (event : EvioEvent) : CommonParser → Prop
  | .fadc | .mpd | .vftdc => True
  | .fadcScaler | .tiScaler => 1 ≤ announcedEvents event ∧ announcedEvents event ≤ 256
  | .caen1190 | .helicityDecoder => False

def eventNumAt (event : EvioEvent) (k : Nat) : Int :=
  toCInt (eventKey (triggerDataOf event).firstEventNumber k)

section Bank

variable {event : EvioEvent} {inv : Invocation CommonParser}
  {bankEvents : List (PhysicsEvent EventHits)}

theorem lastEventNumber_eq (hn : 1 ≤ announcedEvents event) :
    (triggerDataOf event).lastEventNumber =
      eventKey (triggerDataOf event).firstEventNumber (announcedEvents event - 1) := by
  obtain ⟨n, hn'⟩ : ∃ n, announcedEvents event = n + 1 := ⟨announcedEvents event - 1, by omega⟩
  simp only [triggerDataOf, eventKey, hn', Nat.add_sub_cancel]
  rw [UInt64.ofNat_add, ← UInt64.add_assoc]
  exact UInt64.add_sub_cancel _ _

theorem mem_scaler_iff {hits : EventHits}
    (hn : 1 ≤ announcedEvents event ∧ announcedEvents event ≤ 256)
    (hparse : inv.parse (triggerDataOf event) =
      .ok [⟨toCInt (triggerDataOf event).lastEventNumber, [hits]⟩]) (pe : PhysicsEvent EventHits) :
    pe = ⟨toCInt (triggerDataOf event).lastEventNumber, [hits]⟩ ↔ ∃ k container, k < 256 ∧
      (k + 1 = announcedEvents event ∧
        ∃ num, inv.parse (triggerDataOf event) = .ok [⟨num, [container]⟩]) ∧
      pe = ⟨eventNumAt event k, [container]⟩ := by
  rw [lastEventNumber_eq hn.1] at hparse ⊢
  constructor
  · intro hpe
    exact ⟨announcedEvents event - 1, hits, by omega, ⟨by omega, _, hparse⟩, hpe⟩
  · intro hh
    obtain ⟨k, container, -, ⟨hk, num, hparse'⟩, hpe⟩ := hh
    have hevents := Except.ok.inj (hparse.symm.trans hparse')
    obtain ⟨-, hhits⟩ := PhysicsEvent.mk.inj (List.singleton_inj.mp hevents)
    have hlast : announcedEvents event - 1 = k := by omega
    rw [hpe, ← List.singleton_inj.mp hhits, hlast]
    rfl

theorem mem_map_iff {H : Type} {events : List (PhysicsEvent H)} {f : H → EventHits}
    {P : Nat → H → Prop} {num : Nat → Int}
    (h : ∀ pe, pe ∈ events ↔ ∃ k hits, k < 256 ∧ P k hits ∧ pe = ⟨num k, [hits]⟩)
    (pe : PhysicsEvent EventHits) :
    pe ∈ events.map (PhysicsEvent.map f) ↔ ∃ k container, k < 256 ∧
      (∃ hits, container = f hits ∧ P k hits) ∧ pe = ⟨num k, [container]⟩ := by
  rw [List.mem_map]
  constructor
  · intro hh
    obtain ⟨pe', hpe', rfl⟩ := hh
    obtain ⟨k, hits, hk, hP, rfl⟩ := (h pe').mp hpe'
    exact ⟨k, f hits, hk, ⟨hits, rfl, hP⟩, rfl⟩
  · intro hh
    obtain ⟨k, container, hk, ⟨hits, rfl, hP⟩, rfl⟩ := hh
    exact ⟨_, (h _).mpr ⟨k, hits, hk, hP, rfl⟩, rfl⟩

/-- A bank whose parser identifies its events publishes what it holds for each of them,
under the number of the event. -/
theorem mem_identified_iff (hidentifies : Identifies event inv.parser) (hformed : inv.WellFormed)
    (hparse : inv.parse (triggerDataOf event) = .ok bankEvents) :
    inv.Decoded event ∧ ∀ pe, pe ∈ bankEvents ↔ ∃ k container, k < 256 ∧
      inv.Holds event k container ∧ pe = ⟨eventNumAt event k, [container]⟩ := by
  obtain ⟨parser, dma, context⟩ := inv
  cases parser with
  | caen1190 => exact absurd hidentifies (by simp [Identifies])
  | helicityDecoder => exact absurd hidentifies (by simp [Identifies])
  | fadc =>
    obtain ⟨events, hevents, rfl⟩ := map_eq_ok.mp hparse
    obtain ⟨hdecoded, hmem⟩ := mem_bankEvents_iff
      (FADC.conforms context.rocid (triggerDataOf event)) (fun _ _ _ _ _ h => (FADC.parseWord_step h).table)
      (fun _ _ _ _ => lt_of_classify) rfl (fun i => rfl) hevents hformed
    exact ⟨hdecoded, mem_map_iff hmem⟩
  | mpd =>
    obtain ⟨events, hevents, rfl⟩ := map_eq_ok.mp hparse
    obtain ⟨hdecoded, hmem⟩ := mem_bankEvents_iff
      (MPD.conforms context.rocid (triggerDataOf event)) (fun _ _ _ _ _ h => (MPD.parseWord_step h).table)
      (fun _ _ _ _ => lt_of_classify) rfl (fun i => toCInt_toUInt32 _) hevents hformed
    exact ⟨hdecoded, mem_map_iff hmem⟩
  | vftdc =>
    obtain ⟨events, hevents, rfl⟩ := map_eq_ok.mp hparse
    obtain ⟨hdecoded, hmem⟩ := mem_bankEvents_iff
      (VFTDC.conforms context.rocid (triggerDataOf event)) (fun _ _ _ _ _ h => (VFTDC.parseWord_step h).table)
      (fun _ _ _ _ => lt_of_classify) rfl (fun i => rfl) hevents hformed
    exact ⟨hdecoded, mem_map_iff hmem⟩
  | fadcScaler =>
    obtain ⟨events, hevents, rfl⟩ := map_eq_ok.mp hparse
    obtain ⟨hits, hhits⟩ := FADCScaler.parse_ok context.rocid (triggerDataOf event) dma.uintData
    obtain rfl := Except.ok.inj (hhits.symm.trans hevents)
    simp only [List.map_cons, List.map_nil, PhysicsEvent.map, List.mem_singleton] at hparse ⊢
    have hmem := mem_scaler_iff hidentifies hparse
    obtain ⟨k, container, -, hholds, -⟩ := (hmem _).mp rfl
    exact ⟨⟨k, container, hholds⟩, hmem⟩
  | tiScaler =>
    obtain ⟨events, hevents, rfl⟩ := map_eq_ok.mp hparse
    obtain ⟨hits, rfl⟩ := TIScaler.parse_ok hevents
    simp only [List.map_cons, List.map_nil, PhysicsEvent.map, List.mem_singleton] at hparse ⊢
    have hmem := mem_scaler_iff hidentifies hparse
    obtain ⟨k, container, -, hholds, -⟩ := (hmem _).mp rfl
    exact ⟨⟨k, container, hholds⟩, hmem⟩

end Bank

/-- The events of a block are kept apart and merged: different positions have different
numbers, each number is one physics event, and a physics event holds for its position what
all banks hold, and nothing else that these parsers decode. -/
structure KeepsIdentity (services : Services CommonParser) (event : EvioEvent)
    (events : List (PhysicsEvent EventHits)) : Prop where
  apart : ∀ k k', k < 256 → k' < 256 → eventNumAt event k = eventNumAt event k' → k = k'
  merged : ∀ pe ∈ events, ∀ pe' ∈ events, pe.eventNum = pe'.eventNum → pe = pe'
  decoded : ∀ inv ∈ invocations services (dataBanks event), Identifies event inv.parser →
    inv.Decoded event
  arrives : ∀ inv ∈ invocations services (dataBanks event), Identifies event inv.parser →
    ∀ k < 256, ∀ container, inv.Holds event k container →
      ∃ pe ∈ events, pe.eventNum = eventNumAt event k ∧ container ∈ pe.hitsList
  only : ∀ pe ∈ events, ∀ container ∈ pe.hitsList, Identifies event container.source →
    ∃ inv ∈ invocations services (dataBanks event), ∃ k < 256,
      inv.Holds event k container ∧ pe.eventNum = eventNumAt event k

/-- In a block of well-formed banks all parsers agree on the identity of the events. -/
theorem keepsIdentity_of_wellFormed {eventNumber : UInt64} {event : EvioEvent}
    {services services' : Services CommonParser} {events : List (PhysicsEvent EventHits)}
    (hparse : parse CommonParser.invoke eventNumber event services = .ok (events, services'))
    (hformed : ∀ inv ∈ invocations services (dataBanks event), inv.WellFormed) :
    KeepsIdentity services event events := by
  obtain ⟨published, -, rfl, hparsed, hmem⟩ := exists_published hparse
  constructor
  · intro k k' hk hk' he
    rw [eventNumAt, eventNumAt] at he
    exact toCInt_eventKey_inj (by omega) (by omega) he
  · intro pe hpe pe' hpe' hnum
    exact eq_of_mem_consolidate hpe hpe' hnum
  · intro inv hinv hidentifies
    obtain ⟨bankEvents, hbank⟩ := hparsed inv hinv
    exact (mem_identified_iff hidentifies (hformed inv hinv) hbank).1
  · intro inv hinv hidentifies k hk container hholds
    obtain ⟨bankEvents, hbank⟩ := hparsed inv hinv
    have hiff := (mem_identified_iff hidentifies (hformed inv hinv) hbank).2
    have hpe := (hiff ⟨eventNumAt event k, [container]⟩).mpr ⟨k, container, hk, hholds, rfl⟩
    have hpublished := (hmem _).mpr ⟨inv, hinv, bankEvents, hbank, hpe⟩
    obtain ⟨merged, hmerged, hnum, hhits⟩ := exists_mem_consolidate hpublished
    dsimp only at hnum hhits
    exact ⟨merged, hmerged, hnum, hhits container (List.mem_singleton.mpr rfl)⟩
  · intro pe hpe container hcontainer hidentifies
    rw [hitsList_of_mem_consolidate hpe] at hcontainer
    obtain ⟨pe', hpe', hnum, hcontainer⟩ := mem_hitsOf_iff.mp hcontainer
    obtain ⟨inv, hinv, bankEvents, hbank, hmember⟩ := (hmem pe').mp hpe'
    rw [CommonParser.source_of_parse hbank hmember hcontainer] at hidentifies
    have hiff := (mem_identified_iff hidentifies (hformed inv hinv) hbank).2
    obtain ⟨k, container', hk, hholds, rfl⟩ := (hiff pe').mp hmember
    obtain rfl := List.mem_singleton.mp hcontainer
    dsimp only at hnum
    exact ⟨inv, hinv, k, hk, hholds, hnum.symm⟩

/-- A block of one ROC with the same words in an FADC, a VFTDC and an MPD bank. -/
def threeBanksBlock : EvioEvent where
  tag := 0xFF50
  uintData := []
  children :=
    [.node 0xFF27 1 0x20 [] []
        [.node 1 0 0xA [] [5, 0, 0] [], .node 1 0 uint32DataType [] [] []],
      .node 1 0 0x10 [] []
        [.node 2 0 uint32DataType twoEventBank [] [], .node 3 0 uint32DataType twoEventBank [] [],
          .node 4 0 uint32DataType twoEventBank [] []]]

def threeBanksServices : Services CommonParser where
  filterDB := {}
  bankToModule := (BankToModuleMap.addRoute 4 3561
    (BankToModuleMap.addRoute 3 9 (BankToModuleMap.addRoute 2 250 {}).2).2).2
  moduleParsers := (CommonParser.init {}).toOption.getD {}

section OneBlock

variable {slot : UInt32} {nevents : Nat} {first last : Option UInt32} {body : List Word}

theorem entered_of_no_blockHeader {f : Framing} {ws : List Word} (hf : f.entered = true)
    (h : ∀ w ∈ ws, w.isBlockHeader = false) : (ws.foldl Framing.next f).entered = true := by
  induction ws generalizing f with
  | nil => exact hf
  | cons w ws ih =>
    refine ih ?_ fun x hx => h x (List.mem_cons_of_mem w hx)
    have hw := h w List.mem_cons_self
    cases w with
    | blockHeader _ _ => simp [Word.isBlockHeader] at hw
    | eventHeader _ => rfl
    | blockTrailer _ | triggerTime _ | data _ | other => exact hf

/-- An accepted block whose first event header follows the block header directly. -/
theorem wellFormed_block (hbody : ∀ w ∈ body, w.isBlockHeader = false)
    (haccepted : Framing.verdict {}
      (.blockHeader slot nevents :: .eventHeader first :: (body ++ [.blockTrailer last])) =
        .accepted) :
    WellFormed
      (.blockHeader slot nevents :: .eventHeader first :: (body ++ [.blockTrailer last])) where
  framed := by
    apply Closed.wellFramed _ haccepted
    intro pre slot' nevents' rest he
    rcases pre with _ | ⟨w, pre⟩
    · obtain ⟨-, rfl⟩ := List.cons.inj he
      refine ⟨.eventHeader first :: body, last, [], rfl, ?_⟩
      exact List.forall_mem_cons.mpr ⟨rfl, hbody⟩
    · -- There is no block header behind the first word.
      have hmem : Word.blockHeader slot' nevents' ∈
          .eventHeader first :: (body ++ [.blockTrailer last]) := by
        rw [(List.cons.inj he).2]
        simp
      rcases List.mem_cons.mp hmem with hheader | hmem
      · cases hheader
      · rcases List.mem_append.mp hmem with hheader | htrailer
        · exact absurd (hbody _ hheader) (by simp [Word.isBlockHeader])
        · exact absurd (List.mem_singleton.mp htrailer) (by simp)
  inEvents := by
    intro pre payload post he
    rcases pre with _ | ⟨w, _ | ⟨w', pre⟩⟩
    · simp at he
    · simp at he
    · simp only [List.cons_append, List.cons.injEq] at he
      obtain ⟨rfl, rfl, he⟩ := he
      have hpre : ∀ x ∈ pre, x.isBlockHeader = false := by
        intro x hx
        have hmem : x ∈ body ++ [.blockTrailer last] := by
          rw [he]
          exact List.mem_append_left _ hx
        rcases List.mem_append.mp hmem with hbodied | htrailer
        · exact hbody x hbodied
        · rw [List.mem_singleton.mp htrailer]
          rfl
      change (pre.foldl Framing.next _).entered = true
      exact entered_of_no_blockHeader rfl hpre

end OneBlock

theorem keepsIdentity_threeBanks : ∃ events, events.length = 2 ∧
    KeepsIdentity threeBanksServices threeBanksBlock events := by
  have hresult : (parse CommonParser.invoke 1 threeBanksBlock threeBanksServices).map
      (fun result => result.1.length) = .ok 2 := by decide +kernel
  obtain ⟨result, hparse, hlength⟩ := map_eq_ok.mp hresult
  refine ⟨result.1, hlength, keepsIdentity_of_wellFormed hparse ?_⟩
  have hinvs : invocations threeBanksServices (dataBanks threeBanksBlock) =
      [⟨.fadc, .node 2 0 uint32DataType twoEventBank [] [], ⟨1, 2, 0, uint32DataType⟩⟩,
        ⟨.vftdc, .node 3 0 uint32DataType twoEventBank [] [], ⟨1, 3, 0, uint32DataType⟩⟩,
        ⟨.mpd, .node 4 0 uint32DataType twoEventBank [] [], ⟨1, 4, 0, uint32DataType⟩⟩] := rfl
  have hfadc : classified FADC.readAs twoEventBank =
      .blockHeader 1 2 :: .eventHeader (some 1) ::
        ([.data (.hits 0 true), .eventHeader (some 1), .data (.hits 0 true)] ++
          [.blockTrailer none]) := by
    decide
  have hvftdc : classified VFTDC.readAs twoEventBank =
      .blockHeader 1 2 :: .eventHeader (some 1) ::
        ([.data (.hits 0 true), .eventHeader (some 1), .data (.hits 0 true)] ++
          [.blockTrailer none]) := by
    decide
  have hmpd : classified MPD.readAs twoEventBank =
      .blockHeader 1 2 :: .eventHeader none ::
        ([.other, .eventHeader none, .other] ++ [.blockTrailer (some 1)]) := by
    decide
  intro inv hinv
  simp only [hinvs, List.mem_cons, List.not_mem_nil, or_false] at hinv
  rcases hinv with rfl | rfl | rfl
  · change WellFormed (classified FADC.readAs twoEventBank)
    rw [hfadc]
    exact wellFormed_block (by decide) (by decide)
  · change WellFormed (classified VFTDC.readAs twoEventBank)
    rw [hvftdc]
    exact wellFormed_block (by decide) (by decide)
  · change WellFormed (classified MPD.readAs twoEventBank)
    rw [hmpd]
    exact wellFormed_block (by decide) (by decide)

end EvioEventParser

end JanaExtensions
