import JanaExtensions.BlockParsing
import JanaExtensions.CAENBank
import JanaExtensions.FADCCodec
import JanaExtensions.HelicityPublication
import JanaExtensions.MPDCodec
import JanaExtensions.ScalerFraming
import JanaExtensions.VFTDCCodec

/-! What a data bank is written from, for each module parser, and the events of the block
to which the parser delivers its hits. -/

namespace JanaExtensions

open BitFields Failing

namespace TIScaler

structure Record where
  wordsIdx : BitVec 16
  slot : BitVec 8
  nscalerwords : BitVec 8
  liveTime : UInt32
  busyTime : UInt32
  tsInput1 : UInt32
  tsInput2 : UInt32
  tsInput3 : UInt32
  tsInput4 : UInt32
  tsInput5 : UInt32
  tsInput6 : UInt32
  allTriggersBeforeBusy : UInt32
  eventNumberHigh : UInt32
  eventNumberLow : UInt32
  tsInputsBeforeBusy : UInt32
  following : List UInt32

def Record.header (r : Record) : UInt32 :=
  word [⟨16, r.wordsIdx⟩, ⟨8, r.slot⟩, ⟨8, r.nscalerwords⟩]

def Record.encode (r : Record) : List UInt32 :=
  [r.header, r.liveTime, r.busyTime, r.tsInput1, r.tsInput2, r.tsInput3, r.tsInput4, r.tsInput5,
    r.tsInput6, r.allTriggersBeforeBusy, r.eventNumberHigh, r.eventNumberLow,
    r.tsInputsBeforeBusy] ++ r.following

def Record.hit (rocid : UInt32) (r : Record) : TIScalerHit :=
  { rocid
    wordsIdx := UInt32.ofNat r.wordsIdx.toNat
    slot := UInt32.ofNat r.slot.toNat
    nscalerwords := UInt32.ofNat r.nscalerwords.toNat
    liveTime := r.liveTime
    busyTime := r.busyTime
    tsInput1 := r.tsInput1
    tsInput2 := r.tsInput2
    tsInput3 := r.tsInput3
    tsInput4 := r.tsInput4
    tsInput5 := r.tsInput5
    tsInput6 := r.tsInput6
    allTriggersBeforeBusy := r.allTriggersBeforeBusy
    tsInputsBeforeBusy := r.tsInputsBeforeBusy
    tiEventNumber :=
      ((r.eventNumberHigh.toUInt64 <<< 16) ||| r.eventNumberLow.toUInt64).toUInt32 }

theorem parse_record (rocid : UInt32) (triggerData : TriggerData) (r : Record) :
    parse rocid triggerData r.encode =
      .ok [⟨toCInt triggerData.lastEventNumber, [⟨[r.hit rocid]⟩]⟩] := by
  have hfield {high low : Nat} {x : UInt32} (hwidth : high - low + 1 < 32) (hle : low ≤ high)
      (ha : aligned (high - low + 1) low
        [⟨16, r.wordsIdx⟩, ⟨8, r.slot⟩, ⟨8, r.nscalerwords⟩] = true)
      (hx : UInt32.ofNat (fieldValue low
        [⟨16, r.wordsIdx⟩, ⟨8, r.slot⟩, ⟨8, r.nscalerwords⟩]) = x) :
      getBitsInRange r.header high low = x := by
    rw [Record.header, getBitsInRange_word (by simp) hwidth hle ha, hx]
  have hidx : getBitsInRange r.header 31 16 = UInt32.ofNat r.wordsIdx.toNat :=
    hfield (by decide) (by decide) (by simp [aligned]) (by simp [fieldValue])
  have hslot : getBitsInRange r.header 15 8 = UInt32.ofNat r.slot.toNat :=
    hfield (by decide) (by decide) (by simp [aligned]) (by simp [fieldValue])
  have hn : getBitsInRange r.header 7 0 = UInt32.ofNat r.nscalerwords.toNat :=
    hfield (by decide) (by decide) (by simp [aligned]) (by simp [fieldValue])
  simp only [parse, Record.encode, List.cons_append, hidx, hslot, hn, toCInt_toUInt32]
  rfl

end TIScaler

/-- What a data bank holds. A bank that is sent to no parser holds any words. -/
inductive BankContent where
  | caen1190 (events : List CAEN1190.Event)
  | fadc (bank : FADC.Bank)
  | vftdc (bank : VFTDC.Bank) (hslots : ∀ b ∈ bank.blocks, b.SlotsMatch)
  | mpd (blocks : List MPD.Block)
  | helicityDecoder (block : HelicityDecoder.Block) (hlast : block.fillers = [])
  | fadcScaler (records : List FADCScaler.Record)
      (hfull : ∀ r ∈ records.dropLast, r.counts.length = 16)
  | tiScaler (record : TIScaler.Record)
  | other (dataWords : List UInt32)

namespace BankContent

def encode : BankContent → List UInt32
  | caen1190 events => events.flatMap CAEN1190.Event.encode
  | fadc bank => bank.encode
  | vftdc bank _ => bank.encode
  | mpd blocks => blocks.flatMap MPD.Block.encode
  | helicityDecoder block _ => block.encode
  | fadcScaler records _ => records.flatMap FADCScaler.Record.encode
  | tiScaler record => record.encode
  | other dataWords => dataWords

def parser : BankContent → Option CommonParser
  | caen1190 _ => some .caen1190
  | fadc _ => some .fadc
  | vftdc _ _ => some .vftdc
  | mpd _ => some .mpd
  | helicityDecoder _ _ => some .helicityDecoder
  | fadcScaler _ _ => some .fadcScaler
  | tiScaler _ => some .tiScaler
  | other _ => none

/-- The hits of the `k`-th event in a block of `n` events. A scaler bank is for the last one, and
the parser puts all hits of a CAEN1190 bank into the first one. -/
def hits (rocid : UInt32) (first : UInt64) (n k : Nat) : BankContent → Option EventHits
  | caen1190 events =>
    if k = 0 ∧ events ≠ [] then
      some (.caen1190 ⟨(CAEN1190.eventReader rocid).emitted events {}⟩)
    else none
  | fadc bank => if k < bank.maxEvents then some (.fadc (bank.hits rocid k)) else none
  | vftdc bank _ => if k < bank.maxEvents then some (.vftdc (bank.hits rocid k)) else none
  | mpd blocks =>
    if k < MPD.bankMaxEvents blocks then some (.mpd (MPD.bankHits rocid first blocks k)) else none
  | helicityDecoder block _ =>
    block.events[k]?.map fun e => .helicityDecoder (e.hits rocid block)
  | fadcScaler records _ =>
    if k = n - 1 then some (.fadcScaler ⟨records.map (FADCScaler.Record.hit rocid)⟩) else none
  | tiScaler record => if k = n - 1 then some (.tiScaler ⟨[record.hit rocid]⟩) else none
  | other _ => none

end BankContent

/-- The physics events are those of the positions with hits, one for each of them. -/
structure Delivers (first : UInt64) (hits : Nat → Option EventHits)
    (events : List (PhysicsEvent EventHits)) : Prop where
  perm : ∃ n ≤ 2 ^ 32, (∀ k, n ≤ k → hits k = none) ∧
    events.Perm ((List.range n).filterMap fun k =>
      (hits k).map fun container => ⟨toCInt (eventKey first k), [container]⟩)

section Delivers

variable {first : UInt64}

theorem delivers_positions {hits : Nat → Option EventHits} {n : Nat} (hn : n ≤ 2 ^ 32)
    {container : Nat → EventHits} {events : List (PhysicsEvent EventHits)}
    (hhits : ∀ k, hits k = if k < n then some (container k) else none)
    (h : events.Perm ((List.range n).map fun k =>
      ⟨toCInt (eventKey first k), [container k]⟩)) : Delivers first hits events := by
  refine ⟨n, hn, fun k hk => by rw [hhits, if_neg (by omega)], h.trans (.of_eq ?_)⟩
  rw [← List.filterMap_eq_map]
  refine List.filterMap_congr fun k hk => ?_
  rw [hhits, if_pos (List.mem_range.mp hk)]
  rfl

theorem delivers_single {hits : Nat → Option EventHits} {k : Nat} (hk : k < 2 ^ 32)
    {container : EventHits} (hhits : ∀ j, hits j = if j = k then some container else none) :
    Delivers first hits [⟨toCInt (eventKey first k), [container]⟩] := by
  refine ⟨k + 1, hk, fun j hj => by rw [hhits, if_neg (by omega)], .of_eq ?_⟩
  have hnone : (List.range k).filterMap (fun j => (hits j).map fun container =>
      (⟨toCInt (eventKey first j), [container]⟩ : PhysicsEvent EventHits)) = [] := by
    refine List.filterMap_eq_nil_iff.mpr fun j hj => ?_
    have hne : j ≠ k := (List.mem_range.mp hj).ne
    rw [hhits, if_neg hne]
    rfl
  rw [List.range_succ, List.filterMap_append, hnone, List.nil_append, List.filterMap_cons, hhits,
    if_pos rfl]
  rfl

theorem hitsOf_positions (first : UInt64) (hits : Nat → Option EventHits) {n k : Nat} (hn : n ≤ 2 ^ 32)
    (hk : k < 2 ^ 32) :
    hitsOf ((List.range n).filterMap fun j => (hits j).map fun container =>
      (⟨toCInt (eventKey first j), [container]⟩ : PhysicsEvent EventHits))
        (toCInt (eventKey first k)) = if k < n then (hits k).toList else [] := by
  induction n with
  | zero => rfl
  | succ n ih =>
    have hrest := ih (by omega)
    rw [List.range_succ, List.filterMap_append, hitsOf_append, hrest]
    by_cases hkn : k = n
    · subst hkn
      cases hhits : hits k <;> simp [hitsOf, hhits]
    · have hne : toCInt (eventKey first n) ≠ toCInt (eventKey first k) :=
        fun h => hkn (toCInt_eventKey_inj hk (by omega) h.symm)
      have hlt : k < n + 1 ↔ k < n := by omega
      cases hhits : hits n <;> simp [hitsOf, hhits, hne, hlt]

theorem Delivers.hitsOf_eq {hits : Nat → Option EventHits} {events : List (PhysicsEvent EventHits)}
    (h : Delivers first hits events) {k : Nat} (hk : k < 2 ^ 32) :
    hitsOf events (toCInt (eventKey first k)) = (hits k).toList := by
  obtain ⟨n, hn, hnone, hperm⟩ := h.perm
  have hpositions := hitsOf_positions first hits hn hk
  have hall : (if k < n then (hits k).toList else []) = (hits k).toList := by
    by_cases hkn : k < n
    · rw [if_pos hkn]
    · rw [if_neg hkn, hnone k (by omega)]
      rfl
  have hhits := (hperm.filter fun pe => pe.eventNum = toCInt (eventKey first k)).flatMap_right
    PhysicsEvent.hitsList
  change (hitsOf events _).Perm (hitsOf _ _) at hhits
  rw [hpositions, hall] at hhits
  cases hcontainer : hits k with
  | none =>
    rw [hcontainer] at hhits
    exact hhits.eq_nil
  | some container =>
    rw [hcontainer] at hhits
    exact List.perm_singleton.mp hhits

theorem Delivers.lt {hits : Nat → Option EventHits} {events : List (PhysicsEvent EventHits)}
    (h : Delivers first hits events) {k : Nat} (hk : hits k ≠ none) : k < 2 ^ 32 := by
  obtain ⟨n, hn, hnone, -⟩ := h.perm
  by_contra hge
  exact hk (hnone k (by omega))

theorem Delivers.mem_eventNum_iff {hits : Nat → Option EventHits}
    {events : List (PhysicsEvent EventHits)} (h : Delivers first hits events) {num : Int} :
    num ∈ events.map PhysicsEvent.eventNum ↔
      ∃ k, hits k ≠ none ∧ num = toCInt (eventKey first k) := by
  obtain ⟨n, -, hnone, hperm⟩ := h.perm
  rw [(hperm.map PhysicsEvent.eventNum).mem_iff, List.mem_map]
  constructor
  · intro hh
    obtain ⟨pe, hpe, hnum⟩ := hh
    obtain ⟨k, -, hcontainer⟩ := List.mem_filterMap.mp hpe
    obtain ⟨container, hhits, rfl⟩ := Option.map_eq_some_iff.mp hcontainer
    exact ⟨k, by simp [hhits], by rw [← hnum]⟩
  · intro hh
    obtain ⟨k, hne, hnum⟩ := hh
    obtain ⟨container, hhits⟩ := Option.ne_none_iff_exists'.mp hne
    refine ⟨⟨toCInt (eventKey first k), [container]⟩, ?_, by rw [hnum]⟩
    refine List.mem_filterMap.mpr ⟨k, List.mem_range.mpr ?_, by rw [hhits]; rfl⟩
    by_contra hlt
    exact hne (hnone k (by omega))

end Delivers

section Contents

variable (rocid : UInt32) (triggerData : TriggerData)

theorem map_parse_ok {H : Type} {f : H → EventHits} {result : Except Fault (List (PhysicsEvent H))}
    {events : List (PhysicsEvent H)} (h : result = .ok events) :
    result.map (List.map (PhysicsEvent.map f)) = .ok (events.map (PhysicsEvent.map f)) := by
  rw [h]
  rfl

theorem map_parse_single {H : Type} {f : H → EventHits}
    {result : Except Fault (List (PhysicsEvent H))} {num : Int} {container : H}
    (h : result = .ok [⟨num, [container]⟩]) :
    result.map (List.map (PhysicsEvent.map f)) = .ok [⟨num, [f container]⟩] := map_parse_ok h

theorem map_zipIdx_eq {α β : Type} (g : Nat → α → β) (xs : List α) :
    xs.zipIdx.map (fun x => g x.2 x.1) =
      (List.range xs.length).filterMap fun k => xs[k]?.map (g k) := by
  induction xs using List.reverseRecOn with
  | nil => rfl
  | append_singleton xs x ih =>
    rw [List.zipIdx_append, List.map_append, ih, List.length_append, List.length_singleton,
      List.range_succ, List.filterMap_append]
    congr 1
    · refine List.filterMap_congr fun k hk => ?_
      rw [List.getElem?_append_left (List.mem_range.mp hk)]
    · simp

theorem map_positions {H : Type} (f : H → EventHits) (first : UInt64) {n : Nat}
    {container : Nat → H} {events : List (PhysicsEvent H)}
    (h : events.Perm ((List.range n).map fun k =>
      ⟨toCInt (eventKey first k), [container k]⟩)) :
    (events.map (PhysicsEvent.map f)).Perm ((List.range n).map fun k =>
      ⟨toCInt (eventKey first k), [f (container k)]⟩) := by
  have hmap := h.map (PhysicsEvent.map f)
  simpa only [List.map_map, Function.comp_def, PhysicsEvent.map, List.map_cons, List.map_nil]
    using hmap

theorem maxEvents_le {B : Type} {blocks : List B} {size : B → Nat} {m : Nat}
    (h : ∀ b ∈ blocks, size b < m) : (blocks.map size).foldr max 0 ≤ m := by
  induction blocks with
  | nil => exact Nat.zero_le m
  | cons b blocks ih =>
    obtain ⟨hb, hblocks⟩ := List.forall_mem_cons.mp h
    exact Nat.max_le.mpr ⟨hb.le, ih hblocks⟩

theorem FADC.maxEvents_eq (bank : FADC.Bank) :
    maxEvents (bank.blocks.map fun b => b.events.map (FADC.Event.hits rocid b)) =
      bank.maxEvents := by
  simp [maxEvents, FADC.Bank.maxEvents, Function.comp_def]

theorem FADC.hitsAt_eq (bank : FADC.Bank) (k : Nat) :
    hitsAt (bank.blocks.map fun b => b.events.map (FADC.Event.hits rocid b)) k =
      bank.hits rocid k := by
  simp [hitsAt, FADC.Bank.hits, List.filterMap_map]

theorem VFTDC.maxEvents_eq (bank : VFTDC.Bank) :
    maxEvents (bank.blocks.map (VFTDC.Block.hits rocid)) = bank.maxEvents := by
  simp [maxEvents, VFTDC.Bank.maxEvents, VFTDC.Block.hits, Function.comp_def]

theorem VFTDC.hitsAt_eq (bank : VFTDC.Bank) (k : Nat) :
    hitsAt (bank.blocks.map (VFTDC.Block.hits rocid)) k = bank.hits rocid k := by
  simp [hitsAt, VFTDC.Bank.hits, VFTDC.Block.hits, List.filterMap_map, Function.comp_def]

theorem MPD.maxEvents_eq (first : UInt64) (blocks : List MPD.Block) :
    maxEvents (blocks.map (MPD.Block.hits rocid first)) = MPD.bankMaxEvents blocks := by
  simp [maxEvents, MPD.bankMaxEvents, MPD.Block.hits, Function.comp_def]

theorem MPD.hitsAt_eq (first : UInt64) (blocks : List MPD.Block) (k : Nat) :
    hitsAt (blocks.map (MPD.Block.hits rocid first)) k = MPD.bankHits rocid first blocks k := by
  simp [hitsAt, MPD.bankHits, MPD.Block.hits, List.filterMap_map, Function.comp_def]

theorem FADC.parse_bank (bank : FADC.Bank) : ∃ events,
    FADC.parse rocid triggerData bank.encode = .ok events ∧
      events.Perm ((List.range bank.maxEvents).map fun k =>
        ⟨toCInt (eventKey triggerData.firstEventNumber k), [bank.hits rocid k]⟩) := by
  have hlen : ∀ b ∈ bank.blocks, (b.events.map (FADC.Event.hits rocid b)).length < 2 ^ 64 := by
    intro b _
    have hb := b.hlen
    rw [List.length_map]
    omega
  obtain ⟨s, hrun, hperm⟩ := physicsEvents_bank ({} : FADC.State)
    (FADC.skips_fillers rocid triggerData bank.fillers)
    (fun b _ => FADC.reads_block rocid triggerData b) rfl hlen
  refine ⟨physicsEvents s.eventHitsMap, ?_, hperm.trans (.of_eq ?_)⟩
  · rw [FADC.parse, FADC.Bank.encode, hrun]
    rfl
  · simp only [FADC.maxEvents_eq, FADC.hitsAt_eq]

theorem VFTDC.parse_bank {bank : VFTDC.Bank} (hslots : ∀ b ∈ bank.blocks, b.SlotsMatch) :
    ∃ events, VFTDC.parse rocid triggerData bank.encode = .ok events ∧
      events.Perm ((List.range bank.maxEvents).map fun k =>
        ⟨toCInt (eventKey triggerData.firstEventNumber k), [bank.hits rocid k]⟩) := by
  have hlen : ∀ b ∈ bank.blocks, (VFTDC.Block.hits rocid b).length < 2 ^ 64 := by
    intro b _
    have hb := b.hlen
    rw [VFTDC.Block.hits, List.length_map]
    omega
  obtain ⟨s, hrun, hperm⟩ := physicsEvents_bank ({} : VFTDC.State)
    (VFTDC.skips_fillers rocid triggerData bank.fillers)
    (fun b hb => VFTDC.reads_block rocid triggerData (hslots b hb)) rfl hlen
  refine ⟨physicsEvents s.eventHitsMap, ?_, hperm.trans (.of_eq ?_)⟩
  · rw [VFTDC.parse, VFTDC.Bank.encode, hrun]
    rfl
  · simp only [VFTDC.maxEvents_eq, VFTDC.hitsAt_eq]

theorem MPD.parse_bank (blocks : List MPD.Block) : ∃ events,
    MPD.parse rocid triggerData (blocks.flatMap MPD.Block.encode) = .ok events ∧
      events.Perm ((List.range (MPD.bankMaxEvents blocks)).map fun k =>
        ⟨toCInt (eventKey triggerData.firstEventNumber k),
          [MPD.bankHits rocid triggerData.firstEventNumber blocks k]⟩) := by
  let first := triggerData.firstEventNumber
  have hmax := MPD.maxEvents_eq rocid first blocks
  have hbound : MPD.bankMaxEvents blocks ≤ 256 := maxEvents_le fun b _ => b.hlen
  have hskips : WordLoop.Skips (MPD.parseWord rocid triggerData) [] := fun s =>
    WordLoop.ReadsBefore.nil s
  obtain ⟨s, hrun, htable⟩ := run_bank ({} : MPD.State) hskips
    (fun b _ => MPD.reads_block rocid triggerData b) rfl
  refine ⟨physicsEvents s.eventHitsMap, ?_, ?_⟩
  · rw [List.nil_append] at hrun
    rw [MPD.parse, hrun]
    rfl
  · have hinj : ∀ k < maxEvents (blocks.map (MPD.Block.hits rocid first)),
        ∀ k' < maxEvents (blocks.map (MPD.Block.hits rocid first)),
        (eventKey first k).toUInt32.toUInt64 = (eventKey first k').toUInt32.toUInt64 → k = k' := by
      intro k hk k' hk'
      rw [hmax] at hk hk'
      exact toUInt32_eventKey_inj first (by omega) (by omega)
    have hperm := physicsEvents_keyedHits hinj
    simp only [hmax, MPD.hitsAt_eq, toCInt_toUInt32] at hperm
    rw [htable]
    exact hperm

/-- A block that the bank ends with is published event by event. -/
theorem HelicityDecoder.parse_block {block : HelicityDecoder.Block} (hlast : block.fillers = []) :
    HelicityDecoder.parse rocid triggerData block.encode =
      .ok ((List.range block.events.length).filterMap fun k =>
        block.events[k]?.map fun e =>
          ⟨toCInt (eventKey triggerData.firstEventNumber k), [e.hits rocid block]⟩) := by
  have hparse := HelicityDecoder.parse_encode_eq rocid triggerData [] block
  have hwords : ([] ++ [block]).flatMap HelicityDecoder.Block.encode = block.encode := by simp
  rw [hwords] at hparse
  have hall : LatePublication.publications (decide (block.fillers = [])) none []
      (block.hits rocid) = (block.hits rocid).zipIdx := by
    simp [LatePublication.publications, hlast]
  rw [hparse, List.map_nil, hall, HelicityDecoder.Block.hits, List.zipIdx_map, List.map_map]
  exact congrArg Except.ok (map_zipIdx_eq (fun k (e : HelicityDecoder.Event) =>
    (⟨toCInt (eventKey triggerData.firstEventNumber k), [e.hits rocid block]⟩ :
      PhysicsEvent EventHitsHelicityDecoder)) block.events)

theorem eventKey_zero (first : UInt64) : eventKey first 0 = first := UInt64.add_zero first

theorem lastEventNumber_eq_eventKey (first : UInt64) {n : Nat} (hn : 0 < n) :
    first + UInt64.ofNat n - 1 = eventKey first (n - 1) := by
  obtain ⟨m, rfl⟩ := Nat.exists_eq_succ_of_ne_zero hn.ne'
  rw [eventKey, Nat.succ_sub_one, Nat.succ_eq_add_one, UInt64.ofNat_add, ← UInt64.add_assoc]
  exact UInt64.add_sub_cancel _ _

theorem BankContent.delivers {content : BankContent} {parser : CommonParser}
    (hparser : content.parser = some parser) (rocid : UInt32) (first : UInt64) {n : Nat}
    (hn : 0 < n) (hbound : n ≤ 2 ^ 32) :
    ∃ events, parser.parse rocid ⟨first, first + UInt64.ofNat n - 1⟩ content.encode = .ok events ∧
      Delivers first (fun k => content.hits rocid first n k) events := by
  rw [lastEventNumber_eq_eventKey first hn]
  cases content with
  | caen1190 caenEvents =>
    obtain rfl := Option.some.inj hparser
    have hparse := CAEN1190.parse_bank rocid ⟨first, eventKey first (n - 1)⟩ caenEvents
    by_cases hempty : caenEvents = []
    · rw [if_pos hempty] at hparse
      refine ⟨_, map_parse_ok hparse, 0, Nat.zero_le _, fun k _ => ?_, .of_eq rfl⟩
      exact if_neg fun h => h.2 hempty
    · rw [if_neg hempty] at hparse
      have hdelivers : Delivers first
          (fun k => (BankContent.caen1190 caenEvents).hits rocid first n k)
          [⟨toCInt (eventKey first 0),
            [.caen1190 ⟨(CAEN1190.eventReader rocid).emitted caenEvents {}⟩]⟩] :=
        delivers_single (by omega) fun k => by simp [BankContent.hits, hempty]
      rw [eventKey_zero] at hdelivers
      exact ⟨_, map_parse_single hparse, hdelivers⟩
  | fadc bank =>
    obtain rfl := Option.some.inj hparser
    obtain ⟨events, hparse, hperm⟩ := FADC.parse_bank rocid ⟨first, _⟩ bank
    have hmax : bank.maxEvents ≤ 256 := maxEvents_le fun b _ => b.hlen
    exact ⟨_, map_parse_ok hparse,
      delivers_positions (by omega) (fun _ => rfl) (map_positions .fadc first hperm)⟩
  | vftdc bank hslots =>
    obtain rfl := Option.some.inj hparser
    obtain ⟨events, hparse, hperm⟩ := VFTDC.parse_bank rocid ⟨first, _⟩ hslots
    have hmax : bank.maxEvents ≤ 256 := maxEvents_le fun b _ => b.hlen
    exact ⟨_, map_parse_ok hparse,
      delivers_positions (by omega) (fun _ => rfl) (map_positions .vftdc first hperm)⟩
  | mpd blocks =>
    obtain rfl := Option.some.inj hparser
    obtain ⟨events, hparse, hperm⟩ := MPD.parse_bank rocid ⟨first, _⟩ blocks
    have hmax : MPD.bankMaxEvents blocks ≤ 256 := maxEvents_le fun b _ => b.hlen
    exact ⟨_, map_parse_ok hparse,
      delivers_positions (by omega) (fun _ => rfl) (map_positions .mpd first hperm)⟩
  | helicityDecoder block hfillers =>
    obtain rfl := Option.some.inj hparser
    have hlen := block.hlen
    refine ⟨_, map_parse_ok (HelicityDecoder.parse_block rocid ⟨first, _⟩ hfillers),
      ⟨block.events.length, by omega, fun k hk => ?_, .of_eq ?_⟩⟩
    · simp [BankContent.hits, hk]
    · rw [List.map_filterMap]
      refine List.filterMap_congr fun k _ => ?_
      simp [BankContent.hits, PhysicsEvent.map, Function.comp_def]
  | fadcScaler records hfull =>
    obtain rfl := Option.some.inj hparser
    have hscalers := (FADCScaler.scalersOf_encode_iff rocid records).mpr hfull
    have hparse := FADCScaler.parse_eq rocid ⟨first, eventKey first (n - 1)⟩
      (records.flatMap FADCScaler.Record.encode)
    rw [hscalers] at hparse
    exact ⟨_, map_parse_single hparse, delivers_single (by omega) fun _ => rfl⟩
  | tiScaler record =>
    obtain rfl := Option.some.inj hparser
    have hparse := TIScaler.parse_record rocid ⟨first, eventKey first (n - 1)⟩ record
    exact ⟨_, map_parse_single hparse, delivers_single (by omega) fun _ => rfl⟩
  | other dataWords => cases hparser

end Contents

end JanaExtensions
