import JanaExtensions.BlockCodec
import JanaExtensions.WordSteps

/-! The word layout of VFTDC banks. Parsing a bank in this layout recovers its hits, and an
event header with another slot than its block is rejected. -/

namespace JanaExtensions.VFTDC

open BitFields Failing WordLoop

structure Filler where
  dataType : BitVec 4
  ignored : dataType ∈ [4, 5, 6, 8, 9, 10, 11, 12, 13, 14, 15]
  payload : BitVec 27

def Filler.encode (f : Filler) : UInt32 := definingWord f.dataType [⟨27, f.payload⟩]

/-- What may stand between the trigger time of an event and the next event header. -/
inductive Record where
  | data (groupNum : BitVec 3) (channelNum : BitVec 5) (edgeType : BitVec 1)
      (coarseTime : BitVec 10) (twoNs : BitVec 1) (fineTime : BitVec 7)
  | filler (f : Filler)

def Record.encode : Record → UInt32
  | .data groupNum channelNum edgeType coarseTime twoNs fineTime =>
    definingWord 7 [⟨3, groupNum⟩, ⟨5, channelNum⟩, ⟨1, edgeType⟩, ⟨10, coarseTime⟩, ⟨1, twoNs⟩,
      ⟨7, fineTime⟩]
  | .filler f => f.encode

/-- An event header carries a slot of its own. -/
structure Event where
  slot : BitVec 5
  headerBits : BitVec 22
  headerFillers : List Filler
  timestampLow : BitVec 24
  timestampHigh : BitVec 24
  records : List Record

/-- A complete block. Fillers may also follow its header and its trailer. -/
structure Block where
  slot : BitVec 5
  boardId : BitVec 4
  headerBits : BitVec 10
  headerFillers : List Filler
  events : List Event
  hlen : events.length < 256
  trailerBits : BitVec 27
  trailerFillers : List Filler

def Event.headerWord (e : Event) : UInt32 := definingWord 2 [⟨5, e.slot⟩, ⟨22, e.headerBits⟩]

def Event.timeWords (e : Event) : List UInt32 :=
  [definingWord 3 [⟨3, 0⟩, ⟨24, e.timestampLow⟩], word [⟨8, 0⟩, ⟨24, e.timestampHigh⟩]]

def Event.encode (e : Event) : List UInt32 :=
  e.headerWord :: (e.headerFillers.map Filler.encode ++
    (e.timeWords ++ e.records.map Record.encode))

def Block.headerWord (b : Block) : UInt32 :=
  definingWord 0 [⟨5, b.slot⟩, ⟨4, b.boardId⟩, ⟨10, b.headerBits⟩,
    ⟨8, BitVec.ofNat 8 b.events.length⟩]

def Block.headerWords (b : Block) : List UInt32 :=
  b.headerWord :: b.headerFillers.map Filler.encode

def Block.trailerWord (b : Block) : UInt32 := definingWord 1 [⟨27, b.trailerBits⟩]

def Block.trailerWords (b : Block) : List UInt32 :=
  b.trailerWord :: b.trailerFillers.map Filler.encode

def Block.encode (b : Block) : List UInt32 :=
  b.headerWords ++ (b.events.flatMap Event.encode ++ b.trailerWords)

structure Bank where
  fillers : List Filler
  blocks : List Block

def Bank.encode (bank : Bank) : List UInt32 :=
  bank.fillers.map Filler.encode ++ bank.blocks.flatMap Block.encode

/-- The time that the parser makes of the two fields. -/
def Event.timestamp (e : Event) : UInt64 :=
  timestampOf (UInt32.ofNat e.timestampLow.toNat, UInt32.ofNat e.timestampHigh.toNat)

def Record.hits (rocid slot boardId : UInt32) (timestamp : UInt64) : Record → EventHitsVFTDC
  | .data groupNum channelNum edgeType coarseTime twoNs fineTime =>
    ⟨[{ rocid, slot, boardId, timestamp
        groupNum := UInt32.ofNat groupNum.toNat
        channelNum := UInt32.ofNat channelNum.toNat
        edgeType := UInt32.ofNat edgeType.toNat
        coarseTime := UInt32.ofNat coarseTime.toNat
        fineTime := UInt32.ofNat fineTime.toNat
        twoNs := UInt32.ofNat twoNs.toNat }]⟩
  | .filler _ => 0

def Event.hits (rocid : UInt32) (b : Block) (e : Event) : EventHitsVFTDC :=
  (e.records.map (Record.hits rocid (UInt32.ofNat b.slot.toNat) (UInt32.ofNat b.boardId.toNat)
    e.timestamp)).sum

def Block.hits (rocid : UInt32) (b : Block) : List EventHitsVFTDC :=
  b.events.map (Event.hits rocid b)

/-- The hits of the `k`-th events of all blocks, in bank order. -/
def Bank.hits (rocid : UInt32) (bank : Bank) (k : Nat) : EventHitsVFTDC :=
  (bank.blocks.filterMap fun b => b.events[k]?.map (Event.hits rocid b)).sum

def Bank.maxEvents (bank : Bank) : Nat :=
  (bank.blocks.map fun b => b.events.length).foldr max 0

def Block.SlotsMatch (b : Block) : Prop := ∀ e ∈ b.events, e.slot = b.slot

instance (b : Block) : Decidable b.SlotsMatch := List.decidableBAll ..

instance : HasHitsTable State EventHitsVFTDC where
  table s := s.toEventHitsTable
  setTable t s := { s with toEventHitsTable := t }
  table_setTable _ _ := rfl
  setTable_setTable _ _ _ := rfl
  setTable_table _ := rfl

section Reads

variable (rocid : UInt32) (triggerData : TriggerData)

theorem skips_filler (f : Filler) : Skips (parseWord rocid triggerData) [f.encode] := by
  intro s
  apply ReadsBefore.of_body
  intro post _
  obtain ⟨dataType, ignored, payload⟩ := f
  rw [Filler.encode, parseWord, dispatch_definingWord _ _ (by simp)]
  simp only [List.mem_cons, List.not_mem_nil, or_false] at ignored
  rcases ignored with rfl | rfl | rfl | rfl | rfl | rfl | rfl | rfl | rfl | rfl | rfl <;> rfl

theorem skips_fillers (fillers : List Filler) :
    Skips (parseWord rocid triggerData) (fillers.map Filler.encode) :=
  skips_map (skips_filler rocid triggerData) fillers

theorem reads_record (r : Record) {s : State} (hs : s.InEvent) :
    ReadsBefore (parseWord rocid triggerData) (fun _ => True) [r.encode] s
      (withHits (r.hits rocid s.blockSlot s.blockBoardId s.eventTimestamp) s) := by
  cases r with
  | data groupNum channelNum edgeType coarseTime twoNs fineTime =>
    apply ReadsBefore.of_body
    intro post _
    rw [Record.encode, parseWord, dispatch_definingWord _ _ (by simp)]
    change dataWord _ _ _ = _
    simp [dataWord, dataHit, hs.requireBlock, getBitsInRange_definingWord, aligned, fieldValue,
      EventHitsTable.addHits_of_container hs.2, Record.hits, withHits,
      HasHitsTable.table, HasHitsTable.setTable]
  | filler f =>
    rw [Record.hits, withHits_zero (by exact hs.2)]
    exact skips_filler rocid triggerData f s

theorem reads_records (records : List Record) {s : State} (hs : s.InEvent) :
    ReadsBefore (parseWord rocid triggerData) (fun _ => True) (records.map Record.encode) s
      (withHits ((records.map
        (Record.hits rocid s.blockSlot s.blockBoardId s.eventTimestamp)).sum) s) := by
  rw [List.map_eq_flatMap]
  refine JanaExtensions.reads_records (I := fun t => t.InEvent ∧ t.blockSlot = s.blockSlot ∧
    t.blockBoardId = s.blockBoardId ∧ t.eventTimestamp = s.eventTimestamp) ?_ ?_
    (fun t ht => ht.1.2) (fun _ _ _ => trivial) records ⟨hs, rfl, rfl, rfl⟩
  · intro r t ht
    obtain ⟨hopen, hslot, hboard, htime⟩ := ht
    rw [← hslot, ← hboard, ← htime]
    exact reads_record rocid triggerData r hopen
  · exact fun t hits ht => ⟨⟨ht.1.1, EventHitsTable.withHits_hasContainer hits _⟩, ht.2⟩

/-- The states in which the block is open. -/
def Block.Ready (b : Block) (s : State) : Prop :=
  s.blockSlot = UInt32.ofNat b.slot.toNat ∧ s.blockBoardId = UInt32.ofNat b.boardId.toNat

theorem eventHeader_ok {b : Block} {e : Event} (hslot : e.slot = b.slot) {s : State}
    (hs : b.Ready s) (hn : 0 < s.blockNevents) :
    eventHeader triggerData e.headerWord s = .ok { s with
      toBlockState := ({ s.toBlockState with blockNevents := s.blockNevents - 1 } :
        BlockState EventHitsVFTDC).selectEvent (triggerData.firstEventNumber + s.eventIndex) } := by
  simp [eventHeader, Event.headerWord, BlockFrame.countEvent_of_pos hn,
    getBitsInRange_definingWord, aligned, fieldValue, hs.1, hslot]

theorem eventHeader_throws {b : Block} {e : Event} (hslot : e.slot ≠ b.slot) {s : State}
    (hs : b.Ready s) (hn : 0 < s.blockNevents) :
    ∃ message, eventHeader triggerData e.headerWord s = .error (.jexception message) := by
  have hne : UInt32.ofNat e.slot.toNat ≠ UInt32.ofNat b.slot.toNat := by
    intro heq
    have htoNat := congrArg UInt32.toNat heq
    have he := e.slot.isLt
    have hb := b.slot.isLt
    rw [UInt32.toNat_ofNat_of_lt' (by simp only [UInt32.size]; omega),
      UInt32.toNat_ofNat_of_lt' (by simp only [UInt32.size]; omega)] at htoNat
    exact hslot (BitVec.eq_of_toNat_eq htoNat)
  refine ⟨name ++ "::parse: Invalid data format — event slot mismatch with block slot", ?_⟩
  simp [eventHeader, Event.headerWord, BlockFrame.countEvent_of_pos hn,
    getBitsInRange_definingWord, aligned, fieldValue, hs.1, hne]

theorem parseWord_eventHeader (e : Event) (following : List UInt32) (s : State) :
    parseWord rocid triggerData e.headerWord following s =
      eventHeader triggerData e.headerWord s >>= fun s => .ok (0, s) := by
  rw [Event.headerWord, parseWord, dispatch_definingWord _ _ (by simp)]
  rfl

theorem reads_timeWords (e : Event) {s : State} (hn : 0 ≤ s.blockNevents) :
    ReadsBefore (parseWord rocid triggerData) (fun _ => True) e.timeWords s
      { s with eventTimestamp := e.timestamp } := by
  apply ReadsBefore.of_body
  intro post _
  rw [parseWord, dispatch_definingWord _ _ (by simp)]
  change triggerTime (definingWord 3 _) (_ :: post) _ = _
  rw [triggerTime, BlockFrame.requireBlock_of_nonneg hn]
  simp [getBitsInRange_definingWord, getBitsInRange_word, aligned, fieldValue, Event.timestamp,
    timestampOf]

theorem reads_event {b : Block} {e : Event} (hslot : e.slot = b.slot) :
    ReadsEvent (parseWord rocid triggerData) State.toBlockState
      (triggerData.firstEventNumber + ·) (fun _ => True) b.Ready e.encode
      (fun _ => e.hits rocid b) := by
  intro s hs hn
  have hheader : ReadsBefore (parseWord rocid triggerData) (fun _ => True) [e.headerWord] s
      { s with
        toBlockState := ({ s.toBlockState with blockNevents := s.blockNevents - 1 } :
          BlockState EventHitsVFTDC).selectEvent (triggerData.firstEventNumber + s.eventIndex) } := by
    apply ReadsBefore.of_body
    intro post _
    rw [parseWord_eventHeader, eventHeader_ok triggerData hslot hs hn]
    rfl
  have hin : 0 ≤ s.blockNevents - 1 := Int.le_sub_one_of_lt hn
  have htime := reads_timeWords rocid triggerData e (s := { s with
    toBlockState := ({ s.toBlockState with blockNevents := s.blockNevents - 1 } :
      BlockState EventHitsVFTDC).selectEvent (triggerData.firstEventNumber + s.eventIndex) }) hin
  have hrecords := reads_records rocid triggerData e.records (s := { s with
    eventTimestamp := e.timestamp
    toBlockState := ({ s.toBlockState with blockNevents := s.blockNevents - 1 } :
      BlockState EventHitsVFTDC).selectEvent (triggerData.firstEventNumber + s.eventIndex) })
    ⟨hin, EventHitsTable.select_hasContainer _ _⟩
  refine ⟨_, hheader.append (fun _ _ => trivial) ((skips_fillers rocid triggerData _ _).append
    (fun _ _ => trivial) (htime.append (fun _ _ => trivial) hrecords)), hs, rfl, rfl, ?_⟩
  have hhits : (e.records.map (Record.hits rocid s.blockSlot s.blockBoardId e.timestamp)).sum =
      e.hits rocid b := by rw [Event.hits, hs.1, hs.2]
  rw [← hhits]
  exact EventHitsTable.select_withHits_map _ _ s.toEventHitsTable

theorem reads_headerWords (b : Block) (s : State) :
    ReadsBefore (parseWord rocid triggerData) (fun _ => True) b.headerWords s
      { s with
        blockSlot := UInt32.ofNat b.slot.toNat
        blockNevents := b.events.length
        blockBoardId := UInt32.ofNat b.boardId.toNat } := by
  have hcount : (UInt32.ofNat (BitVec.ofNat 8 b.events.length).toNat).toNat = b.events.length :=
    toNat_ofNat_field (by omega) b.hlen
  have hheader : ReadsBefore (parseWord rocid triggerData) (fun _ => True) [b.headerWord] s
      { s with
        blockSlot := UInt32.ofNat b.slot.toNat
        blockNevents := b.events.length
        blockBoardId := UInt32.ofNat b.boardId.toNat } := by
    apply ReadsBefore.of_body
    intro post _
    rw [Block.headerWord, parseWord, dispatch_definingWord _ _ (by simp)]
    change Except.ok _ = _
    generalize BitVec.ofNat 8 b.events.length = n at *
    simp [BlockFrame.openBlock, getBitsInRange_definingWord, aligned, fieldValue, hcount]
  exact hheader.append (fun _ _ => trivial) (skips_fillers rocid triggerData b.headerFillers _)

theorem reads_trailerWords (b : Block) {s : State} (hzero : s.blockNevents = 0) :
    ReadsBefore (parseWord rocid triggerData) (fun _ => True) b.trailerWords s
      { s with blockNevents := -1, eventIndex := 0 } := by
  have htrailer : ReadsBefore (parseWord rocid triggerData) (fun _ => True) [b.trailerWord] s
      { s with blockNevents := -1, eventIndex := 0 } := by
    apply ReadsBefore.of_body
    intro post _
    rw [Block.trailerWord, parseWord, dispatch_definingWord _ _ (by simp)]
    change (BlockFrame.closeBlock name _ >>= fun _ => _) = _
    rw [BlockFrame.closeBlock_of_zero hzero]
    rfl
  exact htrailer.append (fun _ _ => trivial) (skips_fillers rocid triggerData b.trailerFillers _)

theorem readsFrame (b : Block) :
    ReadsFrame (parseWord rocid triggerData) State.toBlockState b.Ready b.headerWords
      b.trailerWords b.events.length where
  header s := ⟨_, reads_headerWords rocid triggerData b s, ⟨rfl, rfl⟩, rfl, rfl, rfl⟩
  trailer _ _ hzero := ⟨_, reads_trailerWords rocid triggerData b hzero, rfl, rfl⟩

theorem reads_block {b : Block} (h : b.SlotsMatch) :
    ReadsBlock (parseWord rocid triggerData) State.toBlockState (triggerData.firstEventNumber + ·)
      b.encode (b.hits rocid) := by
  have hread := readsBlock (readsFrame rocid triggerData b) (fun _ _ => trivial)
    (fun _ => trivial) fun e he => reads_event rocid triggerData (h e he)
  rwa [mapIdx_eq_map] at hread

/-- Blocks up to the first event header with another slot than its block. -/
theorem run_mismatch {fillers : List UInt32}
    (hfillers : Skips (parseWord rocid triggerData) fillers) {blocks : List Block} (h : ¬ ∀ b ∈ blocks, b.SlotsMatch) :
    ∃ message, run (parseWord rocid triggerData) 0 (fillers ++ blocks.flatMap Block.encode) {} =
      .error (.jexception message) := by
  have hsome : ∃ b ∈ blocks, (decide ¬ b.SlotsMatch) = true := by simpa using h
  obtain ⟨before, b, after, rfl, hb, hbefore⟩ := exists_first hsome
  have hevents : ∃ e ∈ b.events, (decide (e.slot ≠ b.slot)) = true := by
    simpa [Block.SlotsMatch] using hb
  obtain ⟨read, e, unread, hsplit, he, hread⟩ := exists_first hevents
  obtain ⟨s, hblocks, hindex, -⟩ := reads_blocks (s := ({} : State))
    (fun b hb => reads_block rocid triggerData (b := b) (by simpa using hbefore b hb)) rfl
  have hopen : (b.events.length : Int) =
      (read.length : Int) + ((unread.length + 1 : Nat) : Int) := by
    rw [hsplit, List.length_append, List.length_cons]
    omega
  obtain ⟨s', hreads, hready, hn, -⟩ := reads_events (i := 0) (fun _ _ => trivial)
    (fun e he => reads_event rocid triggerData (b := b) (e := e) (by simpa using hread e he))
    (unread.length + 1) (s := { s with
      blockSlot := UInt32.ofNat b.slot.toNat
      blockNevents := b.events.length
      blockBoardId := UInt32.ofNat b.boardId.toNat }) ⟨rfl, rfl⟩ hopen hindex
  have hprefix := (hfillers {}).append (fun _ _ => trivial) (hblocks.append (fun _ _ => trivial)
    ((reads_headerWords rocid triggerData b s).append (fun _ _ => trivial) hreads))
  obtain ⟨message, hthrow⟩ := eventHeader_throws triggerData (by simpa using he) hready
    (by rw [hn]; omega)
  refine ⟨message, ?_⟩
  have hwords : fillers ++ (before ++ b :: after).flatMap Block.encode =
      (fillers ++ (before.flatMap Block.encode ++ (b.headerWords ++ read.flatMap Event.encode))) ++
        e.headerWord :: (e.headerFillers.map Filler.encode ++
          (e.timeWords ++ e.records.map Record.encode) ++ (unread.flatMap Event.encode ++
            (b.trailerWords ++ after.flatMap Block.encode))) := by
    simp [Block.encode, Event.encode, hsplit]
  rw [hwords, hprefix _ trivial]
  exact run_of_error (by rw [parseWord_eventHeader, hthrow, bind_error])

end Reads

/-- Parsing an encoded bank gives back its hits, event by event, unless an event header has
another slot than its block. -/
theorem parse_encode_slotsMatch (rocid : UInt32) (triggerData : TriggerData) (bank : Bank) :
    if ∀ b ∈ bank.blocks, b.SlotsMatch then
      ∃ events, parse rocid triggerData bank.encode = .ok events ∧
        events.Perm ((List.range bank.maxEvents).map fun k =>
          ⟨toCInt (eventKey triggerData.firstEventNumber k), [bank.hits rocid k]⟩)
    else ∃ message, parse rocid triggerData bank.encode = .error (.jexception message) := by
  have hfillers := skips_fillers rocid triggerData bank.fillers
  split
  · rename_i hmatch
    obtain ⟨s, hrun, hperm⟩ := physicsEvents_bank ({} : State) hfillers
      (fun b hb => reads_block rocid triggerData (hmatch b hb)) rfl (by
        intro b _
        have := b.hlen
        rw [Block.hits, List.length_map]
        omega)
    have hmax : maxEvents (bank.blocks.map (Block.hits rocid)) = bank.maxEvents := by
      simp [maxEvents, Bank.maxEvents, Block.hits, Function.comp_def]
    have hhits (k : Nat) : hitsAt (bank.blocks.map (Block.hits rocid)) k = bank.hits rocid k := by
      simp [hitsAt, Bank.hits, Block.hits, List.filterMap_map, Function.comp_def]
    refine ⟨physicsEvents s.eventHitsMap, ?_, ?_⟩
    · rw [parse, Bank.encode, hrun]
      rfl
    · simpa only [hmax, hhits] using hperm
  · rename_i hmismatch
    obtain ⟨message, hrun⟩ := run_mismatch rocid triggerData hfillers hmismatch
    exact ⟨message, by rw [parse, Bank.encode, hrun, bind_error]⟩

end JanaExtensions.VFTDC
