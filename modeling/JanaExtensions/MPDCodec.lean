import JanaExtensions.BlockCodec
import JanaExtensions.WordSteps

/-! The word layout of MPD banks, and that parsing a bank in this layout recovers its hits
event by event. The parser looks at the word after each group of APV samples, so that the
words of an event are read only if some framing word follows them. -/

namespace JanaExtensions.MPD

open BitFields Failing WordLoop

/-- One sample group: six samples, the channel and the identity of the APV. -/
structure ApvGroup where
  channel : BitVec 10
  apvId : BitVec 5
  samples : Vector (BitVec 13) 6

/-- Five bits and two samples, of which the later one stands first. -/
def sampleWord (tag : BitVec 5) (later earlier : BitVec 13) : UInt32 :=
  word [⟨1, 0⟩, ⟨5, tag⟩, ⟨13, later⟩, ⟨13, earlier⟩]

/-- The low half of the channel stands in the first word, the high half in the second. -/
def ApvGroup.encode (g : ApvGroup) : List UInt32 :=
  [sampleWord (g.channel.setWidth 5) g.samples[1] g.samples[0],
    sampleWord ((g.channel >>> 5).setWidth 5) g.samples[3] g.samples[2],
    sampleWord g.apvId g.samples[5] g.samples[4]]

structure Frame where
  fiberId : BitVec 5
  mpdId : BitVec 5
  highBits : BitVec 6
  middleBits : BitVec 11
  groups : List ApvGroup

def Frame.headerWord (f : Frame) : UInt32 :=
  definingWord 5 [⟨6, f.highBits⟩, ⟨5, f.fiberId⟩, ⟨11, f.middleBits⟩, ⟨5, f.mpdId⟩]

def Frame.encode (f : Frame) : List UInt32 := f.headerWord :: f.groups.flatMap ApvGroup.encode

structure Event where
  headerBits : BitVec 11
  triggerNum : BitVec 16
  timestampLow : BitVec 24
  timestampHigh : BitVec 24
  frames : List Frame

structure Block where
  slot : BitVec 5
  headerBits : BitVec 14
  events : List Event
  hlen : events.length < 256
  trailerBits : BitVec 22

def Event.headerWord (e : Event) : UInt32 :=
  definingWord 2 [⟨11, e.headerBits⟩, ⟨16, e.triggerNum⟩]

def Event.timeWords (e : Event) : List UInt32 :=
  [definingWord 3 [⟨3, 0⟩, ⟨24, e.timestampLow⟩], word [⟨8, 0⟩, ⟨24, e.timestampHigh⟩]]

def Event.encode (e : Event) : List UInt32 :=
  e.headerWord :: (e.timeWords ++ e.frames.flatMap Frame.encode)

def Block.headerWord (b : Block) : UInt32 :=
  definingWord 0 [⟨5, b.slot⟩, ⟨14, b.headerBits⟩, ⟨8, BitVec.ofNat 8 b.events.length⟩]

def Block.trailerWord (b : Block) : UInt32 := definingWord 1 [⟨5, b.slot⟩, ⟨22, b.trailerBits⟩]

def Block.encode (b : Block) : List UInt32 :=
  [b.headerWord] ++ (b.events.flatMap Event.encode ++ [b.trailerWord])

/-- The time that the parser makes of the two fields. -/
def Event.timestamp (e : Event) : UInt64 :=
  timestampOf (UInt32.ofNat e.timestampLow.toNat, UInt32.ofNat e.timestampHigh.toNat)

def ApvGroup.hit (rocid slot triggerNum : UInt32) (triggerTime : UInt64) (f : Frame)
    (g : ApvGroup) : MPDHit :=
  { rocid, slot, triggerNum, triggerTime
    mpdId := UInt32.ofNat f.mpdId.toNat
    fiberId := UInt32.ofNat f.fiberId.toNat
    apvChannel := UInt32.ofNat g.channel.toNat
    apvId := UInt32.ofNat g.apvId.toNat
    apvSamples := g.samples.map fun x => UInt32.ofNat x.toNat }

/-- One hit for each group of the event, in the order of the frames. -/
def Event.hits (rocid triggerNum : UInt32) (b : Block) (e : Event) : EventHitsMPD :=
  ⟨e.frames.flatMap fun f => f.groups.map
    (ApvGroup.hit rocid (UInt32.ofNat b.slot.toNat) triggerNum e.timestamp f)⟩

def Block.hits (rocid : UInt32) (first : UInt64) (b : Block) : List EventHitsMPD :=
  b.events.mapIdx fun k e => e.hits rocid (eventKey first k).toUInt32 b

/-- The hits of the `k`-th events of all blocks, in bank order. -/
def bankHits (rocid : UInt32) (first : UInt64) (bank : List Block) (k : Nat) : EventHitsMPD :=
  (bank.filterMap fun b =>
    b.events[k]?.map (Event.hits rocid (eventKey first k).toUInt32 b)).sum

def bankMaxEvents (bank : List Block) : Nat := (bank.map fun b => b.events.length).foldr max 0

instance : HasHitsTable State EventHitsMPD where
  table s := s.toEventHitsTable
  setTable t s := { s with toEventHitsTable := t }
  table_setTable _ _ := rfl
  setTable_setTable _ _ _ := rfl
  setTable_table _ := rfl

/-- Some data type defining word follows. -/
def Continues (post : List UInt32) : Prop := ∃ d rest, post = d :: rest ∧ Defines d

section Reads

variable (rocid : UInt32) (triggerData : TriggerData)

theorem channel_join (channel : BitVec 10) :
    (UInt32.ofNat ((channel >>> 5).setWidth 5).toNat <<< 5) |||
      UInt32.ofNat (channel.setWidth 5).toNat = UInt32.ofNat channel.toNat := by
  have hlt := channel.isLt
  have hhigh : (UInt32.ofNat ((channel >>> 5).setWidth 5).toNat).toNat = channel.toNat / 2 ^ 5 := by
    rw [BitVec.toNat_setWidth, BitVec.toNat_ushiftRight, Nat.shiftRight_eq_div_pow,
      Nat.mod_eq_of_lt (by omega)]
    exact UInt32.toNat_ofNat_of_lt' (by simp only [UInt32.size]; omega)
  have hlow : (UInt32.ofNat (channel.setWidth 5).toNat).toNat = channel.toNat % 2 ^ 5 := by
    rw [BitVec.toNat_setWidth]
    exact UInt32.toNat_ofNat_of_lt' (by simp only [UInt32.size]; omega)
  have hshift : (UInt32.ofNat ((channel >>> 5).setWidth 5).toNat <<< 5).toNat =
      2 ^ 5 * (channel.toNat / 2 ^ 5) := by
    rw [UInt32.toNat_shiftLeft, hhigh, Nat.shiftLeft_eq, show (5 : UInt32).toNat % 32 = 5 from rfl]
    omega
  rw [← UInt32.toNat_inj, UInt32.toNat_or, hshift, hlow,
    ← Nat.two_pow_add_eq_or_of_lt (Nat.mod_lt _ (by decide)), Nat.div_add_mod,
    UInt32.toNat_ofNat_of_lt' (by simp only [UInt32.size]; omega)]

/-- What is read off a sample word. -/
structure Carries (d : UInt32) (tag : BitVec 5) (later earlier : BitVec 13) : Prop where
  clear : getBitsInRange d 31 31 = 0
  tag : getBitsInRange d 30 26 = UInt32.ofNat tag.toNat
  later : getBitsInRange d 25 13 = UInt32.ofNat later.toNat
  earlier : getBitsInRange d 12 0 = UInt32.ofNat earlier.toNat

theorem sampleWord_carries (tag : BitVec 5) (later earlier : BitVec 13) :
    Carries (sampleWord tag later earlier) tag later earlier := by
  constructor <;>
  · rw [sampleWord, getBitsInRange_word (by simp) (by simp) (by simp) (by simp [aligned])]
    simp [fieldValue]

theorem samples_map (samples : Vector (BitVec 13) 6) (f : BitVec 13 → UInt32) :
    samples.map f = #v[f samples[0], f samples[1], f samples[2], f samples[3], f samples[4],
      f samples[5]] := by
  ext i hi
  rw [Vector.getElem_map]
  match i, hi with
  | 0, _ | 1, _ | 2, _ | 3, _ | 4, _ | 5, _ => rfl

theorem apvHit_of_carries (f : Frame) (g : ApvGroup) (s : State) {d2 d3 d4 : UInt32}
    (h2 : Carries d2 (g.channel.setWidth 5) g.samples[1] g.samples[0])
    (h3 : Carries d3 ((g.channel >>> 5).setWidth 5) g.samples[3] g.samples[2])
    (h4 : Carries d4 g.apvId g.samples[5] g.samples[4]) :
    apvHit rocid f.headerWord s d2 d3 d4 =
      g.hit rocid s.blockSlot s.eventNumber.toUInt32 s.eventTimestamp f := by
  have hfiber : getBitsInRange f.headerWord 20 16 = UInt32.ofNat f.fiberId.toNat := by
    simp [Frame.headerWord, getBitsInRange_definingWord, aligned, fieldValue]
  have hmpd : getBitsInRange f.headerWord 4 0 = UInt32.ofNat f.mpdId.toNat := by
    simp [Frame.headerWord, getBitsInRange_definingWord, aligned, fieldValue]
  simp only [apvHit, ApvGroup.hit, hfiber, hmpd, h2.tag, h2.later, h2.earlier, h3.tag, h3.later,
    h3.earlier, h4.tag, h4.later, h4.earlier, channel_join, samples_map]

theorem apvGroups_group (f : Frame) (g : ApvGroup) (following : List UInt32) {s : State}
    (hs : s.HasContainer) :
    apvGroups rocid f.headerWord (g.encode ++ following) s =
      apvGroups rocid f.headerWord following (withHits
        ⟨[g.hit rocid s.blockSlot s.eventNumber.toUInt32 s.eventTimestamp f]⟩ s) >>= fun r =>
          .ok (r.1 + 3, r.2) := by
  have h2 := sampleWord_carries (g.channel.setWidth 5) g.samples[1] g.samples[0]
  have hhit := apvHit_of_carries rocid f g s h2
    (sampleWord_carries ((g.channel >>> 5).setWidth 5) g.samples[3] g.samples[2])
    (sampleWord_carries g.apvId g.samples[5] g.samples[4])
  rw [ApvGroup.encode, List.cons_append, List.cons_append, List.cons_append, List.nil_append,
    apvGroups, if_pos h2.clear, EventHitsTable.addHits_of_container hs, bind_ok, hhit]
  rfl

/-- The loop over the sample groups ends at the first word that defines a data type. -/
theorem apvGroups_encode (f : Frame) (groups : List ApvGroup) {post : List UInt32}
    (hpost : Continues post) {s : State} (hs : s.HasContainer) :
    apvGroups rocid f.headerWord (groups.flatMap ApvGroup.encode ++ post) s =
      .ok ((groups.flatMap ApvGroup.encode).length, withHits ⟨groups.map
        (ApvGroup.hit rocid s.blockSlot s.eventNumber.toUInt32 s.eventTimestamp f)⟩ s) := by
  induction groups generalizing s with
  | nil =>
    obtain ⟨d, rest, rfl, hd⟩ := hpost
    have hend : getBitsInRange d 31 31 ≠ 0 := by
      intro hzero
      exact absurd (hd.symm.trans hzero) (by decide)
    have hnone : withHits ⟨[]⟩ s = s := withHits_zero hs
    rw [List.flatMap_nil, List.nil_append, apvGroups_end rocid f.headerWord hend, List.map_nil,
      hnone]
    rfl
  | cons g groups ih =>
    have hmore := ih (s := withHits
      ⟨[g.hit rocid s.blockSlot s.eventNumber.toUInt32 s.eventTimestamp f]⟩ s)
      (s.toEventHitsTable.withHits_hasContainer _)
    rw [List.flatMap_cons, List.append_assoc, apvGroups_group rocid f g _ hs, hmore, bind_ok,
      withHits_withHits, List.length_append, Nat.add_comm]
    rfl

theorem reads_frame (f : Frame) {s : State} (hs : s.InEvent) :
    ReadsBefore (parseWord rocid triggerData) Continues f.encode s
      (withHits ⟨f.groups.map
        (ApvGroup.hit rocid s.blockSlot s.eventNumber.toUInt32 s.eventTimestamp f)⟩ s) := by
  apply ReadsBefore.of_body
  intro post hpost
  have hgroups := apvGroups_encode rocid f f.groups hpost hs.2
  rw [Frame.headerWord] at hgroups ⊢
  rw [parseWord, dispatch_definingWord _ _ (by simp)]
  change mpdFrame rocid _ _ _ = _
  rw [mpdFrame, hs.requireBlock]
  exact hgroups

theorem sum_frames (hits : Frame → List MPDHit) (frames : List Frame) :
    (frames.map fun f => (⟨hits f⟩ : EventHitsMPD)).sum = ⟨frames.flatMap hits⟩ := by
  induction frames with
  | nil => rfl
  | cons f frames ih =>
    rw [List.map_cons, List.sum_cons, ih]
    rfl

theorem reads_frames (frames : List Frame) {s : State} (hs : s.InEvent) :
    ReadsBefore (parseWord rocid triggerData) Continues (frames.flatMap Frame.encode) s
      (withHits ⟨frames.flatMap fun f => f.groups.map
        (ApvGroup.hit rocid s.blockSlot s.eventNumber.toUInt32 s.eventTimestamp f)⟩ s) := by
  rw [← sum_frames]
  refine reads_records (I := fun t => t.InEvent ∧ t.blockSlot = s.blockSlot ∧
    t.eventNumber = s.eventNumber ∧ t.eventTimestamp = s.eventTimestamp) ?_ ?_
    (fun t ht => ht.1.2) ?_ frames ⟨hs, rfl, rfl, rfl⟩
  · intro f t ht
    obtain ⟨hopen, hslot, hnumber, htime⟩ := ht
    rw [← hslot, ← hnumber, ← htime]
    exact reads_frame rocid triggerData f hopen
  · exact fun t hits ht => ⟨⟨ht.1.1, EventHitsTable.withHits_hasContainer hits _⟩, ht.2⟩
  · exact fun f post _ => ⟨f.headerWord, _, rfl, defines_definingWord (by simp)⟩

/-- The states in which the block is open. -/
def Block.Ready (b : Block) (s : State) : Prop := s.blockSlot = UInt32.ofNat b.slot.toNat

theorem reads_eventHeader (e : Event) {s : State} (hn : 0 < s.blockNevents) :
    ReadsBefore (parseWord rocid triggerData) (fun _ => True) [e.headerWord] s
      { s with
        toBlockState := ({ s.toBlockState with blockNevents := s.blockNevents - 1 } :
          BlockState EventHitsMPD).selectEvent
            (triggerData.firstEventNumber + s.eventIndex).toUInt32.toUInt64 } := by
  apply ReadsBefore.of_body
  intro post _
  rw [Event.headerWord, parseWord, dispatch_definingWord _ _ (by simp)]
  change (eventHeader triggerData s >>= fun s => .ok (0, s)) = _
  rw [eventHeader, BlockFrame.countEvent_of_pos hn]
  rfl

theorem reads_timeWords (e : Event) {s : State} (hn : 0 ≤ s.blockNevents) :
    ReadsBefore (parseWord rocid triggerData) (fun _ => True) e.timeWords s
      { s with eventTimestamp := e.timestamp } := by
  apply ReadsBefore.of_body
  intro post _
  rw [parseWord, dispatch_definingWord _ _ (by simp)]
  change triggerTime (definingWord 3 _) (_ :: post) _ = _
  rw [triggerTime, BlockFrame.requireBlock_of_nonneg hn]
  simp [getBitsInRange_definingWord, getBitsInRange_word, aligned, fieldValue, Event.timestamp,
    timestampOf]

theorem reads_event (b : Block) (e : Event) :
    ReadsEvent (parseWord rocid triggerData) State.toBlockState
      (fun i => (triggerData.firstEventNumber + i).toUInt32.toUInt64) Continues b.Ready e.encode
      (fun i => e.hits rocid (triggerData.firstEventNumber + i).toUInt32 b) := by
  intro s hs hn
  have hin : 0 ≤ s.blockNevents - 1 := Int.le_sub_one_of_lt hn
  have hheader := reads_eventHeader rocid triggerData e hn
  have htime := reads_timeWords rocid triggerData e (s := { s with
    toBlockState := ({ s.toBlockState with blockNevents := s.blockNevents - 1 } :
      BlockState EventHitsMPD).selectEvent
        (triggerData.firstEventNumber + s.eventIndex).toUInt32.toUInt64 }) hin
  have hframes := reads_frames rocid triggerData e.frames (s := { s with
    eventTimestamp := e.timestamp
    toBlockState := ({ s.toBlockState with blockNevents := s.blockNevents - 1 } :
      BlockState EventHitsMPD).selectEvent
        (triggerData.firstEventNumber + s.eventIndex).toUInt32.toUInt64 })
    ⟨hin, EventHitsTable.select_hasContainer _ _⟩
  refine ⟨_, hheader.append (fun _ _ => trivial) (htime.append (fun _ _ => trivial) hframes), hs,
    rfl, rfl, ?_⟩
  have hslot : s.blockSlot = UInt32.ofNat b.slot.toNat := hs
  have hhits (number : UInt32) : e.hits rocid number b =
      ⟨e.frames.flatMap fun f => f.groups.map
        (ApvGroup.hit rocid s.blockSlot number.toUInt64.toUInt32 e.timestamp f)⟩ := by
    rw [Event.hits, hslot, UInt32.toUInt32_toUInt64]
  change _ = s.eventHitsMap.addAt _
    (e.hits rocid (triggerData.firstEventNumber + s.eventIndex).toUInt32 b)
  rw [hhits]
  exact EventHitsTable.select_withHits_map _ _ s.toEventHitsTable

theorem reads_headerWord (b : Block) (s : State) :
    ReadsBefore (parseWord rocid triggerData) (fun _ => True) [b.headerWord] s
      { s with
        blockSlot := UInt32.ofNat b.slot.toNat
        blockNevents := b.events.length } := by
  have hcount : (UInt32.ofNat (BitVec.ofNat 8 b.events.length).toNat).toNat = b.events.length :=
    toNat_ofNat_field (by omega) b.hlen
  apply ReadsBefore.of_body
  intro post _
  rw [Block.headerWord, parseWord, dispatch_definingWord _ _ (by simp)]
  change Except.ok _ = _
  generalize BitVec.ofNat 8 b.events.length = n at *
  simp [BlockFrame.openBlock, getBitsInRange_definingWord, aligned, fieldValue, hcount]

theorem blockTrailer_ok {d : UInt32} {s : State} (hslot : getBitsInRange d 26 22 = s.blockSlot)
    (hzero : s.blockNevents = 0) :
    blockTrailer d s = .ok { s with blockNevents := -1, eventIndex := 0 } := by
  rw [blockTrailer, BlockFrame.closeBlock_of_zero hzero, bind_ok]
  simp only [hslot, ne_eq, not_true_eq_false, if_false]

theorem reads_trailerWord {b : Block} {s : State} (hs : b.Ready s) (hzero : s.blockNevents = 0) :
    ReadsBefore (parseWord rocid triggerData) (fun _ => True) [b.trailerWord] s
      { s with blockNevents := -1, eventIndex := 0 } := by
  have hslot : getBitsInRange b.trailerWord 26 22 = s.blockSlot := by
    rw [hs, Block.trailerWord]
    simp [getBitsInRange_definingWord, aligned, fieldValue]
  apply ReadsBefore.of_body
  intro post _
  rw [Block.trailerWord] at hslot ⊢
  rw [parseWord, dispatch_definingWord _ _ (by simp)]
  change (blockTrailer _ s >>= fun s => .ok (0, s)) = _
  rw [blockTrailer_ok hslot hzero]
  rfl

theorem readsFrame (b : Block) :
    ReadsFrame (parseWord rocid triggerData) State.toBlockState b.Ready [b.headerWord]
      [b.trailerWord] b.events.length where
  header s := ⟨_, reads_headerWord rocid triggerData b s, rfl, rfl, rfl, rfl⟩
  trailer _ hs hzero := ⟨_, reads_trailerWord rocid triggerData hs hzero, rfl, rfl⟩

theorem reads_block (b : Block) :
    ReadsBlock (parseWord rocid triggerData) State.toBlockState
      (fun i => (triggerData.firstEventNumber + i).toUInt32.toUInt64) b.encode
      (b.hits rocid triggerData.firstEventNumber) :=
  readsBlock (readsFrame rocid triggerData b)
    (fun e _ => ⟨e.headerWord, _, rfl, defines_definingWord (by simp)⟩)
    (fun _ => ⟨b.trailerWord, _, rfl, defines_definingWord (by simp)⟩)
    fun e _ => reads_event rocid triggerData b e

end Reads

/-- Parsing an encoded bank gives back its hits, event by event. -/
theorem parse_encode_frames (rocid : UInt32) (triggerData : TriggerData) (bank : List Block) :
    ∃ events, parse rocid triggerData (bank.flatMap Block.encode) = .ok events ∧
      events.Perm ((List.range (bankMaxEvents bank)).map fun k =>
        ⟨toCInt (eventKey triggerData.firstEventNumber k),
          [bankHits rocid triggerData.firstEventNumber bank k]⟩) := by
  have hbound : ∀ k < maxEvents (bank.map (Block.hits rocid triggerData.firstEventNumber)),
      k < 2 ^ 32 := by
    intro k hk
    obtain ⟨events, hevents, hlt⟩ := lt_maxEvents.mp hk
    obtain ⟨b, -, rfl⟩ := List.mem_map.mp hevents
    have := b.hlen
    rw [Block.hits, List.length_mapIdx] at hlt
    omega
  have hmax : maxEvents (bank.map (Block.hits rocid triggerData.firstEventNumber)) =
      bankMaxEvents bank := by
    simp [maxEvents, bankMaxEvents, Block.hits, Function.comp_def]
  have hhits (k : Nat) : hitsAt (bank.map (Block.hits rocid triggerData.firstEventNumber)) k =
      bankHits rocid triggerData.firstEventNumber bank k := by
    simp [hitsAt, bankHits, Block.hits, List.filterMap_map, Function.comp_def]
  have hnone : Skips (parseWord rocid triggerData) [] := fun s => ReadsBefore.nil s
  obtain ⟨s, hrun, htable⟩ := run_bank ({} : State) hnone
    (fun b _ => reads_block rocid triggerData b) rfl
  rw [List.nil_append] at hrun
  refine ⟨physicsEvents s.eventHitsMap, ?_, ?_⟩
  · rw [parse, hrun]
    rfl
  · have hperm := physicsEvents_keyedHits fun k hk k' hk' =>
      toUInt32_eventKey_inj triggerData.firstEventNumber (hbound k hk) (hbound k' hk')
    simp only [hmax, hhits, toCInt_toUInt32] at hperm
    rw [htable]
    exact hperm

end JanaExtensions.MPD
