import JanaExtensions.ChildNumbers
import JanaExtensions.EvioProcessor
import JanaExtensions.Grouping
import JanaExtensions.WrittenFile

/-! Files that are written from blocks, from the event source to the trees of the event processor.
Each hit that a bank was written with is processed in one event, and none is processed twice. -/

namespace JanaExtensions

open EvioEventParser Failing

namespace BankContent

/-- The hits that a bank was written with, in the order of its words. -/
def written (rocid : UInt32) (first : UInt64) : BankContent → List EventHits
  | caen1190 events => [.caen1190 ⟨(CAEN1190.eventReader rocid).emitted events {}⟩]
  | fadc bank => bank.blocks.flatMap fun b => b.events.map fun e => .fadc (e.hits rocid b)
  | vftdc bank _ => bank.blocks.flatMap fun b => (b.hits rocid).map .vftdc
  | mpd blocks => blocks.flatMap fun b => (b.hits rocid first).map .mpd
  | helicityDecoder block _ => (block.hits rocid).map .helicityDecoder
  | fadcScaler records _ => [.fadcScaler ⟨records.map (FADCScaler.Record.hit rocid)⟩]
  | tiScaler record => [.tiScaler ⟨[record.hit rocid]⟩]
  | other _ => []

end BankContent

section Positions

variable {H : Type} [AddMonoid H] {container : H → EventHits}

/-- The container of a sum has the hits of the summands, one after the other. -/
structure JoinsHits (container : H → EventHits) : Prop where
  zero : ∀ t, (container 0).collection t = []
  add : ∀ a b t, (container (a + b)).collection t =
    (container a).collection t ++ (container b).collection t

theorem JoinsHits.sum (h : JoinsHits container) (hits : List H) (t : RawHitType) :
    (container hits.sum).collection t = hits.flatMap fun a => (container a).collection t := by
  induction hits with
  | nil => exact h.zero t
  | cons a hits ih => rw [List.sum_cons, h.add, ih, List.flatMap_cons]

theorem joinsHits_fadc : JoinsHits EventHits.fadc where
  zero t := by cases t <;> rfl
  add a b t := by cases t <;> rfl

theorem joinsHits_vftdc : JoinsHits EventHits.vftdc where
  zero t := by cases t <;> rfl
  add a b t := by cases t <;> rfl

theorem joinsHits_mpd : JoinsHits EventHits.mpd where
  zero t := by cases t <;> rfl
  add a b t := by cases t <;> rfl

theorem hitsAt_of_le {rows : List (List H)} {k : Nat} (h : maxEvents rows ≤ k) :
    rows.filterMap (fun row => row[k]?) = [] := by
  refine List.filterMap_eq_nil_iff.mpr fun row hrow => List.getElem?_eq_none ?_
  by_contra hlt
  exact Nat.not_lt.mpr h (lt_maxEvents.mpr ⟨row, hrow, Nat.lt_of_not_le hlt⟩)

/-- The hits of the events of all blocks, position by position or block by block. -/
theorem positions_perm (hcontainer : JoinsHits container) {rows : List (List H)}
    {hits : Nat → Option EventHits}
    (hhits : ∀ k, hits k =
      if k < maxEvents rows then some (container (hitsAt rows k)) else none) {n : Nat}
    (hn : ∀ k, n ≤ k → hits k = none) (t : RawHitType) :
    (((List.range n).filterMap hits).flatMap fun c => c.collection t).Perm
      ((rows.flatten.map container).flatMap fun c => c.collection t) := by
  have hlength : ∀ row ∈ rows, row.length ≤ n := by
    intro row hrow
    by_contra hlt
    have hmax := lt_maxEvents.mpr ⟨row, hrow, Nat.lt_of_not_le hlt⟩
    have hnone := hn n le_rfl
    rw [hhits, if_pos hmax] at hnone
    cases hnone
  have hposition (k : Nat) : ((hits k).toList.flatMap fun c => c.collection t) =
      (rows.filterMap fun row => row[k]?).flatMap fun a => (container a).collection t := by
    rw [hhits]
    by_cases hk : k < maxEvents rows
    · rw [if_pos hk, Option.toList_some, List.flatMap_singleton, hitsAt, hcontainer.sum]
    · rw [if_neg hk, hitsAt_of_le (Nat.le_of_not_lt hk)]
      rfl
  rw [List.filterMap_eq_flatMap_toList, List.flatMap_assoc, List.flatMap_map]
  simp only [hposition]
  rw [← List.flatMap_assoc]
  exact (Grouping.flatMap_positions_perm hlength).flatMap_right _

end Positions

namespace BankContent

variable {rocid : UInt32} {first : UInt64} {n : Nat}

theorem hits_fadc_eq (bank : FADC.Bank) (k : Nat) :
    (BankContent.fadc bank).hits rocid first n k =
      if k < maxEvents (bank.blocks.map fun b => b.events.map (FADC.Event.hits rocid b)) then
        some (.fadc (hitsAt (bank.blocks.map fun b => b.events.map (FADC.Event.hits rocid b)) k))
      else none := by
  rw [FADC.maxEvents_eq, FADC.hitsAt_eq]
  rfl

theorem hits_vftdc_eq (bank : VFTDC.Bank) (hslots : ∀ b ∈ bank.blocks, b.SlotsMatch) (k : Nat) :
    (BankContent.vftdc bank hslots).hits rocid first n k =
      if k < maxEvents (bank.blocks.map (VFTDC.Block.hits rocid)) then
        some (.vftdc (hitsAt (bank.blocks.map (VFTDC.Block.hits rocid)) k))
      else none := by
  rw [VFTDC.maxEvents_eq, VFTDC.hitsAt_eq]
  rfl

theorem hits_mpd_eq (blocks : List MPD.Block) (k : Nat) :
    (BankContent.mpd blocks).hits rocid first n k =
      if k < maxEvents (blocks.map (MPD.Block.hits rocid first)) then
        some (.mpd (hitsAt (blocks.map (MPD.Block.hits rocid first)) k))
      else none := by
  rw [MPD.maxEvents_eq, MPD.hitsAt_eq]
  rfl

/-- The hits of the events of a bank are those it was written with. -/
theorem hits_perm_written {content : BankContent} {m : Nat}
    (hm : ∀ k, m ≤ k → content.hits rocid first n k = none) (t : RawHitType) :
    (((List.range m).filterMap (content.hits rocid first n)).flatMap fun c => c.collection t).Perm
      ((content.written rocid first).flatMap fun c => c.collection t) := by
  cases content with
  | caen1190 events =>
    by_cases hempty : events = []
    · have hnone : (List.range m).filterMap ((caen1190 events).hits rocid first n) = [] :=
        List.filterMap_eq_nil_iff.mpr fun k _ => if_neg fun h => h.2 hempty
      rw [hnone, hempty]
      cases t <;> exact .of_eq rfl
    · have hhits (k : Nat) : (caen1190 events).hits rocid first n k =
          if k = 0 then some (.caen1190 ⟨(CAEN1190.eventReader rocid).emitted events {}⟩)
          else none := by
        simp [hits, hempty]
      rw [Grouping.filterMap_range_single hhits hm]
      exact .of_eq rfl
  | fadc bank =>
    refine (positions_perm joinsHits_fadc (hits_fadc_eq bank) hm t).trans (.of_eq ?_)
    simp [written, List.flatMap_def, List.map_flatten, Function.comp_def]
  | vftdc bank hslots =>
    refine (positions_perm joinsHits_vftdc (hits_vftdc_eq bank hslots) hm t).trans (.of_eq ?_)
    simp [written, List.flatMap_def, List.map_flatten, Function.comp_def]
  | mpd blocks =>
    refine (positions_perm joinsHits_mpd (hits_mpd_eq blocks) hm t).trans (.of_eq ?_)
    simp [written, List.flatMap_def, List.map_flatten, Function.comp_def]
  | helicityDecoder block hlast =>
    have hlength : block.events.length ≤ m := by
      have hnone := hm m le_rfl
      simpa [hits] using hnone
    have hhits (k : Nat) : (helicityDecoder block hlast).hits rocid first n k =
        ((block.hits rocid).map EventHits.helicityDecoder)[k]? := by
      simp [hits, HelicityDecoder.Block.hits, Function.comp_def]
    have hrange : (List.range m).filterMap
        (fun k => ((block.hits rocid).map EventHits.helicityDecoder)[k]?) =
          (block.hits rocid).map .helicityDecoder :=
      Grouping.filterMap_range_getElem? (by simpa [HelicityDecoder.Block.hits] using hlength)
    simp only [hhits, hrange]
    exact .of_eq rfl
  | fadcScaler records hfull =>
    have hhits (k : Nat) : (fadcScaler records hfull).hits rocid first n k =
        if k = n - 1 then some (.fadcScaler ⟨records.map (FADCScaler.Record.hit rocid)⟩)
        else none := rfl
    rw [Grouping.filterMap_range_single hhits hm]
    exact .of_eq rfl
  | tiScaler record =>
    have hhits (k : Nat) : (tiScaler record).hits rocid first n k =
        if k = n - 1 then some (.tiScaler ⟨[record.hit rocid]⟩) else none := rfl
    rw [Grouping.filterMap_range_single hhits hm]
    exact .of_eq rfl
  | other dataWords =>
    have hnone : (List.range m).filterMap ((other dataWords).hits rocid first n) = [] :=
      List.filterMap_eq_nil_iff.mpr fun _ _ => rfl
    rw [hnone]
    exact .of_eq rfl

end BankContent

namespace EncodedBlock

/-- The hits of a type that the selected banks were written with. -/
def written (services : Services CommonParser) (b : EncodedBlock) (t : RawHitType) : List t.Hit :=
  (b.selected services).flatMap fun x =>
    (x.2.content.written x.1 b.firstEventNumber).flatMap fun container => container.collection t

variable {services : Services CommonParser} {b : EncodedBlock}

theorem rawHits_perm_written {m : Nat} (hm : ∀ k, m ≤ k → b.hitsAt services k = [])
    (t : RawHitType) :
    ((List.range m).flatMap fun k => b.rawHits services k t).Perm (b.written services t) := by
  have hswap := (Grouping.flatMap_filterMap_perm
    (fun (x : UInt32 × DataBank) k =>
      x.2.content.hits x.1 b.firstEventNumber b.timestamps.length k)
    (List.range m) (b.selected services)).flatMap_right fun container => container.collection t
  rw [List.flatMap_assoc, List.flatMap_assoc] at hswap
  refine hswap.trans (List.Perm.flatMap_left _ fun x hx => ?_)
  refine BankContent.hits_perm_written (fun k hk => ?_) t
  exact List.filterMap_eq_nil_iff.mp (hm k hk) x hx

end EncodedBlock

def EventSource.Result.event? : EventSource.Result → Option BlockEvent
  | success event => some event
  | _ => none

/-- The block events that the source passes on. -/
def EventSource.passedOn (calls : List (EventSource.Result × EventSource.State)) :
    List BlockEvent :=
  calls.filterMap (EventSource.Result.event? ∘ Prod.fst)

/-- What the block parser and the unfolder make of a block event. -/
def Unfolds (services : Services CommonParser) (event : BlockEvent)
    (children : List (JEvent EventHits)) : Prop :=
  ∃ eventNumber events services',
    parse CommonParser.invoke eventNumber event.evioEvent services = .ok (events, services') ∧
    EventUnfolder.UnfoldsFrom events event.runNumber 0 children

namespace EncodedBlock

variable {services : Services CommonParser} {b : EncodedBlock}

theorem consolidate_perm {published : List (PhysicsEvent EventHits)}
    (h : Carries b.firstEventNumber (b.hitsAt services) published) :
    (consolidate published).Perm
      (((List.range (2 ^ 32)).filter fun k => b.hitsAt services k ≠ []).map fun k =>
        ⟨toCInt (eventKey b.firstEventNumber k), b.hitsAt services k⟩) := by
  refine (List.perm_ext_iff_of_nodup ?_ ?_).mpr fun pe => ?_
  · refine (consolidate_sorted published).imp fun hlt heq => ?_
    rw [heq] at hlt
    exact lt_irrefl _ hlt
  · refine List.Nodup.map_on (fun k hk k' hk' heq => ?_) (List.nodup_range.filter _)
    have hlt := List.mem_range.mp (List.mem_of_mem_filter hk)
    have hlt' := List.mem_range.mp (List.mem_of_mem_filter hk')
    exact toCInt_eventKey_inj hlt hlt' (PhysicsEvent.mk.inj heq).1
  · rw [h.mem_consolidate_iff, List.mem_map]
    constructor
    · intro hh
      obtain ⟨k, hk, rfl⟩ := hh
      exact ⟨k, List.mem_filter.mpr ⟨List.mem_range.mpr (h.lt k hk), by simpa using hk⟩, rfl⟩
    · intro hh
      obtain ⟨k, hk, rfl⟩ := hh
      exact ⟨k, by simpa using (List.mem_filter.mp hk).2, rfl⟩

theorem unfolded_perm_written (hfits : b.Fits services) {runNumber : Int}
    {children : List (JEvent EventHits)} (h : Unfolds services ⟨runNumber, b.encode⟩ children)
    (t : RawHitType) :
    (children.flatMap fun child => (HitEvent.ofChild child).hits t).Perm (b.written services t) := by
  obtain ⟨eventNumber, events, services', hparse, hunfolds⟩ := h
  obtain ⟨services'', published, hpublished, hcarries⟩ :=
    b.parse_encode_published hfits eventNumber
  have hevents : events = consolidate published := by
    rw [hpublished] at hparse
    split at hparse
    · cases hparse
    · exact (Prod.mk.inj (Except.ok.inj hparse)).1.symm
  have hchildren := hunfolds.children_eq
  rw [List.drop_zero, hevents] at hchildren
  have hzero : ∀ k, 2 ^ 32 ≤ k → b.hitsAt services k = [] := by
    intro k hk
    by_contra hne
    exact Nat.not_lt.mpr hk (hcarries.lt k hne)
  have hperm := ((consolidate_perm hcarries).map (EventUnfolder.childOf runNumber)).flatMap_right
    fun child => (HitEvent.ofChild child).hits t
  rw [← hchildren, List.map_map, List.flatMap_map] at hperm
  have hall : (((List.range (2 ^ 32)).filter fun k => b.hitsAt services k ≠ []).flatMap
      fun k => b.rawHits services k t) = (List.range (2 ^ 32)).flatMap fun k =>
        b.rawHits services k t := by
    refine Grouping.flatMap_filter_eq fun k _ hk => ?_
    have hnil : b.hitsAt services k = [] := by simpa using hk
    rw [rawHits, hnil, List.flatMap_nil]
  exact hperm.trans (.trans (.of_eq hall) (rawHits_perm_written hzero t))

end EncodedBlock

namespace FileEvent

def blockEvent? : FileEvent → Option BlockEvent
  | block b => some ⟨0, b.encode⟩
  | other _ => none

def written (services : Services CommonParser) (t : RawHitType) : FileEvent → List t.Hit
  | block b => b.written services t
  | other _ => []

variable {services : Services CommonParser} {file : List FileEvent}

theorem passedOn_emitAll (hfile : ∀ event ∈ file, event.Readable services)
    {calls : List (EventSource.Result × EventSource.State)}
    (hcalls : EventSource.emitAll {} (file.map encode) = .ok calls) :
    EventSource.passedOn calls = file.filterMap blockEvent? := by
  rw [EventSource.emitAll_eq] at hcalls
  obtain rfl := Except.ok.inj hcalls
  rw [EventSource.passedOn, List.filterMap_append, List.map_map, List.filterMap_map]
  have hcall : ∀ event ∈ file, (EventSource.Result.event? ∘ Prod.fst)
      ((if EventSource.isPassedOn event.encode then .success ⟨0, event.encode⟩
        else .failureTryAgain, ({} : EventSource.State))) = event.blockEvent? := by
    intro event hevent
    have hreadable := hfile event hevent
    cases event with
    | block b =>
      have hpassed : EventSource.isPassedOn (block b).encode = true :=
        isPassedOn_encode hreadable.1
      rw [hpassed]
      rfl
    | other event =>
      have hskipped : EventSource.isPassedOn (other event).encode = false := hreadable
      rw [hskipped]
      rfl
  exact (List.append_nil _).trans (List.filterMap_congr hcall)

theorem unfolded_perm_written (hfile : ∀ event ∈ file, event.Readable services)
    {children : List (List (JEvent EventHits))}
    (h : List.Forall₂ (Unfolds services) (file.filterMap blockEvent?) children) (t : RawHitType) :
    (children.flatten.flatMap fun child => (HitEvent.ofChild child).hits t).Perm
      (file.flatMap (written services t)) := by
  induction file generalizing children with
  | nil =>
    cases h
    exact .of_eq rfl
  | cons event file ih =>
    obtain ⟨hevent, hreadable⟩ := List.forall_mem_cons.mp hfile
    cases event with
    | block b =>
      change List.Forall₂ _ (⟨0, b.encode⟩ :: file.filterMap blockEvent?) children at h
      cases h with
      | cons hunfolds hrest =>
        rw [List.flatten_cons, List.flatMap_append, List.flatMap_cons]
        exact (b.unfolded_perm_written hevent.2.1 hunfolds t).append (ih hreadable hrest)
    | other event =>
      rw [List.flatMap_cons]
      exact ih hreadable h

end FileEvent

namespace EvioProcessor

/-- The trees and the histogram have each of the hits once. The hits of an event are together in a
row, and a row of the pulse tree is left out where no pulse is counted. -/
structure Holds (s : State) (written : (t : RawHitType) → List t.Hit) : Prop where
  caen1190Tree : ∃ events : List (List CAEN1190Hit),
    s.trees.caen1190Tree = events.map caen1190Row ∧ events.flatten.Perm (written .caen1190)
  waveformTree : ∃ events : List (List FADC250WaveformHit),
    s.trees.waveformTree = events.map (fun hits => waveformRow (samples hits)) ∧
      events.flatten.Perm (written .fadc250Waveform)
  pulseTree : ∃ events : List (List FADC250PulseHit),
    s.trees.pulseTree = (events.filter fun hits => counted hits ≠ []).map pulseRow ∧
      events.flatten.Perm (written .fadc250Pulse)
  tree : s.trees.tree.Perm ((written .helicityDecoder).map helDec)
  pulseIntegralHist :
    s.pulseIntegralHist.Perm ((written .fadc250Pulse).map FADC250PulseHit.integralSum)

theorem holds_of_perm {events : List HitEvent} {written : (t : RawHitType) → List t.Hit}
    (h : ∀ t, (events.flatMap fun event => event.hits t).Perm (written t)) (m : Members) :
    Holds (events.foldl processSequential ⟨m, {}, []⟩) written := by
  obtain ⟨htrees, hhist⟩ := foldl_processSequential events ⟨m, {}, []⟩
  have hnil (a : Trees) : Trees.append {} a = a := rfl
  rw [hnil] at htrees
  rw [List.nil_append] at hhist
  have hflatten (t : RawHitType) : (events.map fun event => event.hits t).flatten.Perm (written t) :=
    (List.flatMap_def ▸ h t)
  refine ⟨⟨_, ?_, hflatten .caen1190⟩, ⟨_, ?_, hflatten .fadc250Waveform⟩,
    ⟨_, ?_, hflatten .fadc250Pulse⟩, ?_, ?_⟩
  · rw [htrees, List.map_map]
    rfl
  · rw [htrees, List.map_map]
    rfl
  · rw [htrees]
    rfl
  · rw [htrees]
    refine .trans (.of_eq ?_) ((h .helicityDecoder).map helDec)
    rw [List.map_flatMap]
    rfl
  · rw [hhist]
    refine .trans (.of_eq ?_) ((h .fadc250Pulse).map FADC250PulseHit.integralSum)
    rw [List.map_flatMap]

/-- No hit is lost between the file and the trees, and none is there twice. When the source passes
on the blocks of a file, each block is parsed and unfolded and the children are processed in any
order, the processor finds each hit that a selected bank was written with in exactly one event. -/
theorem holds_written_file {services : Services CommonParser} {file : List FileEvent}
    (hfile : ∀ event ∈ file, event.Readable services)
    {calls : List (EventSource.Result × EventSource.State)}
    (hcalls : EventSource.emitAll {} (file.map FileEvent.encode) = .ok calls)
    {children : List (List (JEvent EventHits))}
    (hchildren : List.Forall₂ (Unfolds services) (EventSource.passedOn calls) children)
    {processed : List (JEvent EventHits)} (hprocessed : processed.Perm children.flatten)
    (m : Members) :
    (∀ t, ((processed.map HitEvent.ofChild).flatMap fun event => event.hits t).Perm
      (file.flatMap (FileEvent.written services t))) ∧
    Holds ((processed.map HitEvent.ofChild).foldl processSequential ⟨m, {}, []⟩)
      fun t => file.flatMap (FileEvent.written services t) := by
  have hhits (t : RawHitType) :
      ((processed.map HitEvent.ofChild).flatMap fun event => event.hits t).Perm
        (file.flatMap (FileEvent.written services t)) := by
    rw [FileEvent.passedOn_emitAll hfile hcalls] at hchildren
    rw [List.flatMap_map]
    exact (hprocessed.flatMap_right _).trans (FileEvent.unfolded_perm_written hfile hchildren t)
  exact ⟨hhits, holds_of_perm hhits m⟩

def testMembers : Members where
  integralSum := 1
  coarseTime := 2
  fineTime := 3
  pulsePeak := 4

theorem holds_written_file_test : ∃ calls children,
    EventSource.emitAll {} (FileEvent.testFile.map FileEvent.encode) = .ok calls ∧
    List.Forall₂ (Unfolds EncodedBlock.testServices) (EventSource.passedOn calls) children ∧
    Holds ((children.flatten.map HitEvent.ofChild).foldl processSequential
        ⟨testMembers, {}, []⟩)
      fun t => FileEvent.testFile.flatMap (FileEvent.written EncodedBlock.testServices t) := by
  have hfile := FileEvent.readable_testFile
  have hcalls := EventSource.emitAll_eq {} (FileEvent.testFile.map FileEvent.encode)
  obtain ⟨-, hfits, hhits⟩ := hfile (.block EncodedBlock.testBlock) (by simp [FileEvent.testFile])
  obtain ⟨events, services', hparse, -, hunfolds, -⟩ := FileEvent.exists_unfolded hfits hhits 0
  have hchildren : List.Forall₂ (Unfolds EncodedBlock.testServices)
      (FileEvent.testFile.filterMap FileEvent.blockEvent?)
      [events.map (EventUnfolder.childOf 0)] :=
    .cons ⟨0, events, services', hparse, hunfolds⟩ .nil
  rw [← FileEvent.passedOn_emitAll hfile hcalls] at hchildren
  exact ⟨_, _, hcalls, hchildren, (holds_written_file hfile hcalls hchildren (.refl _) testMembers).2⟩

end EvioProcessor

end JanaExtensions
