import JanaExtensions.BlockFraming
import JanaExtensions.WordLoop

/-! Banks that are written block by block, and that reading them gives back what the events
of the blocks stand for. A module gives the words of its headers, trailers and events, and
shows how one of each is read. -/

namespace JanaExtensions

open WordLoop Failing

/-- A state of a parser that has the hits containers among its fields. -/
class HasHitsTable (σ : Type) (H : outParam Type) where
  table : σ → EventHitsTable H
  setTable : EventHitsTable H → σ → σ
  table_setTable : ∀ t s, table (setTable t s) = t
  setTable_setTable : ∀ t t' s, setTable t' (setTable t s) = setTable t' s
  setTable_table : ∀ s, setTable (table s) s = s

section Records

open HasHitsTable

variable {σ H ρ : Type} [AddMonoid H] [HasHitsTable σ H]

/-- The state with more hits in the container of the current event. -/
def withHits (hits : H) (s : σ) : σ := setTable ((table s).withHits hits) s

theorem withHits_withHits (hits hits' : H) (s : σ) :
    withHits hits' (withHits hits s) = withHits (hits + hits') s := by
  rw [withHits, withHits, table_setTable, setTable_setTable, EventHitsTable.withHits_withHits,
    withHits]

theorem withHits_zero {s : σ} (h : (table s).HasContainer) : withHits 0 s = s := by
  rw [withHits, EventHitsTable.withHits_zero h, setTable_table]

/-- Records that are read one by one in the states of an open event, where each of them adds its
hits. -/
theorem reads_records {body : UInt32 → List UInt32 → σ → Except Fault (Nat × σ)}
    {Q : List UInt32 → Prop} {I : σ → Prop} {encode : ρ → List UInt32} {hits : ρ → H}
    (hrecord : ∀ r s, I s → ReadsBefore body Q (encode r) s (withHits (hits r) s))
    (hopen : ∀ s h, I s → I (withHits h s))
    (hcontainer : ∀ s, I s → (table s).HasContainer)
    (hstart : ∀ r post, Q post → Q (encode r ++ post)) (records : List ρ) {s : σ} (hs : I s) :
    ReadsBefore body Q (records.flatMap encode) s (withHits (records.map hits).sum s) := by
  have hbefore : ∀ (records : List ρ) post, Q post → Q (records.flatMap encode ++ post) := by
    intro records post hpost
    induction records with
    | nil => exact hpost
    | cons r records ih =>
      rw [List.flatMap_cons, List.append_assoc]
      exact hstart r _ ih
  induction records generalizing s with
  | nil =>
    rw [List.map_nil, List.sum_nil, withHits_zero (hcontainer s hs)]
    exact ReadsBefore.nil s
  | cons r records ih =>
    have hmore := ih (hopen s (hits r) hs)
    rw [withHits_withHits] at hmore
    rw [List.flatMap_cons, List.map_cons, List.sum_cons]
    exact (hrecord r s hs).append (hbefore records) hmore

end Records

section Codec

variable {σ H E B : Type} [AddMonoid H] (body : UInt32 → List UInt32 → σ → Except Fault (Nat × σ))
  (blockState : σ → BlockState H) (key : UInt64 → UInt64)

/-- The words of an event of the open block are read and its hits are added to the container
of the event index, on which they may depend. `Ready` holds in the states in which the block
is open, `Q` of what may follow an event. -/
def ReadsEvent (Q : List UInt32 → Prop) (Ready : σ → Prop) (words : List UInt32)
    (hits : UInt64 → H) : Prop :=
  ∀ s, Ready s → 0 < (blockState s).blockNevents →
    ∃ s', ReadsBefore body Q words s s' ∧ Ready s' ∧
      (blockState s').blockNevents = (blockState s).blockNevents - 1 ∧
      (blockState s').eventIndex = (blockState s).eventIndex + 1 ∧
      (blockState s').eventHitsMap =
        (blockState s).eventHitsMap.addAt (key (blockState s).eventIndex)
          (hits (blockState s).eventIndex)

/-- The words of a block are read and the hits of its events are added at their positions. -/
def ReadsBlock (words : List UInt32) (events : List H) : Prop :=
  ∀ s, (blockState s).eventIndex = 0 →
    ∃ s', ReadsBefore body (fun _ => True) words s s' ∧ (blockState s').eventIndex = 0 ∧
      (blockState s').eventHitsMap =
        (keyedHits (fun k => key (UInt64.ofNat k)) events).foldl (fun m x => m.addAt x.1 x.2)
          (blockState s).eventHitsMap

/-- How the words before and after the events of a block are read. -/
structure ReadsFrame (Ready : σ → Prop) (headerWords trailerWords : List UInt32) (nevents : Nat) :
    Prop where
  header : ∀ s, ∃ s', ReadsBefore body (fun _ => True) headerWords s s' ∧ Ready s' ∧
    (blockState s').blockNevents = nevents ∧
    (blockState s').eventIndex = (blockState s).eventIndex ∧
    (blockState s').eventHitsMap = (blockState s).eventHitsMap
  trailer : ∀ s, Ready s → (blockState s).blockNevents = 0 →
    ∃ s', ReadsBefore body (fun _ => True) trailerWords s s' ∧ (blockState s').eventIndex = 0 ∧
      (blockState s').eventHitsMap = (blockState s).eventHitsMap

variable {body blockState key} {Q : List UInt32 → Prop} {Ready : σ → Prop}
  {encode : E → List UInt32} {hits : E → UInt64 → H}

omit [AddMonoid H] in
theorem keyedHits_mapIdx (key : Nat → UInt64) (f : Nat → E → H) (events : List E) :
    keyedHits key (events.mapIdx f) = events.zipIdx.map fun e => (key e.2, f e.2 e.1) := by
  apply List.ext_getElem?
  intro i
  simp only [keyedHits, List.getElem?_map, List.getElem?_zipIdx, List.getElem?_mapIdx]
  cases events[i]? <;> simp

omit [AddMonoid H] in
theorem mapIdx_eq_map (f : E → H) (events : List E) :
    (events.mapIdx fun _ e => f e) = events.map f := by
  apply List.ext_getElem?
  intro i
  rw [List.getElem?_mapIdx, List.getElem?_map]

/-- Some events of a block are read, and `rest` are still to come. -/
theorem reads_events (hstart : ∀ e post, Q (encode e ++ post)) {events : List E}
    (hevents : ∀ e ∈ events, ReadsEvent body blockState key Q Ready (encode e) (hits e))
    (rest : Nat) {i : Nat} {s : σ} (hs : Ready s)
    (hn : (blockState s).blockNevents = events.length + rest)
    (hi : (blockState s).eventIndex = UInt64.ofNat i) :
    ∃ s', ReadsBefore body Q (events.flatMap encode) s s' ∧ Ready s' ∧
      (blockState s').blockNevents = rest ∧
      (blockState s').eventHitsMap =
        ((events.zipIdx i).map fun e =>
            (key (UInt64.ofNat e.2), hits e.1 (UInt64.ofNat e.2))).foldl
          (fun m x => m.addAt x.1 x.2) (blockState s).eventHitsMap := by
  induction events generalizing i s with
  | nil => exact ⟨s, ReadsBefore.nil s, hs, by simpa using hn, rfl⟩
  | cons e events ih =>
    rw [List.length_cons] at hn
    obtain ⟨t, hevent, ht, hnevents, hindex, hmap⟩ := hevents e (by simp) s hs (by omega)
    have hnext : (blockState t).eventIndex = UInt64.ofNat (i + 1) := by
      rw [hindex, hi, UInt64.ofNat_add]
      rfl
    obtain ⟨s', hreads, hs', hrest, hmap'⟩ := ih (fun x hx => hevents x (by simp [hx])) ht
      (by rw [hnevents, hn]; omega) hnext
    refine ⟨s', ?_, hs', hrest, ?_⟩
    · rw [List.flatMap_cons]
      refine hevent.append (fun post hpost => ?_) hreads
      cases events with
      | nil => exact hpost
      | cons x events =>
        rw [List.flatMap_cons, List.append_assoc]
        exact hstart x _
    · rw [hmap', hmap, hi, List.zipIdx_cons, List.map_cons, List.foldl_cons]

theorem readsBlock {headerWords trailerWords : List UInt32} {events : List E}
    (hframe : ReadsFrame body blockState Ready headerWords trailerWords events.length)
    (hstart : ∀ e post, Q (encode e ++ post)) (htrailer : ∀ post, Q (trailerWords ++ post))
    (hevents : ∀ e ∈ events, ReadsEvent body blockState key Q Ready (encode e) (hits e)) :
    ReadsBlock body blockState key (headerWords ++ (events.flatMap encode ++ trailerWords))
      (events.mapIdx fun k e => hits e (UInt64.ofNat k)) := by
  intro s hi
  obtain ⟨s₁, hheader, hready, hn, hindex, hmap₁⟩ := hframe.header s
  obtain ⟨s₂, hreads, hready₂, hzero, hmap₂⟩ := reads_events hstart hevents 0 hready
    (by simpa using hn) (hindex.trans hi)
  obtain ⟨s', hclose, hindex', hmap'⟩ := hframe.trailer s₂ hready₂ hzero
  refine ⟨s', ?_, hindex', ?_⟩
  · have hbody := hreads.append (fun post _ => htrailer post) hclose
    exact hheader.append (fun _ _ => trivial) hbody
  · rw [hmap', hmap₂, hmap₁, keyedHits_mapIdx]

theorem reads_blocks {encode : B → List UInt32} {hits : B → List H} {blocks : List B}
    (hblocks : ∀ b ∈ blocks, ReadsBlock body blockState key (encode b) (hits b)) {s : σ}
    (hi : (blockState s).eventIndex = 0) :
    ∃ s', ReadsBefore body (fun _ => True) (blocks.flatMap encode) s s' ∧
      (blockState s').eventIndex = 0 ∧
      (blockState s').eventHitsMap =
        ((blocks.map hits).flatMap (keyedHits fun k => key (UInt64.ofNat k))).foldl
          (fun m x => m.addAt x.1 x.2) (blockState s).eventHitsMap := by
  induction blocks generalizing s with
  | nil => exact ⟨s, ReadsBefore.nil s, hi, rfl⟩
  | cons b blocks ih =>
    obtain ⟨t, hblock, hindex, hmap⟩ := hblocks b (by simp) s hi
    obtain ⟨s', hreads, hindex', hmap'⟩ := ih (fun x hx => hblocks x (by simp [hx])) hindex
    refine ⟨s', ?_, hindex', ?_⟩
    · rw [List.flatMap_cons]
      exact hblock.append (fun _ _ => trivial) hreads
    · rw [hmap', hmap, List.map_cons, List.flatMap_cons, List.foldl_append]

/-- Reading a bank of blocks adds the hits of all events at their positions. -/
theorem run_bank (init : σ) {fillers : List UInt32} (hfillers : Skips body fillers)
    {encode : B → List UInt32} {hits : B → List H} {blocks : List B}
    (hblocks : ∀ b ∈ blocks, ReadsBlock body blockState key (encode b) (hits b))
    (hinit : blockState init = {}) :
    ∃ s, run body 0 (fillers ++ blocks.flatMap encode) init = .ok s ∧
      (blockState s).eventHitsMap =
        ((blocks.map hits).flatMap (keyedHits fun k => key (UInt64.ofNat k))).foldl
          (fun m x => m.addAt x.1 x.2) ∅ := by
  obtain ⟨s, hreads, -, hmap⟩ := reads_blocks (s := init) hblocks (by rw [hinit])
  refine ⟨s, ?_, ?_⟩
  · have hbank := (hfillers init).append (fun _ _ => trivial) hreads
    exact hbank.run_eq trivial
  · rw [hmap, hinit]

/-- A bank of blocks is read into one physics event for each position of its largest block,
with the hits of that position in all blocks. -/
theorem physicsEvents_bank {first : UInt64} (init : σ) {fillers : List UInt32}
    (hfillers : Skips body fillers) {encode : B → List UInt32} {hits : B → List H}
    {blocks : List B}
    (hblocks : ∀ b ∈ blocks, ReadsBlock body blockState (first + ·) (encode b) (hits b))
    (hinit : blockState init = {}) (hlen : ∀ b ∈ blocks, (hits b).length < 2 ^ 64) :
    ∃ s, run body 0 (fillers ++ blocks.flatMap encode) init = .ok s ∧
      (physicsEvents (blockState s).eventHitsMap).Perm
        ((List.range (maxEvents (blocks.map hits))).map fun k =>
          ⟨toCInt (eventKey first k), [hitsAt (blocks.map hits) k]⟩) := by
  obtain ⟨s, hrun, hmap⟩ := run_bank init hfillers hblocks hinit
  have htable : (blockState s).eventHitsMap = hitsTable first (blocks.map hits) := hmap
  refine ⟨s, hrun, ?_⟩
  rw [htable]
  apply physicsEvents_hitsTable
  intro events hevents
  obtain ⟨b, hb, rfl⟩ := List.mem_map.mp hevents
  exact hlen b hb

end Codec

end JanaExtensions
