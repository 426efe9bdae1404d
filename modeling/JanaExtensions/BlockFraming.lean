import JanaExtensions.EventHitsTable

/-! The framing words of the block-structured parsers. A bank is a sequence of
blocks, each a block header declaring a number of events, the events, and a block
trailer. The parsers differ in what else they read from the framing words and in
their data words. -/

namespace JanaExtensions

/-- The variables that track the open block. A count of -1 means that no block
header is being processed. -/
structure BlockFrame where
  blockSlot : UInt32 := 0
  blockNevents : Int := -1
  eventIndex : UInt64 := 0
  deriving DecidableEq, Repr

namespace BlockFrame

def openBlock (d : UInt32) (s : BlockFrame) : BlockFrame :=
  { s with
    blockSlot := getBitsInRange d 26 22
    blockNevents := (getBitsInRange d 7 0).toNat }

def closeBlock (parser : String) (s : BlockFrame) : Except Fault BlockFrame :=
  if s.blockNevents ≠ 0 then
    .error (.jexception (parser ++
      "::parse: Invalid data format — block trailer word before reading in all events"))
  else .ok { s with blockNevents := -1, eventIndex := 0 }

def countEvent (parser : String) (s : BlockFrame) : Except Fault BlockFrame :=
  if s.blockNevents ≤ 0 then
    .error (.jexception (parser ++
      "::parse: Invalid data format — event header before block header"))
  else .ok { s with blockNevents := s.blockNevents - 1 }

def requireBlock (parser what : String) (s : BlockFrame) : Except Fault Unit :=
  if s.blockNevents < 0 then
    .error (.jexception (parser ++ "::parse: Invalid data format — " ++ what ++
      " word before block & event header"))
  else .ok ()

theorem closeBlock_of_zero {s : BlockFrame} (h : s.blockNevents = 0) (parser : String) :
    s.closeBlock parser = .ok { s with blockNevents := -1, eventIndex := 0 } := by
  simp [closeBlock, h]

theorem countEvent_of_pos {s : BlockFrame} (h : 0 < s.blockNevents) (parser : String) :
    s.countEvent parser = .ok { s with blockNevents := s.blockNevents - 1 } := by
  rw [countEvent, if_neg (by omega)]

theorem requireBlock_of_nonneg {s : BlockFrame} (h : 0 ≤ s.blockNevents)
    (parser what : String) : s.requireBlock parser what = .ok () := by
  rw [requireBlock, if_neg (by omega)]

end BlockFrame

structure BlockState (H : Type) extends BlockFrame, EventHitsTable H

namespace BlockState

variable {H : Type} [AddMonoid H]

def selectEvent (number : UInt64) (s : BlockState H) : BlockState H :=
  { s with
    toEventHitsTable := s.select number
    eventIndex := s.eventIndex + 1 }

/-- The words of an event are being read: a block is open and the event has its container. -/
def InEvent (s : BlockState H) : Prop := 0 ≤ s.blockNevents ∧ s.HasContainer

omit [AddMonoid H] in
theorem InEvent.requireBlock {s : BlockState H} (h : s.InEvent) (parser what : String) :
    s.requireBlock parser what = .ok () := BlockFrame.requireBlock_of_nonneg h.1 parser what

end BlockState

def eventKey (first : UInt64) (k : Nat) : UInt64 := first + UInt64.ofNat k

theorem eventKey_inj {first : UInt64} {k k' : Nat} (hk : k < 2 ^ 64) (hk' : k' < 2 ^ 64)
    (h : eventKey first k = eventKey first k') : k = k' := by
  have hh : UInt64.ofNat k = UInt64.ofNat k' := by
    have := congrArg (fun x => x - first) h
    simpa [eventKey, UInt64.add_comm first, UInt64.add_sub_cancel] using this
  have hn := congrArg UInt64.toNat hh
  rwa [UInt64.toNat_ofNat_of_lt' hk, UInt64.toNat_ofNat_of_lt' hk'] at hn

theorem toCInt_eventKey_inj {first : UInt64} {k k' : Nat} (hk : k < 2 ^ 32) (hk' : k' < 2 ^ 32)
    (h : toCInt (eventKey first k) = toCInt (eventKey first k')) : k = k' := by
  have hmod := toNat_mod_eq_of_toCInt_eq h
  rw [eventKey, eventKey, UInt64.toNat_add, UInt64.toNat_add,
    UInt64.toNat_ofNat_of_lt' (hk.trans (by decide)),
    UInt64.toNat_ofNat_of_lt' (hk'.trans (by decide))] at hmod
  omega

theorem toUInt32_eventKey_inj (first : UInt64) {k k' : Nat} (hk : k < 2 ^ 32) (hk' : k' < 2 ^ 32)
    (h : (eventKey first k).toUInt32.toUInt64 = (eventKey first k').toUInt32.toUInt64) :
    k = k' := by
  have hnumber := congrArg toCInt h
  rw [toCInt_toUInt32, toCInt_toUInt32] at hnumber
  exact toCInt_eventKey_inj hk hk' hnumber

section HitsTable

variable {H : Type} [AddMonoid H]

/-- The hits of the events of a block under the numbers of their positions. -/
def keyedHits (key : Nat → UInt64) (events : List H) : List (UInt64 × H) :=
  events.zipIdx.map fun e => (key e.2, e.1)

def blockHits (first : UInt64) (events : List H) : List (UInt64 × H) :=
  events.zipIdx.map fun e => (eventKey first e.2, e.1)

def hitsTable (first : UInt64) (blocks : List (List H)) : OrderedMap UInt64 H :=
  (blocks.flatMap (blockHits first)).foldl (fun m x => m.addAt x.1 x.2) ∅

def hitsAt (blocks : List (List H)) (k : Nat) : H := (blocks.filterMap fun b => b[k]?).sum

def maxEvents (blocks : List (List H)) : Nat := (blocks.map List.length).foldr max 0

theorem lt_maxEvents {blocks : List (List H)} {k : Nat} :
    k < maxEvents blocks ↔ ∃ b ∈ blocks, k < b.length := by
  induction blocks with
  | nil => simp [maxEvents]
  | cons b blocks ih =>
    have he : maxEvents (b :: blocks) = max b.length (maxEvents blocks) := rfl
    simp [he, ih]

omit [AddMonoid H] in
theorem mem_keyedHits_key {key : Nat → UInt64} {events : List H} {number : UInt64} :
    number ∈ (keyedHits key events).map Prod.fst ↔ ∃ k < events.length, number = key k := by
  simp only [keyedHits, List.map_map, List.mem_map, Function.comp_apply, Prod.exists,
    List.mem_zipIdx_iff_getElem?]
  constructor
  · intro hh
    obtain ⟨e, k, he, rfl⟩ := hh
    exact ⟨k, (List.getElem?_eq_some_iff.mp he).1, rfl⟩
  · intro hh
    obtain ⟨k, hk, rfl⟩ := hh
    exact ⟨events[k], k, List.getElem?_eq_getElem hk, rfl⟩

theorem filter_zipIdx {α : Type} (xs : List α) (i k : Nat) :
    ((xs.zipIdx i).filter fun x => x.2 = i + k).map Prod.fst = xs[k]?.toList := by
  induction xs generalizing i k with
  | nil => simp
  | cons x xs ih =>
    cases k with
    | zero =>
      have hnil : (xs.zipIdx (i + 1)).filter (fun x => x.2 = i) = [] := by
        apply List.filter_eq_nil_iff.mpr
        intro y hy he
        have := List.le_snd_of_mem_zipIdx hy
        simp only [decide_eq_true_eq] at he
        omega
      simp [List.zipIdx_cons, hnil]
    | succ k =>
      have hne : ¬ i = i + (k + 1) := by omega
      have hh := ih (i + 1) k
      simp only [show i + 1 + k = i + (k + 1) by omega] at hh
      simpa [List.zipIdx_cons, hne] using hh

theorem sumAt_flatMap_keyedHits {key : Nat → UInt64} {n : Nat}
    (hkey : ∀ k < n, ∀ k' < n, key k = key k' → k = k') {blocks : List (List H)} {k : Nat}
    (hk : k < n) (hlen : ∀ b ∈ blocks, b.length ≤ n) :
    OrderedMap.sumAt (blocks.flatMap (keyedHits key)) (key k) = hitsAt blocks k := by
  induction blocks with
  | nil => rfl
  | cons b blocks ih =>
    have hb : ((keyedHits key b).filter fun x => x.1 = key k).map Prod.snd = b[k]?.toList := by
      rw [← filter_zipIdx b 0 k, keyedHits, List.filter_map, List.map_map]
      have hf : b.zipIdx.filter ((fun x : UInt64 × H => decide (x.1 = key k)) ∘
          fun e => (key e.2, e.1)) = b.zipIdx.filter fun x => x.2 = 0 + k := by
        apply List.filter_congr
        intro e he
        have hlt := (List.mem_zipIdx' he).1
        have := hlen b (by simp)
        simp only [Function.comp_apply, Nat.zero_add, decide_eq_decide]
        exact ⟨fun h => hkey e.2 (by omega) k hk h, fun h => by rw [h]⟩
      rw [hf]
      rfl
    have hih := ih fun b' hb' => hlen b' (by simp [hb'])
    simp only [OrderedMap.sumAt, hitsAt] at hih ⊢
    rw [List.flatMap_cons, List.filter_append, List.map_append, List.sum_append, hb, hih]
    cases he : b[k]? <;> simp [he]

/-- A bank gives one physics event for each index below the largest block length, if the
numbers of these indices differ. -/
theorem physicsEvents_keyedHits {key : Nat → UInt64} {blocks : List (List H)}
    (hkey : ∀ k < maxEvents blocks, ∀ k' < maxEvents blocks, key k = key k' → k = k') :
    (physicsEvents ((blocks.flatMap (keyedHits key)).foldl (fun m x => m.addAt x.1 x.2) ∅)).Perm
      ((List.range (maxEvents blocks)).map fun k => ⟨toCInt (key k), [hitsAt blocks k]⟩) := by
  have hlen : ∀ b ∈ blocks, b.length ≤ maxEvents blocks := by
    intro b hb
    by_contra hlt
    exact absurd (lt_maxEvents.mpr ⟨b, hb, Nat.lt_of_not_le hlt⟩) (Nat.lt_irrefl _)
  have hentries : ((blocks.flatMap (keyedHits key)).foldl
      (fun m x => m.addAt x.1 x.2) (∅ : OrderedMap UInt64 H)).entries.Perm
      ((List.range (maxEvents blocks)).map fun k => (key k, hitsAt blocks k)) := by
    refine OrderedMap.entries_perm ?_ fun number hits => ?_
    · refine List.Nodup.map_on (fun k hk k' hk' he => ?_) List.nodup_range
      exact hkey k (List.mem_range.mp hk) k' (List.mem_range.mp hk') (Prod.mk.inj he).1
    · have hkeys : number ∈ (blocks.flatMap (keyedHits key)).map Prod.fst ↔
          ∃ k < maxEvents blocks, number = key k := by
        simp only [List.map_flatMap, List.mem_flatMap, mem_keyedHits_key, lt_maxEvents]
        constructor
        · intro hh
          obtain ⟨b, hb, k, hk, rfl⟩ := hh
          exact ⟨k, ⟨b, hb, hk⟩, rfl⟩
        · intro hh
          obtain ⟨k, ⟨b, hb, hk⟩, rfl⟩ := hh
          exact ⟨b, hb, k, hk, rfl⟩
      rw [OrderedMap.find_foldl_addAt, List.mem_map]
      constructor
      · intro hh
        obtain ⟨k, hk, he⟩ := hh
        have hlt := List.mem_range.mp hk
        obtain ⟨rfl, rfl⟩ := Prod.mk.inj he
        rw [if_pos (hkeys.mpr ⟨k, hlt, rfl⟩), sumAt_flatMap_keyedHits hkey hlt hlen]
      · intro h
        split at h
        · rename_i hmem
          obtain ⟨k, hlt, rfl⟩ := hkeys.mp hmem
          rw [sumAt_flatMap_keyedHits hkey hlt hlen] at h
          exact ⟨k, List.mem_range.mpr hlt, by rw [Option.some.inj h]⟩
        · exact absurd h (by simp)
  simpa only [physicsEvents, List.map_map, Function.comp_def] using
    hentries.map fun eventHit : UInt64 × H => (⟨toCInt eventHit.1, [eventHit.2]⟩ : PhysicsEvent H)

theorem physicsEvents_hitsTable (first : UInt64) {blocks : List (List H)}
    (hlen : ∀ b ∈ blocks, b.length < 2 ^ 64) :
    (physicsEvents (hitsTable first blocks)).Perm
      ((List.range (maxEvents blocks)).map fun k =>
        ⟨toCInt (eventKey first k), [hitsAt blocks k]⟩) := by
  have hbound {k : Nat} (hk : k < maxEvents blocks) : k < 2 ^ 64 := by
    obtain ⟨b, hb, hlt⟩ := lt_maxEvents.mp hk
    exact hlt.trans (hlen b hb)
  exact physicsEvents_keyedHits fun k hk k' hk' he => eventKey_inj (hbound hk) (hbound hk') he

end HitsTable

end JanaExtensions
