import JanaExtensions.ModuleParser

/-! The hits containers of a bank by event number, with the number of the event whose
words are being read. -/

namespace JanaExtensions

structure EventHitsTable (H : Type) where
  eventNumber : UInt64 := 0
  eventHitsMap : OrderedMap UInt64 H := ∅

namespace EventHitsTable

variable {H : Type} [AddMonoid H]

/-- Makes a number the current event number, with a hits container if it has none. -/
def select (number : UInt64) (t : EventHitsTable H) : EventHitsTable H where
  eventNumber := number
  eventHitsMap :=
    match t.eventHitsMap.find number with
    | some _ => t.eventHitsMap
    | none => t.eventHitsMap.insert number 0

/-- Appends to the hits container of the current event number. Without a container
this writes through the null pointer that the map operator creates. -/
def addHits (hits : H) (t : EventHitsTable H) : Except Fault (EventHitsTable H) :=
  match t.eventHitsMap.find t.eventNumber with
  | some container =>
    .ok { t with eventHitsMap := t.eventHitsMap.insert t.eventNumber (container + hits) }
  | none => .error .nullEventHits

def withHits (hits : H) (t : EventHitsTable H) : EventHitsTable H :=
  { t with eventHitsMap := t.eventHitsMap.addAt t.eventNumber hits }

def HasContainer (t : EventHitsTable H) : Prop := (t.eventHitsMap.find t.eventNumber).isSome

theorem addHits_of_container {t : EventHitsTable H} (h : t.HasContainer) (hits : H) :
    t.addHits hits = .ok (t.withHits hits) := by
  obtain ⟨container, hc⟩ := Option.isSome_iff_exists.mp h
  simp [addHits, withHits, OrderedMap.addAt, hc]

theorem addHits_of_not_container {t : EventHitsTable H} (h : ¬ t.HasContainer) (hits : H) :
    t.addHits hits = .error .nullEventHits := by
  have hnone : t.eventHitsMap.find t.eventNumber = none := by simpa [HasContainer] using h
  simp [addHits, hnone]

theorem select_map (number : UInt64) (t : EventHitsTable H) :
    (t.select number).eventHitsMap = t.eventHitsMap.addAt number 0 := by
  cases hf : t.eventHitsMap.find number with
  | none => simp [select, OrderedMap.addAt, hf]
  | some container =>
    have hs : (t.eventHitsMap.find number).isSome := by simp [hf]
    simp [select, hf, OrderedMap.addAt_zero hs]

theorem select_hasContainer (number : UInt64) (t : EventHitsTable H) :
    (t.select number).HasContainer := by
  rw [HasContainer, select_map]
  simp [select, OrderedMap.find_addAt]

theorem withHits_hasContainer (hits : H) (t : EventHitsTable H) :
    (t.withHits hits).HasContainer := by
  simp [HasContainer, withHits, OrderedMap.find_addAt]

theorem withHits_withHits (hits hits' : H) (t : EventHitsTable H) :
    (t.withHits hits).withHits hits' = t.withHits (hits + hits') := by
  simp [withHits, OrderedMap.addAt_addAt]

theorem withHits_zero {t : EventHitsTable H} (h : t.HasContainer) : t.withHits 0 = t := by
  simp [withHits, OrderedMap.addAt_zero h]

theorem select_withHits_map (number : UInt64) (hits : H) (t : EventHitsTable H) :
    ((t.select number).withHits hits).eventHitsMap = t.eventHitsMap.addAt number hits := by
  change (t.select number).eventHitsMap.addAt number hits = _
  rw [select_map, OrderedMap.addAt_addAt, zero_add]

end EventHitsTable

end JanaExtensions
