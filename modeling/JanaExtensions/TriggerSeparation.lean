import JanaExtensions.CAENBank

/-! Whether the measurements of a bank of complete CAEN1190 events are published under
the numbers of their events. -/

namespace JanaExtensions.CAEN1190

theorem flatten_mem_of_pairwise {α : Type*} {xs : List (List α)}
    (h : xs.Pairwise fun a b => a = [] ∨ b = []) : xs.flatten = [] ∨ xs.flatten ∈ xs := by
  induction xs with
  | nil => exact .inl rfl
  | cons x xs ih =>
    have hp := List.pairwise_cons.mp h
    rw [List.flatten_cons]
    by_cases hx : x = []
    · subst hx
      exact (ih hp.2).imp_right (List.mem_cons_of_mem _)
    · have hnil : xs.flatten = [] :=
        List.flatten_eq_nil_iff.mpr fun b hb => (hp.1 b hb).resolve_left hx
      exact .inr (by simp [hnil])

theorem pairwise_of_length_flatten {α : Type*} {xs : List (List α)}
    (h : xs.flatten = [] ∨ ∃ x ∈ xs, xs.flatten.length = x.length) :
    xs.Pairwise fun a b => a = [] ∨ b = [] := by
  induction xs with
  | nil => exact .nil
  | cons x xs ih =>
    have hle : ∀ y ∈ xs, y.length ≤ xs.flatten.length := fun y hy =>
      (List.sublist_flatten_of_mem hy).length_le
    rw [List.flatten_cons, List.append_eq_nil_iff, List.length_append] at h
    refine List.pairwise_cons.mpr ?_
    rcases h with ⟨hx, hnil⟩ | ⟨y, hy, hlen⟩
    · exact ⟨fun _ _ => .inl hx, ih (.inl hnil)⟩
    · rcases List.mem_cons.mp hy with rfl | hy
      · have hnil : xs.flatten = [] := List.length_eq_zero_iff.mp (by omega)
        exact ⟨fun b hb => .inr (List.flatten_eq_nil_iff.mp hnil b hb), ih (.inl hnil)⟩
      · have hx : x = [] := List.length_eq_zero_iff.mp (by have := hle y hy; omega)
        have hsame : xs.flatten.length = y.length := by simpa [hx] using hlen
        exact ⟨fun _ _ => .inl hx, ih (.inr ⟨y, hy, hsame⟩)⟩

theorem flatMap_filter_of_forall {ξ α : Type*} {xs : List ξ} {f : ξ → List α} {p : ξ → Prop}
    [DecidablePred p] {q : Prop} [Decidable q] (h : ∀ x ∈ xs, f x ≠ [] → (p x ↔ q)) :
    (xs.filter p).flatMap f = if q then xs.flatMap f else [] := by
  induction xs with
  | nil => simp
  | cons x xs ih =>
    have hrest := ih fun y hy => h y (List.mem_cons_of_mem x hy)
    by_cases hx : f x = []
    · rw [List.flatMap_cons, hx, List.nil_append, ← hrest, List.filter_cons]
      split <;> simp [hx]
    · have hpq := h x List.mem_cons_self hx
      by_cases hq : q
      · rw [List.filter_cons_of_pos (by simpa using hpq.mpr hq), List.flatMap_cons, hrest,
          if_pos hq, if_pos hq, List.flatMap_cons]
      · rw [List.filter_cons_of_neg (by simpa using fun hp => hq (hpq.mp hp)), hrest, if_neg hq,
          if_neg hq]

/-- The events of a bank, each with the number of events of its slot before it. -/
def numbered (bank : List Event) : List (Event × Nat) :=
  bank.zipIdx.map fun x => (x.1, ((bank.take x.2).filter fun e => e.slot = x.1.slot).length)

/-- The measurements of the events that have the event number `n` by their trigger. -/
def triggerMeasurements (first : UInt64) (bank : List Event) (n : Int) : List Measurement :=
  ((numbered bank).filter fun x => toCInt (eventKey first x.2) = n).flatMap
    fun x => x.1.measurements

def publishedMeasurements (pe : PhysicsEvent EventHitsCAEN1190) : List Measurement :=
  pe.hitsList.flatMap fun hits => hits.caenHits.map measurementOf

/-- Each event number has the measurements of its triggers, and those of a slot in one
published event are the measurements of a single event. -/
def SeparatesTriggers (rocid : UInt32) (triggerData : TriggerData) (bank : List Event) : Prop :=
  ∃ evs, parse rocid triggerData (bank.flatMap Event.encode) = .ok evs ∧
    (∀ n, ((evs.filter fun pe => pe.eventNum = n).flatMap publishedMeasurements).Perm
      (triggerMeasurements triggerData.firstEventNumber bank n)) ∧
    ∀ pe ∈ evs, ∀ slot, (publishedMeasurements pe).filter (fun m => m.slot = slot) = [] ∨
      ∃ e ∈ bank, e.slotValue = slot ∧
        ((publishedMeasurements pe).filter fun m => m.slot = slot).Perm e.measurements

theorem slot_of_mem_measurements {e : Event} {m : Measurement} (h : m ∈ e.measurements) :
    m.slot = e.slotValue := by
  obtain ⟨w, -, hw⟩ := List.mem_filterMap.mp h
  cases w <;> simp only [ChipWord.measurementIn, reduceCtorEq, Option.some.injEq] at hw
  rw [← hw]

theorem slotValue_inj {f f' : EventFrame} (h : f.slotValue = f'.slotValue) : f.slot = f'.slot := by
  have hlt (f : EventFrame) : f.slot.toNat < 2 ^ 32 := f.slot.isLt.trans (by decide)
  have hn := congrArg UInt32.toNat h
  rw [EventFrame.slotValue, EventFrame.slotValue, UInt32.toNat_ofNat_of_lt' (hlt f),
    UInt32.toNat_ofNat_of_lt' (hlt f')] at hn
  exact BitVec.eq_of_toNat_eq hn

theorem filter_slot_measurements (bank : List Event) (slot : UInt32) :
    (bank.flatMap Event.measurements).filter (fun m => m.slot = slot) =
      ((bank.filter fun e => e.slotValue = slot).map Event.measurements).flatten := by
  induction bank with
  | nil => rfl
  | cons e bank ih =>
    rw [List.flatMap_cons, List.filter_append, ih]
    by_cases hs : e.slotValue = slot
    · have hall : e.measurements.filter (fun m => m.slot = slot) = e.measurements :=
        List.filter_eq_self.mpr fun m hm => by simp [slot_of_mem_measurements hm, hs]
      simp [hs, hall]
    · have hnone : e.measurements.filter (fun m => m.slot = slot) = [] :=
        List.filter_eq_nil_iff.mpr fun m hm => by simp [slot_of_mem_measurements hm, hs]
      simp [hs, hnone]

theorem numbered_fst (bank : List Event) : (numbered bank).map Prod.fst = bank := by
  rw [numbered, List.map_map]
  exact List.zipIdx_map_fst 0 bank

theorem toCInt_eventKey_eq_iff {first : UInt64} {j : Nat} :
    toCInt (eventKey first j) = toCInt first ↔ 2 ^ 32 ∣ j := by
  rw [toCInt_eq_iff, eventKey, UInt64.toNat_add, UInt64.toNat_ofNat']
  omega

theorem triggerMeasurements_iff (first : UInt64) (bank : List Event) :
    (∀ n, (if toCInt first = n then bank.flatMap Event.measurements else []).Perm
        (triggerMeasurements first bank n)) ↔
      ∀ x ∈ numbered bank, x.1.measurements ≠ [] → 2 ^ 32 ∣ x.2 := by
  constructor
  · intro h x hx hne
    by_contra hnot
    have hkey := h (toCInt (eventKey first x.2))
    rw [if_neg fun heq => hnot (toCInt_eventKey_eq_iff.mp heq.symm)] at hkey
    have hnil := List.flatMap_eq_nil_iff.mp hkey.nil_eq.symm x
      (List.mem_filter.mpr ⟨hx, by simp⟩)
    exact hne hnil
  · intro h n
    have hkey : ∀ x ∈ numbered bank, x.1.measurements ≠ [] →
        toCInt (eventKey first x.2) = toCInt first :=
      fun x hx hne => toCInt_eventKey_eq_iff.mpr (h x hx hne)
    have hbank : bank.flatMap Event.measurements =
        (numbered bank).flatMap fun x => x.1.measurements := by
      conv_lhs => rw [← numbered_fst bank, List.flatMap_map]
    rw [triggerMeasurements, hbank, flatMap_filter_of_forall fun x hx hne => by
      rw [hkey x hx hne]]

theorem slotsSeparate_iff (bank : List Event) :
    (∀ slot, (bank.flatMap Event.measurements).filter (fun m => m.slot = slot) = [] ∨
      ∃ e ∈ bank, e.slotValue = slot ∧
        ((bank.flatMap Event.measurements).filter fun m => m.slot = slot).Perm e.measurements) ↔
      bank.Pairwise fun e e' => e.slot = e'.slot → e.measurements = [] ∨ e'.measurements = [] := by
  constructor
  · intro h
    refine List.pairwise_iff_forall_sublist.mpr fun {e e'} hsub hs => ?_
    have hpair : ((bank.filter fun x => x.slotValue = e.slotValue).map
        Event.measurements).Pairwise fun a b => a = [] ∨ b = [] := by
      refine pairwise_of_length_flatten ?_
      rw [← filter_slot_measurements]
      refine (h e.slotValue).imp_right ?_
      intro hh
      obtain ⟨x, hx, hxs, hperm⟩ := hh
      exact ⟨x.measurements, List.mem_map.mpr ⟨x, by simp [hx, hxs], rfl⟩, hperm.length_eq⟩
    rw [List.pairwise_map, List.pairwise_filter] at hpair
    have hall := List.pairwise_iff_forall_sublist.mp hpair hsub
    exact hall (by simp) (by simp [EventFrame.slotValue, hs])
  · intro h slot
    have hpair : ((bank.filter fun x => x.slotValue = slot).map
        Event.measurements).Pairwise fun a b => a = [] ∨ b = [] := by
      rw [List.pairwise_map, List.pairwise_filter]
      refine h.imp fun {e e'} himp he he' => himp (slotValue_inj ?_)
      simp only [decide_eq_true_eq] at he he'
      rw [he, he']
    rw [filter_slot_measurements]
    apply (flatten_mem_of_pairwise hpair).imp_right
    intro hmem
    obtain ⟨e, he, heq⟩ := List.mem_map.mp hmem
    rw [List.mem_filter, decide_eq_true_eq] at he
    exact ⟨e, he.1, he.2, by rw [heq]⟩

/-- The measurements of a bank get the numbers of their triggers exactly if each slot has
measurements in one event at most, with no event of the slot before it. In 32-bit event
numbers a multiple of `2 ^ 32` events is like none. -/
theorem separatesTriggers_iff (rocid : UInt32) (triggerData : TriggerData) (bank : List Event) :
    SeparatesTriggers rocid triggerData bank ↔
      (∀ x ∈ numbered bank, x.1.measurements ≠ [] → 2 ^ 32 ∣ x.2) ∧
        bank.Pairwise fun e e' =>
          e.slot = e'.slot → e.measurements = [] ∨ e'.measurements = [] := by
  rw [SeparatesTriggers, parse_bank, ← triggerMeasurements_iff triggerData.firstEventNumber,
    ← slotsSeparate_iff]
  simp only [Except.ok.injEq, exists_eq_left']
  by_cases hbank : bank = []
  · subst hbank
    simp
  · have hpublished : publishedMeasurements
        ⟨toCInt triggerData.firstEventNumber, [⟨(eventReader rocid).emitted bank {}⟩]⟩ =
          bank.flatMap Event.measurements := by
      simpa [publishedMeasurements] using map_emitted rocid bank {}
    rw [if_neg hbank]
    refine and_congr (forall_congr' fun n => ?_) (by simp [hpublished])
    rw [flatMap_filter_of_forall (q := toCInt triggerData.firstEventNumber = n)
      (by simp)]
    simp [hpublished]

def singleMeasurement (eventCount : BitVec 22) (value : BitVec 19) : Event where
  slot := 1
  eventCount
  triggerTime := none
  status := 0
  wordCount := 5
  chipWords := [.header 0 0 0, .measurement 0 3 value, .trailer 0 0 3]

/-- Of two events of a board, the second one is published under the number of the first. -/
theorem second_event_misnumbered :
    ¬ SeparatesTriggers 0 ⟨1, 2⟩ [singleMeasurement 0 100, singleMeasurement 1 200] := by
  intro hh
  obtain ⟨evs, hevs, hnumber, -⟩ := hh
  rw [parse_bank, Except.ok.injEq] at hevs
  subst hevs
  exact absurd (hnumber 2) (by decide +kernel)

end JanaExtensions.CAEN1190
