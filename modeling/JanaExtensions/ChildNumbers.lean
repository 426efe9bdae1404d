import JanaExtensions.BlockRange

/-! The event numbers of the child events of a block. On the way from the trigger bank to
the child an event number is a signed 32-bit key, which is extended to 64 bits again. -/

namespace JanaExtensions

namespace EventUnfolder

variable {H : Type} {physicsEvents : List (PhysicsEvent H)} {parentRun : Int}

theorem unfold_ok {iter : Nat} {result : Result} {child : JEvent H}
    (h : unfold physicsEvents parentRun {} iter = .ok (result, child)) :
    ∃ pe, physicsEvents[iter]? = some pe ∧ child = childOf parentRun pe ∧
      result = if iter + 1 = physicsEvents.length then .nextChildNextParent
        else .nextChildKeepParent := by
  cases hpe : physicsEvents[iter]? with
  | none =>
    have hle : physicsEvents.length ≤ toSizeT iter := by
      simpa [toSizeT] using List.getElem?_eq_none_iff.mp hpe
    rw [unfold, if_pos hle] at h
    exact absurd h (by simp)
  | some pe =>
    rw [unfold_at hpe] at h
    obtain ⟨hresult, hchild⟩ := Prod.mk.inj (Except.ok.inj h)
    exact ⟨pe, rfl, hchild.symm, hresult.symm⟩

theorem UnfoldsFrom.children_eq {iter : Nat} {children : List (JEvent H)}
    (h : UnfoldsFrom physicsEvents parentRun iter children) :
    children = (physicsEvents.drop iter).map (childOf parentRun) := by
  induction h with
  | @last iter child h =>
    obtain ⟨pe, hpe, rfl, hresult⟩ := unfold_ok h
    have hlast : iter + 1 = physicsEvents.length := by
      by_contra hne
      rw [if_neg hne] at hresult
      exact absurd hresult (by simp)
    have hlt := (List.getElem?_eq_some_iff.mp hpe).1
    rw [List.drop_eq_getElem_cons hlt, List.drop_eq_nil_of_le hlast.ge, List.map_singleton,
      (List.getElem?_eq_some_iff.mp hpe).2]
  | @next iter child children h hrest ih =>
    obtain ⟨pe, hpe, rfl, -⟩ := unfold_ok h
    have hlt := (List.getElem?_eq_some_iff.mp hpe).1
    rw [List.drop_eq_getElem_cons hlt, List.map_cons, (List.getElem?_eq_some_iff.mp hpe).2, ih]

end EventUnfolder

namespace EvioEventParser

def ChildrenNumbered (events : List (PhysicsEvent EventHits)) (parentRun : Int)
    (numbers : List UInt64) : Prop :=
  ∃ children, EventUnfolder.UnfoldsFrom events parentRun 0 children ∧
    children.map JEvent.eventNumber = numbers

def blockNumbers (first : UInt64) (n : Nat) : List UInt64 := (List.range n).map (eventKey first)

theorem map_blockNumbers {β : Type} (g : UInt64 → β) (first : UInt64) (n : Nat) :
    (blockNumbers first n).map g = (List.range n).map fun k => g (eventKey first k) := by
  rw [blockNumbers, List.map_map]
  rfl

section Widening

theorem ofInt_toNat (x : Int) : (UInt64.ofInt x).toNat = (x % 2 ^ 64).toNat := by
  rw [UInt64.ofInt, UInt64.toNat_ofNat']
  omega

/-- A number that is not in the middle of the 64-bit range survives the way through `int`,
and no number becomes one in the middle. -/
theorem ofInt_toCInt_eq_iff (n : UInt64) :
    UInt64.ofInt (toCInt n) = n ↔ n.toNat < 2 ^ 31 ∨ 2 ^ 64 - 2 ^ 31 ≤ n.toNat := by
  rw [← UInt64.toNat_inj, ofInt_toNat]
  have hn := n.toNat_lt
  by_cases hlow : n.toNat % 2 ^ 32 < 2 ^ 31
  · rw [toCInt_of_lt hlow]
    omega
  · rw [toCInt_of_le (by omega)]
    omega

theorem ofInt_toCInt_ends (n : UInt64) : (UInt64.ofInt (toCInt n)).toNat < 2 ^ 31 ∨
    2 ^ 64 - 2 ^ 31 ≤ (UInt64.ofInt (toCInt n)).toNat := by
  rw [ofInt_toNat]
  by_cases hlow : n.toNat % 2 ^ 32 < 2 ^ 31
  · rw [toCInt_of_lt hlow]
    omega
  · rw [toCInt_of_le (by omega)]
    omega

theorem toCInt_of_small {n : UInt64} (h : n.toNat < 2 ^ 31) : toCInt n = n.toNat := by
  rw [toCInt_of_lt (by omega)]
  omega

theorem toCInt_of_large {n : UInt64} (h : 2 ^ 64 - 2 ^ 31 ≤ n.toNat) :
    toCInt n = n.toNat - 2 ^ 64 := by
  have hn := n.toNat_lt
  rw [toCInt_of_le (by omega)]
  omega

theorem toNat_eventKey {first : UInt64} {n k : Nat} (hbounded : first.toNat + n ≤ 2 ^ 64)
    (hk : k < n) : (eventKey first k).toNat = first.toNat + k := by
  rw [eventKey, UInt64.toNat_add, UInt64.toNat_ofNat']
  omega

end Widening

section ChildNumbers

variable {eventNumber : UInt64} {event : EvioEvent} {services services' : Services CommonParser}
  {events : List (PhysicsEvent EventHits)} {n : Nat}

/-- The banks of the block hold the events with the indices below `n`. -/
def HoldsEvents (services : Services CommonParser) (event : EvioEvent) (n : Nat) : Prop :=
  ∀ k, k < n ↔ ∃ inv ∈ invocations services (dataBanks event),
    ∃ i ∈ inv.publishedIndices (triggerDataOf event), i.toNat = k

theorem mem_eventNum_iff_of_holds
    (hparse : parse CommonParser.invoke eventNumber event services = .ok (events, services'))
    (hholds : HoldsEvents services event n) (num : Int) :
    num ∈ events.map PhysicsEvent.eventNum ↔
      ∃ k < n, num = toCInt (eventKey (triggerDataOf event).firstEventNumber k) := by
  rw [mem_eventNum_iff hparse]
  constructor
  · intro hh
    obtain ⟨inv, hinv, i, hi, hnum⟩ := hh
    refine ⟨i.toNat, (hholds i.toNat).mpr ⟨inv, hinv, i, hi, rfl⟩, ?_⟩
    rw [eventKey, UInt64.ofNat_toNat, hnum]
  · intro hh
    obtain ⟨k, hk, hnum⟩ := hh
    obtain ⟨inv, hinv, i, hi, rfl⟩ := (hholds k).mp hk
    refine ⟨inv, hinv, i, hi, ?_⟩
    rw [hnum, eventKey, UInt64.ofNat_toNat]

theorem eventNums_eq
    (hparse : parse CommonParser.invoke eventNumber event services = .ok (events, services'))
    (hholds : HoldsEvents services event n)
    (hmono : ∀ k k', k < k' → k' < n →
      toCInt (eventKey (triggerDataOf event).firstEventNumber k) <
        toCInt (eventKey (triggerDataOf event).firstEventNumber k')) :
    events.map PhysicsEvent.eventNum =
      (blockNumbers (triggerDataOf event).firstEventNumber n).map toCInt := by
  have hsorted : (events.map PhysicsEvent.eventNum).Pairwise (· < ·) := by
    obtain ⟨published, -, rfl, -, -⟩ := exists_published hparse
    exact List.pairwise_map.mpr (consolidate_sorted published)
  have hsorted' : ((blockNumbers (triggerDataOf event).firstEventNumber n).map toCInt).Pairwise
      (· < ·) := by
    rw [map_blockNumbers, List.pairwise_map]
    refine List.pairwise_lt_range.imp_of_mem fun {k k'} _ hk' hlt => ?_
    exact hmono k k' hlt (List.mem_range.mp hk')
  have hperm : (events.map PhysicsEvent.eventNum).Perm
      ((blockNumbers (triggerDataOf event).firstEventNumber n).map toCInt) := by
    refine (List.perm_ext_iff_of_nodup (hsorted.imp ne_of_lt) (hsorted'.imp ne_of_lt)).mpr ?_
    intro num
    rw [mem_eventNum_iff_of_holds hparse hholds, map_blockNumbers, List.mem_map]
    simp only [List.mem_range, eq_comm]
  exact hperm.eq_of_pairwise (fun a b _ _ hab hba => absurd hab hba.asymm) hsorted hsorted'

theorem exists_eventNum
    (hparse : parse CommonParser.invoke eventNumber event services = .ok (events, services')) :
    ∃ num, num ∈ events.map PhysicsEvent.eventNum := by
  obtain ⟨published, hne, rfl, -, -⟩ := exists_published hparse
  obtain ⟨pe, hpe⟩ := List.exists_mem_of_ne_nil published hne
  refine ⟨pe.eventNum, ?_⟩
  rw [eventNum_consolidate, mem_keys_foldl_mergeEvent]
  exact List.mem_map.mpr ⟨pe, hpe, rfl⟩

theorem childrenNumbered_iff_map
    (hparse : parse CommonParser.invoke eventNumber event services = .ok (events, services'))
    {parentRun : Int} {numbers : List UInt64} :
    ChildrenNumbered events parentRun numbers ↔
      (events.map PhysicsEvent.eventNum).map UInt64.ofInt = numbers := by
  have hpos : 0 < events.length := by
    obtain ⟨num, hnum⟩ := exists_eventNum hparse
    rw [← List.length_map (f := PhysicsEvent.eventNum)]
    exact List.length_pos_of_mem hnum
  have hnumbers : (events.map (EventUnfolder.childOf parentRun)).map JEvent.eventNumber =
      (events.map PhysicsEvent.eventNum).map UInt64.ofInt := by
    rw [List.map_map, List.map_map]
    rfl
  rw [← hnumbers]
  constructor
  · intro hh
    obtain ⟨children, hunfolds, hmap⟩ := hh
    rw [← hmap, hunfolds.children_eq, List.drop_zero]
  · intro hmap
    exact ⟨_, EventUnfolder.unfoldsFrom_drop parentRun hpos, hmap⟩

/-- The children of a block have the numbers of its events exactly if these fit in an `int`,
or are so large that they are negative as an `int` from the first on. -/
theorem childNumbers_iff
    (hparse : parse CommonParser.invoke eventNumber event services = .ok (events, services'))
    (hholds : HoldsEvents services event n) (hn : n < 2 ^ 31)
    (hbounded : (triggerDataOf event).firstEventNumber.toNat + n ≤ 2 ^ 64) (parentRun : Int) :
    ChildrenNumbered events parentRun (blockNumbers (triggerDataOf event).firstEventNumber n) ↔
      (triggerDataOf event).firstEventNumber.toNat + n ≤ 2 ^ 31 ∨
        2 ^ 64 - 2 ^ 31 ≤ (triggerDataOf event).firstEventNumber.toNat := by
  have hmem := mem_eventNum_iff_of_holds hparse hholds
  have hpos : 0 < n := by
    obtain ⟨num, hnum⟩ := exists_eventNum hparse
    obtain ⟨k, hk, -⟩ := (hmem num).mp hnum
    omega
  have hmono := eventNums_eq hparse hholds
  rw [childrenNumbered_iff_map hparse]
  have hkey : ∀ k, k < n → (eventKey (triggerDataOf event).firstEventNumber k).toNat =
      (triggerDataOf event).firstEventNumber.toNat + k := fun k hk => toNat_eventKey hbounded hk
  generalize (triggerDataOf event).firstEventNumber = first at *
  constructor
  · intro hnumbers
    by_contra hnot
    -- the first event whose number is neither an `int` nor the extension of one
    let k := 2 ^ 31 - first.toNat
    have hk : k < n := by omega
    have hlisted : eventKey first k ∈ (events.map PhysicsEvent.eventNum).map UInt64.ofInt := by
      rw [hnumbers, blockNumbers]
      exact List.mem_map.mpr ⟨k, List.mem_range.mpr hk, rfl⟩
    obtain ⟨num, hnum, hext⟩ := List.mem_map.mp hlisted
    obtain ⟨k', -, hkey'⟩ := (hmem num).mp hnum
    have hends := ofInt_toCInt_ends (eventKey first k')
    rw [← hkey', hext, hkey k hk] at hends
    omega
  · intro hfits
    have hends : ∀ k, k < n → (eventKey first k).toNat < 2 ^ 31 ∨
        2 ^ 64 - 2 ^ 31 ≤ (eventKey first k).toNat := by
      intro k hk
      rw [hkey k hk]
      omega
    rw [hmono]
    · rw [List.map_map]
      refine (List.map_congr_left fun number hnumber => ?_).trans (List.map_id _)
      obtain ⟨k, hk, rfl⟩ := List.mem_map.mp hnumber
      exact (ofInt_toCInt_eq_iff _).mpr (hends k (List.mem_range.mp hk))
    · intro k k' hlt hk'
      have hk := hkey k (hlt.trans hk')
      have hk'' := hkey k' hk'
      rcases hfits with hsmall | hlarge
      · rw [toCInt_of_small (by omega), toCInt_of_small (by omega)]
        omega
      · rw [toCInt_of_large (by omega), toCInt_of_large (by omega)]
        omega

end ChildNumbers

/-- A block with one timestamp holds one event, the one of its scaler record. -/
theorem holdsEvents_scalerBlock (first : UInt64)
    (hfirst : (triggerDataOf (scalerBlock [first, 0])).lastEventNumber = first) :
    HoldsEvents scalerServices (scalerBlock [first, 0]) 1 := by
  have hinvs : invocations scalerServices (dataBanks (scalerBlock [first, 0])) =
      [⟨.fadcScaler, .node 7 0 uint32DataType [0x00010500] [] [], ⟨1, 7, 0, uint32DataType⟩⟩] := rfl
  have hindex : (triggerDataOf (scalerBlock [first, 0])).lastEventNumber -
      (triggerDataOf (scalerBlock [first, 0])).firstEventNumber = 0 := by
    rw [hfirst]
    exact UInt64.sub_self first
  intro k
  simp [hinvs, Invocation.publishedIndices, CommonParser.publishedIndices, hindex, eq_comm]

theorem holdsEvents_twoEventBlock : HoldsEvents twoEventServices twoEventBlock 2 := by
  have hinvs : invocations twoEventServices (dataBanks twoEventBlock) =
      [⟨.fadc, .node 2 0 uint32DataType twoEventBank [] [], ⟨1, 2, 0, uint32DataType⟩⟩,
        ⟨.fadcScaler, .node 7 0 uint32DataType [0x00010500] [] [], ⟨1, 7, 0, uint32DataType⟩⟩] :=
    rfl
  have hfadc : headerIndices (classified FADC.readAs twoEventBank) = [0, 1] := by decide
  have hscaler : (triggerDataOf twoEventBlock).lastEventNumber -
      (triggerDataOf twoEventBlock).firstEventNumber = 1 := by decide
  intro k
  simp only [hinvs, Invocation.publishedIndices, CommonParser.publishedIndices, List.mem_cons,
    List.not_mem_nil, or_false, exists_eq_or_imp, exists_eq_left, hscaler]
  change k < 2 ↔ (∃ i ∈ headerIndices (classified FADC.readAs twoEventBank), i.toNat = k) ∨ _
  rw [hfadc]
  simp
  omega

theorem childNumbers_iff_of_twoEvents : ∃ events, events.length = 2 ∧
    (ChildrenNumbered events 0 (blockNumbers 5 2) ↔
      5 + 2 ≤ 2 ^ 31 ∨ 2 ^ 64 - 2 ^ 31 ≤ 5) := by
  obtain ⟨events, services', hlength, hparse⟩ := parse_twoEventBlock
  exact ⟨events, hlength,
    childNumbers_iff hparse holdsEvents_twoEventBlock (by decide) (by decide) 0⟩

/-- The event with the number 2^31 becomes a child with the number 2^64 - 2^31. -/
theorem child_number_lost : PublishesRecord [2147483648, 0] (-2147483648) ∧
    HoldsEvents scalerServices (scalerBlock [2147483648, 0]) 1 ∧
    ChildrenNumbered (scalerEvents (-2147483648)) 0 [18446744071562067968] ∧
    ¬ ChildrenNumbered (scalerEvents (-2147483648)) 0 (blockNumbers 2147483648 1) := by
  have hpublishes : PublishesRecord [2147483648, 0] (-2147483648) := by decide +kernel
  obtain ⟨services', hparse⟩ := parse_of_publishesRecord hpublishes
  refine ⟨hpublishes, holdsEvents_scalerBlock 2147483648 rfl, ?_, ?_⟩
  · rw [childrenNumbered_iff_map hparse]
    decide
  · rw [childrenNumbered_iff_map hparse]
    decide

end EvioEventParser

end JanaExtensions
