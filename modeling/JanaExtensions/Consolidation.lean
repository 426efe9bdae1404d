import JanaExtensions.Evio
import JanaExtensions.Grouping

/-! The end of block parsing, where the physics events of all module parsers are
merged by event number, and the unfolder that turns each merged event into a
child event. Between the two no hits container is lost, repeated or moved. -/

namespace JanaExtensions

variable {H : Type}

namespace PhysicsEvent

def addHits (event : PhysicsEvent H) (hits : H) : PhysicsEvent H :=
  { event with hitsList := event.hitsList ++ [hits] }

/-- The target event after `pe` has moved all its hits into it. -/
def insertHitsInto (pe other : PhysicsEvent H) : PhysicsEvent H :=
  pe.hitsList.foldl addHits other

theorem insertHitsInto_eq (pe other : PhysicsEvent H) :
    pe.insertHitsInto other = ⟨other.eventNum, other.hitsList ++ pe.hitsList⟩ := by
  obtain ⟨num, hits⟩ := pe
  induction hits generalizing other with
  | nil => simp [insertHitsInto]
  | cons h hs ih =>
    have hh := ih (other.addHits h)
    simp only [insertHitsInto, List.foldl_cons] at hh ⊢
    rw [hh]
    simp [addHits]

end PhysicsEvent

def mergeEvent (eventMap : OrderedMap Int (PhysicsEvent H)) (pe : PhysicsEvent H) :
    OrderedMap Int (PhysicsEvent H) :=
  match eventMap.find pe.eventNum with
  | some existing => eventMap.insert pe.eventNum (pe.insertHitsInto existing)
  | none => eventMap.insert pe.eventNum pe

def consolidate (events : List (PhysicsEvent H)) : List (PhysicsEvent H) :=
  (events.foldl mergeEvent ∅).entries.map Prod.snd

def hitsOf (events : List (PhysicsEvent H)) (num : Int) : List H :=
  (events.filter fun pe => pe.eventNum = num).flatMap PhysicsEvent.hitsList

theorem hitsOf_append (events events' : List (PhysicsEvent H)) (num : Int) :
    hitsOf (events ++ events') num = hitsOf events num ++ hitsOf events' num := by
  simp [hitsOf]

theorem hitsOf_self (pe : PhysicsEvent H) : hitsOf [pe] pe.eventNum = pe.hitsList := by
  simp [hitsOf]

theorem hitsOf_eq_nil {events : List (PhysicsEvent H)} {num : Int}
    (h : num ∉ events.map PhysicsEvent.eventNum) : hitsOf events num = [] := by
  have hf : events.filter (fun pe => pe.eventNum = num) = [] := by
    refine List.filter_eq_nil_iff.mpr fun pe hpe he => h ?_
    exact List.mem_map.mpr ⟨pe, hpe, by simpa using he⟩
  simp [hitsOf, hf]

theorem find_mergeEvent (eventMap : OrderedMap Int (PhysicsEvent H)) (pe : PhysicsEvent H)
    (num : Int) :
    (mergeEvent eventMap pe).find num =
      if num = pe.eventNum then
        some (((eventMap.find num).map pe.insertHitsInto).getD pe)
      else eventMap.find num := by
  by_cases hnum : num = pe.eventNum
  · subst hnum
    cases hf : eventMap.find pe.eventNum <;> simp [mergeEvent, hf]
  · cases hf : eventMap.find pe.eventNum <;>
      simp [mergeEvent, hf, OrderedMap.find_insert_ne _ hnum, hnum]

theorem find_foldl_mergeEvent (events : List (PhysicsEvent H)) (num : Int) :
    (events.foldl mergeEvent ∅).find num =
      if num ∈ events.map PhysicsEvent.eventNum then some ⟨num, hitsOf events num⟩ else none := by
  induction events using List.reverseRecOn with
  | nil => simp
  | append_singleton events pe ih =>
    rw [List.foldl_append, List.foldl_cons, List.foldl_nil, find_mergeEvent, ih, hitsOf_append]
    by_cases hnum : num = pe.eventNum
    · subst hnum
      by_cases hmem : pe.eventNum ∈ events.map PhysicsEvent.eventNum
      · simp only [hmem, if_true, Option.map_some, PhysicsEvent.insertHitsInto_eq, hitsOf_self]
        simp
      · simp only [hmem, if_false, Option.map_none, hitsOf_eq_nil hmem, hitsOf_self]
        simp
    · have hone : hitsOf [pe] num = [] := hitsOf_eq_nil (by simpa using hnum)
      simp only [hnum, if_false, hone, List.append_nil, List.map_append, List.map_cons,
        List.map_nil, List.mem_append, List.mem_singleton, or_false]

theorem consolidate_eq (events : List (PhysicsEvent H)) :
    consolidate events =
      (events.foldl mergeEvent ∅).keys.map fun num => ⟨num, hitsOf events num⟩ := by
  simp only [consolidate, OrderedMap.keys, List.map_map]
  apply List.map_congr_left
  intro e he
  have hfind := OrderedMap.mem_entries_iff.mp he
  rw [find_foldl_mergeEvent] at hfind
  split at hfind
  · exact (Option.some.inj hfind).symm
  · exact absurd hfind (by simp)

theorem mem_keys_foldl_mergeEvent {events : List (PhysicsEvent H)} {num : Int} :
    num ∈ (events.foldl mergeEvent ∅).keys ↔ num ∈ events.map PhysicsEvent.eventNum := by
  rw [OrderedMap.mem_keys_iff, find_foldl_mergeEvent]
  split <;> simp_all

theorem eventNum_consolidate (events : List (PhysicsEvent H)) :
    (consolidate events).map PhysicsEvent.eventNum = (events.foldl mergeEvent ∅).keys := by
  simp [consolidate_eq, Function.comp_def]

theorem consolidate_sorted (events : List (PhysicsEvent H)) :
    (consolidate events).Pairwise fun pe pe' => pe.eventNum < pe'.eventNum := by
  have h := (events.foldl mergeEvent ∅).keys_sorted
  rw [← eventNum_consolidate] at h
  exact List.pairwise_map.mp h

theorem hitsList_of_mem_consolidate {events : List (PhysicsEvent H)} {pe : PhysicsEvent H}
    (h : pe ∈ consolidate events) : pe.hitsList = hitsOf events pe.eventNum := by
  rw [consolidate_eq] at h
  obtain ⟨num, -, rfl⟩ := List.mem_map.mp h
  rfl

theorem mem_hitsOf_iff {events : List (PhysicsEvent H)} {num : Int} {hits : H} :
    hits ∈ hitsOf events num ↔ ∃ pe ∈ events, pe.eventNum = num ∧ hits ∈ pe.hitsList := by
  simp [hitsOf, and_assoc]

theorem exists_mem_consolidate {events : List (PhysicsEvent H)} {pe : PhysicsEvent H}
    (h : pe ∈ events) : ∃ merged ∈ consolidate events, merged.eventNum = pe.eventNum ∧
      ∀ hits ∈ pe.hitsList, hits ∈ merged.hitsList := by
  have hnum : pe.eventNum ∈ (consolidate events).map PhysicsEvent.eventNum := by
    rw [eventNum_consolidate, mem_keys_foldl_mergeEvent]
    exact List.mem_map.mpr ⟨pe, h, rfl⟩
  obtain ⟨merged, hmerged, heq⟩ := List.mem_map.mp hnum
  refine ⟨merged, hmerged, heq, fun hits hhits => ?_⟩
  rw [hitsList_of_mem_consolidate hmerged, mem_hitsOf_iff]
  exact ⟨pe, h, heq.symm, hhits⟩

theorem eq_of_mem_consolidate {events : List (PhysicsEvent H)} {pe pe' : PhysicsEvent H}
    (h : pe ∈ consolidate events) (h' : pe' ∈ consolidate events)
    (hnum : pe.eventNum = pe'.eventNum) : pe = pe' := by
  have hh := hitsList_of_mem_consolidate h
  have hh' := hitsList_of_mem_consolidate h'
  obtain ⟨num, hits⟩ := pe
  obtain ⟨num', hits'⟩ := pe'
  obtain rfl : num = num' := hnum
  exact congrArg (PhysicsEvent.mk num) (hh.trans hh'.symm)

theorem consolidate_hits_perm (events : List (PhysicsEvent H)) :
    ((consolidate events).flatMap PhysicsEvent.hitsList).Perm
      (events.flatMap PhysicsEvent.hitsList) := by
  have h := Grouping.flatMap_filter_perm PhysicsEvent.eventNum
    (events.foldl mergeEvent ∅).keys_nodup events
    fun pe hpe => mem_keys_foldl_mergeEvent.mpr (List.mem_map.mpr ⟨pe, hpe, rfl⟩)
  have hh := h.flatMap_right PhysicsEvent.hitsList
  rw [List.flatMap_assoc] at hh
  simpa only [consolidate_eq, List.flatMap_map, hitsOf] using hh

/-- The part of a JANA event that the unfolder writes, with the hits containers
that were inserted into it. -/
structure JEvent (H : Type) where
  eventNumber : UInt64 := 0
  runNumber : Int := 0
  inserted : List H := []
  deriving DecidableEq, Repr

namespace EventUnfolder

inductive Result where
  | nextChildNextParent
  | nextChildKeepParent
  deriving DecidableEq, Repr

/-- Conversion of an `int` to the unsigned type of vector sizes. -/
def toSizeT (i : Int) : Nat := if 0 ≤ i then i.toNat else (2 ^ 64 + i).toNat

/-- One less than a vector size, in the unsigned type of sizes. -/
def predSizeT (n : Nat) : Nat := if n = 0 then 2 ^ 64 - 1 else n - 1

def unfold (physicsEvents : List (PhysicsEvent H)) (parentRun : Int) (child : JEvent H)
    (iter : Int) : Except Fault (Result × JEvent H) :=
  if physicsEvents.length ≤ toSizeT iter then
    .error (.jexception "Index out of bounds in JEventUnfolder_EVIO")
  else
    match physicsEvents[toSizeT iter]? with
    | none => .error .outOfBounds
    | some physicsEvent =>
      let child := { child with
        eventNumber := UInt64.ofInt physicsEvent.eventNum
        runNumber := parentRun
        inserted := child.inserted ++ physicsEvent.hitsList }
      .ok (if toSizeT iter = predSizeT physicsEvents.length then .nextChildNextParent
        else .nextChildKeepParent, child)

/-- Calling the unfolder with fresh children from a given index on, until it asks
for the next parent, succeeds and yields the listed children. -/
inductive UnfoldsFrom (physicsEvents : List (PhysicsEvent H)) (parentRun : Int) :
    Nat → List (JEvent H) → Prop
  | last {iter : Nat} {child : JEvent H}
      (h : unfold physicsEvents parentRun {} iter = .ok (.nextChildNextParent, child)) :
      UnfoldsFrom physicsEvents parentRun iter [child]
  | next {iter : Nat} {child : JEvent H} {children : List (JEvent H)}
      (h : unfold physicsEvents parentRun {} iter = .ok (.nextChildKeepParent, child))
      (hrest : UnfoldsFrom physicsEvents parentRun (iter + 1) children) :
      UnfoldsFrom physicsEvents parentRun iter (child :: children)

def childOf (parentRun : Int) (pe : PhysicsEvent H) : JEvent H :=
  ⟨UInt64.ofInt pe.eventNum, parentRun, pe.hitsList⟩

theorem unfold_at {physicsEvents : List (PhysicsEvent H)} {iter : Nat} {pe : PhysicsEvent H}
    (h : physicsEvents[iter]? = some pe) (parentRun : Int) :
    unfold physicsEvents parentRun {} iter =
      .ok (if iter + 1 = physicsEvents.length then .nextChildNextParent else .nextChildKeepParent,
        childOf parentRun pe) := by
  have hlt := (List.getElem?_eq_some_iff.mp h).1
  have hsize : toSizeT iter = iter := by simp [toSizeT]
  have hpred : predSizeT physicsEvents.length = physicsEvents.length - 1 :=
    if_neg (by omega)
  have hlast : iter = physicsEvents.length - 1 ↔ iter + 1 = physicsEvents.length := by omega
  simp only [unfold, hsize, hpred, h, Nat.not_le.mpr hlt, if_false, hlast, List.nil_append,
    childOf]

theorem unfoldsFrom_drop {physicsEvents : List (PhysicsEvent H)} (parentRun : Int) {iter : Nat}
    (h : iter < physicsEvents.length) :
    UnfoldsFrom physicsEvents parentRun iter
      ((physicsEvents.drop iter).map (childOf parentRun)) := by
  generalize hn : physicsEvents.length - iter = n
  induction n generalizing iter with
  | zero => omega
  | succ n ih =>
    have hat := unfold_at (List.getElem?_eq_getElem h) parentRun
    rw [List.drop_eq_getElem_cons h, List.map_cons]
    by_cases hlast : iter + 1 = physicsEvents.length
    · rw [if_pos hlast] at hat
      have hnil : physicsEvents.drop (iter + 1) = [] := List.drop_eq_nil_of_le hlast.ge
      rw [hnil, List.map_nil]
      exact .last hat
    · rw [if_neg hlast] at hat
      exact .next hat (ih (by omega) (by omega))

/-- Consolidation and unfolding of a non-empty list of physics events: one event per
number in increasing order, holding all hits of that number in list order, and one
child per merged event. -/
theorem consolidate_unfold (events : List (PhysicsEvent H)) (hne : events ≠ [])
    (parentRun : Int) :
    (consolidate events).Pairwise (fun pe pe' => pe.eventNum < pe'.eventNum) ∧
    (∀ num, num ∈ (consolidate events).map PhysicsEvent.eventNum ↔
      num ∈ events.map PhysicsEvent.eventNum) ∧
    (∀ pe ∈ consolidate events, pe.hitsList = hitsOf events pe.eventNum) ∧
    ∃ children, UnfoldsFrom (consolidate events) parentRun 0 children ∧
      children = (consolidate events).map (childOf parentRun) ∧
      (children.flatMap JEvent.inserted).Perm (events.flatMap PhysicsEvent.hitsList) := by
  have hnums (num : Int) : num ∈ (consolidate events).map PhysicsEvent.eventNum ↔
      num ∈ events.map PhysicsEvent.eventNum := by
    rw [eventNum_consolidate, mem_keys_foldl_mergeEvent]
  have hpos : 0 < (consolidate events).length := by
    obtain ⟨pe, rest, rfl⟩ := List.exists_cons_of_ne_nil hne
    have hmem := (hnums pe.eventNum).mpr (by simp)
    rw [List.mem_map] at hmem
    obtain ⟨pe', hpe', -⟩ := hmem
    exact List.length_pos_of_mem hpe'
  refine ⟨consolidate_sorted events, hnums, fun pe h => hitsList_of_mem_consolidate h,
    _, unfoldsFrom_drop parentRun hpos, by rw [List.drop_zero], ?_⟩
  rw [List.drop_zero, List.flatMap_map]
  exact consolidate_hits_perm events

/-- Two parsers, of which the second repeats an event number of the first. -/
theorem consolidate_unfold_two :
    consolidate [⟨8, ["a"]⟩, ⟨7, ["b"]⟩, ⟨8, ["c"]⟩] =
      [⟨7, ["b"]⟩, ⟨8, ["a", "c"]⟩] ∧
    ∃ children, UnfoldsFrom (consolidate [⟨8, ["a"]⟩, ⟨7, ["b"]⟩, ⟨8, ["c"]⟩]) 5 0 children ∧
      (children.flatMap JEvent.inserted).Perm ["a", "b", "c"] := by
  obtain ⟨-, -, -, children, h, -, hperm⟩ :=
    consolidate_unfold [⟨8, ["a"]⟩, ⟨7, ["b"]⟩, ⟨8, ["c"]⟩] (by simp) 5
  exact ⟨by decide, children, h, hperm⟩

end EventUnfolder

end JanaExtensions
