import JanaExtensions.BankDispatch
import JanaExtensions.EventNumbering

/-! One EVIO block as a whole, from the payload of its EB1 segment and its data banks to the
merged physics events. -/

namespace JanaExtensions

open Failing

namespace EvioEventParser

/-- The payload of the EB1 segment: the number of the first event, then one timestamp for
each event of the block. -/
def eb1Payload (event : EvioEvent) : List UInt64 :=
  match event.children with
  | [] => []
  | triggerBank :: _ =>
    match triggerBank.children with
    | [] => []
    | eb1Segment :: _ => eb1Segment.ulongData

def announcedEvents (event : EvioEvent) : Nat := (eb1Payload event).length - 1

def triggerDataOf (event : EvioEvent) : TriggerData :=
  let firstEventNumber := (eb1Payload event).headD 0
  ⟨firstEventNumber, firstEventNumber + UInt64.ofNat (announcedEvents event) - 1⟩

def dataBanks (event : EvioEvent) : List BaseStructure := event.children.tail

section Parse

variable {P H : Type} {invoke : P → BaseStructure → BankContext → Shared H → Except Fault (Shared H)}
  {eventNumber : UInt64} {event : EvioEvent} {services services' : Services P}
  {events : List (PhysicsEvent H)}

theorem parseTriggerBank_ok {triggerBank : BaseStructure} {rocBanks segments : List BaseStructure}
    {triggerData : TriggerData} (hchildren : event.children = triggerBank :: rocBanks)
    (h : parseTriggerBank triggerBank = .ok (segments, triggerData)) :
    eb1Payload event ≠ [] ∧ triggerData = triggerDataOf event := by
  unfold parseTriggerBank at h
  unfold triggerDataOf announcedEvents eb1Payload
  simp only [hchildren]
  cases hsegments : triggerBank.children with
  | nil =>
    rw [hsegments] at h
    exact absurd h (by simp)
  | cons eb1Segment rest =>
    simp only [hsegments] at h ⊢
    cases hpayload : eb1Segment.ulongData with
    | nil =>
      rw [hpayload] at h
      exact absurd h (by simp)
    | cons firstEventNumber timestamps =>
      simp only [hpayload] at h
      split at h
      · exact absurd h (by simp)
      · refine ⟨List.cons_ne_nil _ _, ?_⟩
        rw [← (Prod.mk.inj (Except.ok.inj h)).2]
        simp

/-- A block that is parsed: the parser calls of its banks succeed one after the other, some
physics event is published, and the result is their consolidation. -/
theorem parse_ok (h : parse invoke eventNumber event services = .ok (events, services')) :
    eb1Payload event ≠ [] ∧ ∃ shared,
      (invocations services (dataBanks event)).foldlM (call invoke) ⟨triggerDataOf event, []⟩ =
        .ok shared ∧ shared.physicsEvents ≠ [] ∧ events = consolidate shared.physicsEvents := by
  unfold parse at h
  cases hchildren : event.children with
  | nil =>
    rw [hchildren] at h
    exact absurd h (by simp)
  | cons triggerBank rocBanks =>
    rw [hchildren] at h
    obtain ⟨⟨segments, triggerData⟩, htrigger, hrest⟩ := bind_eq_ok.mp h
    obtain ⟨s, hs, hrest⟩ := bind_eq_ok.mp hrest
    obtain ⟨hpayload, htriggerData⟩ := parseTriggerBank_ok hchildren htrigger
    have hsim := parseROCBanks_simulates invoke (not_rejected_of_ok invoke hs)
    rw [hs] at hsim
    split at hrest
    · exact absurd hrest (by simp)
    · rename_i hempty
      refine ⟨hpayload, s.shared, ?_, ?_, (Prod.mk.inj (Except.ok.inj hrest)).1.symm⟩
      · rw [dataBanks, hchildren, ← htriggerData]
        exact hsim.symm
      · exact fun hnil => hempty (by rw [hnil]; rfl)

end Parse

section CommonParsers

def Invocation.parse (triggerData : TriggerData) (inv : Invocation CommonParser) :
    Except Fault (List (PhysicsEvent EventHits)) :=
  inv.parser.parse inv.context.rocid triggerData inv.dma.uintData

/-- The indices of the events that a bank publishes. -/
def Invocation.publishedIndices (triggerData : TriggerData) (inv : Invocation CommonParser) :
    List UInt64 :=
  inv.parser.publishedIndices triggerData inv.dma.uintData

def Invocation.Publishes (triggerData : TriggerData) (inv : Invocation CommonParser)
    (pe : PhysicsEvent EventHits) : Prop :=
  ∃ bankEvents, inv.parse triggerData = .ok bankEvents ∧ pe ∈ bankEvents

theorem call_ok {inv : Invocation CommonParser} {shared shared' : Shared EventHits}
    (h : call CommonParser.invoke shared inv = .ok shared') :
    ∃ bankEvents, inv.parse shared.triggerData = .ok bankEvents ∧
      shared' = { shared with physicsEvents := shared.physicsEvents ++ bankEvents } := by
  obtain ⟨bankEvents, hparse, hrest⟩ := bind_eq_ok.mp h
  exact ⟨bankEvents, hparse, (Except.ok.inj hrest).symm⟩

theorem foldlM_call_ok {invs : List (Invocation CommonParser)} {triggerData : TriggerData}
    {shared : Shared EventHits}
    (h : invs.foldlM (call CommonParser.invoke) ⟨triggerData, []⟩ = .ok shared) :
    (∀ inv ∈ invs, ∃ bankEvents, inv.parse triggerData = .ok bankEvents) ∧
      ∀ pe, pe ∈ shared.physicsEvents ↔ ∃ inv ∈ invs, inv.Publishes triggerData pe := by
  have hinvariant := foldlM_invariant (I := fun pre t => t.triggerData = triggerData ∧
    (∀ inv ∈ pre, ∃ bankEvents, inv.parse triggerData = .ok bankEvents) ∧
    ∀ pe, pe ∈ t.physicsEvents ↔ ∃ inv ∈ pre, inv.Publishes triggerData pe)
    (s := (⟨triggerData, []⟩ : Shared EventHits)) ⟨rfl, by simp, by simp⟩
    (fun pre inv post t t' _ ht hstep => ?_) h
  · exact hinvariant.2
  · obtain ⟨htrigger, hparsed, hmem⟩ := ht
    obtain ⟨bankEvents, hparse, rfl⟩ := call_ok hstep
    rw [htrigger] at hparse
    refine ⟨htrigger, ?_, fun pe => ?_⟩
    · exact forall_mem_concat.mpr ⟨hparsed, bankEvents, hparse⟩
    · have hlast : inv.Publishes triggerData pe ↔ pe ∈ bankEvents := by
        simp [Invocation.Publishes, hparse]
      rw [List.mem_append, hmem, exists_mem_concat, hlast]

variable {eventNumber : UInt64} {event : EvioEvent} {services services' : Services CommonParser}
  {events : List (PhysicsEvent EventHits)}

theorem exists_published
    (h : parse CommonParser.invoke eventNumber event services = .ok (events, services')) :
    ∃ published, published ≠ [] ∧ events = consolidate published ∧
      (∀ inv ∈ invocations services (dataBanks event),
        ∃ bankEvents, inv.parse (triggerDataOf event) = .ok bankEvents) ∧
      ∀ pe, pe ∈ published ↔
        ∃ inv ∈ invocations services (dataBanks event), inv.Publishes (triggerDataOf event) pe := by
  obtain ⟨-, shared, hshared, hne, heq⟩ := parse_ok h
  obtain ⟨hparsed, hmem⟩ := foldlM_call_ok hshared
  exact ⟨shared.physicsEvents, hne, heq, hparsed, hmem⟩

theorem mem_eventNum_iff
    (h : parse CommonParser.invoke eventNumber event services = .ok (events, services'))
    (num : Int) :
    num ∈ events.map PhysicsEvent.eventNum ↔
      ∃ inv ∈ invocations services (dataBanks event),
        ∃ i ∈ inv.publishedIndices (triggerDataOf event),
          num = toCInt ((triggerDataOf event).firstEventNumber + i) := by
  obtain ⟨published, -, rfl, hparsed, hmem⟩ := exists_published h
  have hnumbered : ∀ inv ∈ invocations services (dataBanks event),
      (∃ i ∈ inv.publishedIndices (triggerDataOf event),
          num = toCInt ((triggerDataOf event).firstEventNumber + i)) ↔
        ∃ pe, inv.Publishes (triggerDataOf event) pe ∧ pe.eventNum = num := by
    intro inv hinv
    obtain ⟨bankEvents, hbank⟩ := hparsed inv hinv
    have hnum := CommonParser.numberedBy_parse hbank num
    rw [List.mem_map] at hnum
    refine hnum.symm.trans ?_
    simp [Invocation.Publishes, hbank]
  rw [eventNum_consolidate, mem_keys_foldl_mergeEvent, List.mem_map]
  constructor
  · intro hh
    obtain ⟨pe, hpe, hnum⟩ := hh
    obtain ⟨inv, hinv, hpublishes⟩ := (hmem pe).mp hpe
    exact ⟨inv, hinv, (hnumbered inv hinv).mpr ⟨pe, hpublishes, hnum⟩⟩
  · intro hh
    obtain ⟨inv, hinv, hindex⟩ := hh
    obtain ⟨pe, hpublishes, hnum⟩ := (hnumbered inv hinv).mp hindex
    exact ⟨pe, (hmem pe).mpr ⟨inv, hinv, hpublishes⟩, hnum⟩

end CommonParsers

/-- A bank of one block with two events. -/
def twoEventBank : List UInt32 :=
  [0x80400002, 0x90400000, 0xB8000000, 0x90400001, 0xB8000001, 0x88400000]

end EvioEventParser

end JanaExtensions
