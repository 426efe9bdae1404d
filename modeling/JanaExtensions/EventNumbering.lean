import JanaExtensions.CommonModuleParsers
import JanaExtensions.Transducer
import JanaExtensions.WordSteps

/-! The event numbers that a bank publishes. In a bank of blocks the numbers come from the
event indices at the event headers, in a scaler bank from the trigger data. -/

namespace JanaExtensions

open Failing

section Keys

variable {H : Type} [AddMonoid H]

theorem EventHitsTable.Extends.keys {t t' : EventHitsTable H} (h : t.Extends t') (number : UInt64) :
    number ∈ t'.eventHitsMap.keys ↔ number ∈ t.eventHitsMap.keys := by
  rcases h with rfl | ⟨hc, hits, rfl⟩
  · exact Iff.rfl
  · have hmem : t.eventNumber ∈ t.eventHitsMap.keys := by
      rw [OrderedMap.mem_keys_iff]
      exact Option.isSome_iff_exists.mp hc
    rw [EventHitsTable.withHits, OrderedMap.addAt, OrderedMap.mem_keys_insert]
    constructor
    · intro hh
      rcases hh with rfl | hh
      · exact hmem
      · exact hh
    · exact Or.inr

theorem EventHitsTable.mem_keys_select (number number' : UInt64) (t : EventHitsTable H) :
    number' ∈ (t.select number).eventHitsMap.keys ↔
      number' = number ∨ number' ∈ t.eventHitsMap.keys := by
  rw [select_map, OrderedMap.addAt, OrderedMap.mem_keys_insert]

end Keys

def headerReader : Transducer Word Framing UInt64 where
  carry w f := f.next w
  emit w f := if w.isEventHeader then [f.eventIndex] else []

def headerIndices (ws : List Word) : List UInt64 := headerReader.emitted ws {}

theorem headerIndices_append_singleton (ws : List Word) (w : Word) :
    headerIndices (ws ++ [w]) =
      headerIndices ws ++ if w.isEventHeader then [(framing ws).eventIndex] else [] := by
  have hcarried : ∀ f, headerReader.carried ws f = ws.foldl Framing.next f := by
    induction ws with
    | nil => exact fun f => rfl
    | cons x ws ih => exact fun f => ih (f.next x)
  rw [headerIndices, Transducer.emitted_append, hcarried, Transducer.emitted_cons,
    Transducer.emitted_nil, List.append_nil]
  rfl

section Published

variable {H : Type}

/-- The physics events have the numbers of the given event indices, and no others. -/
def NumberedBy (first : UInt64) (indices : List UInt64) (events : List (PhysicsEvent H)) : Prop :=
  ∀ num, num ∈ events.map PhysicsEvent.eventNum ↔ ∃ i ∈ indices, num = toCInt (first + i)

theorem NumberedBy.map {H' : Type} {f : H → H'} {first : UInt64} {indices : List UInt64}
    {events : List (PhysicsEvent H)} (h : NumberedBy first indices events) :
    NumberedBy first indices (events.map (PhysicsEvent.map f)) := by
  intro num
  rw [← h num, List.map_map]
  exact Iff.rfl

theorem numberedBy_physicsEvents {first : UInt64} {indices : List UInt64} (key : UInt64 → UInt64)
    (hkey : ∀ i, toCInt (key i) = toCInt (first + i)) {eventHitsMap : OrderedMap UInt64 H}
    (h : ∀ number, number ∈ eventHitsMap.keys ↔ ∃ i ∈ indices, number = key i) :
    NumberedBy first indices (physicsEvents eventHitsMap) := by
  intro num
  have hnums : (physicsEvents eventHitsMap).map PhysicsEvent.eventNum =
      eventHitsMap.keys.map toCInt := by
    simp [physicsEvents, OrderedMap.keys, Function.comp_def]
  rw [hnums, List.mem_map]
  constructor
  · intro hh
    obtain ⟨number, hnumber, rfl⟩ := hh
    obtain ⟨i, hi, rfl⟩ := (h number).mp hnumber
    exact ⟨i, hi, hkey i⟩
  · intro hh
    obtain ⟨i, hi, hnum⟩ := hh
    exact ⟨key i, (h (key i)).mpr ⟨i, hi, rfl⟩, (hkey i).trans hnum.symm⟩

end Published

section Blocks

variable {σ H : Type} [AddMonoid H] {classify : UInt32 → List UInt32 → Word}
  {body : UInt32 → List UInt32 → σ → Except Fault (Nat × σ)} {blockState : σ → BlockState H}
  {key : UInt64 → UInt64} {T : σ → σ → Prop} {init : σ}

/-- The containers of a bank are those of the event indices at its event headers. -/
theorem mem_keys_fold (hc : Conforms classify body (TracksIn blockState key) T)
    (hsteps : ∀ d following s used s', body d following s = .ok (used, s') →
      StepsTable key (classify d following) (blockState s) (blockState s'))
    (hinit : blockState init = {}) {ms : List (UInt32 × List UInt32)} {s : σ}
    (h : WordLoop.fold body ms init = .ok s) (number : UInt64) :
    number ∈ (blockState s).eventHitsMap.keys ↔
      ∃ i ∈ headerIndices (ms.map fun m => classify m.1 m.2), number = key i := by
  have hR : TracksIn blockState key {} init := .init hinit
  induction ms using List.reverseRecOn generalizing s with
  | nil =>
    obtain rfl := Except.ok.inj h
    simp [hinit, headerIndices, OrderedMap.keys]
  | append_singleton ms m ih =>
    obtain ⟨t, ht, hm⟩ := WordLoop.fold_append_ok.mp h
    obtain ⟨used, hbody⟩ := WordLoop.fold_singleton_ok.mp hm
    have hindex : (blockState t).eventIndex =
        (framing (ms.map fun m => classify m.1 m.2)).eventIndex := by
      rw [(hc.accepted_of_ok hR ht).2.frame]
      rfl
    have hstep := hsteps m.1 m.2 t used s hbody
    have hih := ih ht
    rw [List.map_append, List.map_singleton, headerIndices_append_singleton]
    unfold StepsTable at hstep
    cases hw : classify m.1 m.2 with
    | eventHeader slot =>
      simp only [hw] at hstep
      rw [hstep, EventHitsTable.mem_keys_select, hindex, or_comm]
      refine (or_congr_left hih).trans ?_
      simp [Word.isEventHeader, or_and_right, exists_or]
    | data payload =>
      simp only [hw] at hstep
      refine (hstep.keys number).trans (hih.trans ?_)
      simp [Word.isEventHeader]
    | blockHeader _ _ | blockTrailer _ | triggerTime _ | other =>
      simp only [hw] at hstep
      rw [hstep]
      refine hih.trans ?_
      simp [Word.isEventHeader]

theorem numberedBy_run {first : UInt64}
    (hc : Conforms classify body (TracksIn blockState key) T)
    (hsteps : ∀ d following s used s', body d following s = .ok (used, s') →
      StepsTable key (classify d following) (blockState s) (blockState s'))
    (hinit : blockState init = {}) (hkey : ∀ i, toCInt (key i) = toCInt (first + i))
    {dataWords : List UInt32} {events : List (PhysicsEvent H)}
    (h : (WordLoop.run body 0 dataWords init >>= fun s =>
      .ok (physicsEvents (blockState s).eventHitsMap)) = .ok events) :
    NumberedBy first (headerIndices (classified classify dataWords)) events := by
  have hR : TracksIn blockState key {} init := .init hinit
  obtain ⟨s, hs, hevents⟩ := bind_eq_ok.mp h
  obtain rfl := Except.ok.inj hevents
  rw [hc.run_eq_fold hR] at hs
  exact numberedBy_physicsEvents key hkey (mem_keys_fold hc hsteps hinit hs)

end Blocks

namespace HelicityDecoder

/-- The event index, and whether there is an event that is not yet published. -/
structure Pending where
  eventIndex : UInt64 := 0
  pending : Bool := false

/-- The event index at every publication: an event is published at the next event header,
or at a block trailer that is the last word of the bank. -/
def publicationReader : Transducer (UInt32 × List UInt32) Pending UInt64 where
  carry m p :=
    match readAs m.1 m.2 with
    | .eventHeader _ => ⟨if p.pending then p.eventIndex + 1 else p.eventIndex, true⟩
    | .blockTrailer _ => { p with eventIndex := 0 }
    | _ => p
  emit m p :=
    match readAs m.1 m.2 with
    | .eventHeader _ => if p.pending then [p.eventIndex] else []
    | .blockTrailer _ => if p.pending ∧ m.2 = [] then [p.eventIndex] else []
    | _ => []

def publishedIndices (dataWords : List UInt32) : List UInt64 :=
  publicationReader.emitted (interpretedWords readAs dataWords) {}

def State.toPending (s : State) : Pending := ⟨s.eventIndex, s.eventHits.isSome⟩

variable {rocid : UInt32} {triggerData : TriggerData}

theorem publish_nums (s : State) :
    (publish triggerData s).map PhysicsEvent.eventNum =
      s.physicsEvents.map PhysicsEvent.eventNum ++
        (if s.toPending.pending then [s.toPending.eventIndex] else []).map fun i =>
          toCInt (triggerData.firstEventNumber + i) := by
  unfold publish State.toPending
  cases s.eventHits <;> simp

theorem parseWord_publishes {d : UInt32} {following : List UInt32} {s s' : State} {used : Nat}
    (h : parseWord rocid triggerData d following s = .ok (used, s')) :
    s'.toPending = publicationReader.carry (d, following) s.toPending ∧
      s'.physicsEvents.map PhysicsEvent.eventNum = s.physicsEvents.map PhysicsEvent.eventNum ++
        (publicationReader.emit (d, following) s.toPending).map fun i =>
          toCInt (triggerData.firstEventNumber + i) := by
  have hstep := parseWord_step h
  unfold Steps at hstep
  dsimp only [publicationReader]
  cases hw : readAs d following with
  | eventHeader slot =>
    simp only [hw] at hstep
    obtain ⟨-, hhits, hindex, hevents⟩ := hstep
    rw [hevents]
    refine ⟨?_, publish_nums s⟩
    rw [State.toPending, hhits, hindex]
    rfl
  | blockTrailer slot =>
    simp only [hw] at hstep
    obtain ⟨-, hhits, hindex, hevents⟩ := hstep
    refine ⟨by rw [State.toPending, hhits, hindex]; rfl, ?_⟩
    by_cases hlast : following = []
    · rw [hevents, if_pos hlast]
      simp only [hlast, and_true]
      exact publish_nums s
    · simp [hevents, hlast]
  | data payload =>
    simp only [hw] at hstep
    obtain ⟨-, ⟨eventHits, record, hbefore, hafter, -⟩, hindex, hevents⟩ := hstep
    simp [State.toPending, hbefore, hafter, hindex, hevents]
  | blockHeader _ _ | triggerTime _ | other =>
    simp only [hw] at hstep
    obtain ⟨-, hhits, hindex, hevents⟩ := hstep
    simp [State.toPending, hhits, hindex, hevents]

theorem nums_fold {ms : List (UInt32 × List UInt32)} {s s' : State}
    (h : WordLoop.fold (parseWord rocid triggerData) ms s = .ok s') :
    s'.physicsEvents.map PhysicsEvent.eventNum = s.physicsEvents.map PhysicsEvent.eventNum ++
      (publicationReader.emitted ms s.toPending).map fun i =>
        toCInt (triggerData.firstEventNumber + i) := by
  induction ms generalizing s with
  | nil =>
    obtain rfl := Except.ok.inj h
    simp
  | cons m ms ih =>
    obtain ⟨used, t, ht, hrest⟩ := WordLoop.fold_cons_ok.mp h
    obtain ⟨hpending, hnums⟩ := parseWord_publishes ht
    rw [ih hrest, hnums, hpending, Transducer.emitted_cons, List.map_append, List.append_assoc]

theorem numberedBy_parse {dataWords : List UInt32}
    {events : List (PhysicsEvent EventHitsHelicityDecoder)}
    (h : parse rocid triggerData dataWords = .ok events) :
    NumberedBy triggerData.firstEventNumber (publishedIndices dataWords) events := by
  obtain ⟨s, hs, hevents⟩ := bind_eq_ok.mp h
  obtain rfl := Except.ok.inj hevents
  rw [(conforms rocid triggerData).run_eq_fold (f := {}) ⟨rfl, rfl, rfl⟩] at hs
  intro num
  rw [nums_fold hs]
  simp [publishedIndices, State.toPending, eq_comm]

end HelicityDecoder

namespace CAEN1190

/-- The event index at every global header. -/
def globalHeaderReader : Transducer UInt32 UInt32 UInt64 where
  carry d eventIndex :=
    match (getBitsInRange d 31 27).toNat with
    | 8 => eventIndex + 1
    | 16 => 0
    | _ => eventIndex
  emit d eventIndex := if (getBitsInRange d 31 27).toNat = 8 then [eventIndex.toUInt64] else []

def globalHeaderIndices (dataWords : List UInt32) : List UInt64 :=
  globalHeaderReader.emitted dataWords 0

variable {rocid : UInt32} {triggerData : TriggerData}

def number (triggerData : TriggerData) (i : UInt64) : UInt64 :=
  (triggerData.firstEventNumber + i).toUInt32.toUInt64

theorem parseWord_numbers {d : UInt32} {s s' : State}
    (h : parseWord rocid triggerData s d = .ok s') :
    s'.eventIndex = globalHeaderReader.carry d s.eventIndex ∧
      ∀ n, n ∈ s'.eventHitsMap.keys ↔ n ∈ s.eventHitsMap.keys ∨
        ∃ i ∈ globalHeaderReader.emit d s.eventIndex, n = number triggerData i := by
  unfold parseWord at h
  dsimp only [globalHeaderReader]
  generalize (getBitsInRange d 31 27).toNat = dataType at h ⊢
  match dataType, h with
  | 8, h =>
    rw [← Except.ok.inj h]
    refine ⟨rfl, fun n => ?_⟩
    refine (EventHitsTable.mem_keys_select _ n _).trans ?_
    simp [number, or_comm]
  | 0, h =>
    obtain ⟨t, ht, hrest⟩ := bind_eq_ok.mp h
    rw [← Except.ok.inj hrest]
    refine ⟨rfl, fun n => ?_⟩
    refine ((EventHitsTable.Extends.of_addHits ht).keys n).trans ?_
    simp
  | 16, h | 1, h | 4, h | 17, h =>
    rw [← Except.ok.inj h]
    exact ⟨rfl, by simp⟩
  | 2, h | 3, h | 5, h | 6, h | 7, h | 9, h | 10, h | 11, h | 12, h | 13, h | 14, h | 15, h
  | _ + 18, h =>
    rw [← Except.ok.inj h]
    exact ⟨rfl, by simp⟩

theorem mem_keys_foldlM {ws : List UInt32} {s s' : State}
    (h : ws.foldlM (parseWord rocid triggerData) s = .ok s') (n : UInt64) :
    n ∈ s'.eventHitsMap.keys ↔ n ∈ s.eventHitsMap.keys ∨
      ∃ i ∈ globalHeaderReader.emitted ws s.eventIndex, n = number triggerData i := by
  induction ws generalizing s with
  | nil =>
    obtain rfl := Except.ok.inj h
    simp
  | cons d ws ih =>
    obtain ⟨t, ht, hrest⟩ := foldlM_cons_ok.mp h
    obtain ⟨hindex, hkeys⟩ := parseWord_numbers ht
    refine (ih hrest).trans ((or_congr_left (hkeys n)).trans ?_)
    rw [Transducer.emitted_cons, hindex]
    simp only [List.mem_append, or_and_right, exists_or, or_assoc]

theorem numberedBy_parse {dataWords : List UInt32}
    {events : List (PhysicsEvent EventHitsCAEN1190)}
    (h : parse rocid triggerData dataWords = .ok events) :
    NumberedBy triggerData.firstEventNumber (globalHeaderIndices dataWords) events := by
  obtain ⟨s, hs, hevents⟩ := bind_eq_ok.mp h
  obtain rfl := Except.ok.inj hevents
  apply numberedBy_physicsEvents (number triggerData)
  · exact fun i => toCInt_toUInt32 _
  · intro n
    refine (mem_keys_foldlM hs n).trans ?_
    simp [OrderedMap.keys, globalHeaderIndices]

end CAEN1190

namespace CommonParser

/-- The indices of the events that a bank publishes. The index of a scaler record is that of
the last event. -/
def publishedIndices (triggerData : TriggerData) (dataWords : List UInt32) :
    CommonParser → List UInt64
  | caen1190 => CAEN1190.globalHeaderIndices dataWords
  | fadc => headerIndices (classified FADC.readAs dataWords)
  | fadcScaler | tiScaler => [triggerData.lastEventNumber - triggerData.firstEventNumber]
  | helicityDecoder => HelicityDecoder.publishedIndices dataWords
  | mpd => headerIndices (classified MPD.readAs dataWords)
  | vftdc => headerIndices (classified VFTDC.readAs dataWords)

theorem numberedBy_last {H : Type} (triggerData : TriggerData) (hits : H) :
    NumberedBy triggerData.firstEventNumber
      [triggerData.lastEventNumber - triggerData.firstEventNumber]
      [⟨toCInt triggerData.lastEventNumber, [hits]⟩] := by
  intro num
  have hlast : triggerData.firstEventNumber +
      (triggerData.lastEventNumber - triggerData.firstEventNumber) = triggerData.lastEventNumber := by
    rw [UInt64.add_comm, UInt64.sub_add_cancel]
  simp [hlast]

theorem numberedBy_parse {parser : CommonParser} {rocid : UInt32} {triggerData : TriggerData}
    {dataWords : List UInt32} {events : List (PhysicsEvent EventHits)}
    (h : parser.parse rocid triggerData dataWords = .ok events) :
    NumberedBy triggerData.firstEventNumber (parser.publishedIndices triggerData dataWords)
      events := by
  cases parser with
  | caen1190 =>
    obtain ⟨bankEvents, hbank, rfl⟩ := map_eq_ok.mp h
    exact (CAEN1190.numberedBy_parse hbank).map
  | fadc =>
    obtain ⟨bankEvents, hbank, rfl⟩ := map_eq_ok.mp h
    exact (numberedBy_run (FADC.conforms rocid triggerData) (fun _ _ _ _ _ h => (FADC.parseWord_step h).table)
      rfl (fun i => rfl) hbank).map
  | fadcScaler =>
    obtain ⟨bankEvents, hbank, rfl⟩ := map_eq_ok.mp h
    obtain ⟨hits, hhits⟩ := FADCScaler.parse_ok rocid triggerData dataWords
    obtain rfl := Except.ok.inj (hhits.symm.trans hbank)
    exact (numberedBy_last triggerData hits).map
  | tiScaler =>
    obtain ⟨bankEvents, hbank, rfl⟩ := map_eq_ok.mp h
    obtain ⟨hits, rfl⟩ := TIScaler.parse_ok hbank
    exact (numberedBy_last triggerData hits).map
  | helicityDecoder =>
    obtain ⟨bankEvents, hbank, rfl⟩ := map_eq_ok.mp h
    exact (HelicityDecoder.numberedBy_parse hbank).map
  | mpd =>
    obtain ⟨bankEvents, hbank, rfl⟩ := map_eq_ok.mp h
    exact (numberedBy_run (MPD.conforms rocid triggerData) (fun _ _ _ _ _ h => (MPD.parseWord_step h).table)
      rfl (fun i => toCInt_toUInt32 _) hbank).map
  | vftdc =>
    obtain ⟨bankEvents, hbank, rfl⟩ := map_eq_ok.mp h
    exact (numberedBy_run (VFTDC.conforms rocid triggerData)
      (fun _ _ _ _ _ h => (VFTDC.parseWord_step h).table) rfl (fun i => rfl) hbank).map

end CommonParser

end JanaExtensions
