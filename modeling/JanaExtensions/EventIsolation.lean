import JanaExtensions.CAENBank

/-! Whether the hits of a CAEN1190 event carry fields of their own event only, when
the words of every event come in hardware order. -/

namespace JanaExtensions.CAEN1190

structure Chip where
  chipId : BitVec 2
  eventId : BitVec 12
  bunchId : BitVec 12
  measurements : List (BitVec 1 × BitVec 7 × BitVec 19)
  errors : List (BitVec 15)
  wordCount : BitVec 12

def Chip.words (c : Chip) : List ChipWord :=
  .header c.chipId c.eventId c.bunchId ::
    (c.measurements.map (fun m => .measurement m.1 m.2.1 m.2.2) ++
      c.errors.map (.error c.chipId) ++ [.trailer c.chipId c.eventId c.wordCount])

structure OrderedEvent extends EventFrame where
  chips : List Chip

def OrderedEvent.toEvent (e : OrderedEvent) : Event :=
  { e.toEventFrame with chipWords := e.chips.flatMap Chip.words }

def ChipWord.errorFlags : ChipWord → Option UInt32
  | .error _ flags => some (UInt32.ofNat flags.toNat)
  | _ => none

def Event.ownFlags (e : Event) : UInt32 :=
  (e.chipWords.filterMap ChipWord.errorFlags).foldr (· ||| ·) 0

/-- The hits of the event's measurements, with the fields of the event. -/
def CarriesOwnFields (e : Event) (hits : List CAEN1190Hit) : Prop :=
  hits.map measurementOf = e.measurements ∧
    ∀ hit ∈ hits, hit.trigTime = e.triggerTimeValue.getD 0 ∧ hit.glbTrlStatus = e.statusValue ∧
      hit.flags ||| e.ownFlags = e.ownFlags

def publishedHits (evs : List (PhysicsEvent EventHitsCAEN1190)) : List CAEN1190Hit :=
  evs.flatMap fun pe => pe.hitsList.flatMap EventHitsCAEN1190.caenHits

def encodeBank (bank : List OrderedEvent) : List UInt32 :=
  bank.flatMap fun e => e.toEvent.encode

/-- The published hits are those of the events, one after the other, with their own fields. -/
def KeepsOwnFields (rocid : UInt32) (triggerData : TriggerData) (bank : List OrderedEvent) :
    Prop :=
  ∃ evs hits, parse rocid triggerData (encodeBank bank) = .ok evs ∧
    publishedHits evs = hits.flatten ∧
    List.Forall₂ (fun e hs => CarriesOwnFields e.toEvent hs) bank hits

/-- An event adds the same hits to those of the events before it, whatever these are. -/
def Isolated (rocid : UInt32) (triggerData : TriggerData) (e : OrderedEvent) : Prop :=
  ∃ hits, ∀ before, ∃ evs evs', parse rocid triggerData (encodeBank before) = .ok evs ∧
    parse rocid triggerData (encodeBank (before ++ [e])) = .ok evs' ∧
    publishedHits evs' = publishedHits evs ++ hits

def lastTriggerTime (before : List Event) : UInt32 :=
  (before.filterMap fun e => e.triggerTimeValue).getLast?.getD 0

def lastStatus (before : List Event) : UInt32 :=
  (before.map fun e => e.statusValue).getLast?.getD 0

def Event.lastErrorFlags (e : Event) : Option UInt32 :=
  (e.chipWords.filterMap ChipWord.errorFlags).getLast?

def lastFlags (before : List Event) : UInt32 :=
  (before.filterMap Event.lastErrorFlags).getLast?.getD 0

def Event.measurementsBeforeErrors (e : Event) : List Measurement :=
  (e.chipWords.takeWhile fun w => w.errorFlags.isNone).filterMap
    (ChipWord.measurementIn e.slotValue)

/-- What the events before leave behind agrees with the event, as far as the fields of its
hits come from there. -/
def Agrees (before : List Event) (e : Event) : Prop :=
  (e.measurements ≠ [] →
    lastTriggerTime before = e.triggerTimeValue.getD 0 ∧ lastStatus before = e.statusValue) ∧
  (e.measurementsBeforeErrors ≠ [] → lastFlags before ||| e.ownFlags = e.ownFlags)

section Chips

variable (rocid : UInt32)

theorem carry_chipWord (w : ChipWord) (c : Carried) :
    ((chipReader rocid).carry w c).trigTime = c.trigTime ∧
      ((chipReader rocid).carry w c).glbTrlStatus = c.glbTrlStatus ∧
      ((chipReader rocid).carry w c).glbHdrSlot = c.glbHdrSlot := by
  cases w <;> exact ⟨rfl, rfl, rfl⟩

theorem emit_chipWord {w : ChipWord} {c : Carried} {hit : CAEN1190Hit}
    (h : hit ∈ (chipReader rocid).emit w c) :
    hit.trigTime = c.trigTime ∧ hit.glbTrlStatus = c.glbTrlStatus := by
  cases w <;> simp only [chipReader, List.mem_singleton, List.not_mem_nil] at h
  exact ⟨by rw [h], by rw [h]⟩

theorem emitted_chipWords {ws : List ChipWord} {c : Carried} {hit : CAEN1190Hit}
    (h : hit ∈ (chipReader rocid).emitted ws c) :
    hit.trigTime = c.trigTime ∧ hit.glbTrlStatus = c.glbTrlStatus := by
  induction ws generalizing c with
  | nil => simp at h
  | cons w ws ih =>
    rcases List.mem_append.mp h with h | h
    · exact emit_chipWord rocid h
    · have hcarry := carry_chipWord rocid w c
      have hrest := ih h
      exact ⟨hrest.1.trans hcarry.1, hrest.2.trans hcarry.2.1⟩

theorem carried_flags (ws : List ChipWord) (c : Carried) :
    ((chipReader rocid).carried ws c).flags =
      (ws.filterMap ChipWord.errorFlags).getLast?.getD c.flags :=
  Transducer.carried_eq_getLast (chipReader rocid) Carried.flags
    (fun w c => by cases w <;> rfl) ws c

/-- The flags of the hits lie within some flags that contain those of all errors exactly
if those of the hits before the first error do. -/
theorem emitted_flags_iff {own : UInt32} {ws : List ChipWord}
    (hown : ∀ flags ∈ ws.filterMap ChipWord.errorFlags, flags ||| own = own) (slot : UInt32)
    (c : Carried) :
    (∀ hit ∈ (chipReader rocid).emitted ws c, hit.flags ||| own = own) ↔
      ((ws.takeWhile fun w => w.errorFlags.isNone).filterMap (ChipWord.measurementIn slot) ≠ [] →
        c.flags ||| own = own) := by
  induction ws generalizing c with
  | nil => simp
  | cons w ws ih =>
    have hrest := fun c => ih (fun flags hf => hown flags (by
      rw [List.filterMap_cons]
      split <;> simp [hf])) c
    rw [Transducer.emitted_cons, List.forall_mem_append, hrest]
    cases w with
    | header chipId eventId bunchId => simp [chipReader, ChipWord.errorFlags, ChipWord.measurementIn]
    | trailer chipId eventId wordCount =>
      simp [chipReader, ChipWord.errorFlags, ChipWord.measurementIn]
    | measurement opt chan value =>
      simp [chipReader, ChipWord.errorFlags, ChipWord.measurementIn]
      tauto
    | error chipId flags =>
      have hf := hown (UInt32.ofNat flags.toNat) (by simp [ChipWord.errorFlags])
      simp [chipReader, ChipWord.errorFlags, hf]

theorem flags_or_ownFlags (e : Event) :
    ∀ flags ∈ e.chipWords.filterMap ChipWord.errorFlags, flags ||| e.ownFlags = e.ownFlags := by
  rw [Event.ownFlags]
  induction e.chipWords.filterMap ChipWord.errorFlags with
  | nil => simp
  | cons f fs ih =>
    intro flags hf
    rw [List.foldr_cons]
    rcases List.mem_cons.mp hf with rfl | hf
    · rw [← UInt32.or_assoc, UInt32.or_self]
    · rw [← UInt32.or_assoc, UInt32.or_comm flags, UInt32.or_assoc, ih flags hf]

end Chips

section Events

variable (rocid : UInt32)

theorem emit_eq_nil_iff {e : Event} {c : Carried} :
    (eventReader rocid).emit e c = [] ↔ e.measurements = [] := by
  rw [← List.map_eq_nil_iff (f := measurementOf)]
  exact (congrArg (· = []) (map_emitted_chipWords rocid e.chipWords _)).to_iff

theorem carriesOwnFields_iff (e : Event) (c : Carried) :
    CarriesOwnFields e ((eventReader rocid).emit e c) ↔
      (e.measurements ≠ [] →
        c.trigTime = e.triggerTimeValue.getD 0 ∧ c.glbTrlStatus = e.statusValue) ∧
      (e.measurementsBeforeErrors ≠ [] → c.flags ||| e.ownFlags = e.ownFlags) := by
  have hsame : ((eventReader rocid).emit e c).map measurementOf = e.measurements :=
    map_emitted_chipWords rocid e.chipWords _
  have hfields : ∀ hit ∈ (eventReader rocid).emit e c,
      hit.trigTime = c.trigTime ∧ hit.glbTrlStatus = c.glbTrlStatus :=
    fun hit hhit => emitted_chipWords rocid (c := c.enter e.toEventFrame) hhit
  have hflags := emitted_flags_iff rocid (flags_or_ownFlags e) e.slotValue (c.enter e.toEventFrame)
  have hnil : (eventReader rocid).emit e c = [] ↔ e.measurements = [] := emit_eq_nil_iff rocid
  constructor
  · intro hh
    obtain ⟨-, h⟩ := hh
    refine ⟨fun hne => ?_, hflags.mp fun hit hhit => (h hit hhit).2.2⟩
    obtain ⟨hit, hhit⟩ := List.exists_mem_of_ne_nil _ (hnil.not.mpr hne)
    have hcarried := hfields hit hhit
    exact ⟨hcarried.1 ▸ (h hit hhit).1, hcarried.2 ▸ (h hit hhit).2.1⟩
  · intro hh
    obtain ⟨hown, hbefore⟩ := hh
    refine ⟨hsame, fun hit hhit => ?_⟩
    have hcarried := hfields hit hhit
    have hc := hown (hnil.not.mp (List.ne_nil_of_mem hhit))
    exact ⟨hcarried.1.trans hc.1, hcarried.2.trans hc.2, hflags.mpr hbefore hit hhit⟩

theorem carried_events (before : List Event) :
    ((eventReader rocid).carried before {}).trigTime = lastTriggerTime before ∧
      ((eventReader rocid).carried before {}).glbTrlStatus = lastStatus before ∧
      ((eventReader rocid).carried before {}).flags = lastFlags before := by
  have hkeep (ws : List ChipWord) (c : Carried) :
      ((chipReader rocid).carried ws c).trigTime = c.trigTime := by
    induction ws generalizing c with
    | nil => rfl
    | cons w ws ih => exact (ih _).trans (carry_chipWord rocid w c).1
  refine ⟨?_, ?_, ?_⟩
  · exact Transducer.carried_eq_getLast (eventReader rocid) Carried.trigTime
      (fun e c => congrArg e.triggerTimeValue.getD (hkeep e.chipWords _)) before {}
  · have hset (e : Event) (c : Carried) : ((eventReader rocid).carry e c).glbTrlStatus =
        (some e.statusValue).getD c.glbTrlStatus := rfl
    rw [Transducer.carried_eq_getLast (eventReader rocid) Carried.glbTrlStatus hset,
      List.filterMap_eq_map']
    rfl
  · exact Transducer.carried_eq_getLast (eventReader rocid) Carried.flags
      (fun e c => carried_flags rocid e.chipWords _) before {}

theorem publishedHits_encodeBank (triggerData : TriggerData) (bank : List OrderedEvent) :
    ∃ evs, parse rocid triggerData (encodeBank bank) = .ok evs ∧
      publishedHits evs = (eventReader rocid).emitted (bank.map OrderedEvent.toEvent) {} := by
  have henc : encodeBank bank = (bank.map OrderedEvent.toEvent).flatMap Event.encode := by
    rw [encodeBank, List.flatMap_map]
  rw [henc, parse_bank]
  refine ⟨_, rfl, ?_⟩
  split
  · rename_i hnil
    rw [hnil]
    rfl
  · simp [publishedHits]

/-- Of an event with measurements, the hits differ between a bank where it is the first
event and one where an event with a trigger time precedes it. -/
theorem isolated_iff (triggerData : TriggerData) (e : OrderedEvent) :
    Isolated rocid triggerData e ↔ e.toEvent.measurements = [] := by
  have hadds (before : List OrderedEvent) (hits : List CAEN1190Hit) :
      (∃ evs evs', parse rocid triggerData (encodeBank before) = .ok evs ∧
        parse rocid triggerData (encodeBank (before ++ [e])) = .ok evs' ∧
        publishedHits evs' = publishedHits evs ++ hits) ↔
      (eventReader rocid).emit e.toEvent
        ((eventReader rocid).carried (before.map OrderedEvent.toEvent) {}) = hits := by
    obtain ⟨evs, hevs, hhits⟩ := publishedHits_encodeBank rocid triggerData before
    obtain ⟨evs', hevs', hhits'⟩ := publishedHits_encodeBank rocid triggerData (before ++ [e])
    rw [List.map_append, List.map_singleton, Transducer.emitted_append, Transducer.emitted_cons,
      Transducer.emitted_nil, List.append_nil] at hhits'
    simp [hevs, hevs', hhits, hhits']
  simp only [Isolated, hadds]
  constructor
  · intro hh
    obtain ⟨hits, h⟩ := hh
    by_contra hne
    let timed : OrderedEvent := ⟨⟨0, 0, some 1, 0, 3⟩, []⟩
    have hfirst := h []
    have hafter := h [timed]
    have hnil : hits ≠ [] := by
      rw [← hfirst]
      exact (emit_eq_nil_iff rocid).not.mpr hne
    obtain ⟨hit, hhit⟩ := List.exists_mem_of_ne_nil hits hnil
    have hzero : hit.trigTime = 0 := (emitted_chipWords rocid (hfirst.symm ▸ hhit)).1
    have hone : hit.trigTime = 1 := (emitted_chipWords rocid (hafter.symm ▸ hhit)).1
    exact absurd (hzero.symm.trans hone) (by decide)
  · intro hnone
    exact ⟨[], fun before => (emit_eq_nil_iff rocid).mpr hnone⟩

theorem measurements_of_carriesOwnFields {bank : List OrderedEvent} {hits : List (List CAEN1190Hit)}
    (h : List.Forall₂ (fun e hs => CarriesOwnFields e.toEvent hs) bank hits) :
    hits.map (List.map measurementOf) =
      (bank.map OrderedEvent.toEvent).map Event.measurements := by
  induction h with
  | nil => rfl
  | cons hown _ ih => simp only [List.map_cons, ih, hown.1]

theorem keepsOwnFields_iff (triggerData : TriggerData) (bank : List OrderedEvent) :
    KeepsOwnFields rocid triggerData bank ↔
      ∀ before e after, bank.map OrderedEvent.toEvent = before ++ e :: after →
        Agrees before e := by
  obtain ⟨evs, hevs, hhits⟩ := publishedHits_encodeBank rocid triggerData bank
  have hagrees := Transducer.forall₂_emissions_iff (eventReader rocid) (P := CarriesOwnFields)
    (bank.map OrderedEvent.toEvent) {}
  simp only [carriesOwnFields_iff, carried_events] at hagrees
  simp only [Agrees, ← hagrees, List.forall₂_map_left_iff]
  constructor
  · intro hh
    obtain ⟨evs', hits, hevs', hflat, hall⟩ := hh
    obtain rfl : evs = evs' := Except.ok.inj (hevs.symm.trans hevs')
    have hsame : hits = (eventReader rocid).emissions (bank.map OrderedEvent.toEvent) {} := by
      have hmeasured := measurements_of_carriesOwnFields hall
      rw [← map_emissions rocid _ {}] at hmeasured
      have hlengths := congrArg (List.map List.length) hmeasured
      rw [List.map_map, List.map_map] at hlengths
      exact List.eq_iff_flatten_eq.mpr
        ⟨hflat.symm.trans hhits, by simpa [Function.comp_def] using hlengths⟩
    rwa [hsame] at hall
  · intro hall
    exact ⟨evs, _, hevs, hhits, hall⟩

end Events

/-- The hits of a bank carry their own fields exactly if all that the events before leave
behind agrees, and the hits of an event are the same in all banks only if it has none. -/
theorem fieldIsolation_iff (rocid : UInt32) (triggerData : TriggerData) :
    (∀ bank, KeepsOwnFields rocid triggerData bank ↔
      ∀ before e after, bank.map OrderedEvent.toEvent = before ++ e :: after →
        Agrees before e) ∧
    ∀ e, Isolated rocid triggerData e ↔ e.toEvent.measurements = [] :=
  ⟨keepsOwnFields_iff rocid triggerData, isolated_iff rocid triggerData⟩

def timedEvent (time : BitVec 27) : OrderedEvent where
  slot := 1
  eventCount := 0
  triggerTime := some time
  status := 0
  wordCount := 6
  chips := [⟨0, 0, 0, [(0, 3, 100)], [], 3⟩]

/-- The hit of the only event of a bank does not get the trigger time of the event. -/
theorem trigger_time_lost : ¬ KeepsOwnFields 0 ⟨1, 1⟩ [timedEvent 5] := by
  intro h
  have hagrees := (keepsOwnFields_iff 0 ⟨1, 1⟩ _).mp h [] _ [] rfl
  exact absurd (hagrees.1 (by decide +kernel)).1 (by decide +kernel)

end JanaExtensions.CAEN1190
