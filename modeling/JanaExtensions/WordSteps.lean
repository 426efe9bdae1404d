import JanaExtensions.FramingConformance

/-! What an accepted word does to the state of a parser: to the hits, and to the variable in
which the parser keeps the trigger time. -/

namespace JanaExtensions

open Failing

/-- The data word has hits in it. -/
def Word.hasHits : Word → Bool
  | .data (.hits _ present) => present
  | _ => false

/-- The two 24-bit fields of a pair of trigger-time words. -/
def timePair (m : UInt32 × List UInt32) : UInt32 × UInt32 :=
  (getBitsInRange m.1 23 0, getBitsInRange (m.2.headD 0) 23 0)

/-- What the VFTDC and MPD parsers make of the two fields. -/
def timestampOf (pair : UInt32 × UInt32) : UInt64 := ((pair.2 <<< 24) ||| pair.1).toUInt64

theorem BlockFrame.countEvent_ok {parser : String} {s frame : BlockFrame}
    (h : s.countEvent parser = .ok frame) : frame = { s with blockNevents := s.blockNevents - 1 } := by
  unfold BlockFrame.countEvent at h
  split at h
  · exact absurd h (by simp)
  · exact (Except.ok.inj h).symm

theorem BlockFrame.closeBlock_ok {parser : String} {s frame : BlockFrame}
    (h : s.closeBlock parser = .ok frame) :
    frame = { s with blockNevents := -1, eventIndex := 0 } := by
  unfold BlockFrame.closeBlock at h
  split at h
  · exact absurd h (by simp)
  · exact (Except.ok.inj h).symm

section WordStep

variable {σ H τ : Type} [AddMonoid H]

theorem EventHitsTable.addHits_ok {t t' : EventHitsTable H} {hits : H}
    (h : t.addHits hits = .ok t') : t.HasContainer ∧ t' = t.withHits hits := by
  by_cases hc : t.HasContainer
  · rw [addHits_of_container hc] at h
    exact ⟨hc, (Except.ok.inj h).symm⟩
  · rw [addHits_of_not_container hc] at h
    cases h

/-- Hits were appended to the current container of a table, or nothing happened. -/
def EventHitsTable.Extends (t t' : EventHitsTable H) : Prop :=
  t' = t ∨ t.HasContainer ∧ ∃ hits, t' = t.withHits hits

theorem EventHitsTable.Extends.of_addHits {t t' : EventHitsTable H} {hits : H}
    (h : t.addHits hits = .ok t') : t.Extends t' := by
  obtain ⟨hc, htable⟩ := addHits_ok h
  exact Or.inr ⟨hc, hits, htable⟩

/-- What a word does to the hits containers: an event header selects the container of the
event index, a data word may append to the container that is selected. -/
def StepsTable (key : UInt64 → UInt64) (w : Word) (s s' : BlockState H) : Prop :=
  match w with
  | .eventHeader _ => s'.toEventHitsTable = s.select (key s.eventIndex)
  | .data _ => s.toEventHitsTable.Extends s'.toEventHitsTable
  | _ => s'.toEventHitsTable = s.toEventHitsTable

variable (times : H → List τ) (blockState : σ → BlockState H) (key : UInt64 → UInt64)
  (stamp : σ → τ) (time : UInt32 × UInt32 → τ)

/-- A data word leaves the trigger time alone and adds hits with it, if it has any. -/
structure AddsStamped (w : Word) (s s' : σ) : Prop where
  stamp_eq : stamp s' = stamp s
  hits : if w.hasHits then ∃ hits, (∀ t ∈ times hits, t = stamp s) ∧ times hits ≠ [] ∧
      (blockState s').toEventHitsTable = (blockState s).toEventHitsTable.withHits hits
    else (blockState s').toEventHitsTable = (blockState s).toEventHitsTable

/-- What a word does to the trigger time. -/
def StepsStamp (w : Word) (m : UInt32 × List UInt32) (s s' : σ) : Prop :=
  match w with
  | .triggerTime _ => stamp s' = time (timePair m)
  | .data _ => AddsStamped times blockState stamp w s s'
  | _ => stamp s' = stamp s

/-- What an accepted word does to the hits containers and to the trigger time. -/
structure StepsWord (w : Word) (m : UInt32 × List UInt32) (s s' : σ) : Prop where
  table : StepsTable key w (blockState s) (blockState s')
  stamp : StepsStamp times blockState stamp time w m s s'

variable {times blockState key stamp time} {payload : Payload} {m : UInt32 × List UInt32}
  {s s' : σ} {hits : H}

theorem StepsWord.of_hits (hpresent : (Word.data payload).hasHits = true)
    (hc : (blockState s).HasContainer)
    (htable : (blockState s').toEventHitsTable = (blockState s).toEventHitsTable.withHits hits)
    (hstamp : stamp s' = stamp s) (htimes : ∀ t ∈ times hits, t = stamp s)
    (hne : times hits ≠ []) :
    StepsWord times blockState key stamp time (.data payload) m s s' where
  table := Or.inr ⟨hc, hits, htable⟩
  stamp := ⟨hstamp, by rw [if_pos hpresent]; exact ⟨hits, htimes, hne, htable⟩⟩

theorem StepsWord.of_none (hpresent : (Word.data payload).hasHits = false)
    (htable : (blockState s').toEventHitsTable = (blockState s).toEventHitsTable)
    (hstamp : stamp s' = stamp s) :
    StepsWord times blockState key stamp time (.data payload) m s s' where
  table := Or.inl htable
  stamp := ⟨hstamp, by rw [hpresent]; exact htable⟩

theorem StepsWord.of_hit {used : Nat} {t : EventHitsTable H}
    (ht : (blockState s).addHits hits = .ok t) (hs' : (blockState s').toEventHitsTable = t)
    (hstamp : stamp s' = stamp s) (htimes : times hits = [stamp s]) :
    StepsWord times blockState key stamp time (.data (.hits used true)) m s s' := by
  obtain ⟨hc, rfl⟩ := EventHitsTable.addHits_ok ht
  exact StepsWord.of_hits rfl hc hs' hstamp (by simp [htimes]) (by simp [htimes])

end WordStep

namespace VFTDC

def times (hits : EventHitsVFTDC) : List UInt64 := hits.vftdcHits.map VFTDCHit.timestamp

/-- What an accepted word of the bank does. -/
abbrev Steps (triggerData : TriggerData) (w : Word) (m : UInt32 × List UInt32) (s s' : State) :
    Prop :=
  StepsWord times State.toBlockState (triggerData.firstEventNumber + ·) State.eventTimestamp
    timestampOf w m s s'

variable {rocid d : UInt32} {triggerData : TriggerData} {following : List UInt32} {used : Nat}
  {s s' : State}

theorem eventHeader_step (h : eventHeader triggerData d s = .ok s') :
    s'.toEventHitsTable = s.select (triggerData.firstEventNumber + s.eventIndex) ∧
      s'.eventTimestamp = s.eventTimestamp := by
  obtain ⟨frame, hframe, hrest⟩ := bind_eq_ok.mp h
  obtain rfl := BlockFrame.countEvent_ok hframe
  dsimp only at hrest
  split at hrest
  · cases hrest
  · rw [← Except.ok.inj hrest]
    exact ⟨rfl, rfl⟩

theorem triggerTime_step (h : triggerTime d following s = .ok (used, s')) :
    s'.toEventHitsTable = s.toEventHitsTable ∧
      s'.eventTimestamp = timestampOf (timePair (d, following)) := by
  obtain ⟨-, -, hrest⟩ := bind_eq_ok.mp h
  cases following with
  | nil => cases hrest
  | cons d2 following =>
    rw [← (Prod.mk.inj (Except.ok.inj hrest)).2]
    exact ⟨rfl, rfl⟩

theorem parseWord_step (h : parseWord rocid triggerData d following s = .ok (used, s')) :
    Steps triggerData (readAs d following) (d, following) s s' := by
  unfold parseWord dispatch at h
  unfold readAs classify
  by_cases hd : getBitsInRange d 31 31 = 1
  · simp only [hd, if_true] at h ⊢
    generalize (getBitsInRange d 30 27).toNat = dataType at h ⊢
    match dataType, h with
    | 0, h =>
      rw [← (Prod.mk.inj (Except.ok.inj h)).2]
      exact ⟨rfl, rfl⟩
    | 1, h =>
      obtain ⟨frame, -, hrest⟩ := bind_eq_ok.mp h
      rw [← (Prod.mk.inj (Except.ok.inj hrest)).2]
      exact ⟨rfl, rfl⟩
    | 2, h =>
      obtain ⟨t, ht, hrest⟩ := bind_eq_ok.mp h
      rw [← (Prod.mk.inj (Except.ok.inj hrest)).2]
      obtain ⟨htable, hstamp⟩ := eventHeader_step ht
      exact ⟨htable, hstamp⟩
    | 3, h =>
      obtain ⟨htable, hstamp⟩ := triggerTime_step h
      exact ⟨htable, hstamp⟩
    | 7, h =>
      obtain ⟨-, -, hrest⟩ := bind_eq_ok.mp h
      obtain ⟨t, ht, hrest⟩ := bind_eq_ok.mp hrest
      rw [← (Prod.mk.inj (Except.ok.inj hrest)).2]
      exact StepsWord.of_hit ht rfl rfl rfl
    | 4, h | 5, h | 6, h | _ + 8, h =>
      rw [← (Prod.mk.inj (Except.ok.inj h)).2]
      exact ⟨rfl, rfl⟩
  · simp only [hd, if_false] at h ⊢
    rw [← (Prod.mk.inj (Except.ok.inj h)).2]
    exact ⟨rfl, rfl⟩

end VFTDC

namespace FADC

def stampOf (hit : FADC250Hit) : UInt32 × UInt32 := (hit.timestamp1, hit.timestamp2)

def times (hits : EventHitsFADC) : List (UInt32 × UInt32) :=
  hits.waveforms.map (fun hit => stampOf hit.toFADC250Hit) ++
    hits.pulses.map (fun hit => stampOf hit.toFADC250Hit) ++
    hits.pulseIntegrals.map (fun hit => stampOf hit.toFADC250Hit) ++
    hits.pulseTimes.map (fun hit => stampOf hit.toFADC250Hit) ++
    hits.pulsePeaks.map (fun hit => stampOf hit.toFADC250Hit)

def State.stamp (s : State) : UInt32 × UInt32 := (s.timestamp1, s.timestamp2)

/-- What an accepted word of the bank does. -/
abbrev Steps (triggerData : TriggerData) (w : Word) (m : UInt32 × List UInt32) (s s' : State) :
    Prop :=
  StepsWord times State.toBlockState (triggerData.firstEventNumber + ·) State.stamp id w m s s'

variable {rocid d : UInt32} {triggerData : TriggerData} {following : List UInt32} {used : Nat}
  {s s' : State}

theorem eventHeader_step (h : eventHeader triggerData d s = .ok s') :
    s'.toEventHitsTable = s.select (triggerData.firstEventNumber + s.eventIndex) ∧
      s'.stamp = s.stamp := by
  obtain ⟨frame, hframe, hrest⟩ := bind_eq_ok.mp h
  obtain rfl := BlockFrame.countEvent_ok hframe
  dsimp only at hrest
  split at hrest
  · cases hrest
  · rw [← Except.ok.inj hrest]
    exact ⟨rfl, rfl⟩

theorem triggerTime_step (h : triggerTime d following s = .ok (used, s')) :
    s'.toEventHitsTable = s.toEventHitsTable ∧ s'.stamp = timePair (d, following) := by
  obtain ⟨-, -, hrest⟩ := bind_eq_ok.mp h
  cases following with
  | nil => cases hrest
  | cons d2 following =>
    rw [← (Prod.mk.inj (Except.ok.inj hrest)).2]
    exact ⟨rfl, rfl⟩

theorem parseWaveformData_base {base : FADC250Hit} {waveformLen : UInt32}
    {hit : FADC250WaveformHit}
    (h : parseWaveformData following base waveformLen = .ok (used, hit)) :
    hit.toFADC250Hit = base := by
  obtain ⟨waveform, -, hrest⟩ := bind_eq_ok.mp h
  split at hrest
  · cases hrest
  · rw [← (Prod.mk.inj (Except.ok.inj hrest)).2]

theorem waveformData_step (h : waveformData rocid d following s = .ok (used, s')) :
    Steps triggerData (.data (waveformPayload d following)) (d, following) s s' := by
  obtain ⟨-, -, hrest⟩ := bind_eq_ok.mp h
  obtain ⟨⟨used', hit⟩, hhit, hrest⟩ := bind_eq_ok.mp hrest
  obtain ⟨t, ht, hrest⟩ := bind_eq_ok.mp hrest
  rw [← (Prod.mk.inj (Except.ok.inj hrest)).2]
  obtain ⟨-, message, hp⟩ | ⟨used'', hit', hp, -⟩ := parseWaveformData_payload d following
    (hitBase rocid (getBitsInRange d 26 23) s)
  · rw [hp] at hhit
    cases hhit
  · rw [hp]
    refine StepsWord.of_hit ht rfl rfl ?_
    simp [times, parseWaveformData_base hhit]
    rfl

theorem addPulses_ok {hits : List FADC250PulseHit} {t t' : EventHitsTable EventHitsFADC}
    (hne : hits ≠ []) (h : addPulses hits t = .ok t') :
    t.HasContainer ∧ t' = t.withHits { pulses := hits } := by
  by_cases hc : t.HasContainer
  · rw [addPulses_of_container hits hc] at h
    exact ⟨hc, (Except.ok.inj h).symm⟩
  · rw [addPulses_null (EventHitsTable.addHits_of_not_container hc) hne] at h
    cases h

theorem stampOf_parsePulseData (base : FADC250Hit) (pedestalQuality pedestalSum : UInt32)
    (following : List UInt32) :
    ∀ hit ∈ parsePulseData base pedestalQuality pedestalSum following,
      stampOf hit.toFADC250Hit = stampOf base := by
  fun_induction parsePulseData base pedestalQuality pedestalSum following with
  | case1 | case3 => simp
  | case2 w2 w3 following h ih =>
    intro hit hhit
    rcases List.mem_cons.mp hhit with rfl | hhit
    · rfl
    · exact ih hit hhit

theorem pulseRawData_step (h : pulseRawData rocid d following s = .ok (used, s')) :
    Steps triggerData (.data (.hits (2 * pulseCount following) (pulseCount following ≠ 0)))
      (d, following) s s' := by
  obtain ⟨-, -, hrest⟩ := bind_eq_ok.mp h
  obtain ⟨t, ht, hrest⟩ := bind_eq_ok.mp hrest
  rw [← (Prod.mk.inj (Except.ok.inj hrest)).2]
  have hlen := length_parsePulseData (hitBase rocid (getBitsInRange d 18 15) s)
    (getBitsInRange d 14 14) (getBitsInRange d 13 0) following
  have hstamp := stampOf_parsePulseData (hitBase rocid (getBitsInRange d 18 15) s)
    (getBitsInRange d 14 14) (getBitsInRange d 13 0) following
  rw [pulseRawHits] at ht
  generalize parsePulseData (hitBase rocid (getBitsInRange d 18 15) s) (getBitsInRange d 14 14)
    (getBitsInRange d 13 0) following = hits at ht hlen hstamp
  by_cases hnil : hits = []
  · subst hnil
    obtain rfl := Except.ok.inj ht
    exact StepsWord.of_none (by simp [Word.hasHits, ← hlen]) rfl rfl
  · have hne : pulseCount following ≠ 0 := by
      rw [← hlen]
      exact fun hzero => hnil (List.eq_nil_of_length_eq_zero hzero)
    obtain ⟨hc, htable⟩ := addPulses_ok hnil ht
    refine StepsWord.of_hits (by simp [Word.hasHits, hne]) hc htable rfl ?_ (by simp [times, hnil])
    intro x hx
    obtain ⟨hit, hhit, rfl⟩ : ∃ hit ∈ hits, stampOf hit.toFADC250Hit = x := by
      simpa [times] using hx
    exact hstamp hit hhit

theorem parseWord_step (h : parseWord rocid triggerData d following s = .ok (used, s')) :
    Steps triggerData (readAs d following) (d, following) s s' := by
  unfold parseWord dispatch at h
  unfold readAs classify
  by_cases hd : getBitsInRange d 31 31 = 1
  · simp only [hd, if_true] at h ⊢
    generalize (getBitsInRange d 30 27).toNat = dataType at h ⊢
    match dataType, h with
    | 0, h =>
      rw [← (Prod.mk.inj (Except.ok.inj h)).2]
      exact ⟨rfl, rfl⟩
    | 1, h =>
      obtain ⟨frame, -, hrest⟩ := bind_eq_ok.mp h
      rw [← (Prod.mk.inj (Except.ok.inj hrest)).2]
      exact ⟨rfl, rfl⟩
    | 2, h =>
      obtain ⟨t, ht, hrest⟩ := bind_eq_ok.mp h
      rw [← (Prod.mk.inj (Except.ok.inj hrest)).2]
      obtain ⟨htable, hstamp⟩ := eventHeader_step ht
      exact ⟨htable, hstamp⟩
    | 3, h =>
      obtain ⟨htable, hstamp⟩ := triggerTime_step h
      exact ⟨htable, hstamp⟩
    | 4, h => exact waveformData_step h
    | 9, h => exact pulseRawData_step h
    | 7, h | 8, h | 10, h =>
      obtain ⟨-, -, hrest⟩ := bind_eq_ok.mp h
      obtain ⟨t, ht, hrest⟩ := bind_eq_ok.mp hrest
      rw [← (Prod.mk.inj (Except.ok.inj hrest)).2]
      exact StepsWord.of_hit ht rfl rfl rfl
    | 5, h | 6, h | _ + 11, h =>
      rw [← (Prod.mk.inj (Except.ok.inj h)).2]
      exact ⟨rfl, rfl⟩
  · simp only [hd, if_false] at h ⊢
    rw [← (Prod.mk.inj (Except.ok.inj h)).2]
    exact ⟨rfl, rfl⟩

end FADC

namespace MPD

def times (hits : EventHitsMPD) : List UInt64 := hits.mpd.map MPDHit.triggerTime

/-- What an accepted word of the bank does. -/
abbrev Steps (triggerData : TriggerData) (w : Word) (m : UInt32 × List UInt32) (s s' : State) :
    Prop :=
  StepsWord times State.toBlockState
    (fun i => (triggerData.firstEventNumber + i).toUInt32.toUInt64) State.eventTimestamp
    timestampOf w m s s'

variable {rocid d : UInt32} {triggerData : TriggerData} {following : List UInt32} {used : Nat}
  {s s' : State}

theorem blockTrailer_step (h : blockTrailer d s = .ok s') :
    s'.toEventHitsTable = s.toEventHitsTable ∧ s'.eventTimestamp = s.eventTimestamp := by
  obtain ⟨frame, -, hrest⟩ := bind_eq_ok.mp h
  dsimp only at hrest
  split at hrest
  · cases hrest
  · rw [← Except.ok.inj hrest]
    exact ⟨rfl, rfl⟩

theorem eventHeader_step (h : eventHeader triggerData s = .ok s') :
    s'.toEventHitsTable =
        s.select (triggerData.firstEventNumber + s.eventIndex).toUInt32.toUInt64 ∧
      s'.eventTimestamp = s.eventTimestamp := by
  obtain ⟨frame, hframe, hrest⟩ := bind_eq_ok.mp h
  obtain rfl := BlockFrame.countEvent_ok hframe
  rw [← Except.ok.inj hrest]
  exact ⟨rfl, rfl⟩

theorem triggerTime_step (h : triggerTime d following s = .ok (used, s')) :
    s'.toEventHitsTable = s.toEventHitsTable ∧
      s'.eventTimestamp = timestampOf (timePair (d, following)) := by
  obtain ⟨-, -, hrest⟩ := bind_eq_ok.mp h
  cases following with
  | nil => cases hrest
  | cons d2 following =>
    rw [← (Prod.mk.inj (Except.ok.inj hrest)).2]
    exact ⟨rfl, rfl⟩

/-- The hits of the groups carry the time of the state before the groups. -/
theorem apvGroups_ok {ngroups : Nat} (hcount : apvGroupCount following = some (ngroups + 1))
    (h : apvGroups rocid d following s = .ok (used, s')) :
    s.HasContainer ∧ s'.eventTimestamp = s.eventTimestamp ∧
      ∃ hits, (∀ t ∈ times hits, t = s.eventTimestamp) ∧ times hits ≠ [] ∧
        s'.toEventHitsTable = s.toEventHitsTable.withHits hits := by
  fun_induction apvGroups rocid d following s generalizing used s' ngroups with
  | case1 s => cases h
  | case2 d2 s hd2 d3 d4 following ih =>
    obtain ⟨t, ht, hrest⟩ := bind_eq_ok.mp h
    obtain ⟨⟨used', s₁⟩, hs₁, hrest⟩ := bind_eq_ok.mp hrest
    obtain ⟨-, rfl⟩ := Prod.mk.inj (Except.ok.inj hrest)
    obtain ⟨hc, rfl⟩ := EventHitsTable.addHits_ok ht
    rw [apvGroupCount, if_pos hd2] at hcount
    obtain ⟨n, hn, hsucc⟩ := Option.map_eq_some_iff.mp hcount
    obtain rfl := Nat.succ_injective hsucc
    cases n with
    | zero =>
      rw [apvGroups_zero rocid d _ hn] at hs₁
      rw [← (Prod.mk.inj (Except.ok.inj hs₁)).2]
      exact ⟨hc, rfl, _, by simp [times, apvHit], by simp [times], rfl⟩
    | succ n =>
      obtain ⟨-, hstamp, hits, htimes, -, htable⟩ := ih _ hn hs₁
      refine ⟨hc, hstamp, { mpd := apvHit rocid d s d2 d3 d4 :: hits.mpd }, ?_, ?_, ?_⟩
      · intro t ht
        rcases List.mem_cons.mp ht with rfl | ht
        · rfl
        · exact htimes t ht
      · exact List.cons_ne_nil _ _
      · rw [htable]
        exact EventHitsTable.withHits_withHits ..
  | case3 => cases h
  | case4 d2 following s hd2 =>
    unfold apvGroupCount at hcount
    simp [hd2] at hcount

theorem mpdFrame_step (h : mpdFrame rocid d following s = .ok (used, s')) :
    Steps triggerData (.data (apvPayload following)) (d, following) s s' := by
  obtain ⟨-, -, hrest⟩ := bind_eq_ok.mp h
  unfold apvPayload
  cases hcount : apvGroupCount following with
  | none =>
    obtain ⟨fault, hfault, -⟩ := apvGroups_none rocid d (s := s) hcount
    rw [hfault] at hrest
    cases hrest
  | some ngroups =>
    cases ngroups with
    | zero =>
      rw [apvGroups_zero rocid d s hcount] at hrest
      rw [← (Prod.mk.inj (Except.ok.inj hrest)).2]
      exact StepsWord.of_none rfl rfl rfl
    | succ n =>
      obtain ⟨hc, hstamp, hits, htimes, hne, htable⟩ := apvGroups_ok hcount hrest
      exact StepsWord.of_hits rfl hc htable hstamp htimes hne

theorem parseWord_step (h : parseWord rocid triggerData d following s = .ok (used, s')) :
    Steps triggerData (readAs d following) (d, following) s s' := by
  unfold parseWord dispatch at h
  unfold readAs classify
  by_cases hd : getBitsInRange d 31 31 = 1
  · simp only [hd, if_true] at h ⊢
    generalize (getBitsInRange d 30 27).toNat = dataType at h ⊢
    match dataType, h with
    | 0, h =>
      rw [← (Prod.mk.inj (Except.ok.inj h)).2]
      exact ⟨rfl, rfl⟩
    | 1, h =>
      obtain ⟨t, ht, hrest⟩ := bind_eq_ok.mp h
      rw [← (Prod.mk.inj (Except.ok.inj hrest)).2]
      obtain ⟨htable, hstamp⟩ := blockTrailer_step ht
      exact ⟨htable, hstamp⟩
    | 2, h =>
      obtain ⟨t, ht, hrest⟩ := bind_eq_ok.mp h
      rw [← (Prod.mk.inj (Except.ok.inj hrest)).2]
      obtain ⟨htable, hstamp⟩ := eventHeader_step ht
      exact ⟨htable, hstamp⟩
    | 3, h =>
      obtain ⟨htable, hstamp⟩ := triggerTime_step h
      exact ⟨htable, hstamp⟩
    | 5, h => exact mpdFrame_step h
    | 4, h | 6, h | _ + 7, h =>
      rw [← (Prod.mk.inj (Except.ok.inj h)).2]
      exact ⟨rfl, rfl⟩
  · simp only [hd, if_false] at h ⊢
    rw [← (Prod.mk.inj (Except.ok.inj h)).2]
    exact ⟨rfl, rfl⟩

end MPD

namespace HelicityDecoder

def stampOf (record : HelicityDecoderData) : UInt32 × UInt32 :=
  (record.timestamp1, record.timestamp2)

def State.stamp (s : State) : UInt32 × UInt32 := (s.timestamp1, s.timestamp2)

/-- What an accepted word of the bank does to the trigger time and to the records, to the
event index and to the events that are published. -/
def Steps (triggerData : TriggerData) (w : Word) (m : UInt32 × List UInt32) (s s' : State) :
    Prop :=
  match w with
  | .eventHeader _ => s'.stamp = s.stamp ∧ s'.eventHits = some {} ∧
      s'.eventIndex = (if s.eventHits.isSome then s.eventIndex + 1 else s.eventIndex) ∧
      s'.physicsEvents = publish triggerData s
  | .blockTrailer _ => s'.stamp = s.stamp ∧ s'.eventHits = s.eventHits ∧ s'.eventIndex = 0 ∧
      s'.physicsEvents = if m.2 = [] then publish triggerData s else s.physicsEvents
  | .triggerTime _ => s'.stamp = timePair m ∧ s'.eventHits = s.eventHits ∧
      s'.eventIndex = s.eventIndex ∧ s'.physicsEvents = s.physicsEvents
  | .data _ => s'.stamp = s.stamp ∧
      (∃ eventHits record, s.eventHits = some eventHits ∧
        s'.eventHits = some ⟨eventHits.helicity ++ [record]⟩ ∧ stampOf record = s.stamp) ∧
      s'.eventIndex = s.eventIndex ∧ s'.physicsEvents = s.physicsEvents
  | _ => s'.stamp = s.stamp ∧ s'.eventHits = s.eventHits ∧ s'.eventIndex = s.eventIndex ∧
      s'.physicsEvents = s.physicsEvents

variable {rocid d : UInt32} {triggerData : TriggerData} {following : List UInt32} {used : Nat}
  {s s' : State}

theorem blockTrailer_step {slot : Option UInt32} (h : blockTrailer triggerData following s = .ok s') :
    Steps triggerData (.blockTrailer slot) (d, following) s s' := by
  obtain ⟨frame, hframe, hrest⟩ := bind_eq_ok.mp h
  obtain rfl := BlockFrame.closeBlock_ok hframe
  rw [← Except.ok.inj hrest]
  exact ⟨rfl, rfl, rfl, rfl⟩

theorem eventHeader_step {slot : Option UInt32} (h : eventHeader triggerData d s = .ok s') :
    Steps triggerData (.eventHeader slot) (d, following) s s' := by
  obtain ⟨frame, hframe, hrest⟩ := bind_eq_ok.mp h
  obtain rfl := BlockFrame.countEvent_ok hframe
  dsimp only at hrest
  split at hrest
  · cases hrest
  · rw [← Except.ok.inj hrest]
    exact ⟨rfl, rfl, rfl, rfl⟩

theorem triggerTime_step {present : Bool} (h : triggerTime d following s = .ok (used, s')) :
    Steps triggerData (.triggerTime present) (d, following) s s' := by
  obtain ⟨-, -, hrest⟩ := bind_eq_ok.mp h
  cases following with
  | nil => cases hrest
  | cons d2 following =>
    rw [← (Prod.mk.inj (Except.ok.inj hrest)).2]
    exact ⟨rfl, rfl, rfl, rfl⟩

theorem stampOf_parseDecoderData (following : List UInt32) (nwords : Nat)
    (hit : HelicityDecoderData) : stampOf (parseDecoderData following nwords hit) = stampOf hit := by
  unfold parseDecoderData
  generalize (following.take nwords).zipIdx 1 = words
  induction words generalizing hit with
  | nil => rfl
  | cons ww words ih =>
    rw [List.foldl_cons, ih]
    unfold decoderWord
    split <;> rfl

theorem decoderData_step {payload : Payload}
    (h : decoderData rocid d following s = .ok (used, s')) :
    Steps triggerData (.data payload) (d, following) s s' := by
  obtain ⟨-, -, hrest⟩ := bind_eq_ok.mp h
  dsimp only at hrest
  cases heventHits : s.eventHits with
  | none =>
    rw [heventHits] at hrest
    cases hrest
  | some eventHits =>
    rw [heventHits] at hrest
    rw [← (Prod.mk.inj (Except.ok.inj hrest)).2]
    exact ⟨rfl, ⟨eventHits, _, heventHits, rfl, stampOf_parseDecoderData ..⟩, rfl, rfl⟩

theorem parseWord_step (h : parseWord rocid triggerData d following s = .ok (used, s')) :
    Steps triggerData (readAs d following) (d, following) s s' := by
  unfold parseWord dispatch at h
  unfold readAs classify
  by_cases hd : getBitsInRange d 31 31 = 1
  · simp only [hd, if_true] at h ⊢
    generalize (getBitsInRange d 30 27).toNat = dataType at h ⊢
    match dataType, h with
    | 0, h =>
      rw [← (Prod.mk.inj (Except.ok.inj h)).2]
      exact ⟨rfl, rfl, rfl, rfl⟩
    | 1, h =>
      obtain ⟨t, ht, hrest⟩ := bind_eq_ok.mp h
      rw [← (Prod.mk.inj (Except.ok.inj hrest)).2]
      exact blockTrailer_step ht
    | 2, h =>
      obtain ⟨t, ht, hrest⟩ := bind_eq_ok.mp h
      rw [← (Prod.mk.inj (Except.ok.inj hrest)).2]
      exact eventHeader_step ht
    | 3, h => exact triggerTime_step h
    | 8, h => exact decoderData_step h
    | 4, h | 5, h | 6, h | 7, h | _ + 9, h =>
      rw [← (Prod.mk.inj (Except.ok.inj h)).2]
      exact ⟨rfl, rfl, rfl, rfl⟩
  · simp only [hd, if_false] at h ⊢
    rw [← (Prod.mk.inj (Except.ok.inj h)).2]
    exact ⟨rfl, rfl, rfl, rfl⟩

end HelicityDecoder

end JanaExtensions
