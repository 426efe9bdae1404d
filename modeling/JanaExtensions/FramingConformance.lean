import JanaExtensions.FADC
import JanaExtensions.Framing
import JanaExtensions.HelicityDecoder
import JanaExtensions.MPD
import JanaExtensions.VFTDC

/-! How each block-structured parser reads the words of a bank, and that it conforms
to the framing. -/

namespace JanaExtensions

open Failing

/-- The framing words have one layout in all parsers. The parsers differ in where they
compare slots, and in the payloads of their data types. -/
def classify (trailerSlot eventSlot : Bool)
    (payload : Nat → UInt32 → List UInt32 → Option Payload) (d : UInt32)
    (following : List UInt32) : Word :=
  let slot := getBitsInRange d 26 22
  if getBitsInRange d 31 31 = 1 then
    match (getBitsInRange d 30 27).toNat with
    | 0 => .blockHeader slot (getBitsInRange d 7 0).toNat
    | 1 => .blockTrailer (if trailerSlot then some slot else none)
    | 2 => .eventHeader (if eventSlot then some slot else none)
    | 3 => .triggerTime (!following.isEmpty)
    | dataType =>
      match payload dataType d following with
      | some payload => .data payload
      | none => .other
  else .other

section MapState

variable {σ H : Type} [AddMonoid H] {key : UInt64 → UInt64} {f : Framing} {s : σ}

def Appends (blockState : σ → BlockState H) (s s' : σ) : Prop :=
  ∃ hits, blockState s' = (blockState s).withHits hits

abbrev TracksIn (blockState : σ → BlockState H) (key : UInt64 → UInt64) (f : Framing) (s : σ) :
    Prop :=
  Tracks key f (blockState s)

variable {blockState : σ → BlockState H}

omit [AddMonoid H] in
theorem TracksIn.init {init : σ} (hinit : blockState init = {}) :
    TracksIn blockState key {} init := by
  rw [TracksIn, hinit]
  exact Tracks.init

theorem meets_addHits (h : TracksIn blockState key f s) (hopen : 0 ≤ f.blockNevents) (hits : H)
    (used : Nat) {rest : EventHitsTable H → σ}
    (hrest : ∀ t, blockState (rest t) = { blockState s with toEventHitsTable := t }) :
    Meets (TracksIn blockState key) (Appends blockState) f (.data (.hits used true)) s
      ((blockState s).addHits hits >>= fun t => .ok (used, rest t)) := by
  have hn : ¬ f.blockNevents < 0 := by omega
  obtain ⟨hsome, hnone⟩ := h.addHits hits
  cases hc : f.current with
  | none => simp [Meets, Framing.judge, hn, hc, hnone, Fault.isThrown]
  | some i =>
    have hs : f.current.isSome := by simp [hc]
    rw [hsome hs]
    refine Meets.of_accepted (by simp [Framing.judge, hn, hc]) ?_ fun _ _ => ⟨hits, hrest _⟩
    rw [TracksIn, hrest]
    exact h.withHits hs hits

theorem meets_blockHeader (h : TracksIn blockState key f s) (d : UInt32) {s' : σ}
    (hs' : blockState s' = { blockState s with toBlockFrame := (blockState s).openBlock d }) :
    Meets (TracksIn blockState key) (Appends blockState) f
      (.blockHeader (getBitsInRange d 26 22) (getBitsInRange d 7 0).toNat) s (.ok (0, s')) := by
  refine Meets.of_framingWord rfl rfl ?_
  rw [TracksIn, hs']
  exact h.openBlock d

theorem meets_blockTrailer (h : TracksIn blockState key f s) (hz : f.blockNevents = 0)
    {slot : Option UInt32} (hslot : ∀ x ∈ slot, x = f.blockSlot) {s' : σ}
    (hs' : blockState s' = { blockState s with blockNevents := -1, eventIndex := 0 }) :
    Meets (TracksIn blockState key) (Appends blockState) f (.blockTrailer slot) s
      (.ok (0, s')) := by
  have hall : slot.all (· = f.blockSlot) = true := by simpa [Option.all_eq_true] using hslot
  refine Meets.of_framingWord (by simp [Framing.judge, hz, hall]) rfl ?_
  rw [TracksIn, hs']
  exact h.closeBlock slot

theorem meets_selectEvent (h : TracksIn blockState key f s) (hpos : 0 < f.blockNevents)
    {slot : Option UInt32} (hslot : ∀ x ∈ slot, x = f.blockSlot) {s' : σ}
    (hs' : blockState s' = ({ blockState s with blockNevents := f.blockNevents - 1 } :
      BlockState H).selectEvent (key f.eventIndex)) :
    Meets (TracksIn blockState key) (Appends blockState) f (.eventHeader slot) s
      (.ok (0, s')) := by
  have hall : slot.all (· = f.blockSlot) = true := by simpa [Option.all_eq_true] using hslot
  refine Meets.of_framingWord (by simp [Framing.judge, hpos, hall]) rfl ?_
  rw [TracksIn, hs']
  exact h.selectEvent slot

theorem meets_triggerTime (h : TracksIn blockState key f s) (parser : String)
    {following : List UInt32} {next : UInt32 → σ}
    (hnext : ∀ d2, blockState (next d2) = blockState s) :
    Meets (TracksIn blockState key) (Appends blockState) f (.triggerTime (!following.isEmpty)) s
      ((blockState s).requireBlock parser "trigger time" >>= fun _ =>
        match following with
        | [] => .error .outOfBounds
        | d2 :: _ => .ok (1, next d2)) := by
  refine meets_requireBlock (by rw [h.frame]) parser _ ?_ fun hopen => ?_
  · intro hn
    simp [Framing.judge, hn]
  · have hn : ¬ f.blockNevents < 0 := by omega
    cases following with
    | nil => simp [Meets, Framing.judge, hn, Fault.isThrown]
    | cons d2 following =>
      have ht : TracksIn blockState key f (next d2) := by rw [TracksIn, hnext]; exact h
      exact Meets.of_framingWord (by simp [Framing.judge, hn]) rfl ht

theorem meets_other (h : TracksIn blockState key f s) :
    Meets (TracksIn blockState key) (Appends blockState) f .other s (.ok (0, s)) :=
  Meets.of_framingWord rfl rfl h

end MapState

namespace VFTDC

def payload (dataType : Nat) (_ : UInt32) (_ : List UInt32) : Option Payload :=
  if dataType = 7 then some (.hits 0 true) else none

abbrev readAs : UInt32 → List UInt32 → Word := classify false true payload

theorem conforms (rocid : UInt32) (triggerData : TriggerData) :
    Conforms readAs (parseWord rocid triggerData)
      (TracksIn State.toBlockState (triggerData.firstEventNumber + ·))
      (Appends State.toBlockState) := by
  intro f s d following h
  have hnevents : s.blockNevents = f.blockNevents := by rw [h.frame]
  have hslot : s.blockSlot = f.blockSlot := by rw [h.frame]
  have hindex : s.eventIndex = f.eventIndex := by rw [h.frame]
  unfold readAs classify parseWord dispatch parseDefiningWord
  by_cases hd : getBitsInRange d 31 31 = 1
  · simp only [hd, if_true]
    match (getBitsInRange d 30 27).toNat with
    | 0 => exact meets_blockHeader h d rfl
    | 1 =>
      apply meets_closeBlock hnevents name
      intro hz
      exact meets_blockTrailer h hz (by simp) rfl
    | 2 =>
      change Meets _ _ f _ s (eventHeader triggerData d s >>= fun s => .ok (0, s))
      rw [eventHeader, bind_assoc]
      apply meets_countEvent hnevents name
      intro hpos
      dsimp only
      rw [ite_error_bind]
      apply meets_comparedSlot hslot _
      intro he
      exact meets_selectEvent h hpos (by simp [he]) (by simp [hindex])
    | 3 => exact meets_triggerTime h name fun _ => rfl
    | 7 =>
      apply meets_dataWord hnevents name _
      intro hopen
      exact meets_addHits h hopen _ 0 fun _ => rfl
    | 4 | 5 | 6 | _ + 8 => exact meets_other h
  · simp only [hd, if_false]
    exact meets_other h

end VFTDC

namespace FADC

def waveformPayload (d : UInt32) (following : List UInt32) : Payload :=
  let waveformLen := getBitsInRange d 11 0
  match waveformSamples ((waveformLen + 1) / 2).toNat following with
  | .error _ => .malformed
  | .ok waveform =>
    if waveformLen.toNat ≠ waveform.length then .malformed
    else .hits ((waveformLen + 1) / 2).toNat true

def pulseCount : List UInt32 → Nat
  | w2 :: w3 :: following =>
    if getBitsInRange w2 31 31 ≠ 0 ∨ getBitsInRange w3 31 31 ≠ 0 then 0
    else pulseCount following + 1
  | _ => 0

def payload (dataType : Nat) (d : UInt32) (following : List UInt32) : Option Payload :=
  match dataType with
  | 4 => some (waveformPayload d following)
  | 7 | 8 | 10 => some (.hits 0 true)
  | 9 => some (.hits (2 * pulseCount following) (pulseCount following ≠ 0))
  | _ => none

abbrev readAs : UInt32 → List UInt32 → Word := classify false true payload

theorem length_parsePulseData (base : FADC250Hit) (pedestalQuality pedestalSum : UInt32)
    (following : List UInt32) :
    (parsePulseData base pedestalQuality pedestalSum following).length = pulseCount following := by
  fun_induction pulseCount following with
  | case1 w2 w3 following h => simp [parsePulseData, h]
  | case2 w2 w3 following h ih => simp [parsePulseData, h, ih]
  | case3 following h =>
    match following with
    | [] | [_] => rfl
    | w2 :: w3 :: following => exact absurd rfl (h w2 w3 following)

theorem waveformSamples_error {n : Nat} {following : List UInt32} {fault : Fault}
    (h : waveformSamples n following = .error fault) : ∃ message, fault = .jexception message := by
  fun_induction waveformSamples n following with
  | case1 => simp at h
  | case2 => simp at h
  | case3 n ww following hw => exact ⟨_, by simpa using h.symm⟩
  | case4 n ww following hw ih =>
    cases hmore : waveformSamples n following with
    | error fault' =>
      rw [hmore, bind_error] at h
      exact ih (by rw [hmore, Except.error.inj h])
    | ok more => simp [hmore] at h

theorem parseWaveformData_payload (d : UInt32) (following : List UInt32) (base : FADC250Hit) :
    (waveformPayload d following = .malformed ∧
      ∃ message, parseWaveformData following base (getBitsInRange d 11 0) =
        .error (.jexception message)) ∨
    ∃ used hit, waveformPayload d following = .hits used true ∧
      parseWaveformData following base (getBitsInRange d 11 0) = .ok (used, hit) := by
  unfold waveformPayload parseWaveformData
  dsimp only
  generalize getBitsInRange d 11 0 = waveformLen
  generalize ((waveformLen + 1) / 2).toNat = nwaveformWords
  cases hs : waveformSamples nwaveformWords following with
  | error fault =>
    obtain ⟨message, rfl⟩ := waveformSamples_error hs
    exact .inl ⟨rfl, message, rfl⟩
  | ok waveform =>
    by_cases hlen : waveformLen.toNat = waveform.length
    · exact .inr ⟨nwaveformWords, { base with waveform }, by simp [hlen], by simp [hlen]⟩
    · exact .inl ⟨if_pos hlen, _, if_pos hlen⟩

/-- A data word with hits in a block without any event header writes through a null pointer. -/
theorem addPulses_null {t : EventHitsTable EventHitsFADC}
    (h : ∀ hits, t.addHits hits = .error .nullEventHits) {hits : List FADC250PulseHit}
    (hne : hits ≠ []) : addPulses hits t = .error .nullEventHits := by
  cases hits with
  | nil => exact absurd rfl hne
  | cons hit hits => rw [addPulses, h, bind_error]

theorem meets_pulses {f : Framing} {s : State} {key : UInt64 → UInt64}
    (h : TracksIn State.toBlockState key f s) (hopen : 0 ≤ f.blockNevents)
    (hits : List FADC250PulseHit) (used : Nat) :
    Meets (TracksIn State.toBlockState key) (Appends State.toBlockState) f
      (.data (.hits used (hits.length ≠ 0))) s
      (addPulses hits s.toEventHitsTable >>= fun t => .ok (used, { s with toEventHitsTable := t })) := by
  have hn : ¬ f.blockNevents < 0 := by omega
  cases hc : f.current with
  | some i =>
    have hs : f.current.isSome := by simp [hc]
    have hj : f.judge (.data (.hits used (hits.length ≠ 0))) = .accepted := by
      simp [Framing.judge, hn, hc]
    rw [addPulses_of_container _ (h.hasContainer hs)]
    exact Meets.of_accepted hj (h.withHits hs _) fun _ _ => ⟨_, rfl⟩
  | none =>
    cases hits with
    | nil =>
      exact Meets.of_accepted (by simp [Framing.judge, hn]) h fun _ hs => by simp [hc] at hs
    | cons hit hits =>
      rw [addPulses_null (fun hits => (h.addHits hits).2 hc) (List.cons_ne_nil hit hits)]
      simp [Meets, Framing.judge, hn, hc, Fault.isThrown]

theorem conforms (rocid : UInt32) (triggerData : TriggerData) :
    Conforms readAs (parseWord rocid triggerData)
      (TracksIn State.toBlockState (triggerData.firstEventNumber + ·))
      (Appends State.toBlockState) := by
  intro f s d following h
  have hnevents : s.blockNevents = f.blockNevents := by rw [h.frame]
  have hslot : s.blockSlot = f.blockSlot := by rw [h.frame]
  have hindex : s.eventIndex = f.eventIndex := by rw [h.frame]
  unfold readAs classify parseWord dispatch parseDefiningWord
  by_cases hd : getBitsInRange d 31 31 = 1
  · simp only [hd, if_true]
    match (getBitsInRange d 30 27).toNat with
    | 0 => exact meets_blockHeader h d rfl
    | 1 =>
      apply meets_closeBlock hnevents name
      intro hz
      exact meets_blockTrailer h hz (by simp) rfl
    | 2 =>
      change Meets _ _ f _ s (eventHeader triggerData d s >>= fun s => .ok (0, s))
      rw [eventHeader, bind_assoc]
      apply meets_countEvent hnevents name
      intro hpos
      dsimp only
      rw [ite_error_bind]
      apply meets_comparedSlot hslot _
      intro he
      exact meets_selectEvent h hpos (by simp [he]) (by simp [hindex])
    | 3 => exact meets_triggerTime h name fun _ => rfl
    | 4 =>
      apply meets_dataWord hnevents name _
      intro hopen
      have hn : ¬ f.blockNevents < 0 := by omega
      obtain ⟨hp, message, hw⟩ | ⟨used, hit, hp, hw⟩ := parseWaveformData_payload d following
        (hitBase rocid (getBitsInRange d 26 23) s)
      · simp [hw, hp, Meets, Framing.judge]
      · simp only [hw, hp, bind_ok]
        exact meets_addHits h hopen _ used fun _ => rfl
    | 7 =>
      apply meets_dataWord hnevents name _
      intro hopen
      exact meets_addHits h hopen _ 0 fun _ => rfl
    | 8 =>
      apply meets_dataWord hnevents name _
      intro hopen
      exact meets_addHits h hopen _ 0 fun _ => rfl
    | 9 =>
      apply meets_dataWord hnevents name _
      intro hopen
      have hlen := length_parsePulseData (hitBase rocid (getBitsInRange d 18 15) s)
        (getBitsInRange d 14 14) (getBitsInRange d 13 0) following
      simp only [← hlen]
      exact meets_pulses h hopen _ _
    | 10 =>
      apply meets_dataWord hnevents name _
      intro hopen
      exact meets_addHits h hopen _ 0 fun _ => rfl
    | 5 | 6 | _ + 11 => exact meets_other h
  · simp only [hd, if_false]
    exact meets_other h

end FADC

namespace MPD

/-- The number of groups of APV sample words up to the next data type defining word,
if there is one. -/
def apvGroupCount : List UInt32 → Option Nat
  | [] => none
  | d2 :: following =>
    if getBitsInRange d2 31 31 = 0 then
      match following with
      | _ :: _ :: following => (apvGroupCount following).map (· + 1)
      | _ => none
    else some 0

def apvPayload (following : List UInt32) : Payload :=
  match apvGroupCount following with
  | some ngroups => .hits (3 * ngroups) (ngroups ≠ 0)
  | none => .truncated

def payload (dataType : Nat) (_ : UInt32) (following : List UInt32) : Option Payload :=
  if dataType = 5 then some (apvPayload following) else none

abbrev readAs : UInt32 → List UInt32 → Word := classify true false payload

theorem apvGroups_end (rocid d : UInt32) {d2 : UInt32} (hd2 : getBitsInRange d2 31 31 ≠ 0)
    (following : List UInt32) (s : State) :
    apvGroups rocid d (d2 :: following) s = .ok (0, s) := by
  unfold apvGroups
  simp [hd2]

theorem apvGroups_some (rocid d : UInt32) {following : List UInt32} {ngroups : Nat} {s : State}
    (h : s.HasContainer) (hcount : apvGroupCount following = some ngroups) :
    ∃ hits, apvGroups rocid d following s =
      .ok (3 * ngroups, { s with toEventHitsTable := s.toEventHitsTable.withHits hits }) := by
  fun_induction apvGroupCount following generalizing s ngroups with
  | case1 => simp at hcount
  | case2 d2 hd2 d3 d4 following ih =>
    obtain ⟨n, hn, rfl⟩ := Option.map_eq_some_iff.mp hcount
    obtain ⟨hits, hgroups⟩ := ih
      (s := { s with
        toEventHitsTable := s.toEventHitsTable.withHits { mpd := [apvHit rocid d s d2 d3 d4] } })
      (s.toEventHitsTable.withHits_hasContainer _) hn
    refine ⟨{ mpd := [apvHit rocid d s d2 d3 d4] } + hits, ?_⟩
    rw [apvGroups, if_pos hd2, EventHitsTable.addHits_of_container h, bind_ok, hgroups, bind_ok,
      EventHitsTable.withHits_withHits]
    rfl
  | case3 => simp at hcount
  | case4 d2 following hd2 =>
    obtain rfl : 0 = ngroups := by simpa using hcount
    exact ⟨0, by rw [apvGroups_end rocid d hd2, EventHitsTable.withHits_zero h]⟩

theorem apvGroups_none (rocid d : UInt32) {following : List UInt32} {s : State}
    (hcount : apvGroupCount following = none) :
    ∃ fault, apvGroups rocid d following s = .error fault ∧ fault.isThrown = false := by
  fun_induction apvGroupCount following generalizing s with
  | case1 => exact ⟨.outOfBounds, rfl, rfl⟩
  | case2 d2 hd2 d3 d4 following ih =>
    rw [apvGroups, if_pos hd2]
    by_cases h : s.HasContainer
    · obtain ⟨fault, hgroups, hf⟩ := ih
        (s := { s with
        toEventHitsTable := s.toEventHitsTable.withHits { mpd := [apvHit rocid d s d2 d3 d4] } })
        (by simpa using hcount)
      exact ⟨fault, by rw [EventHitsTable.addHits_of_container h, bind_ok, hgroups, bind_error], hf⟩
    · exact ⟨.nullEventHits, by rw [EventHitsTable.addHits_of_not_container h, bind_error], rfl⟩
  | case3 d2 hd2 following hshort =>
    refine ⟨.outOfBounds, ?_, rfl⟩
    match following with
    | [] | [_] =>
      unfold apvGroups
      simp [hd2]
    | d3 :: d4 :: following => exact absurd rfl (hshort d3 d4 following)
  | case4 d2 following hd2 => simp at hcount

/-- Groups of sample words in a block without any event header go through a null pointer. -/
theorem apvGroups_null (rocid d : UInt32) {following : List UInt32} {ngroups : Nat} {s : State}
    (h : ¬ s.HasContainer) (hcount : apvGroupCount following = some (ngroups + 1)) :
    apvGroups rocid d following s = .error .nullEventHits := by
  fun_cases apvGroupCount following with
  | case1 => simp [apvGroupCount] at hcount
  | case2 d2 hd2 d3 d4 following =>
    rw [apvGroups, if_pos hd2, EventHitsTable.addHits_of_not_container h, bind_error]
  | case3 => simp_all [apvGroupCount]
  | case4 d2 following hd2 =>
    unfold apvGroupCount at hcount
    simp [hd2] at hcount

theorem apvGroups_zero (rocid d : UInt32) {following : List UInt32} (s : State)
    (hcount : apvGroupCount following = some 0) : apvGroups rocid d following s = .ok (0, s) := by
  fun_cases apvGroupCount following with
  | case1 => simp [apvGroupCount] at hcount
  | case2 d2 hd2 d3 d4 following => simp [apvGroupCount, hd2] at hcount
  | case3 => simp_all [apvGroupCount]
  | case4 d2 following hd2 => exact apvGroups_end rocid d hd2 following s

theorem meets_apvGroups (rocid d : UInt32) {f : Framing} {key : UInt64 → UInt64}
    (hopen : 0 ≤ f.blockNevents) (following : List UInt32) {s : State}
    (h : TracksIn State.toBlockState key f s) :
    Meets (TracksIn State.toBlockState key) (Appends State.toBlockState) f
      (.data (apvPayload following)) s (apvGroups rocid d following s) := by
  have hn : ¬ f.blockNevents < 0 := by omega
  rw [apvPayload]
  cases hcount : apvGroupCount following with
  | none => simpa [Meets, Framing.judge, hn] using apvGroups_none rocid d hcount
  | some ngroups =>
    cases hc : f.current with
    | some i =>
      have hs : f.current.isSome := by simp [hc]
      have hj : f.judge (.data (.hits (3 * ngroups) (ngroups ≠ 0))) = .accepted := by
        simp [Framing.judge, hn, hc]
      obtain ⟨hits, hgroups⟩ := apvGroups_some rocid d (h.hasContainer hs) hcount
      rw [hgroups]
      exact Meets.of_accepted hj (h.withHits hs hits) fun _ _ => ⟨hits, rfl⟩
    | none =>
      cases ngroups with
      | zero =>
        rw [apvGroups_zero rocid d s hcount]
        exact Meets.of_accepted (by simp [Framing.judge, hn]) h fun _ hs => by simp [hc] at hs
      | succ n =>
        simp [Meets, Framing.judge, hn, hc, apvGroups_null rocid d (h.noContainer hc) hcount,
          Fault.isThrown]

theorem conforms (rocid : UInt32) (triggerData : TriggerData) :
    Conforms readAs (parseWord rocid triggerData)
      (TracksIn State.toBlockState
        fun i => (triggerData.firstEventNumber + i).toUInt32.toUInt64)
      (Appends State.toBlockState) := by
  intro f s d following h
  have hnevents : s.blockNevents = f.blockNevents := by rw [h.frame]
  have hslot : s.blockSlot = f.blockSlot := by rw [h.frame]
  have hindex : s.eventIndex = f.eventIndex := by rw [h.frame]
  unfold readAs classify parseWord dispatch parseDefiningWord
  by_cases hd : getBitsInRange d 31 31 = 1
  · simp only [hd, if_true]
    match (getBitsInRange d 30 27).toNat with
    | 0 => exact meets_blockHeader h d rfl
    | 1 =>
      change Meets _ _ f _ s (blockTrailer d s >>= fun s => .ok (0, s))
      rw [blockTrailer, bind_assoc]
      apply meets_closeBlock hnevents name
      intro hz
      dsimp only
      rw [ite_error_bind]
      by_cases he : getBitsInRange d 26 22 = f.blockSlot
      · rw [if_neg (by simp [hslot, he])]
        exact meets_blockTrailer h hz (by simp [he]) rfl
      · simp [Meets, Framing.judge, hslot, he]
    | 2 =>
      change Meets _ _ f _ s (eventHeader triggerData s >>= fun s => .ok (0, s))
      rw [eventHeader, bind_assoc]
      apply meets_countEvent hnevents name
      intro hpos
      exact meets_selectEvent h hpos (by simp) (by simp [hindex])
    | 3 => exact meets_triggerTime h name fun _ => rfl
    | 5 => exact meets_dataWord hnevents name _ fun hopen => meets_apvGroups rocid d hopen following h
    | 4 | _ + 6 => exact meets_other h
  · simp only [hd, if_false]
    exact meets_other h

end MPD

namespace HelicityDecoder

def payload (dataType : Nat) (d : UInt32) (_ : List UInt32) : Option Payload :=
  if dataType = 8 then some (.hits (getBitsInRange d 5 0).toNat true) else none

abbrev readAs : UInt32 → List UInt32 → Word := classify false true payload

structure TracksFraming (f : Framing) (s : State) : Prop where
  slot : s.blockSlot = f.blockSlot
  nevents : s.blockNevents = f.blockNevents
  container : s.eventHits.isSome = f.current.isSome

def AppendsRecord (s s' : State) : Prop :=
  ∃ eventHits record, s.eventHits = some eventHits ∧
    s'.eventHits = some ⟨eventHits.helicity ++ [record]⟩ ∧ s'.physicsEvents = s.physicsEvents

theorem meets_decoderData {f : Framing} {s : State} (h : TracksFraming f s) (rocid d : UInt32)
    (following : List UInt32) :
    Meets TracksFraming AppendsRecord f (.data (.hits (getBitsInRange d 5 0).toNat true)) s
      (decoderData rocid d following s) := by
  apply meets_dataWord h.nevents name _
  intro hopen
  have hn : ¬ f.blockNevents < 0 := by omega
  cases he : s.eventHits with
  | none =>
    have hc : f.current = none := by simpa [he] using h.container
    simp [Meets, Framing.judge, hn, hc, Fault.isThrown]
  | some eventHits =>
    have hc : f.current.isSome := by simpa [he] using h.container.symm
    have hj : f.judge (.data (.hits (getBitsInRange d 5 0).toNat true)) = .accepted := by
      simp [Framing.judge, hn, Option.isSome_iff_ne_none.mp hc]
    exact Meets.of_accepted hj ⟨h.slot, h.nevents, by simpa [Framing.next] using hc⟩
      (fun _ _ => ⟨eventHits, _, he, rfl, rfl⟩)

theorem conforms (rocid : UInt32) (triggerData : TriggerData) :
    Conforms readAs (parseWord rocid triggerData) TracksFraming AppendsRecord := by
  intro f s d following h
  have hother : Meets TracksFraming AppendsRecord f .other s (.ok (0, s)) :=
    Meets.of_framingWord rfl rfl h
  unfold readAs classify parseWord dispatch parseDefiningWord
  by_cases hd : getBitsInRange d 31 31 = 1
  · simp only [hd, if_true]
    match (getBitsInRange d 30 27).toNat with
    | 0 => exact Meets.of_framingWord rfl rfl ⟨rfl, rfl, h.container⟩
    | 1 =>
      change Meets _ _ f _ s (blockTrailer triggerData following s >>= fun s => .ok (0, s))
      rw [blockTrailer, bind_assoc]
      apply meets_closeBlock h.nevents name
      intro hz
      exact Meets.of_framingWord (by simp [Framing.judge, hz]) rfl ⟨h.slot, rfl, h.container⟩
    | 2 =>
      change Meets _ _ f _ s (eventHeader triggerData d s >>= fun s => .ok (0, s))
      rw [eventHeader]
      dsimp only
      rw [bind_assoc]
      apply meets_countEvent (by exact h.nevents) name
      intro hpos
      rw [ite_error_bind]
      apply meets_comparedSlot h.slot _
      intro he
      exact Meets.of_framingWord (by simp [Framing.judge, hpos, he]) rfl ⟨h.slot, rfl, rfl⟩
    | 3 =>
      refine meets_requireBlock h.nevents name _ (fun hn => by simp [Framing.judge, hn])
        fun hopen => ?_
      have hn : ¬ f.blockNevents < 0 := by omega
      cases following with
      | nil => simp [Meets, Framing.judge, hn, Fault.isThrown]
      | cons d2 following =>
        exact Meets.of_framingWord (by simp [Framing.judge, hn]) rfl
          ⟨h.slot, h.nevents, h.container⟩
    | 8 => exact meets_decoderData h rocid d following
    | 4 | 5 | 6 | 7 | _ + 9 => exact hother
  · simp only [hd, if_false]
    exact hother

end HelicityDecoder

end JanaExtensions
