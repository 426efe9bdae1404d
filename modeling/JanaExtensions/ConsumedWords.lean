import JanaExtensions.FramingConformance

/-! Which words the MPD parser takes as the payload of others. It looks at bit 31 of the first
word of each group of three only, and not at all at the second trigger-time word. -/

namespace JanaExtensions

open Failing

theorem not_defines_iff {d : UInt32} : getBitsInRange d 31 31 = 0 ↔ ¬ Defines d := by
  have hlt : (getBitsInRange d 31 31).toNat < 2 := by
    rw [toNat_getBitsInRange d (by decide) (by decide) (by decide)]
    omega
  rw [Defines, ← UInt32.toNat_inj, ← UInt32.toNat_inj, UInt32.toNat_zero, UInt32.toNat_one]
  omega

namespace MPD

/-- The parser comes to no word that takes one with bit 31 set as payload, and it comes to each
word with bit 31 set. -/
structure FramingKept (rocid : UInt32) (triggerData : TriggerData) (dataWords : List UInt32) :
    Prop where
  payload : ∀ d following s used s',
    WordLoop.Visits (parseWord rocid triggerData) dataWords {} d following s →
    parseWord rocid triggerData d following s = .ok (used, s') →
    ∀ x ∈ following.take used, ¬ Defines x
  interpreted : ∀ pre d post, dataWords = pre ++ d :: post → Defines d →
    ∃ s, WordLoop.Visits (parseWord rocid triggerData) dataWords {} d post s

/-- The words up to the next one with bit 31 set. -/
def payloadWords (following : List UInt32) : List UInt32 :=
  following.takeWhile fun d => getBitsInRange d 31 31 = 0

/-- A trigger-time word is not followed by a word with bit 31 set, and after an MPD frame the
next such word comes after whole groups of three. -/
def WholeRecords (dataWords : List UInt32) : Prop :=
  ∀ pre d post, dataWords = pre ++ d :: post → Defines d →
    ((getBitsInRange d 30 27).toNat = 3 → ∀ d2 ∈ post.head?, ¬ Defines d2) ∧
    ((getBitsInRange d 30 27).toNat = 5 → 3 ∣ (payloadWords post).length)

theorem payloadWords_cons_zero {d : UInt32} (h : getBitsInRange d 31 31 = 0)
    (following : List UInt32) : payloadWords (d :: following) = d :: payloadWords following := by
  simp [payloadWords, h]

theorem payloadWords_cons_one {d : UInt32} (h : getBitsInRange d 31 31 ≠ 0)
    (following : List UInt32) : payloadWords (d :: following) = [] := by
  simp [payloadWords, h]

/-- The groups of a frame have no word with bit 31 set exactly if they are whole. -/
theorem groups_clear_iff {following : List UInt32} {ngroups : Nat}
    (h : apvGroupCount following = some ngroups) :
    (∀ d ∈ following.take (3 * ngroups), getBitsInRange d 31 31 = 0) ↔
      3 ∣ (payloadWords following).length := by
  fun_induction apvGroupCount following generalizing ngroups with
  | case1 => cases h
  | case2 d2 hd2 d3 d4 following ih =>
    obtain ⟨n, hn, rfl⟩ := Option.map_eq_some_iff.mp h
    have htake : (d2 :: d3 :: d4 :: following).take (3 * (n + 1)) =
        d2 :: d3 :: d4 :: following.take (3 * n) := by
      rw [show 3 * (n + 1) = 3 * n + 1 + 1 + 1 by omega]
      rfl
    rw [htake, payloadWords_cons_zero hd2]
    simp only [List.forall_mem_cons, hd2, true_and]
    by_cases hd3 : getBitsInRange d3 31 31 = 0
    · rw [payloadWords_cons_zero hd3]
      by_cases hd4 : getBitsInRange d4 31 31 = 0
      · rw [payloadWords_cons_zero hd4]
        simp only [hd3, hd4, true_and, ih hn, List.length_cons]
        omega
      · rw [payloadWords_cons_one hd4]
        exact iff_of_false (fun hclear => hd4 hclear.2.1) (by simp)
    · rw [payloadWords_cons_one hd3]
      exact iff_of_false (fun hclear => hd3 hclear.1) (by simp)
  | case3 => cases h
  | case4 d2 following hd2 =>
    obtain rfl := Option.some.inj h
    simp [payloadWords_cons_one hd2]

variable {rocid : UInt32} {triggerData : TriggerData} {dataWords : List UInt32}
  {events : List (PhysicsEvent EventHitsMPD)}

theorem accepted_of_parse (h : parse rocid triggerData dataWords = .ok events) :
    Framing.verdict {} (classified readAs dataWords) = .accepted := by
  obtain ⟨s, hs, -⟩ := bind_eq_ok.mp h
  have hc := conforms rocid triggerData
  rw [hc.run_eq_fold (.init rfl)] at hs
  exact (hc.accepted_of_ok (.init rfl) hs).1

theorem readAs_of_triggerTime {d : UInt32} (hd : Defines d)
    (htype : (getBitsInRange d 30 27).toNat = 3) (following : List UInt32) :
    readAs d following = .triggerTime (!following.isEmpty) := by
  unfold readAs classify
  rw [Defines] at hd
  simp only [hd, htype, if_true]

theorem readAs_of_frame {d : UInt32} (hd : Defines d) (htype : (getBitsInRange d 30 27).toNat = 5)
    (following : List UInt32) : readAs d following = .data (apvPayload following) := by
  unfold readAs classify
  rw [Defines] at hd
  simp only [hd, htype, if_true, payload]

/-- Only trigger times and frames take payload. -/
theorem used_of_other {d : UInt32} (h : Defines d →
    (getBitsInRange d 30 27).toNat ≠ 3 ∧ (getBitsInRange d 30 27).toNat ≠ 5)
    (following : List UInt32) : (readAs d following).used = 0 := by
  unfold readAs classify
  by_cases hd : getBitsInRange d 31 31 = 1
  · obtain ⟨h3, h5⟩ := h hd
    simp only [hd, if_true]
    generalize (getBitsInRange d 30 27).toNat = dataType at h3 h5 ⊢
    match dataType, h3, h5 with
    | 0, _, _ | 1, _, _ | 2, _, _ | 4, _, _ | _ + 6, _, _ => rfl
  · simp only [hd, if_false]
    rfl

/-- In an accepted bank the groups of each frame that is interpreted end at a word. -/
theorem exists_groupCount (h : parse rocid triggerData dataWords = .ok events)
    {m : UInt32 × List UInt32} (hm : m ∈ interpretedWords readAs dataWords) (hd : Defines m.1)
    (htype : (getBitsInRange m.1 30 27).toNat = 5) :
    ∃ ngroups, apvGroupCount m.2 = some ngroups ∧ (readAs m.1 m.2).used = 3 * ngroups := by
  have haccepted := accepted_of_parse h
  obtain ⟨pre, post, hsplit⟩ := List.mem_iff_append.mp hm
  rw [classified, hsplit, List.map_append, List.map_cons, readAs_of_frame hd htype] at haccepted
  have hjudge := Framing.judge_of_accepted haccepted
  rw [readAs_of_frame hd htype]
  unfold apvPayload at hjudge ⊢
  cases hcount : apvGroupCount m.2 with
  | none =>
    rw [hcount] at hjudge
    simp only [Framing.judge] at hjudge
    split at hjudge <;> cases hjudge
  | some ngroups => exact ⟨ngroups, rfl, rfl⟩

/-- What the payload of a word must look like for it to have no word with bit 31 set. -/
theorem payload_clear_iff (h : parse rocid triggerData dataWords = .ok events)
    {m : UInt32 × List UInt32} (hm : m ∈ interpretedWords readAs dataWords) (hd : Defines m.1) :
    (∀ d ∈ m.2.take (readAs m.1 m.2).used, ¬ Defines d) ↔
      ((getBitsInRange m.1 30 27).toNat = 3 → ∀ d2 ∈ m.2.head?, ¬ Defines d2) ∧
      ((getBitsInRange m.1 30 27).toNat = 5 → 3 ∣ (payloadWords m.2).length) := by
  by_cases h3 : (getBitsInRange m.1 30 27).toNat = 3
  · rw [readAs_of_triggerTime hd h3, h3]
    simp only [forall_const, Word.used]
    cases m.2 <;> simp
  · by_cases h5 : (getBitsInRange m.1 30 27).toNat = 5
    · obtain ⟨ngroups, hcount, hused⟩ := exists_groupCount h hm hd h5
      simp only [← not_defines_iff, hused]
      rw [groups_clear_iff hcount]
      simp [h5]
    · rw [used_of_other (fun _ => ⟨h3, h5⟩)]
      simp [h3, h5]

/-- When the parser takes no word with bit 31 set as payload. -/
theorem framingKept_iff (rocid : UInt32) (triggerData : TriggerData) {dataWords : List UInt32}
    {events : List (PhysicsEvent EventHitsMPD)}
    (h : parse rocid triggerData dataWords = .ok events) :
    FramingKept rocid triggerData dataWords ↔ WholeRecords dataWords := by
  have hc := conforms rocid triggerData
  have hinit : ∃ f, TracksIn State.toBlockState
      (fun i => (triggerData.firstEventNumber + i).toUInt32.toUInt64) f {} := ⟨{}, .init rfl⟩
  obtain ⟨last, hlast, -⟩ := bind_eq_ok.mp h
  constructor
  · intro hkept pre d post hsplit hd
    obtain ⟨s, hvisits⟩ := hkept.interpreted pre d post hsplit hd
    obtain ⟨hmem, -⟩ := hc.interpreted_of_visits hinit hvisits
    obtain ⟨t, t', hvisits', hread⟩ := hc.exists_visits hinit hlast hmem
    exact (payload_clear_iff h hmem hd).mp (hkept.payload d post t _ t' hvisits' hread)
  · intro hwhole
    have hpayload : ∀ m ∈ interpretedWords readAs dataWords,
        ∀ d ∈ m.2.take (readAs m.1 m.2).used, ¬ Defines d := by
      intro m hm
      by_cases hd : Defines m.1
      · obtain ⟨pre, hsplit⟩ := WordLoop.exists_append_of_interpreted hm
        exact (payload_clear_iff h hm hd).mpr (hwhole pre m.1 m.2 hsplit hd)
      · rw [used_of_other fun hdefines => absurd hdefines hd]
        simp
    refine ⟨fun d following s used s' hvisits hread => ?_, fun pre d post hsplit hd => ?_⟩
    · obtain ⟨hmem, hs⟩ := hc.interpreted_of_visits hinit hvisits
      obtain ⟨hused, -⟩ := hc.advances d following s used s' hs hread
      rw [hused]
      exact hpayload (d, following) hmem
    · rcases WordLoop.interpreted_or_consumed 0 hsplit with hmem | hskip | ⟨m, hm, hconsumed⟩
      · obtain ⟨s, -, hvisits, -⟩ := hc.exists_visits hinit hlast hmem
        exact ⟨s, hvisits⟩
      · cases hskip
      · exact absurd hd (hpayload m hm d hconsumed)

/-- Two blocks of one event. In the first one the last group lacks its third word. -/
def shortGroupBank : List UInt32 :=
  [0x80C00001, 0x90C00000, 0xA8000000, 0, 0, 0x88C00000,
    0x80C00001, 0x90C00000, 0xA8000000, 0, 0, 0, 0x88C00000]

theorem framingKept_iff_short_group :
    ∃ events, parse 1 ⟨0, 0⟩ shortGroupBank = .ok events ∧
      (FramingKept 1 ⟨0, 0⟩ shortGroupBank ↔ WholeRecords shortGroupBank) :=
  ⟨_, rfl, framingKept_iff 1 ⟨0, 0⟩ rfl⟩

/-- The block trailer is taken as the third word, and the event of the second block gets the
number of another event. -/
theorem trailer_taken_as_payload :
    ∃ events, parse 1 ⟨0, 0⟩ shortGroupBank = .ok events ∧
      events.map PhysicsEvent.eventNum = [0, 1] ∧ ¬ FramingKept 1 ⟨0, 0⟩ shortGroupBank := by
  refine ⟨_, rfl, by decide, fun hkept => ?_⟩
  have hframe : ∃ s s',
      WordLoop.Visits (parseWord 1 ⟨0, 0⟩) shortGroupBank {} 0xA8000000 (shortGroupBank.drop 3) s ∧
      parseWord 1 ⟨0, 0⟩ 0xA8000000 (shortGroupBank.drop 3) s = .ok (3, s') :=
    ⟨_, _, .later rfl (.later rfl (.here ..)), rfl⟩
  obtain ⟨s, s', hvisits, hread⟩ := hframe
  exact hkept.payload _ _ _ _ _ hvisits hread 0x88C00000 (by decide) rfl

end MPD

end JanaExtensions
