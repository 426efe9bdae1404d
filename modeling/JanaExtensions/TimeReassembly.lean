import JanaExtensions.Scalers
import JanaExtensions.TriggerTimes

/-! Quantities of 48 bits that a bank carries in two words. The trigger times are joined in
the 32 bits of the extracted fields, the event number of the TI scaler is shifted by 16 bits
only and kept in 32 bits. -/

namespace JanaExtensions

open Failing

theorem toNat_timestampOf {pair : UInt32 × UInt32} (hlow : pair.1.toNat < 2 ^ 24) :
    (timestampOf pair).toNat = pair.2.toNat % 2 ^ 8 * 2 ^ 24 + pair.1.toNat := by
  have hshift : (pair.2 <<< 24).toNat = 2 ^ 24 * (pair.2.toNat % 2 ^ 8) := by
    rw [UInt32.toNat_shiftLeft, Nat.shiftLeft_eq, show (24 : UInt32).toNat % 32 = 24 from rfl,
      show 2 ^ 32 = 2 ^ 8 * 2 ^ 24 from rfl, Nat.mul_mod_mul_right, Nat.mul_comm]
  rw [timestampOf, UInt32.toNat_toUInt64, UInt32.toNat_or, hshift,
    ← Nat.two_pow_add_eq_or_of_lt hlow, Nat.mul_comm]

section Pairs

variable (classify : UInt32 → List UInt32 → Word)

/-- The time is the 48-bit value of the last pair of trigger-time words. -/
def Reassembled (pre : List (UInt32 × List UInt32)) (t : UInt64) : Prop :=
  t.toNat = (lastPair classify pre).2.toNat * 2 ^ 24 + (lastPair classify pre).1.toNat

/-- Wherever hits are, the high field of the last trigger time has at most 8 bits. -/
def HighFits (dataWords : List UInt32) : Prop :=
  ∀ pre m post, interpretedWords classify dataWords = pre ++ m :: post →
    (classify m.1 m.2).hasHits = true → (lastPair classify pre).2.toNat < 2 ^ 8

variable {classify}

theorem lastPair_low_lt (ms : List (UInt32 × List UInt32)) :
    (lastPair classify ms).1.toNat < 2 ^ 24 := by
  unfold lastPair
  split
  · rw [timePair, toNat_getBitsInRange _ (by decide) (by decide) (by decide)]
    omega
  · decide

theorem reassembled_timestampOf_iff (pre : List (UInt32 × List UInt32)) :
    Reassembled classify pre (timestampOf (lastPair classify pre)) ↔
      (lastPair classify pre).2.toNat < 2 ^ 8 := by
  rw [Reassembled, toNat_timestampOf (lastPair_low_lt pre)]
  omega

theorem Stamps.joined_iff {σ : Type}
    {body : UInt32 → List UInt32 → σ → Except Fault (Nat × σ)} {stamp : σ → UInt64}
    {Adds : σ → σ → List UInt64 → Prop} {init : σ} {dataWords : List UInt32}
    {published : List UInt64} (h : Stamps classify body stamp timestampOf Adds)
    (hinit : stamp init = 0)
    (hparse : (∃ s, WordLoop.fold body (interpretedWords classify dataWords) init = .ok s) ∧
      ∀ t, t ∈ published ↔ Added classify body Adds init (fun _ => True)
        (interpretedWords classify dataWords) t) :
    HitsTimed classify body Adds init (fun _ => True) (Reassembled classify) published
      (interpretedWords classify dataWords) ↔ HighFits classify dataWords := by
  obtain ⟨⟨s, hs⟩, hpublished⟩ := hparse
  rw [h.hitsTimed_iff hinit hs hpublished]
  simp only [reassembled_timestampOf_iff, HighFits, forall_const]

end Pairs

/-- All hits of the events have the 48-bit value of the last pair of trigger-time words. -/
def VFTDC.TimesReassembled (rocid : UInt32) (triggerData : TriggerData) (dataWords : List UInt32)
    (events : List (PhysicsEvent EventHitsVFTDC)) : Prop :=
  HitsTimed readAs (parseWord rocid triggerData) AddsTimes {} (fun _ => True) (Reassembled readAs)
    (publishedTimes times events) (interpretedWords readAs dataWords)

def MPD.TimesReassembled (rocid : UInt32) (triggerData : TriggerData) (dataWords : List UInt32)
    (events : List (PhysicsEvent EventHitsMPD)) : Prop :=
  HitsTimed readAs (parseWord rocid triggerData) AddsTimes {} (fun _ => True) (Reassembled readAs)
    (publishedTimes times events) (interpretedWords readAs dataWords)

theorem VFTDC.timesReassembled_iff {rocid : UInt32} {triggerData : TriggerData}
    {dataWords : List UInt32} {events : List (PhysicsEvent EventHitsVFTDC)}
    (h : parse rocid triggerData dataWords = .ok events) :
    TimesReassembled rocid triggerData dataWords events ↔ HighFits readAs dataWords :=
  (stamps rocid triggerData).joined_iff rfl (publishedTimes_parse h)

theorem MPD.timesReassembled_iff {rocid : UInt32} {triggerData : TriggerData}
    {dataWords : List UInt32} {events : List (PhysicsEvent EventHitsMPD)}
    (h : parse rocid triggerData dataWords = .ok events) :
    TimesReassembled rocid triggerData dataWords events ↔ HighFits readAs dataWords :=
  (stamps rocid triggerData).joined_iff rfl (publishedTimes_parse h)

namespace TIScaler

theorem toNat_tiEventNumber (w10 w11 : UInt32) :
    ((w10.toUInt64 <<< 16) ||| w11.toUInt64).toUInt32.toNat =
      (w10.toNat % 2 ^ 16 * 2 ^ 16 ||| w11.toNat) := by
  have h10 := w10.toNat_lt
  have h11 := w11.toNat_lt
  have hshift : (w10.toUInt64 <<< 16).toNat = w10.toNat * 2 ^ 16 := by
    rw [UInt64.toNat_shiftLeft, Nat.shiftLeft_eq, UInt32.toNat_toUInt64,
      show (16 : UInt64).toNat % 64 = 16 from rfl]
    omega
  rw [UInt64.toNat_toUInt32, UInt64.toNat_or, hshift, UInt32.toNat_toUInt64, Nat.or_mod_two_pow,
    Nat.mod_eq_of_lt h11, show 2 ^ 32 = 2 ^ 16 * 2 ^ 16 from rfl, Nat.mul_mod_mul_right]

theorem tiEventNumber_eq_iff (w10 w11 : UInt32) :
    ((w10.toUInt64 <<< 16) ||| w11.toUInt64).toUInt32.toNat =
        w10.toNat % 2 ^ 16 * 2 ^ 32 + w11.toNat ↔ w10.toNat % 2 ^ 16 = 0 := by
  constructor
  · intro h
    have hlt := ((w10.toUInt64 <<< 16) ||| w11.toUInt64).toUInt32.toNat_lt
    omega
  · intro h
    rw [toNat_tiEventNumber, h]
    simp

/-- The record of the bank has the 48-bit event number of its words 10 and 11. -/
def EventNumberReassembled (rocid : UInt32) (triggerData : TriggerData)
    (dataWords : List UInt32) : Prop :=
  ∃ num hit, parse rocid triggerData dataWords = .ok [⟨num, [⟨[hit]⟩]⟩] ∧
    hit.tiEventNumber.toNat =
      (dataWords.getD 10 0).toNat % 2 ^ 16 * 2 ^ 32 + (dataWords.getD 11 0).toNat

theorem eventNumberReassembled_iff (rocid : UInt32) (triggerData : TriggerData)
    {dataWords : List UInt32} (h : 13 ≤ dataWords.length) :
    EventNumberReassembled rocid triggerData dataWords ↔
      (dataWords.getD 10 0).toNat % 2 ^ 16 = 0 := by
  unfold EventNumberReassembled
  match dataWords, h with
  | _ :: _ :: _ :: _ :: _ :: _ :: _ :: _ :: _ :: _ :: w10 :: w11 :: _ :: _, _ =>
    refine Iff.trans ?_ (tiEventNumber_eq_iff w10 w11)
    constructor
    · intro hh
      obtain ⟨num, hit, hparse, hnumber⟩ := hh
      have hevents := Except.ok.inj hparse
      simp only [List.cons.injEq, PhysicsEvent.mk.injEq, EventHitsTIScaler.mk.injEq, and_true]
        at hevents
      rw [← hevents.2] at hnumber
      exact hnumber
    · exact fun hnumber => ⟨_, _, rfl, hnumber⟩

end TIScaler

/-- When the two words of a 48-bit quantity are joined without loss. -/
theorem reassembled_iff (rocid : UInt32) (triggerData : TriggerData) (dataWords : List UInt32) :
    (∀ events, VFTDC.parse rocid triggerData dataWords = .ok events →
      (VFTDC.TimesReassembled rocid triggerData dataWords events ↔
        HighFits VFTDC.readAs dataWords)) ∧
    (∀ events, MPD.parse rocid triggerData dataWords = .ok events →
      (MPD.TimesReassembled rocid triggerData dataWords events ↔
        HighFits MPD.readAs dataWords)) ∧
    (13 ≤ dataWords.length →
      (TIScaler.EventNumberReassembled rocid triggerData dataWords ↔
        (dataWords.getD 10 0).toNat % 2 ^ 16 = 0)) := by
  refine ⟨?_, ?_, ?_⟩
  · intro events h
    exact VFTDC.timesReassembled_iff h
  · intro events h
    exact MPD.timesReassembled_iff h
  · intro h
    exact TIScaler.eventNumberReassembled_iff rocid triggerData h

/-- One event with one hit, under the trigger time with these fields. -/
def VFTDC.oneHitBank (low high : BitVec 24) : List UInt32 :=
  [0x80C00001, 0x90C00000, definingWord 3 [⟨3, 0⟩, ⟨24, low⟩], UInt32.ofBitVec (0#8 ++ high),
    0xB8000000, 0x88C00000]

def MPD.oneHitBank : List UInt32 :=
  [0x80C00001, 0x90C00000, 0x98000005, 7, 0xA8000000, 0, 0, 0, 0x88C00000]

theorem reassembled_iff_one_hit :
    (∃ events, VFTDC.parse 1 ⟨0, 0⟩ (VFTDC.oneHitBank 5 7) = .ok events ∧
      (VFTDC.TimesReassembled 1 ⟨0, 0⟩ (VFTDC.oneHitBank 5 7) events ↔
        HighFits VFTDC.readAs (VFTDC.oneHitBank 5 7))) ∧
    (∃ events, MPD.parse 1 ⟨0, 0⟩ MPD.oneHitBank = .ok events ∧
      (MPD.TimesReassembled 1 ⟨0, 0⟩ MPD.oneHitBank events ↔
        HighFits MPD.readAs MPD.oneHitBank)) ∧
    (TIScaler.EventNumberReassembled 1 ⟨0, 0⟩ (List.replicate 13 0) ↔
      ((List.replicate 13 (0 : UInt32)).getD 10 0).toNat % 2 ^ 16 = 0) :=
  ⟨⟨_, rfl, (reassembled_iff 1 ⟨0, 0⟩ (VFTDC.oneHitBank 5 7)).1 _ rfl⟩,
    ⟨_, rfl, (reassembled_iff 1 ⟨0, 0⟩ MPD.oneHitBank).2.1 _ rfl⟩,
    (reassembled_iff 1 ⟨0, 0⟩ (List.replicate 13 0)).2.2 (by decide)⟩

/-- A high field of 9 bits is lost: the hit has the time of another event. -/
theorem high_field_lost :
    ∃ events, VFTDC.parse 1 ⟨0, 0⟩ (VFTDC.oneHitBank 5 256) = .ok events ∧
      ¬ VFTDC.TimesReassembled 1 ⟨0, 0⟩ (VFTDC.oneHitBank 5 256) events ∧
      VFTDC.parse 1 ⟨0, 0⟩ (VFTDC.oneHitBank 5 0) = .ok events := by
  refine ⟨_, rfl, fun htimed => ?_, rfl⟩
  have hfits := (VFTDC.timesReassembled_iff rfl).mp htimed
  have hbank : interpretedWords VFTDC.readAs (VFTDC.oneHitBank 5 256) =
      [(0x80C00001, [0x90C00000, 0x98000005, 256, 0xB8000000, 0x88C00000]),
        (0x90C00000, [0x98000005, 256, 0xB8000000, 0x88C00000]),
        (0x98000005, [256, 0xB8000000, 0x88C00000])] ++
      (0xB8000000, [0x88C00000]) :: [(0x88C00000, [])] := by decide
  have hlt := hfits _ _ _ hbank rfl
  revert hlt
  decide

end JanaExtensions
