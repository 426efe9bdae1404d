import JanaExtensions.DecodedEvents
import Mathlib.Data.List.DropRight

/-! The trigger times that the block-structured parsers put into their hits. A parser keeps
the time of the last pair of trigger-time words in a variable of its own, which no other
word touches, and stamps each hit with it. -/

namespace JanaExtensions

open Failing

def Word.isTriggerTime : Word → Bool
  | .triggerTime _ => true
  | _ => false

section Stamps

variable {σ τ : Type} (classify : UInt32 → List UInt32 → Word)
  (body : UInt32 → List UInt32 → σ → Except Fault (Nat × σ))

/-- The last pair of trigger-time words, zero if there is none. -/
def lastPair (ms : List (UInt32 × List UInt32)) : UInt32 × UInt32 :=
  match (ms.filter fun m => (classify m.1 m.2).isTriggerTime).getLast? with
  | some m => timePair m
  | none => (0, 0)

/-- What a parser does with trigger times: `stamp` is its variable, `time` what it makes of a
pair of fields, and `Adds` tells the times of the hits that a step adds. -/
structure Stamps (stamp : σ → τ) (time : UInt32 × UInt32 → τ) (Adds : σ → σ → List τ → Prop) :
    Prop where
  stamp_eq : ∀ {d following s used s'}, body d following s = .ok (used, s') →
    stamp s' = if (classify d following).isTriggerTime then time (timePair (d, following))
      else stamp s
  added : ∀ {d following s used s'}, body d following s = .ok (used, s') →
    (classify d following).isData = true → ∀ times, Adds s s' times → ∀ t ∈ times, t = stamp s
  present : ∀ {d following s used s'}, body d following s = .ok (used, s') →
    (classify d following).isData = true →
      ((classify d following).hasHits = true ↔ ∃ times, Adds s s' times ∧ times ≠ [])

/-- The times of the hits that a word adds when it is read after the words `pre`. -/
def AddsAfter (Adds : σ → σ → List τ → Prop) (init : σ) (pre : List (UInt32 × List UInt32))
    (m : UInt32 × List UInt32) (times : List τ) : Prop :=
  ∃ s used s', WordLoop.fold body pre init = .ok s ∧ body m.1 m.2 s = .ok (used, s') ∧
    Adds s s' times

/-- A word adds a hit with this time, and `Counts` holds of the words after it. -/
def Added (Adds : σ → σ → List τ → Prop) (init : σ) (Counts : List (UInt32 × List UInt32) → Prop)
    (ms : List (UInt32 × List UInt32)) (t : τ) : Prop :=
  ∃ pre m post, ms = pre ++ m :: post ∧ (classify m.1 m.2).isData = true ∧ Counts post ∧
    ∃ times, AddsAfter body Adds init pre m times ∧ t ∈ times

/-- The published times are those of the hits that the words add where `Counts` holds, and
each of them has the property of the words before its own. -/
structure HitsTimed (Adds : σ → σ → List τ → Prop) (init : σ)
    (Counts : List (UInt32 × List UInt32) → Prop) (P : List (UInt32 × List UInt32) → τ → Prop)
    (published : List τ) (ms : List (UInt32 × List UInt32)) : Prop where
  published_iff : ∀ t, t ∈ published ↔ Added classify body Adds init Counts ms t
  timed : ∀ pre m post, ms = pre ++ m :: post → (classify m.1 m.2).isData = true → Counts post →
    ∀ times, AddsAfter body Adds init pre m times → ∀ t ∈ times, P pre t

variable {classify body} {stamp : σ → τ} {time : UInt32 × UInt32 → τ}
  {Adds : σ → σ → List τ → Prop} {init : σ}

theorem lastPair_append_singleton (ms : List (UInt32 × List UInt32)) (m : UInt32 × List UInt32) :
    lastPair classify (ms ++ [m]) =
      if (classify m.1 m.2).isTriggerTime then timePair m else lastPair classify ms := by
  by_cases hm : (classify m.1 m.2).isTriggerTime = true
  · simp [lastPair, hm]
  · simp [lastPair, hm]

theorem Stamps.stamp_fold (h : Stamps classify body stamp time Adds)
    (hinit : stamp init = time (0, 0)) {ms : List (UInt32 × List UInt32)} {s : σ}
    (hs : WordLoop.fold body ms init = .ok s) : stamp s = time (lastPair classify ms) := by
  induction ms using List.reverseRecOn generalizing s with
  | nil =>
    obtain rfl := Except.ok.inj hs
    exact hinit
  | append_singleton ms m ih =>
    obtain ⟨t, ht, hm⟩ := WordLoop.fold_append_ok.mp hs
    obtain ⟨used, hbody⟩ := WordLoop.fold_singleton_ok.mp hm
    rw [h.stamp_eq hbody, lastPair_append_singleton, ih ht]
    split <;> rfl

theorem addsAfter_iff {pre : List (UInt32 × List UInt32)} {m : UInt32 × List UInt32} {s s' : σ}
    {used : Nat} (hs : WordLoop.fold body pre init = .ok s)
    (hbody : body m.1 m.2 s = .ok (used, s')) (ts : List τ) :
    AddsAfter body Adds init pre m ts ↔ Adds s s' ts := by
  constructor
  · intro hh
    obtain ⟨t, used', t', ht, hbody', hadds⟩ := hh
    obtain rfl := Except.ok.inj (hs.symm.trans ht)
    obtain ⟨-, rfl⟩ := Prod.mk.inj (Except.ok.inj (hbody.symm.trans hbody'))
    exact hadds
  · exact fun hadds => ⟨s, used, s', hs, hbody, hadds⟩

theorem added_append_singleton {Counts : List (UInt32 × List UInt32) → Prop}
    {ms : List (UInt32 × List UInt32)} {m : UInt32 × List UInt32} {t : τ} :
    Added classify body Adds init Counts (ms ++ [m]) t ↔
      Added classify body Adds init (fun post => Counts (post ++ [m])) ms t ∨
        (classify m.1 m.2).isData = true ∧ Counts [] ∧
          ∃ times, AddsAfter body Adds init ms m times ∧ t ∈ times := by
  constructor
  · intro hh
    obtain ⟨pre, x, post, hsplit, hadded⟩ := hh
    rcases List.eq_nil_or_concat post with rfl | ⟨post, y, rfl⟩
    · obtain ⟨rfl, hlast⟩ := List.append_inj' hsplit rfl
      obtain rfl := List.singleton_inj.mp hlast
      exact Or.inr hadded
    · rw [List.concat_eq_append] at hsplit hadded
      rw [← List.cons_append, ← List.append_assoc] at hsplit
      obtain ⟨rfl, hlast⟩ := List.append_inj' hsplit rfl
      obtain rfl := List.singleton_inj.mp hlast
      exact Or.inl ⟨pre, x, post, rfl, hadded⟩
  · intro hh
    rcases hh with ⟨pre, x, post, rfl, hadded⟩ | hadded
    · exact ⟨pre, x, post ++ [m], by simp, hadded⟩
    · exact ⟨ms, m, [], rfl, hadded⟩

theorem isData_of_hasHits {w : Word} (h : w.hasHits = true) : w.isData = true := by
  match w, h with
  | .data _, _ => rfl

/-- The times of the hits are those of the last pairs before their words. -/
theorem Stamps.hitsTimed_iff (h : Stamps classify body stamp time Adds)
    (hinit : stamp init = time (0, 0)) {ms : List (UInt32 × List UInt32)} {s : σ}
    (hs : WordLoop.fold body ms init = .ok s) {Counts : List (UInt32 × List UInt32) → Prop}
    {published : List τ}
    (hpublished : ∀ t, t ∈ published ↔ Added classify body Adds init Counts ms t)
    (P : List (UInt32 × List UInt32) → τ → Prop) :
    HitsTimed classify body Adds init Counts P published ms ↔
      ∀ pre m post, ms = pre ++ m :: post → (classify m.1 m.2).hasHits = true → Counts post →
        P pre (time (lastPair classify pre)) := by
  constructor
  · intro htimed pre m post hsplit hhits hcounts
    rw [hsplit] at hs
    obtain ⟨t, ht, hrest⟩ := WordLoop.fold_append_ok.mp hs
    obtain ⟨used, t', hbody, -⟩ := WordLoop.fold_cons_ok.mp hrest
    have hdata := isData_of_hasHits hhits
    obtain ⟨times, hadds, hne⟩ := (h.present hbody hdata).mp hhits
    obtain ⟨x, hx⟩ := List.exists_mem_of_ne_nil times hne
    have hP := htimed.timed pre m post hsplit hdata hcounts times ⟨t, used, t', ht, hbody, hadds⟩
      x hx
    rwa [h.added hbody hdata times hadds x hx, h.stamp_fold hinit ht] at hP
  · intro hall
    refine ⟨hpublished, fun pre m post hsplit hdata hcounts times hadds x hx => ?_⟩
    obtain ⟨t, used, t', ht, hbody, hadds⟩ := hadds
    have hhits := (h.present hbody hdata).mpr ⟨times, hadds, List.ne_nil_of_mem hx⟩
    rw [h.added hbody hdata times hadds x hx, h.stamp_fold hinit ht]
    exact hall pre m post hsplit hhits hcounts

end Stamps

section Tables

variable {σ H τ : Type} [AddMonoid H] (times : H → List τ) (blockState : σ → BlockState H)

/-- The step adds hits with these times to the container of the current event. -/
def AddsToTable (s s' : σ) (ts : List τ) : Prop :=
  ∃ hits, (blockState s').toEventHitsTable = (blockState s).toEventHitsTable.withHits hits ∧
    ts = times hits

variable {times blockState} {stamp : σ → τ} {time : UInt32 × UInt32 → τ} [IsLeftCancelAdd H]

theorem withHits_eq_self {t : EventHitsTable H} {hits : H} (h : t = t.withHits hits) : hits = 0 := by
  have hc : t.HasContainer := h ▸ t.withHits_hasContainer hits
  exact (withHits_inj ((EventHitsTable.withHits_zero hc).trans h)).symm

theorem addsToTable_iff {s s' : σ} {hits : H}
    (h : (blockState s').toEventHitsTable = (blockState s).toEventHitsTable.withHits hits)
    (ts : List τ) : AddsToTable times blockState s s' ts ↔ ts = times hits := by
  constructor
  · intro hh
    obtain ⟨hits', hhits', rfl⟩ := hh
    rw [withHits_inj (hhits'.symm.trans h)]
  · intro hts
    exact ⟨hits, h, hts⟩

theorem addsToTable_of_same (htimes : times 0 = []) {s s' : σ}
    (h : (blockState s').toEventHitsTable = (blockState s).toEventHitsTable) {ts : List τ}
    (hadds : AddsToTable times blockState s s' ts) : ts = [] := by
  obtain ⟨hits, hhits, rfl⟩ := hadds
  rw [withHits_eq_self (h.symm.trans hhits), htimes]

theorem stamps_of_steps {classify : UInt32 → List UInt32 → Word}
    {body : UInt32 → List UInt32 → σ → Except Fault (Nat × σ)} (htimes : times 0 = [])
    (hsteps : ∀ d following s used s', body d following s = .ok (used, s') →
      StepsStamp times blockState stamp time (classify d following) (d, following) s s') :
    Stamps classify body stamp time (AddsToTable times blockState) where
  stamp_eq {d following s used s'} h := by
    have hstep := hsteps d following s used s' h
    unfold StepsStamp at hstep
    cases hw : classify d following with
    | data payload =>
      simp only [hw] at hstep
      exact hstep.stamp_eq
    | triggerTime _ | blockHeader _ _ | blockTrailer _ | eventHeader _ | other =>
      simp only [hw] at hstep
      exact hstep
  added {d following s used s'} h hdata ts hadds t ht := by
    have hstep := hsteps d following s used s' h
    obtain ⟨payload, hw⟩ := Word.exists_of_isData hdata
    simp only [StepsStamp, hw] at hstep
    have hhits := hstep.hits
    split at hhits
    · obtain ⟨hits, hstamp, -, htable⟩ := hhits
      obtain rfl := (addsToTable_iff htable ts).mp hadds
      exact hstamp t ht
    · rw [addsToTable_of_same htimes hhits hadds] at ht
      cases ht
  present {d following s used s'} h hdata := by
    have hstep := hsteps d following s used s' h
    obtain ⟨payload, hw⟩ := Word.exists_of_isData hdata
    simp only [StepsStamp, hw] at hstep
    have hhits := hstep.hits
    rw [hw]
    split at hhits
    · rename_i hpresent
      obtain ⟨hits, -, hne, htable⟩ := hhits
      exact iff_of_true hpresent ⟨_, (addsToTable_iff htable _).mpr rfl, hne⟩
    · rename_i habsent
      refine iff_of_false habsent fun hh => ?_
      obtain ⟨ts, hadds, hne⟩ := hh
      exact hne (addsToTable_of_same htimes hhits hadds)

end Tables

section Published

variable {σ H τ : Type} [AddMonoid H] [IsLeftCancelAdd H] {classify : UInt32 → List UInt32 → Word}
  {body : UInt32 → List UInt32 → σ → Except Fault (Nat × σ)} {blockState : σ → BlockState H}
  {times : H → List τ} {key : UInt64 → UInt64} {init : σ}

/-- The times of the hits in a list of physics events. -/
def publishedTimes (times : H → List τ) (events : List (PhysicsEvent H)) : List τ :=
  events.flatMap fun pe => pe.hitsList.flatMap times

omit [AddMonoid H] [IsLeftCancelAdd H] in
theorem mem_publishedTimes (eventHitsMap : OrderedMap UInt64 H) (t : τ) :
    t ∈ publishedTimes times (physicsEvents eventHitsMap) ↔
      ∃ number hits, eventHitsMap.find number = some hits ∧ t ∈ times hits := by
  simp [publishedTimes, physicsEvents, OrderedMap.mem_entries_iff]

omit [IsLeftCancelAdd H] in
theorem mem_times_addAt (htimes : times 0 = [])
    (hadd : ∀ a b t, t ∈ times (a + b) ↔ t ∈ times a ∨ t ∈ times b)
    (m : OrderedMap UInt64 H) (number : UInt64) (hits : H) (t : τ) :
    (∃ k h, (m.addAt number hits).find k = some h ∧ t ∈ times h) ↔
      (∃ k h, m.find k = some h ∧ t ∈ times h) ∨ t ∈ times hits := by
  constructor
  · intro hh
    obtain ⟨k, h, hfind, ht⟩ := hh
    rw [OrderedMap.find_addAt] at hfind
    split at hfind
    · obtain rfl := Option.some.inj hfind
      rcases (hadd _ _ t).mp ht with ht | ht
      · cases hold : m.find number with
        | none => simp [hold, htimes] at ht
        | some h => exact Or.inl ⟨number, h, hold, by simpa [hold] using ht⟩
      · exact Or.inr ht
    · exact Or.inl ⟨k, h, hfind, ht⟩
  · intro hh
    rcases hh with ⟨k, h, hfind, ht⟩ | ht
    · by_cases hk : k = number
      · subst hk
        exact ⟨k, h + hits, by simp [OrderedMap.find_addAt, hfind], (hadd h hits t).mpr (Or.inl ht)⟩
      · exact ⟨k, h, by simp [OrderedMap.find_addAt, hk, hfind], ht⟩
    · refine ⟨number, (m.find number).getD 0 + hits, by simp [OrderedMap.find_addAt], ?_⟩
      exact (hadd _ hits t).mpr (Or.inr ht)

/-- The published times are those that the data words add. -/
theorem mem_publishedTimes_iff (htimes : times 0 = [])
    (hadd : ∀ a b t, t ∈ times (a + b) ↔ t ∈ times a ∨ t ∈ times b)
    (hsteps : ∀ d following s used s', body d following s = .ok (used, s') →
      StepsTable key (classify d following) (blockState s) (blockState s'))
    (hinit : blockState init = {}) {ms : List (UInt32 × List UInt32)} {s : σ}
    (h : WordLoop.fold body ms init = .ok s) (t : τ) :
    t ∈ publishedTimes times (physicsEvents (blockState s).eventHitsMap) ↔
      Added classify body (AddsToTable times blockState) init (fun _ => True) ms t := by
  rw [mem_publishedTimes]
  induction ms using List.reverseRecOn generalizing s with
  | nil =>
    obtain rfl := Except.ok.inj h
    simp [hinit, Added]
  | append_singleton ms m ih =>
    obtain ⟨u, hu, hm⟩ := WordLoop.fold_append_ok.mp h
    obtain ⟨used, hbody⟩ := WordLoop.fold_singleton_ok.mp hm
    have hstep := hsteps m.1 m.2 u used s hbody
    unfold StepsTable at hstep
    simp only [added_append_singleton, addsAfter_iff hu hbody, true_and]
    rw [← ih hu]
    cases hw : classify m.1 m.2 with
    | data payload =>
      simp only [hw] at hstep
      rcases hstep with hsame | ⟨-, hits, hhits⟩
      · have hnone : ¬ ∃ ts, AddsToTable times blockState u s ts ∧ t ∈ ts := by
          rintro ⟨ts, hadds, ht⟩
          rw [addsToTable_of_same htimes hsame hadds] at ht
          cases ht
        simp [hsame, hnone]
      · simp only [addsToTable_iff hhits, exists_eq_left, Word.isData, true_and]
        rw [hhits]
        exact mem_times_addAt htimes hadd _ _ _ t
    | eventHeader slot =>
      simp only [hw] at hstep
      rw [hstep, EventHitsTable.select_map, mem_times_addAt htimes hadd]
      simp [htimes, Word.isData]
    | blockHeader _ _ | blockTrailer _ | triggerTime _ | other =>
      simp only [hw] at hstep
      simp [hstep, Word.isData]

theorem publishedTimes_run {T : σ → σ → Prop}
    (hc : Conforms classify body (TracksIn blockState key) T) (htimes : times 0 = [])
    (hadd : ∀ a b t, t ∈ times (a + b) ↔ t ∈ times a ∨ t ∈ times b)
    (hsteps : ∀ d following s used s', body d following s = .ok (used, s') →
      StepsTable key (classify d following) (blockState s) (blockState s'))
    (hinit : blockState init = {}) {dataWords : List UInt32} {events : List (PhysicsEvent H)}
    (h : (WordLoop.run body 0 dataWords init >>= fun s =>
      .ok (physicsEvents (blockState s).eventHitsMap)) = .ok events) :
    (∃ s, WordLoop.fold body (interpretedWords classify dataWords) init = .ok s) ∧
      ∀ t, t ∈ publishedTimes times events ↔ Added classify body (AddsToTable times blockState)
        init (fun _ => True) (interpretedWords classify dataWords) t := by
  obtain ⟨s, hs, hevents⟩ := bind_eq_ok.mp h
  obtain rfl := Except.ok.inj hevents
  rw [hc.run_eq_fold (.init hinit)] at hs
  exact ⟨⟨s, hs⟩, mem_publishedTimes_iff htimes hadd hsteps hinit hs⟩

end Published

namespace VFTDC

abbrev AddsTimes := AddsToTable times State.toBlockState

variable {rocid : UInt32} {triggerData : TriggerData}

theorem mem_times_add (a b : EventHitsVFTDC) (t : UInt64) :
    t ∈ times (a + b) ↔ t ∈ times a ∨ t ∈ times b := by
  change t ∈ (a.vftdcHits ++ b.vftdcHits).map VFTDCHit.timestamp ↔ _
  rw [List.map_append, List.mem_append]
  rfl

theorem stamps (rocid : UInt32) (triggerData : TriggerData) :
    Stamps readAs (parseWord rocid triggerData) State.eventTimestamp timestampOf AddsTimes :=
  stamps_of_steps rfl fun _ _ _ _ _ h => (parseWord_step h).stamp

theorem publishedTimes_parse {dataWords : List UInt32} {events : List (PhysicsEvent EventHitsVFTDC)}
    (h : parse rocid triggerData dataWords = .ok events) :
    (∃ s, WordLoop.fold (parseWord rocid triggerData) (interpretedWords readAs dataWords) {} =
      .ok s) ∧
      ∀ t, t ∈ publishedTimes times events ↔ Added readAs (parseWord rocid triggerData) AddsTimes
        {} (fun _ => True) (interpretedWords readAs dataWords) t :=
  publishedTimes_run (conforms rocid triggerData) rfl mem_times_add
    (fun _ _ _ _ _ h => (parseWord_step h).table) rfl h

end VFTDC

namespace FADC

abbrev AddsTimes := AddsToTable times State.toBlockState

variable {rocid : UInt32} {triggerData : TriggerData}

theorem mem_times_add (a b : EventHitsFADC) (t : UInt32 × UInt32) :
    t ∈ times (a + b) ↔ t ∈ times a ∨ t ∈ times b := by
  change t ∈ times ⟨a.waveforms ++ b.waveforms, a.pulses ++ b.pulses,
    a.pulseIntegrals ++ b.pulseIntegrals, a.pulseTimes ++ b.pulseTimes,
    a.pulsePeaks ++ b.pulsePeaks⟩ ↔ _
  simp only [times, List.map_append, List.mem_append]
  tauto

theorem stamps (rocid : UInt32) (triggerData : TriggerData) :
    Stamps readAs (parseWord rocid triggerData) State.stamp id AddsTimes :=
  stamps_of_steps rfl fun _ _ _ _ _ h => (parseWord_step h).stamp

theorem publishedTimes_parse {dataWords : List UInt32} {events : List (PhysicsEvent EventHitsFADC)}
    (h : parse rocid triggerData dataWords = .ok events) :
    (∃ s, WordLoop.fold (parseWord rocid triggerData) (interpretedWords readAs dataWords) {} =
      .ok s) ∧
      ∀ t, t ∈ publishedTimes times events ↔ Added readAs (parseWord rocid triggerData) AddsTimes
        {} (fun _ => True) (interpretedWords readAs dataWords) t :=
  publishedTimes_run (conforms rocid triggerData) rfl mem_times_add
    (fun _ _ _ _ _ h => (parseWord_step h).table) rfl h

end FADC

namespace MPD

abbrev AddsTimes := AddsToTable times State.toBlockState

variable {rocid : UInt32} {triggerData : TriggerData}

theorem mem_times_add (a b : EventHitsMPD) (t : UInt64) :
    t ∈ times (a + b) ↔ t ∈ times a ∨ t ∈ times b := by
  change t ∈ (a.mpd ++ b.mpd).map MPDHit.triggerTime ↔ _
  rw [List.map_append, List.mem_append]
  rfl

theorem stamps (rocid : UInt32) (triggerData : TriggerData) :
    Stamps readAs (parseWord rocid triggerData) State.eventTimestamp timestampOf AddsTimes :=
  stamps_of_steps rfl fun _ _ _ _ _ h => (parseWord_step h).stamp

theorem publishedTimes_parse {dataWords : List UInt32} {events : List (PhysicsEvent EventHitsMPD)}
    (h : parse rocid triggerData dataWords = .ok events) :
    (∃ s, WordLoop.fold (parseWord rocid triggerData) (interpretedWords readAs dataWords) {} =
      .ok s) ∧
      ∀ t, t ∈ publishedTimes times events ↔ Added readAs (parseWord rocid triggerData) AddsTimes
        {} (fun _ => True) (interpretedWords readAs dataWords) t :=
  publishedTimes_run (conforms rocid triggerData) rfl mem_times_add
    (fun _ _ _ _ _ h => (parseWord_step h).table) rfl h

end MPD

end JanaExtensions
