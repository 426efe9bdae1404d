import JanaExtensions.TriggerTimes

/-! Whether a hit has the trigger time of its own event. The parsers never reset the time, so
that a hit without a trigger time in its event gets the last one of an earlier event or block. -/

namespace JanaExtensions

open Failing

section OwnSegment

variable (classify : UInt32 → List UInt32 → Word)

/-- The words since the last event header or block header. -/
def ownSegment (ms : List (UInt32 × List UInt32)) : List (UInt32 × List UInt32) :=
  ms.rtakeWhile fun m =>
    !((classify m.1 m.2).isEventHeader || (classify m.1 m.2).isBlockHeader)

/-- The time comes from the trigger times of the own event, and is that of zero fields if
there are none. -/
def FromOwnEvent {τ : Type} (time : UInt32 × UInt32 → τ) (pre : List (UInt32 × List UInt32))
    (t : τ) : Prop :=
  t = time (lastPair classify (ownSegment classify pre))

/-- Wherever hits are, there is a trigger time in the own event, or there is no earlier one
that is not zero. -/
def HasOwnTimes {τ : Type} (time : UInt32 × UInt32 → τ)
    (Counts : List (UInt32 × List UInt32) → Prop) (dataWords : List UInt32) : Prop :=
  ∀ pre m post, interpretedWords classify dataWords = pre ++ m :: post →
    (classify m.1 m.2).hasHits = true → Counts post →
      (∃ x ∈ ownSegment classify pre, (classify x.1 x.2).isTriggerTime = true) ∨
        time (lastPair classify pre) = time (0, 0)

variable {classify} {τ : Type} {time : UInt32 × UInt32 → τ}

theorem lastPair_of_none {ms : List (UInt32 × List UInt32)}
    (h : ∀ x ∈ ms, (classify x.1 x.2).isTriggerTime = false) : lastPair classify ms = (0, 0) := by
  have hnil : (ms.filter fun m => (classify m.1 m.2).isTriggerTime) = [] := by
    simpa [List.filter_eq_nil_iff] using h
  rw [lastPair, hnil]
  rfl

theorem lastPair_of_suffix {ms ms' : List (UInt32 × List UInt32)} (hsuffix : ms' <:+ ms)
    (h : ∃ x ∈ ms', (classify x.1 x.2).isTriggerTime = true) :
    lastPair classify ms' = lastPair classify ms := by
  obtain ⟨pre, rfl⟩ := hsuffix
  obtain ⟨x, hx, htime⟩ := h
  have hne : (ms'.filter fun m => (classify m.1 m.2).isTriggerTime) ≠ [] :=
    List.ne_nil_of_mem (List.mem_filter.mpr ⟨hx, htime⟩)
  rw [lastPair, lastPair, List.filter_append, List.getLast?_append_of_ne_nil _ hne]

theorem fromOwnEvent_iff (pre : List (UInt32 × List UInt32)) :
    FromOwnEvent classify time pre (time (lastPair classify pre)) ↔
      (∃ x ∈ ownSegment classify pre, (classify x.1 x.2).isTriggerTime = true) ∨
        time (lastPair classify pre) = time (0, 0) := by
  unfold FromOwnEvent
  by_cases hown : ∃ x ∈ ownSegment classify pre, (classify x.1 x.2).isTriggerTime = true
  · have hsuffix : ownSegment classify pre <:+ pre := List.rtakeWhile_suffix ..
    rw [lastPair_of_suffix hsuffix hown]
    exact iff_of_true rfl (Or.inl hown)
  · have hnone : ∀ x ∈ ownSegment classify pre, (classify x.1 x.2).isTriggerTime = false := by
      simpa using hown
    rw [lastPair_of_none hnone, or_iff_right hown]

theorem Stamps.hasOwnTimes_iff {σ : Type}
    {body : UInt32 → List UInt32 → σ → Except Fault (Nat × σ)} {stamp : σ → τ}
    {Adds : σ → σ → List τ → Prop} {Counts : List (UInt32 × List UInt32) → Prop} {init : σ}
    {dataWords : List UInt32} {published : List τ} (h : Stamps classify body stamp time Adds)
    (hinit : stamp init = time (0, 0))
    (hparse : (∃ s, WordLoop.fold body (interpretedWords classify dataWords) init = .ok s) ∧
      ∀ t, t ∈ published ↔ Added classify body Adds init Counts
        (interpretedWords classify dataWords) t) :
    HitsTimed classify body Adds init Counts (FromOwnEvent classify time) published
      (interpretedWords classify dataWords) ↔ HasOwnTimes classify time Counts dataWords := by
  obtain ⟨⟨s, hs⟩, hpublished⟩ := hparse
  rw [h.hitsTimed_iff hinit hs hpublished]
  simp only [fromOwnEvent_iff, HasOwnTimes]

end OwnSegment

section Records

variable {σ τ : Type} {classify : UInt32 → List UInt32 → Word}
  {body : UInt32 → List UInt32 → σ → Except Fault (Nat × σ)} {Adds : σ → σ → List τ → Prop}
  {init : σ}

theorem added_congr {Counts Counts' : List (UInt32 × List UInt32) → Prop}
    (h : ∀ post, Counts post ↔ Counts' post) (ms : List (UInt32 × List UInt32)) (t : τ) :
    Added classify body Adds init Counts ms t ↔ Added classify body Adds init Counts' ms t := by
  simp only [Added, h]

theorem added_append_other {Counts : List (UInt32 × List UInt32) → Prop}
    (Counts' : List (UInt32 × List UInt32) → Prop) {ms : List (UInt32 × List UInt32)}
    {m : UInt32 × List UInt32} (hm : (classify m.1 m.2).isData = false) (h : ∀ post, Counts (post ++ [m]) ↔ Counts' post)
    (t : τ) : Added classify body Adds init Counts (ms ++ [m]) t ↔
      Added classify body Adds init Counts' ms t := by
  rw [added_append_singleton, hm]
  simp only [Bool.false_eq_true, false_and, or_false]
  exact added_congr h ms t

theorem added_or {Counts Counts' : List (UInt32 × List UInt32) → Prop}
    (ms : List (UInt32 × List UInt32)) (t : τ) :
    Added classify body Adds init (fun post => Counts post ∨ Counts' post) ms t ↔
      Added classify body Adds init Counts ms t ∨ Added classify body Adds init Counts' ms t := by
  simp only [Added, or_and_right, and_or_left, exists_or]

end Records

namespace HelicityDecoder

def times (hits : EventHitsHelicityDecoder) : List (UInt32 × UInt32) := hits.helicity.map stampOf

/-- The step appends records with these times to the container of the current event. -/
def AddsTimes (s s' : State) (ts : List (UInt32 × UInt32)) : Prop :=
  ∃ eventHits added, s.eventHits = some eventHits ∧
    s'.eventHits = some ⟨eventHits.helicity ++ added⟩ ∧ ts = added.map stampOf

/-- The times of the records that are not yet published. -/
def pendingTimes (s : State) : List (UInt32 × UInt32) := (s.eventHits.map times).getD []

def State.publishedTimes (s : State) : List (UInt32 × UInt32) :=
  JanaExtensions.publishedTimes times s.physicsEvents

/-- What a word does to the trigger time and the records. -/
def StepsRecords (w : Word) (m : UInt32 × List UInt32) (s s' : State) : Prop :=
  match w with
  | .eventHeader _ => s'.stamp = s.stamp ∧ s'.eventHits = some {} ∧
      s'.publishedTimes = s.publishedTimes ++ pendingTimes s
  | .blockTrailer _ => s'.stamp = s.stamp ∧ s'.eventHits = s.eventHits ∧
      s'.publishedTimes = s.publishedTimes ++ if m.2 = [] then pendingTimes s else []
  | .triggerTime _ => s'.stamp = timePair m ∧ s'.eventHits = s.eventHits ∧
      s'.publishedTimes = s.publishedTimes
  | .data _ => s'.stamp = s.stamp ∧ s'.publishedTimes = s.publishedTimes ∧
      ∃ eventHits record, s.eventHits = some eventHits ∧
        s'.eventHits = some ⟨eventHits.helicity ++ [record]⟩ ∧ stampOf record = s.stamp
  | _ => s'.stamp = s.stamp ∧ s'.eventHits = s.eventHits ∧ s'.publishedTimes = s.publishedTimes

variable {rocid d : UInt32} {triggerData : TriggerData} {following : List UInt32} {used : Nat}
  {s s' : State}

theorem publishedTimes_publish (triggerData : TriggerData) (s : State) :
    JanaExtensions.publishedTimes times (publish triggerData s) =
      s.publishedTimes ++ pendingTimes s := by
  unfold publish pendingTimes State.publishedTimes JanaExtensions.publishedTimes
  cases s.eventHits <;> simp

theorem parseWord_records (h : parseWord rocid triggerData d following s = .ok (used, s')) :
    StepsRecords (readAs d following) (d, following) s s' := by
  have hstep := parseWord_step h
  unfold Steps at hstep
  unfold StepsRecords
  cases hw : readAs d following with
  | eventHeader slot =>
    simp only [hw] at hstep
    obtain ⟨hstamp, hhits, -, hevents⟩ := hstep
    refine ⟨hstamp, hhits, ?_⟩
    rw [State.publishedTimes, hevents]
    exact publishedTimes_publish triggerData s
  | blockTrailer slot =>
    simp only [hw] at hstep
    obtain ⟨hstamp, hhits, -, hevents⟩ := hstep
    refine ⟨hstamp, hhits, ?_⟩
    by_cases hlast : following = []
    · simp only [State.publishedTimes, hevents, hlast, if_true]
      exact publishedTimes_publish triggerData s
    · simp [State.publishedTimes, hevents, hlast]
  | data payload =>
    simp only [hw] at hstep
    obtain ⟨hstamp, hrecord, -, hevents⟩ := hstep
    exact ⟨hstamp, congrArg (JanaExtensions.publishedTimes times) hevents, hrecord⟩
  | blockHeader _ _ | triggerTime _ | other =>
    simp only [hw] at hstep
    obtain ⟨hstamp, hhits, -, hevents⟩ := hstep
    exact ⟨hstamp, hhits, congrArg (JanaExtensions.publishedTimes times) hevents⟩

theorem addsTimes_iff {eventHits : EventHitsHelicityDecoder} {record : HelicityDecoderData}
    (hs : s.eventHits = some eventHits)
    (hs' : s'.eventHits = some ⟨eventHits.helicity ++ [record]⟩) (ts : List (UInt32 × UInt32)) :
    AddsTimes s s' ts ↔ ts = [stampOf record] := by
  constructor
  · intro hh
    obtain ⟨eventHits', added, h, h', rfl⟩ := hh
    obtain rfl := Option.some.inj (hs.symm.trans h)
    have hlists := congrArg EventHitsHelicityDecoder.helicity (Option.some.inj (hs'.symm.trans h'))
    rw [← List.append_cancel_left hlists]
    rfl
  · intro hts
    exact ⟨eventHits, [record], hs, hs', hts⟩

theorem hasHits_of_isData (h : (readAs d following).isData = true) :
    (readAs d following).hasHits = true := by
  unfold readAs classify at h ⊢
  by_cases hd : getBitsInRange d 31 31 = 1
  · simp only [hd, if_true] at h ⊢
    generalize (getBitsInRange d 30 27).toNat = dataType at h ⊢
    match dataType, h with
    | 8, _ => rfl
    | 4, h | 5, h | 6, h | 7, h | _ + 9, h => cases h
  · simp only [hd, if_false] at h
    cases h

theorem stamps (rocid : UInt32) (triggerData : TriggerData) :
    Stamps readAs (parseWord rocid triggerData) State.stamp id AddsTimes where
  stamp_eq {d following s used s'} h := by
    have hstep := parseWord_records h
    unfold StepsRecords at hstep
    cases hw : readAs d following with
    | blockHeader _ _ | blockTrailer _ | eventHeader _ | triggerTime _ | data _ | other =>
      simp only [hw] at hstep
      exact hstep.1
  added {d following s used s'} h hdata ts hadds t ht := by
    have hstep := parseWord_records h
    obtain ⟨payload, hw⟩ := Word.exists_of_isData hdata
    simp only [StepsRecords, hw] at hstep
    obtain ⟨-, -, eventHits, record, hs, hs', hstamp⟩ := hstep
    obtain rfl := (addsTimes_iff hs hs' ts).mp hadds
    rw [List.mem_singleton.mp ht, hstamp]
  present {d following s used s'} h hdata := by
    have hstep := parseWord_records h
    have hhits := hasHits_of_isData hdata
    obtain ⟨payload, hw⟩ := Word.exists_of_isData hdata
    simp only [StepsRecords, hw] at hstep
    obtain ⟨-, -, eventHits, record, hs, hs', -⟩ := hstep
    exact iff_of_true hhits ⟨_, (addsTimes_iff hs hs' _).mpr rfl, List.cons_ne_nil _ _⟩

/-- The records before these words are published. -/
def HeaderFollows (post : List (UInt32 × List UInt32)) : Prop :=
  ∃ x ∈ post, (readAs x.1 x.2).isEventHeader = true

/-- The records before these words get published: at the next event header, or at a block
trailer as the last word of the bank. -/
def Published (post : List (UInt32 × List UInt32)) : Prop :=
  HeaderFollows post ∨
    ∃ x, post.getLast? = some x ∧ (readAs x.1 x.2).isBlockTrailer = true ∧ x.2 = []

@[simp]
theorem not_headerFollows_nil : ¬ HeaderFollows [] := by simp [HeaderFollows]

theorem headerFollows_append_singleton (post : List (UInt32 × List UInt32))
    (m : UInt32 × List UInt32) :
    HeaderFollows (post ++ [m]) ↔
      HeaderFollows post ∨ (readAs m.1 m.2).isEventHeader = true := by
  simp [HeaderFollows, or_and_right, exists_or]

theorem published_append_singleton (post : List (UInt32 × List UInt32))
    (m : UInt32 × List UInt32) :
    Published (post ++ [m]) ↔ HeaderFollows post ∨ (readAs m.1 m.2).isEventHeader = true ∨
      (readAs m.1 m.2).isBlockTrailer = true ∧ m.2 = [] := by
  simp [Published, headerFollows_append_singleton, or_assoc]

@[simp]
theorem not_published_nil : ¬ Published [] := by simp [Published]

/-- A word that publishes the pending records. -/
theorem mem_of_publishing {ms : List (UInt32 × List UInt32)} {m : UInt32 × List UInt32}
    {u s : State} {t : UInt32 × UInt32} {Counts : List (UInt32 × List UInt32) → Prop}
    (hpublished : t ∈ u.publishedTimes ↔
      Added readAs (parseWord rocid triggerData) AddsTimes {} HeaderFollows ms t)
    (hpending : t ∈ pendingTimes u ↔ Added readAs (parseWord rocid triggerData) AddsTimes {}
      (fun post => ¬ HeaderFollows post) ms t)
    (happend : s.publishedTimes = u.publishedTimes ++ pendingTimes u)
    (hdata : (readAs m.1 m.2).isData = false) (hcounts : ∀ post, Counts (post ++ [m])) :
    t ∈ s.publishedTimes ↔
      Added readAs (parseWord rocid triggerData) AddsTimes {} Counts (ms ++ [m]) t := by
  rw [happend, List.mem_append, hpublished, hpending, ← added_or]
  exact (added_append_other _ hdata (fun post => iff_of_true (hcounts post) (em _)) t).symm

/-- A word that neither adds records nor publishes any. -/
theorem records_of_passing {ms : List (UInt32 × List UInt32)} {m : UInt32 × List UInt32}
    {u s : State} {t : UInt32 × UInt32}
    (hpublished : t ∈ u.publishedTimes ↔
      Added readAs (parseWord rocid triggerData) AddsTimes {} HeaderFollows ms t)
    (hpending : t ∈ pendingTimes u ↔ Added readAs (parseWord rocid triggerData) AddsTimes {}
      (fun post => ¬ HeaderFollows post) ms t)
    (hsame : s.publishedTimes = u.publishedTimes) (hsame' : pendingTimes s = pendingTimes u)
    (hdata : (readAs m.1 m.2).isData = false)
    (hheader : (readAs m.1 m.2).isEventHeader = false) :
    (t ∈ s.publishedTimes ↔
      Added readAs (parseWord rocid triggerData) AddsTimes {} HeaderFollows (ms ++ [m]) t) ∧
    (t ∈ pendingTimes s ↔ Added readAs (parseWord rocid triggerData) AddsTimes {}
      (fun post => ¬ HeaderFollows post) (ms ++ [m]) t) := by
  have hcongr : ∀ post, HeaderFollows (post ++ [m]) ↔ HeaderFollows post := by
    simp [headerFollows_append_singleton, hheader]
  rw [hsame, hsame', added_append_other _ hdata hcongr,
    added_append_other _ hdata fun post => not_congr (hcongr post)]
  exact ⟨hpublished, hpending⟩

/-- The published and the pending records, up to a word that is not the last one. -/
theorem mem_records_fold {ms : List (UInt32 × List UInt32)} {s : State}
    (hs : WordLoop.fold (parseWord rocid triggerData) ms {} = .ok s)
    (hfollowing : ∀ x ∈ ms, x.2 ≠ []) (t : UInt32 × UInt32) :
    (t ∈ s.publishedTimes ↔
      Added readAs (parseWord rocid triggerData) AddsTimes {} HeaderFollows ms t) ∧
    (t ∈ pendingTimes s ↔ Added readAs (parseWord rocid triggerData) AddsTimes {}
      (fun post => ¬ HeaderFollows post) ms t) := by
  induction ms using List.reverseRecOn generalizing s with
  | nil =>
    obtain rfl := Except.ok.inj hs
    simp [State.publishedTimes, JanaExtensions.publishedTimes, pendingTimes, Added]
  | append_singleton ms m ih =>
    obtain ⟨u, hu, hm⟩ := WordLoop.fold_append_ok.mp hs
    obtain ⟨used, hbody⟩ := WordLoop.fold_singleton_ok.mp hm
    obtain ⟨hpublished, hpending⟩ := ih hu fun x hx => hfollowing x (by simp [hx])
    have hstep := parseWord_records hbody
    unfold StepsRecords at hstep
    cases hw : readAs m.1 m.2 with
    | eventHeader slot =>
      simp only [hw] at hstep
      obtain ⟨-, hnone, happend⟩ := hstep
      have hdata : (readAs m.1 m.2).isData = false := by rw [hw]; rfl
      have hheader : (readAs m.1 m.2).isEventHeader = true := by rw [hw]; rfl
      constructor
      · apply mem_of_publishing hpublished hpending happend hdata
        exact fun post => (headerFollows_append_singleton post m).mpr (Or.inr hheader)
      · rw [pendingTimes, hnone, added_append_other (fun _ => False) hdata]
        · simp [Added, times]
        · intro post
          simp [headerFollows_append_singleton, hheader]
    | data payload =>
      simp only [hw] at hstep
      obtain ⟨-, hsame, eventHits, record, hbefore, hafter, -⟩ := hstep
      have hheader : (readAs m.1 m.2).isEventHeader = false := by rw [hw]; rfl
      have hcongr : ∀ post, HeaderFollows (post ++ [m]) ↔ HeaderFollows post := by
        simp [headerFollows_append_singleton, hheader]
      rw [added_append_singleton, added_append_singleton]
      simp only [hcongr, addsAfter_iff hu hbody, addsTimes_iff hbefore hafter, exists_eq_left]
      constructor
      · rw [hsame, hpublished]
        simp
      · rw [← hpending]
        simp [pendingTimes, hbefore, hafter, times, hw, Word.isData]
    | blockTrailer slot =>
      simp only [hw] at hstep
      obtain ⟨-, hsame, happend⟩ := hstep
      rw [if_neg (hfollowing m (by simp)), List.append_nil] at happend
      have hpendingSame : pendingTimes s = pendingTimes u := by
        rw [pendingTimes, pendingTimes, hsame]
      exact records_of_passing hpublished hpending happend hpendingSame (by rw [hw]; rfl)
        (by rw [hw]; rfl)
    | blockHeader _ _ | triggerTime _ | other =>
      simp only [hw] at hstep
      obtain ⟨-, hsame, happend⟩ := hstep
      have hpendingSame : pendingTimes s = pendingTimes u := by
        rw [pendingTimes, pendingTimes, hsame]
      exact records_of_passing hpublished hpending happend hpendingSame (by rw [hw]; rfl)
        (by rw [hw]; rfl)

/-- The published times are those of the records before the next event header, or before a
block trailer at the end of the bank. -/
theorem mem_publishedTimes_fold {ms : List (UInt32 × List UInt32)} {m : UInt32 × List UInt32}
    {s : State} (hs : WordLoop.fold (parseWord rocid triggerData) (ms ++ [m]) {} = .ok s)
    (hfollowing : ∀ x ∈ ms, x.2 ≠ []) (t : UInt32 × UInt32) :
    t ∈ s.publishedTimes ↔
      Added readAs (parseWord rocid triggerData) AddsTimes {} Published (ms ++ [m]) t := by
  obtain ⟨u, hu, hm⟩ := WordLoop.fold_append_ok.mp hs
  obtain ⟨used, hbody⟩ := WordLoop.fold_singleton_ok.mp hm
  obtain ⟨hpublished, hpending⟩ := mem_records_fold hu hfollowing t
  have hstep := parseWord_records hbody
  unfold StepsRecords at hstep
  cases hw : readAs m.1 m.2 with
  | eventHeader slot =>
    simp only [hw] at hstep
    apply mem_of_publishing hpublished hpending hstep.2.2 (by rw [hw]; rfl)
    intro post
    rw [published_append_singleton, hw]
    exact Or.inr (Or.inl rfl)
  | blockTrailer slot =>
    simp only [hw] at hstep
    have hdata : (readAs m.1 m.2).isData = false := by rw [hw]; rfl
    obtain ⟨-, -, happend⟩ := hstep
    by_cases hlast : m.2 = []
    · rw [if_pos hlast] at happend
      apply mem_of_publishing hpublished hpending happend hdata
      intro post
      rw [published_append_singleton, hw]
      exact Or.inr (Or.inr ⟨rfl, hlast⟩)
    · rw [if_neg hlast, List.append_nil] at happend
      rw [added_append_other HeaderFollows hdata, happend, hpublished]
      simp [published_append_singleton, hw, Word.isEventHeader, hlast]
  | data payload =>
    simp only [hw] at hstep
    have hcongr : ∀ post, Published (post ++ [m]) ↔ HeaderFollows post := by
      simp [published_append_singleton, hw, Word.isEventHeader, Word.isBlockTrailer]
    rw [added_append_singleton, hstep.2.1, hpublished]
    simp [hcongr]
  | blockHeader _ _ | triggerTime _ | other =>
    simp only [hw] at hstep
    have hdata : (readAs m.1 m.2).isData = false := by rw [hw]; rfl
    rw [added_append_other HeaderFollows hdata, hstep.2.2, hpublished]
    simp [published_append_singleton, hw, Word.isEventHeader, Word.isBlockTrailer]

theorem publishedTimes_parse {dataWords : List UInt32}
    {events : List (PhysicsEvent EventHitsHelicityDecoder)}
    (h : parse rocid triggerData dataWords = .ok events) :
    (∃ s, WordLoop.fold (parseWord rocid triggerData) (interpretedWords readAs dataWords) {} =
      .ok s) ∧
      ∀ t, t ∈ JanaExtensions.publishedTimes times events ↔
        Added readAs (parseWord rocid triggerData) AddsTimes {} Published
          (interpretedWords readAs dataWords) t := by
  obtain ⟨s, hs, hevents⟩ := bind_eq_ok.mp h
  obtain rfl := Except.ok.inj hevents
  rw [(conforms rocid triggerData).run_eq_fold (f := {}) ⟨rfl, rfl, rfl⟩] at hs
  refine ⟨⟨s, hs⟩, fun t => ?_⟩
  rcases List.eq_nil_or_concat (interpretedWords readAs dataWords) with hnil | ⟨ms, m, hconcat⟩
  · rw [hnil] at hs ⊢
    obtain rfl := Except.ok.inj hs
    simp [JanaExtensions.publishedTimes, Added]
  · rw [List.concat_eq_append] at hconcat
    have hfollowing : ∀ x ∈ ms, x.2 ≠ [] := by
      intro x hx
      obtain ⟨pre, post, rfl⟩ := List.mem_iff_append.mp hx
      rw [List.append_assoc, List.cons_append] at hconcat
      exact WordLoop.following_ne_nil hconcat (by simp)
    rw [hconcat] at hs ⊢
    exact mem_publishedTimes_fold hs hfollowing t

end HelicityDecoder

section Parsers

variable (rocid : UInt32) (triggerData : TriggerData) (dataWords : List UInt32)

/-- All hits of the events have the trigger time of their own event. -/
def FADC.TimesOwn (events : List (PhysicsEvent EventHitsFADC)) : Prop :=
  HitsTimed readAs (parseWord rocid triggerData) AddsTimes {} (fun _ => True)
    (FromOwnEvent readAs id) (publishedTimes times events) (interpretedWords readAs dataWords)

def VFTDC.TimesOwn (events : List (PhysicsEvent EventHitsVFTDC)) : Prop :=
  HitsTimed readAs (parseWord rocid triggerData) AddsTimes {} (fun _ => True)
    (FromOwnEvent readAs timestampOf) (publishedTimes times events)
    (interpretedWords readAs dataWords)

def HelicityDecoder.TimesOwn (events : List (PhysicsEvent EventHitsHelicityDecoder)) : Prop :=
  HitsTimed readAs (parseWord rocid triggerData) AddsTimes {} Published (FromOwnEvent readAs id)
    (JanaExtensions.publishedTimes times events) (interpretedWords readAs dataWords)

variable {rocid triggerData dataWords}

theorem FADC.timesOwn_parse_iff {events : List (PhysicsEvent EventHitsFADC)}
    (h : parse rocid triggerData dataWords = .ok events) :
    TimesOwn rocid triggerData dataWords events ↔
      HasOwnTimes readAs id (fun _ => True) dataWords :=
  (stamps rocid triggerData).hasOwnTimes_iff rfl (publishedTimes_parse h)

theorem VFTDC.timesOwn_parse_iff {events : List (PhysicsEvent EventHitsVFTDC)}
    (h : parse rocid triggerData dataWords = .ok events) :
    TimesOwn rocid triggerData dataWords events ↔
      HasOwnTimes readAs timestampOf (fun _ => True) dataWords :=
  (stamps rocid triggerData).hasOwnTimes_iff rfl (publishedTimes_parse h)

theorem HelicityDecoder.timesOwn_parse_iff {events : List (PhysicsEvent EventHitsHelicityDecoder)}
    (h : parse rocid triggerData dataWords = .ok events) :
    TimesOwn rocid triggerData dataWords events ↔ HasOwnTimes readAs id Published dataWords :=
  (stamps rocid triggerData).hasOwnTimes_iff rfl (publishedTimes_parse h)

end Parsers

/-- When the hits have no trigger time but that of their own event. -/
theorem timesOwn_iff (rocid : UInt32) (triggerData : TriggerData) (dataWords : List UInt32) :
    (∀ events, FADC.parse rocid triggerData dataWords = .ok events →
      (FADC.TimesOwn rocid triggerData dataWords events ↔
        HasOwnTimes FADC.readAs id (fun _ => True) dataWords)) ∧
    (∀ events, VFTDC.parse rocid triggerData dataWords = .ok events →
      (VFTDC.TimesOwn rocid triggerData dataWords events ↔
        HasOwnTimes VFTDC.readAs timestampOf (fun _ => True) dataWords)) ∧
    ∀ events, HelicityDecoder.parse rocid triggerData dataWords = .ok events →
      (HelicityDecoder.TimesOwn rocid triggerData dataWords events ↔
        HasOwnTimes HelicityDecoder.readAs id HelicityDecoder.Published dataWords) := by
  refine ⟨?_, ?_, ?_⟩
  · intro events h
    exact FADC.timesOwn_parse_iff h
  · intro events h
    exact VFTDC.timesOwn_parse_iff h
  · intro events h
    exact HelicityDecoder.timesOwn_parse_iff h

/-- Two events with one data word each, of which only the first has a trigger time. -/
def untimedEventBank (d : UInt32) : List UInt32 :=
  [0x80C00002, 0x90C00000, 0x98000005, 7, d, 0x90C00000, d, 0x88C00000]

theorem timesOwn_iff_two_events :
    (∃ events, FADC.parse 1 ⟨0, 1⟩ (untimedEventBank 0xB8000000) = .ok events ∧
      (FADC.TimesOwn 1 ⟨0, 1⟩ (untimedEventBank 0xB8000000) events ↔
        HasOwnTimes FADC.readAs id (fun _ => True) (untimedEventBank 0xB8000000))) ∧
    (∃ events, VFTDC.parse 1 ⟨0, 1⟩ (untimedEventBank 0xB8000000) = .ok events ∧
      (VFTDC.TimesOwn 1 ⟨0, 1⟩ (untimedEventBank 0xB8000000) events ↔
        HasOwnTimes VFTDC.readAs timestampOf (fun _ => True) (untimedEventBank 0xB8000000))) ∧
    ∃ events, HelicityDecoder.parse 1 ⟨0, 1⟩ (untimedEventBank 0xC0000000) = .ok events ∧
      (HelicityDecoder.TimesOwn 1 ⟨0, 1⟩ (untimedEventBank 0xC0000000) events ↔
        HasOwnTimes HelicityDecoder.readAs id HelicityDecoder.Published
          (untimedEventBank 0xC0000000)) :=
  ⟨⟨_, rfl, (timesOwn_iff 1 ⟨0, 1⟩ (untimedEventBank 0xB8000000)).1 _ rfl⟩,
    ⟨_, rfl, (timesOwn_iff 1 ⟨0, 1⟩ (untimedEventBank 0xB8000000)).2.1 _ rfl⟩,
    _, rfl, (timesOwn_iff 1 ⟨0, 1⟩ (untimedEventBank 0xC0000000)).2.2 _ rfl⟩

/-- The hit of the second event has the trigger time of the first. -/
theorem FADC.stale_trigger_time :
    ∃ events, FADC.parse 1 ⟨0, 1⟩ (untimedEventBank 0xB8000000) = .ok events ∧
      publishedTimes FADC.times events = [(5, 7), (5, 7)] ∧
      ¬ FADC.TimesOwn 1 ⟨0, 1⟩ (untimedEventBank 0xB8000000) events := by
  refine ⟨_, rfl, rfl, fun hown => ?_⟩
  have htimes := (FADC.timesOwn_parse_iff rfl).mp hown
  have hbank : interpretedWords FADC.readAs (untimedEventBank 0xB8000000) =
      [(0x80C00002, (untimedEventBank 0xB8000000).drop 1),
        (0x90C00000, (untimedEventBank 0xB8000000).drop 2),
        (0x98000005, (untimedEventBank 0xB8000000).drop 3),
        (0xB8000000, (untimedEventBank 0xB8000000).drop 5),
        (0x90C00000, (untimedEventBank 0xB8000000).drop 6)] ++
      (0xB8000000, [0x88C00000]) :: [(0x88C00000, [])] := by decide
  have hcase := htimes _ _ _ hbank rfl trivial
  revert hcase
  decide

end JanaExtensions
