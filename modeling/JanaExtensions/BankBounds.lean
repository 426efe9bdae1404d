import JanaExtensions.BlockStructure

/-! Whether the block-structured parsers stay within their bank. The second trigger-time word
and the word after a group of APV samples are read without a look at the length of the bank,
and a data word before any event header writes through a null pointer. -/

namespace JanaExtensions

open Failing

/-- The parser returns or throws a `JException`; no read goes past the end of the bank. -/
def ReturnsOrThrows {ρ : Type} (result : Except Fault ρ) : Prop :=
  (∃ events, result = .ok events) ∨ ∃ message, result = .error (.jexception message)

/-- In an open block, after the words `before`, the word makes the parser read past the end of
the bank or store hits where there is no event. -/
def Overreads (before : List Word) : Word → Prop
  | .triggerTime complete => complete = false
  | .data .truncated => True
  | .data (.hits _ present) => present = true ∧ ∀ w ∈ before, w.isEventHeader = false
  | _ => False

/-- No word of an open block that the parser comes to overreads. -/
def StaysInBank (ws : List Word) : Prop :=
  ∀ before w after, ws = before ++ w :: after → Framing.verdict {} before = .accepted →
    isOpen before = true → ¬ Overreads before w

section Framing

theorem blockNevents_nonneg_iff {ws : List Word} (h : Framing.verdict {} ws = .accepted) :
    0 ≤ (framing ws).blockNevents ↔ isOpen ws = true := by
  induction ws using List.reverseRecOn with
  | nil => exact iff_of_false (by decide) (by decide)
  | append_singleton ws w ih =>
    have hih := ih (Framing.accepted_of_append h)
    have hjudge := Framing.judge_of_accepted h
    rw [framing_append_singleton, isOpen_append_singleton]
    cases w with
    | blockHeader slot nevents => exact iff_of_true (Int.natCast_nonneg nevents) rfl
    | blockTrailer slot => exact iff_of_false (by simp [Framing.next]) Bool.false_ne_true
    | eventHeader slot =>
      have hpos : 0 < (framing ws).blockNevents := by
        by_contra hn
        simp [Framing.judge, hn] at hjudge
      have hopen := hih.mp (by omega)
      simp only [Framing.next, Word.isBlockHeader, Word.isBlockTrailer, hopen]
      exact iff_of_true (by omega) rfl
    | triggerTime _ | data _ | other => exact hih

theorem current_eq_none_iff (ws : List Word) :
    (framing ws).current = none ↔ ∀ w ∈ ws, w.isEventHeader = false := by
  induction ws using List.reverseRecOn with
  | nil => simp [framing]
  | append_singleton ws w ih =>
    rw [framing_append_singleton, forall_mem_concat]
    cases w with
    | eventHeader slot => simp [Framing.next, Word.isEventHeader]
    | blockHeader _ _ | blockTrailer _ | triggerTime _ | data _ | other =>
      rw [← ih]
      simp [Framing.next, Word.isEventHeader]

theorem judge_undefined_iff {ws : List Word} (h : Framing.verdict {} ws = .accepted) (w : Word) :
    (framing ws).judge w = .undefined ↔ isOpen ws = true ∧ Overreads ws w := by
  rw [← blockNevents_nonneg_iff h, ← not_lt]
  cases w with
  | blockHeader _ _ | other => simp [Framing.judge, Overreads]
  | blockTrailer slot | eventHeader slot =>
    simp only [Framing.judge, Overreads]
    split <;> simp
  | triggerTime complete =>
    simp only [Framing.judge, Overreads]
    by_cases hn : (framing ws).blockNevents < 0
    · simp [hn]
    · cases complete <;> simp [hn]
  | data payload =>
    simp only [Framing.judge]
    by_cases hn : (framing ws).blockNevents < 0
    · simp [hn]
    · cases payload with
      | malformed | truncated => simp [hn, Overreads]
      | hits used present =>
        rw [Overreads, ← current_eq_none_iff]
        cases present <;> simp [hn]

theorem exists_undefined {f : Framing} {ws : List Word} (h : f.verdict ws = .undefined) :
    ∃ before w after, ws = before ++ w :: after ∧ f.verdict before = .accepted ∧
      (before.foldl Framing.next f).judge w = .undefined := by
  induction ws generalizing f with
  | nil => cases h
  | cons x ws ih =>
    rw [Framing.verdict] at h
    cases hj : f.judge x with
    | rejected => simp [hj] at h
    | undefined => exact ⟨[], x, ws, rfl, rfl, hj⟩
    | accepted =>
      obtain ⟨before, w, after, rfl, haccepted, hjudge⟩ := ih (by simpa [hj] using h)
      exact ⟨x :: before, w, after, rfl, by simpa [Framing.verdict, hj] using haccepted, hjudge⟩

theorem verdict_ne_undefined_iff (ws : List Word) :
    Framing.verdict {} ws ≠ .undefined ↔ StaysInBank ws := by
  constructor
  · rintro h before w after rfl haccepted hopen hover
    have hjudge := (judge_undefined_iff haccepted w).mpr ⟨hopen, hover⟩
    apply h
    rw [Framing.verdict_append haccepted, Framing.verdict, ← framing, hjudge]
  · intro h hundefined
    obtain ⟨before, w, after, rfl, haccepted, hjudge⟩ := exists_undefined hundefined
    obtain ⟨hopen, hover⟩ := (judge_undefined_iff haccepted w).mp hjudge
    exact h before w after rfl haccepted hopen hover

end Framing

section Parsers

variable {σ ρ : Type} {classify : UInt32 → List UInt32 → Word}
  {body : UInt32 → List UInt32 → σ → Except Fault (Nat × σ)} {R : Framing → σ → Prop}
  {T : σ → σ → Prop} {init : σ}

theorem returnsOrThrows_iff (hc : Conforms classify body R T) (hR : R {} init)
    (finish : σ → ρ) (dataWords : List UInt32) :
    ReturnsOrThrows (WordLoop.run body 0 dataWords init >>= fun s => .ok (finish s)) ↔
      StaysInBank (classified classify dataWords) := by
  rw [← verdict_ne_undefined_iff, hc.run_eq_fold hR, classified]
  have hfold := hc.fold hR (interpretedWords classify dataWords)
  cases hv : Framing.verdict {} ((interpretedWords classify dataWords).map
    fun m => classify m.1 m.2) with
  | rejected =>
    rw [hv] at hfold
    obtain ⟨message, he⟩ := hfold
    exact iff_of_true (Or.inr ⟨message, by rw [he, bind_error]⟩) (by simp)
  | undefined =>
    rw [hv] at hfold
    obtain ⟨fault, he, hthrown⟩ := hfold
    refine iff_of_false ?_ (by simp)
    rw [he, bind_error]
    rintro (⟨events, hok⟩ | ⟨message, herror⟩)
    · cases hok
    · rw [Except.error.inj herror] at hthrown
      cases hthrown
  | accepted =>
    rw [hv] at hfold
    obtain ⟨s, he, -⟩ := hfold
    exact iff_of_true (Or.inl ⟨finish s, by rw [he, bind_ok]⟩) (by simp)

/-- When the parsers of block-structured banks stay within their bank. -/
theorem staysInBank_iff (rocid : UInt32) (triggerData : TriggerData) (dataWords : List UInt32) :
    (ReturnsOrThrows (FADC.parse rocid triggerData dataWords) ↔
      StaysInBank (classified FADC.readAs dataWords)) ∧
    (ReturnsOrThrows (VFTDC.parse rocid triggerData dataWords) ↔
      StaysInBank (classified VFTDC.readAs dataWords)) ∧
    (ReturnsOrThrows (MPD.parse rocid triggerData dataWords) ↔
      StaysInBank (classified MPD.readAs dataWords)) ∧
    (ReturnsOrThrows (HelicityDecoder.parse rocid triggerData dataWords) ↔
      StaysInBank (classified HelicityDecoder.readAs dataWords)) := by
  refine ⟨?_, ?_, ?_, ?_⟩
  · exact returnsOrThrows_iff (FADC.conforms rocid triggerData) Tracks.init _ dataWords
  · exact returnsOrThrows_iff (VFTDC.conforms rocid triggerData) Tracks.init _ dataWords
  · exact returnsOrThrows_iff (MPD.conforms rocid triggerData) Tracks.init _ dataWords
  · exact returnsOrThrows_iff (HelicityDecoder.conforms rocid triggerData) ⟨rfl, rfl, rfl⟩ _ dataWords

/-- A bank cut off after the first word of a trigger time. -/
theorem truncated_trigger_time :
    FADC.parse 1 ⟨0, 0⟩ [0x80C00001, 0x98000000] = .error .outOfBounds ∧
      ¬ ReturnsOrThrows (FADC.parse 1 ⟨0, 0⟩ [0x80C00001, 0x98000000]) := by
  refine ⟨rfl, ?_⟩
  rintro (⟨events, hok⟩ | ⟨message, herror⟩)
  · cases hok
  · cases herror

end Parsers

end JanaExtensions
