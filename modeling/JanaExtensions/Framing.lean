import JanaExtensions.BlockFraming

/-! The framing of a bank, apart from any hits: what the words of a bank are to a
block-structured parser, and what the parser must do with each of them given the
words before it. The parsers are shown to conform to this. -/

namespace JanaExtensions

/-- What a data word brings: the number of following words it takes, and whether
there are any hits in them. -/
inductive Payload where
  | malformed
  | truncated
  | hits (used : Nat) (present : Bool)
  deriving DecidableEq, Repr

/-- A word as a block-structured parser reads it. Trailers and event headers carry
their slot if the parser compares it with the slot of the block header. -/
inductive Word where
  | blockHeader (slot : UInt32) (nevents : Nat)
  | blockTrailer (slot : Option UInt32)
  | eventHeader (slot : Option UInt32)
  | triggerTime (complete : Bool)
  | data (payload : Payload)
  | other
  deriving DecidableEq, Repr

def Word.used : Word → Nat
  | .triggerTime _ => 1
  | .data (.hits used _) => used
  | _ => 0

def Word.isBlockHeader : Word → Bool
  | .blockHeader _ _ => true
  | _ => false

def Word.isBlockTrailer : Word → Bool
  | .blockTrailer _ => true
  | _ => false

def Word.isEventHeader : Word → Bool
  | .eventHeader _ => true
  | _ => false

def Word.isData : Word → Bool
  | .data _ => true
  | _ => false

theorem Word.exists_of_isEventHeader {w : Word} (h : w.isEventHeader = true) :
    ∃ slot, w = .eventHeader slot := by
  match w, h with
  | .eventHeader slot, _ => exact ⟨slot, rfl⟩

theorem Word.exists_of_isData {w : Word} (h : w.isData = true) : ∃ payload, w = .data payload := by
  match w, h with
  | .data payload, _ => exact ⟨payload, rfl⟩

/-- What the words read so far determine: the open block, the index of the last
event header, and whether an event header followed the last block header. -/
structure Framing extends BlockFrame where
  current : Option UInt64 := none
  entered : Bool := false
  deriving DecidableEq, Repr

/-- What becomes of a word: a `JException`, undefined behaviour, or neither. -/
inductive Verdict where
  | rejected
  | undefined
  | accepted
  deriving DecidableEq, Repr

namespace Framing

def next (f : Framing) : Word → Framing
  | .blockHeader slot nevents =>
    { f with blockSlot := slot, blockNevents := nevents, entered := false }
  | .blockTrailer _ => { f with blockNevents := -1, eventIndex := 0 }
  | .eventHeader _ =>
    { f with
      blockNevents := f.blockNevents - 1
      eventIndex := f.eventIndex + 1
      current := some f.eventIndex
      entered := true }
  | _ => f

def judge (f : Framing) : Word → Verdict
  | .blockHeader _ _ => .accepted
  | .blockTrailer slot =>
    if f.blockNevents = 0 ∧ slot.all (· = f.blockSlot) then .accepted else .rejected
  | .eventHeader slot =>
    if 0 < f.blockNevents ∧ slot.all (· = f.blockSlot) then .accepted else .rejected
  | .triggerTime complete =>
    if f.blockNevents < 0 then .rejected else if complete then .accepted else .undefined
  | .data payload =>
    if f.blockNevents < 0 then .rejected
    else match payload with
      | .malformed => .rejected
      | .truncated => .undefined
      | .hits _ present => if present ∧ f.current = none then .undefined else .accepted
  | .other => .accepted

def verdict (f : Framing) : List Word → Verdict
  | [] => .accepted
  | w :: ws =>
    match f.judge w with
    | .accepted => (f.next w).verdict ws
    | v => v

end Framing

def framing (ws : List Word) : Framing := ws.foldl Framing.next {}

theorem framing_append_singleton (ws : List Word) (w : Word) :
    framing (ws ++ [w]) = (framing ws).next w := by
  simp [framing]

namespace Framing

theorem verdict_append {f : Framing} {ws ws' : List Word} (h : f.verdict ws = .accepted) :
    f.verdict (ws ++ ws') = (ws.foldl next f).verdict ws' := by
  induction ws generalizing f with
  | nil => rfl
  | cons w ws ih =>
    simp only [verdict] at h
    cases hj : f.judge w with
    | rejected => simp [hj] at h
    | undefined => simp [hj] at h
    | accepted => simpa [verdict, hj] using ih (by simpa [hj] using h)

theorem accepted_of_append {f : Framing} {ws ws' : List Word}
    (h : f.verdict (ws ++ ws') = .accepted) : f.verdict ws = .accepted := by
  induction ws generalizing f with
  | nil => rfl
  | cons w ws ih =>
    simp only [List.cons_append, verdict] at h ⊢
    cases hj : f.judge w with
    | rejected => simp [hj] at h
    | undefined => simp [hj] at h
    | accepted => exact ih (by simpa [hj] using h)

theorem judge_of_accepted {pre post : List Word} {w : Word}
    (h : verdict {} (pre ++ w :: post) = .accepted) : (framing pre).judge w = .accepted := by
  rw [verdict_append (accepted_of_append h), verdict] at h
  rw [framing]
  cases hj : (pre.foldl next {}).judge w with
  | accepted => rfl
  | rejected => simp [hj] at h
  | undefined => simp [hj] at h

end Framing

def interpretedWords (classify : UInt32 → List UInt32 → Word) (dataWords : List UInt32) :
    List (UInt32 × List UInt32) :=
  WordLoop.interpreted (fun d following => (classify d following).used) 0 dataWords

def classified (classify : UInt32 → List UInt32 → Word) (dataWords : List UInt32) : List Word :=
  (interpretedWords classify dataWords).map fun m => classify m.1 m.2

section Conforms

variable {σ : Type}

/-- The outcome of a word in a state is the one that the framing demands. It leads to
a state related to the framing by `R`, and a data word of an event to one related to
the state before by `T`. -/
def Meets (R : Framing → σ → Prop) (T : σ → σ → Prop) (f : Framing) (w : Word) (s : σ)
    (outcome : Except Fault (Nat × σ)) : Prop :=
  match f.judge w with
  | .rejected => ∃ message, outcome = .error (.jexception message)
  | .undefined => ∃ fault, outcome = .error fault ∧ fault.isThrown = false
  | .accepted => ∃ s', outcome = .ok (w.used, s') ∧ R (f.next w) s' ∧
      (w.isData → f.current.isSome → T s s')

/-- A parser in lockstep with the framing. -/
def Conforms (classify : UInt32 → List UInt32 → Word)
    (body : UInt32 → List UInt32 → σ → Except Fault (Nat × σ)) (R : Framing → σ → Prop)
    (T : σ → σ → Prop) : Prop :=
  ∀ f s d following, R f s → Meets R T f (classify d following) s (body d following s)

variable {classify : UInt32 → List UInt32 → Word}
  {body : UInt32 → List UInt32 → σ → Except Fault (Nat × σ)} {R : Framing → σ → Prop}
  {T : σ → σ → Prop}

theorem Meets.of_accepted {f : Framing} {w : Word} {s s' : σ} (hj : f.judge w = .accepted)
    (hR : R (f.next w) s') (hT : w.isData → f.current.isSome → T s s') :
    Meets R T f w s (.ok (w.used, s')) := by
  rw [Meets, hj]
  exact ⟨s', rfl, hR, hT⟩

theorem Meets.of_framingWord {f : Framing} {w : Word} {s s' : σ} (hj : f.judge w = .accepted)
    (hw : w.isData = false) (hR : R (f.next w) s') : Meets R T f w s (.ok (w.used, s')) :=
  Meets.of_accepted hj hR fun hd => by simp [hw] at hd

theorem Meets.of_ok {f : Framing} {w : Word} {s s' : σ} {used : Nat}
    (h : Meets R T f w s (.ok (used, s'))) :
    f.judge w = .accepted ∧ used = w.used ∧ R (f.next w) s' ∧
      (w.isData → f.current.isSome → T s s') := by
  unfold Meets at h
  cases hj : f.judge w with
  | rejected => simp [hj] at h
  | undefined => simp [hj] at h
  | accepted =>
    simp only [hj] at h
    obtain ⟨t, he, hR, hT⟩ := h
    obtain ⟨rfl, rfl⟩ : used = _ ∧ s' = t := by simpa using he
    exact ⟨rfl, rfl, hR, hT⟩

theorem Conforms.of_ok (hc : Conforms classify body R T) {f : Framing} {s s' : σ} {d : UInt32}
    {following : List UInt32} {used : Nat} (hR : R f s)
    (hb : body d following s = .ok (used, s')) :
    f.judge (classify d following) = .accepted ∧ used = (classify d following).used ∧
      R (f.next (classify d following)) s' ∧
      ((classify d following).isData → f.current.isSome → T s s') :=
  Meets.of_ok (hb ▸ hc f s d following hR)

theorem Conforms.advances (hc : Conforms classify body R T) (d : UInt32) (following : List UInt32)
    (s : σ) (used : Nat) (s' : σ) (hs : ∃ f, R f s) (hb : body d following s = .ok (used, s')) :
    used = (classify d following).used ∧ ∃ f, R f s' := by
  obtain ⟨f, hf⟩ := hs
  obtain ⟨-, hused, hR', -⟩ := hc.of_ok hf hb
  exact ⟨hused, f.next (classify d following), hR'⟩

theorem Conforms.run_eq_fold (hc : Conforms classify body R T) {f : Framing} {s : σ}
    (hR : R f s) (dataWords : List UInt32) :
    WordLoop.run body 0 dataWords s =
      WordLoop.fold body (interpretedWords classify dataWords) s :=
  WordLoop.run_eq_fold (I := fun t => ∃ g, R g t) hc.advances 0 dataWords ⟨f, hR⟩

theorem Conforms.interpreted_of_visits (hc : Conforms classify body R T) {s t : σ}
    {dataWords following : List UInt32} {d : UInt32} (hs : ∃ f, R f s)
    (h : WordLoop.Visits body dataWords s d following t) :
    (d, following) ∈ interpretedWords classify dataWords ∧ ∃ f, R f t :=
  h.interpreted (I := fun t => ∃ f, R f t) hc.advances hs

theorem Conforms.exists_visits (hc : Conforms classify body R T) {s s' : σ}
    {dataWords following : List UInt32} {d : UInt32} (hs : ∃ f, R f s)
    (h : WordLoop.run body 0 dataWords s = .ok s')
    (hm : (d, following) ∈ interpretedWords classify dataWords) :
    ∃ t t', WordLoop.Visits body dataWords s d following t ∧
      body d following t = .ok ((classify d following).used, t') := by
  obtain ⟨t, used, t', hvisits, hread, rfl⟩ :=
    WordLoop.exists_visits_of_interpreted (I := fun t => ∃ f, R f t) hc.advances hs h hm
  exact ⟨t, t', hvisits, hread⟩

/-- The outcome of reading a sequence of words is the one that the framing demands. -/
theorem Conforms.fold (hc : Conforms classify body R T) {f : Framing} {s : σ} (hR : R f s)
    (ms : List (UInt32 × List UInt32)) :
    match f.verdict (ms.map fun m => classify m.1 m.2) with
    | .rejected => ∃ message, WordLoop.fold body ms s = .error (.jexception message)
    | .undefined => ∃ fault, WordLoop.fold body ms s = .error fault ∧ fault.isThrown = false
    | .accepted => ∃ s', WordLoop.fold body ms s = .ok s' ∧
        R ((ms.map fun m => classify m.1 m.2).foldl Framing.next f) s' := by
  induction ms generalizing f s with
  | nil => exact ⟨s, rfl, hR⟩
  | cons m ms ih =>
    have hm := hc f s m.1 m.2 hR
    unfold Meets at hm
    simp only [List.map_cons, Framing.verdict]
    cases hj : f.judge (classify m.1 m.2) with
    | rejected =>
      simp only [hj] at hm
      obtain ⟨message, he⟩ := hm
      exact ⟨message, by simp [WordLoop.fold, he]⟩
    | undefined =>
      simp only [hj] at hm
      obtain ⟨fault, he, hf⟩ := hm
      exact ⟨fault, by simp [WordLoop.fold, he], hf⟩
    | accepted =>
      simp only [hj] at hm
      obtain ⟨t, he, hR', -⟩ := hm
      simpa [WordLoop.fold, he] using ih hR'

theorem Conforms.accepted_of_ok (hc : Conforms classify body R T) {f : Framing} {s s' : σ}
    (hR : R f s) {ms : List (UInt32 × List UInt32)} (h : WordLoop.fold body ms s = .ok s') :
    f.verdict (ms.map fun m => classify m.1 m.2) = .accepted ∧
      R ((ms.map fun m => classify m.1 m.2).foldl Framing.next f) s' := by
  have hm := hc.fold hR ms
  cases hv : f.verdict (ms.map fun m => classify m.1 m.2) with
  | rejected =>
    simp only [hv] at hm
    obtain ⟨message, he⟩ := hm
    simp [h] at he
  | undefined =>
    simp only [hv] at hm
    obtain ⟨fault, he, _⟩ := hm
    simp [h] at he
  | accepted =>
    simp only [hv] at hm
    obtain ⟨t, he, hR'⟩ := hm
    obtain rfl : s' = t := by simpa [h] using he
    exact ⟨rfl, hR'⟩

end Conforms

section Steps

variable {σ : Type} {R : Framing → σ → Prop} {T : σ → σ → Prop} {f : Framing} {s : σ}

theorem meets_closeBlock {frame : BlockFrame} (h : frame.blockNevents = f.blockNevents)
    (parser : String) {slot : Option UInt32} {rest : BlockFrame → Except Fault (Nat × σ)}
    (hrest : f.blockNevents = 0 →
      Meets R T f (.blockTrailer slot) s (rest { frame with blockNevents := -1, eventIndex := 0 })) :
    Meets R T f (.blockTrailer slot) s (frame.closeBlock parser >>= rest) := by
  by_cases hz : f.blockNevents = 0
  · rw [BlockFrame.closeBlock_of_zero (h.trans hz)]
    exact hrest hz
  · simp [Meets, Framing.judge, BlockFrame.closeBlock, h, hz]

theorem meets_countEvent {frame : BlockFrame} (h : frame.blockNevents = f.blockNevents)
    (parser : String) {slot : Option UInt32} {rest : BlockFrame → Except Fault (Nat × σ)}
    (hrest : 0 < f.blockNevents → Meets R T f (.eventHeader slot) s
      (rest { frame with blockNevents := f.blockNevents - 1 })) :
    Meets R T f (.eventHeader slot) s (frame.countEvent parser >>= rest) := by
  by_cases hp : 0 < f.blockNevents
  · rw [BlockFrame.countEvent_of_pos (by omega), h]
    exact hrest hp
  · have hle : frame.blockNevents ≤ 0 := by omega
    simp [Meets, Framing.judge, BlockFrame.countEvent, hle, hp]

theorem meets_requireBlock {frame : BlockFrame} (h : frame.blockNevents = f.blockNevents)
    (parser what : String) {w : Word} {rest : Except Fault (Nat × σ)}
    (hw : f.blockNevents < 0 → f.judge w = .rejected)
    (hrest : 0 ≤ f.blockNevents → Meets R T f w s rest) :
    Meets R T f w s (frame.requireBlock parser what >>= fun _ => rest) := by
  by_cases hn : f.blockNevents < 0
  · simp [Meets, hw hn, BlockFrame.requireBlock, h, hn]
  · rw [BlockFrame.requireBlock_of_nonneg (by omega)]
    exact hrest (by omega)

theorem meets_dataWord {frame : BlockFrame} (h : frame.blockNevents = f.blockNevents)
    (parser what : String) {payload : Payload} {rest : Except Fault (Nat × σ)}
    (hrest : 0 ≤ f.blockNevents → Meets R T f (.data payload) s rest) :
    Meets R T f (.data payload) s (frame.requireBlock parser what >>= fun _ => rest) :=
  meets_requireBlock h parser what (fun hn => by simp [Framing.judge, hn]) hrest

theorem meets_comparedSlot {frame : BlockFrame} (h : frame.blockSlot = f.blockSlot)
    (ehSlot : UInt32) {message : String} {rest : Except Fault (Nat × σ)}
    (hrest : ehSlot = f.blockSlot → Meets R T f (.eventHeader (some ehSlot)) s rest) :
    Meets R T f (.eventHeader (some ehSlot)) s
      (if ehSlot ≠ frame.blockSlot then .error (.jexception message) else rest) := by
  by_cases he : ehSlot = f.blockSlot
  · rw [if_neg (by simp [h, he])]
    exact hrest he
  · simp [Meets, Framing.judge, h, he]

end Steps

section Tracks

variable {H : Type} [AddMonoid H]

/-- The block state is the one that the framing determines, where `key` gives the
event number of an event index. -/
structure Tracks (key : UInt64 → UInt64) (f : Framing) (s : BlockState H) : Prop where
  frame : s.toBlockFrame = f.toBlockFrame
  container : ∀ i ∈ f.current, s.eventNumber = key i ∧ s.HasContainer
  noContainer : f.current = none → ¬ s.HasContainer

variable {key : UInt64 → UInt64} {f : Framing} {s : BlockState H}

omit [AddMonoid H] in
theorem Tracks.init : Tracks key {} ({} : BlockState H) where
  frame := rfl
  container := by simp
  noContainer := by simp [EventHitsTable.HasContainer]

omit [AddMonoid H] in
theorem Tracks.openBlock (h : Tracks key f s) (d : UInt32) :
    Tracks key (f.next (.blockHeader (getBitsInRange d 26 22) (getBitsInRange d 7 0).toNat))
      { s with toBlockFrame := s.openBlock d } where
  frame := by simp [Framing.next, BlockFrame.openBlock, h.frame]
  container := h.container
  noContainer := h.noContainer

omit [AddMonoid H] in
theorem Tracks.closeBlock (h : Tracks key f s) (slot : Option UInt32) :
    Tracks key (f.next (.blockTrailer slot))
      { s with blockNevents := -1, eventIndex := 0 } where
  frame := by simp [Framing.next, h.frame]
  container := h.container
  noContainer := h.noContainer

theorem Tracks.selectEvent (h : Tracks key f s) (slot : Option UInt32) :
    Tracks key (f.next (.eventHeader slot))
      (({ s with blockNevents := f.blockNevents - 1 } : BlockState H).selectEvent
        (key f.eventIndex)) where
  frame := by simp [Framing.next, BlockState.selectEvent, h.frame]
  container := by
    intro i hi
    obtain rfl : f.eventIndex = i := by simpa [Framing.next] using hi
    exact ⟨rfl, EventHitsTable.select_hasContainer _ _⟩
  noContainer := by simp [Framing.next]

def BlockState.withHits (hits : H) (s : BlockState H) : BlockState H :=
  { s with toEventHitsTable := s.toEventHitsTable.withHits hits }

theorem Tracks.withHits (h : Tracks key f s) (hcurrent : f.current.isSome) (hits : H) :
    Tracks key f (s.withHits hits) where
  frame := h.frame
  container := fun i hi => ⟨(h.container i hi).1, s.toEventHitsTable.withHits_hasContainer hits⟩
  noContainer := by
    intro hn
    simp [hn] at hcurrent

omit [AddMonoid H] in
theorem Tracks.hasContainer (h : Tracks key f s) (hcurrent : f.current.isSome) :
    s.HasContainer := by
  obtain ⟨i, hi⟩ := Option.isSome_iff_exists.mp hcurrent
  exact (h.container i hi).2

theorem Tracks.addHits (h : Tracks key f s) (hits : H) :
    (f.current.isSome → s.addHits hits = .ok (s.toEventHitsTable.withHits hits)) ∧
      (f.current = none → s.addHits hits = .error .nullEventHits) :=
  ⟨fun hc => EventHitsTable.addHits_of_container (h.hasContainer hc) hits,
    fun hn => EventHitsTable.addHits_of_not_container (h.noContainer hn) hits⟩

end Tracks

end JanaExtensions
