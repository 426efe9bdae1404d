import JanaExtensions.FramingConformance

/-! Whether the block-structured parsers enforce the framing of a bank. They compare
the number of events at a block trailer only, so that a block without a trailer is
never compared. -/

namespace JanaExtensions

open Failing

/-- Every block header is followed, before the next block header and the end of the
bank, by as many event headers as it declares and then a block trailer. -/
def WellFramed (ws : List Word) : Prop :=
  ∀ pre slot nevents rest, ws = pre ++ .blockHeader slot nevents :: rest →
    ∃ body slot' tail, rest = body ++ .blockTrailer slot' :: tail ∧
      (∀ w ∈ body, w.isBlockHeader = false ∧ w.isBlockTrailer = false) ∧
      body.countP Word.isEventHeader = nevents

/-- Every block header is followed by a block trailer, before the next block header
and the end of the bank. -/
def Closed (ws : List Word) : Prop :=
  ∀ pre slot nevents rest, ws = pre ++ .blockHeader slot nevents :: rest →
    ∃ body slot' tail, rest = body ++ .blockTrailer slot' :: tail ∧
      ∀ w ∈ body, w.isBlockHeader = false

/-- The number of event headers after the last block header. -/
def ordinal (ws : List Word) : Nat :=
  ws.foldl (fun k w => if w.isBlockHeader then 0 else if w.isEventHeader then k + 1 else k) 0

def isOpen (ws : List Word) : Bool :=
  ws.foldl (fun o w => if w.isBlockHeader then true else if w.isBlockTrailer then false else o) false

theorem ordinal_append_singleton (ws : List Word) (w : Word) :
    ordinal (ws ++ [w]) =
      if w.isBlockHeader then 0 else if w.isEventHeader then ordinal ws + 1 else ordinal ws := by
  simp [ordinal]

theorem isOpen_append_singleton (ws : List Word) (w : Word) :
    isOpen (ws ++ [w]) =
      if w.isBlockHeader then true else if w.isBlockTrailer then false else isOpen ws := by
  simp [isOpen]

theorem WellFramed.closed {ws : List Word} (h : WellFramed ws) : Closed ws := by
  intro pre slot nevents rest he
  obtain ⟨body, slot', tail, hrest, hbody, -⟩ := h pre slot nevents rest he
  exact ⟨body, slot', tail, hrest, fun w hw => (hbody w hw).1⟩

theorem exists_open {ws : List Word} (h : isOpen ws = true) :
    ∃ pre slot nevents rest, ws = pre ++ .blockHeader slot nevents :: rest ∧
      ∀ w ∈ rest, w.isBlockTrailer = false := by
  induction ws using List.reverseRecOn with
  | nil => simp [isOpen] at h
  | append_singleton ws w ih =>
    rw [isOpen_append_singleton] at h
    by_cases hheader : w.isBlockHeader = true
    · match w, hheader with
      | .blockHeader slot nevents, _ => exact ⟨ws, slot, nevents, [], rfl, by simp⟩
    by_cases htrailer : w.isBlockTrailer = true
    · simp [hheader, htrailer] at h
    obtain ⟨pre, slot, nevents, rest, rfl, hrest⟩ := ih (by simpa [hheader, htrailer] using h)
    refine ⟨pre, slot, nevents, rest ++ [w], by simp, ?_⟩
    exact forall_mem_concat.mpr ⟨hrest, by simpa using htrailer⟩

theorem Closed.isOpen_eq_false {pre rest : List Word} {slot : UInt32} {nevents : Nat}
    (h : Closed (pre ++ .blockHeader slot nevents :: rest)) : isOpen pre = false := by
  by_contra hopen
  obtain ⟨pre', slot', nevents', between, rfl, hbetween⟩ := exists_open (by simpa using hopen)
  obtain ⟨body, slot'', tail, he, hbody⟩ := h pre' slot' nevents'
    (between ++ .blockHeader slot nevents :: rest) (by simp)
  rcases List.append_eq_append_iff.mp he with ⟨mid, hmid, hrest⟩ | ⟨mid, hmid, hrest⟩
  · cases mid with
    | nil => simp at hrest
    | cons w mid =>
      obtain ⟨rfl, -⟩ := List.cons_eq_cons.mp hrest
      have := hbody (.blockHeader slot nevents) (by simp [hmid])
      simp [Word.isBlockHeader] at this
  · cases mid with
    | nil => simp at hrest
    | cons w mid =>
      obtain ⟨rfl, -⟩ := List.cons_eq_cons.mp hrest
      have := hbetween (.blockTrailer slot'') (by simp [hmid])
      simp [Word.isBlockTrailer] at this

/-- In an accepted bank with closed blocks, outside of blocks the event index is zero,
and within a block it counts the event headers of the block. -/
theorem framing_eventIndex {ws : List Word} (haccepted : Framing.verdict {} ws = .accepted)
    (hclosed : ∀ pre slot nevents rest, ws = pre ++ .blockHeader slot nevents :: rest →
      isOpen pre = false) :
    if isOpen ws then (framing ws).eventIndex = UInt64.ofNat (ordinal ws)
    else (framing ws).eventIndex = 0 ∧ (framing ws).blockNevents = -1 := by
  induction ws using List.reverseRecOn with
  | nil => exact ⟨rfl, rfl⟩
  | append_singleton ws w ih =>
    have hih := ih (Framing.accepted_of_append haccepted) fun pre slot nevents rest he =>
      hclosed pre slot nevents (rest ++ [w]) (by simp [he])
    have hjudge := Framing.judge_of_accepted haccepted
    rw [framing_append_singleton]
    cases w with
    | blockHeader slot nevents =>
      have hnot := hclosed ws slot nevents [] rfl
      simp only [hnot] at hih
      simpa [isOpen_append_singleton, ordinal_append_singleton, Framing.next,
        Word.isBlockHeader] using hih.1
    | blockTrailer slot =>
      simp [isOpen_append_singleton, Framing.next, Word.isBlockHeader, Word.isBlockTrailer]
    | eventHeader slot =>
      have hpos : 0 < (framing ws).blockNevents := by
        by_contra hn
        simp [Framing.judge, hn] at hjudge
      have hopen : isOpen ws = true := by
        by_contra hnot
        simp only [hnot] at hih
        have := hih.2
        omega
      simp only [hopen, if_true] at hih
      simp [isOpen_append_singleton, ordinal_append_singleton, Framing.next, Word.isBlockHeader,
        Word.isBlockTrailer, Word.isEventHeader, hopen, hih, UInt64.ofNat_add]
    | triggerTime _ | data _ | other =>
      simpa [isOpen_append_singleton, ordinal_append_singleton, Framing.next, Word.isBlockHeader,
        Word.isBlockTrailer, Word.isEventHeader] using hih

theorem exists_first_trailer (body tail : List Word) (slot : Option UInt32) :
    ∃ body' slot' tail', body ++ .blockTrailer slot :: tail = body' ++ .blockTrailer slot' :: tail' ∧
      (∀ w ∈ body', w ∈ body) ∧ ∀ w ∈ body', w.isBlockTrailer = false := by
  have hsome : ∃ w ∈ body ++ .blockTrailer slot :: tail, w.isBlockTrailer = true :=
    ⟨.blockTrailer slot, by simp, rfl⟩
  obtain ⟨body', w, tail', hsplit, htrailer, hbody'⟩ := WordLoop.exists_first hsome
  match w, htrailer with
  | .blockTrailer slot', _ =>
    refine ⟨body', slot', tail', hsplit, fun w hw => ?_, hbody'⟩
    rcases List.append_eq_append_iff.mp hsplit with ⟨mid, hmid, hrest⟩ | ⟨mid, hmid, -⟩
    · cases mid with
      | nil => simpa [hmid] using hw
      | cons x mid =>
        -- the trailer that ends the block cannot stand before the first one
        obtain ⟨rfl, -⟩ := List.cons_eq_cons.mp hrest
        have hfirst := hbody' (.blockTrailer slot) (by simp [hmid])
        simp [Word.isBlockTrailer] at hfirst
    · simp [hmid, hw]

theorem foldl_next_blockNevents {body : List Word} (f : Framing)
    (hbody : ∀ w ∈ body, w.isBlockHeader = false ∧ w.isBlockTrailer = false) :
    (body.foldl Framing.next f).blockNevents =
      f.blockNevents - body.countP Word.isEventHeader := by
  induction body generalizing f with
  | nil => simp
  | cons w body ih =>
    rw [List.foldl_cons, ih (f.next w) fun x hx => hbody x (by simp [hx])]
    obtain ⟨hheader, htrailer⟩ := hbody w (by simp)
    cases w with
    | blockHeader _ _ => simp [Word.isBlockHeader] at hheader
    | blockTrailer _ => simp [Word.isBlockTrailer] at htrailer
    | eventHeader _ =>
      rw [List.countP_cons_of_pos rfl]
      simp only [Framing.next]
      omega
    | triggerTime _ | data _ | other => simp [Framing.next, Word.isEventHeader]

theorem Closed.wellFramed {ws : List Word} (h : Closed ws)
    (haccepted : Framing.verdict {} ws = .accepted) : WellFramed ws := by
  intro pre slot nevents rest he
  obtain ⟨body, slot', tail, rfl, hheader⟩ := h pre slot nevents rest he
  obtain ⟨body', slot'', tail', hrest, hmem, htrailer⟩ := exists_first_trailer body tail slot'
  have hbody : ∀ w ∈ body', w.isBlockHeader = false ∧ w.isBlockTrailer = false :=
    fun w hw => ⟨hheader w (hmem w hw), htrailer w hw⟩
  refine ⟨body', slot'', tail', hrest, hbody, ?_⟩
  have hsplit : ws = (pre ++ .blockHeader slot nevents :: body') ++ .blockTrailer slot'' :: tail' := by
    rw [he, hrest, List.append_assoc, List.cons_append]
  rw [hsplit] at haccepted
  have hjudge := Framing.judge_of_accepted haccepted
  have hzero : (framing (pre ++ .blockHeader slot nevents :: body')).blockNevents = 0 := by
    by_contra hne
    simp [Framing.judge, hne] at hjudge
  have hcount := foldl_next_blockNevents ((framing pre).next (.blockHeader slot nevents)) hbody
  rw [framing, List.foldl_append, List.foldl_cons, ← framing, hcount] at hzero
  simp only [Framing.next] at hzero
  omega

section Parsers

variable {σ : Type}

/-- Every event header is numbered by its position after the last block header. -/
def NumbersEvents (classify : UInt32 → List UInt32 → Word)
    (body : UInt32 → List UInt32 → σ → Except Fault (Nat × σ)) (init : σ)
    (eventNumber : σ → UInt64) (first : UInt64) (dataWords : List UInt32) : Prop :=
  ∀ pre m post, interpretedWords classify dataWords = pre ++ m :: post →
    (classify m.1 m.2).isEventHeader → ∃ s, WordLoop.fold body (pre ++ [m]) init = .ok s ∧
      toCInt (eventNumber s) =
        toCInt (eventKey first (ordinal (pre.map fun m => classify m.1 m.2)))

variable {classify : UInt32 → List UInt32 → Word}
  {body : UInt32 → List UInt32 → σ → Except Fault (Nat × σ)} {R : Framing → σ → Prop}
  {T : σ → σ → Prop} {init : σ} {eventNumber : σ → UInt64} {first : UInt64}

theorem numbersEvents_of_closed (hc : Conforms classify body R T) (hR : R {} init)
    (hnumber : ∀ f s i, R f s → f.current = some i →
      toCInt (eventNumber s) = toCInt (first + i)) {dataWords : List UInt32}
    (haccepted : Framing.verdict {} (classified classify dataWords) = .accepted)
    (hclosed : Closed (classified classify dataWords)) :
    NumbersEvents classify body init eventNumber first dataWords := by
  intro pre m post he hm
  have hsplit : classified classify dataWords =
      pre.map (fun m => classify m.1 m.2) ++ classify m.1 m.2 ::
        post.map (fun m => classify m.1 m.2) := by
    rw [classified, he, List.map_append, List.map_cons]
  rw [hsplit] at haccepted hclosed
  generalize hpre : pre.map (fun m => classify m.1 m.2) = words at *
  have hwords := Framing.accepted_of_append haccepted
  have hjudge := Framing.judge_of_accepted haccepted
  obtain ⟨slot, hword⟩ := Word.exists_of_isEventHeader hm
  have hall : Framing.verdict {} ((pre ++ [m]).map fun m => classify m.1 m.2) = .accepted := by
    rw [List.map_append, hpre, Framing.verdict_append hwords, List.map_singleton,
      Framing.verdict, ← framing, hjudge, Framing.verdict]
  have hrun := hc.fold hR (pre ++ [m])
  rw [hall] at hrun
  obtain ⟨s, hs, hRs⟩ := hrun
  refine ⟨s, hs, ?_⟩
  have hindex := framing_eventIndex hwords fun pre' slot' nevents rest he' => by
    rw [he', List.append_assoc, List.cons_append] at hclosed
    exact hclosed.isOpen_eq_false
  have hopen : isOpen words = true := by
    by_contra hnot
    simp only [hnot] at hindex
    simp [Framing.judge, hword, hindex.2] at hjudge
  rw [if_pos hopen] at hindex
  have hframing : ((pre ++ [m]).map fun m => classify m.1 m.2).foldl Framing.next {} =
      (framing words).next (.eventHeader slot) := by
    rw [List.map_append, hpre, List.map_singleton, hword, ← framing, framing_append_singleton]
  rw [hframing] at hRs
  rw [hnumber _ s _ hRs rfl, hindex, eventKey]

/-- On an accepted bank the framing is enforced exactly if every block is closed. -/
theorem framing_enforced (hc : Conforms classify body R T) (hR : R {} init)
    (hnumber : ∀ f s i, R f s → f.current = some i →
      toCInt (eventNumber s) = toCInt (first + i)) {dataWords : List UInt32} {s : σ}
    (hok : WordLoop.run body 0 dataWords init = .ok s) :
    (WellFramed (classified classify dataWords) ∧
      NumbersEvents classify body init eventNumber first dataWords) ↔
      Closed (classified classify dataWords) := by
  rw [hc.run_eq_fold hR] at hok
  have haccepted := (hc.accepted_of_ok hR hok).1
  constructor
  · intro hh
    obtain ⟨hframed, -⟩ := hh
    exact hframed.closed
  · intro hclosed
    exact ⟨hclosed.wellFramed haccepted, numbersEvents_of_closed hc hR hnumber haccepted hclosed⟩

end Parsers

theorem framing_enforced_iff (rocid : UInt32) (triggerData : TriggerData)
    (dataWords : List UInt32) :
    (∀ events, FADC.parse rocid triggerData dataWords = .ok events →
      ((WellFramed (classified FADC.readAs dataWords) ∧
        NumbersEvents FADC.readAs (FADC.parseWord rocid triggerData) {}
          (fun s => s.eventNumber) triggerData.firstEventNumber dataWords) ↔
        Closed (classified FADC.readAs dataWords))) ∧
    (∀ events, VFTDC.parse rocid triggerData dataWords = .ok events →
      ((WellFramed (classified VFTDC.readAs dataWords) ∧
        NumbersEvents VFTDC.readAs (VFTDC.parseWord rocid triggerData) {}
          (fun s => s.eventNumber) triggerData.firstEventNumber dataWords) ↔
        Closed (classified VFTDC.readAs dataWords))) ∧
    (∀ events, MPD.parse rocid triggerData dataWords = .ok events →
      ((WellFramed (classified MPD.readAs dataWords) ∧
        NumbersEvents MPD.readAs (MPD.parseWord rocid triggerData) {}
          (fun s => s.eventNumber) triggerData.firstEventNumber dataWords) ↔
        Closed (classified MPD.readAs dataWords))) := by
  refine ⟨fun events h => ?_, fun events h => ?_, fun events h => ?_⟩
  · obtain ⟨s, hs, -⟩ := bind_eq_ok.mp h
    refine framing_enforced (FADC.conforms rocid triggerData) Tracks.init ?_ hs
    intro f s i hR hi
    rw [(hR.container i hi).1]
  · obtain ⟨s, hs, -⟩ := bind_eq_ok.mp h
    refine framing_enforced (VFTDC.conforms rocid triggerData) Tracks.init ?_ hs
    intro f s i hR hi
    rw [(hR.container i hi).1]
  · obtain ⟨s, hs, -⟩ := bind_eq_ok.mp h
    refine framing_enforced (MPD.conforms rocid triggerData) Tracks.init ?_ hs
    intro f s i hR hi
    rw [(hR.container i hi).1, toCInt_toUInt32]

/-- A block of two events that ends after its first, and a block of one event. -/
theorem unfinished_block_accepted :
    ∃ events, FADC.parse 0 ⟨100, 101⟩
        [0x80400002, 0x90400000, 0x80400001, 0x90400000, 0x88400000] = .ok events ∧
      ¬ WellFramed (classified FADC.readAs
        [0x80400002, 0x90400000, 0x80400001, 0x90400000, 0x88400000]) ∧
      ¬ NumbersEvents FADC.readAs (FADC.parseWord 0 ⟨100, 101⟩) {} (fun s => s.eventNumber) 100
        [0x80400002, 0x90400000, 0x80400001, 0x90400000, 0x88400000] := by
  refine ⟨[⟨100, [{}]⟩, ⟨101, [{}]⟩], by decide +kernel, fun h => ?_, fun h => ?_⟩
  · have hsplit : classified FADC.readAs [0x80400002, 0x90400000, 0x80400001, 0x90400000, 0x88400000] =
        [.blockHeader 1 2, .eventHeader (some 1)] ++
          .blockHeader 1 1 :: [.eventHeader (some 1), .blockTrailer none] := by decide
    have hclosed := h.closed
    rw [hsplit] at hclosed
    exact absurd hclosed.isOpen_eq_false (by decide)
  · obtain ⟨s, hs, hnumber⟩ := h
      [(0x80400002, [0x90400000, 0x80400001, 0x90400000, 0x88400000]),
        (0x90400000, [0x80400001, 0x90400000, 0x88400000]),
        (0x80400001, [0x90400000, 0x88400000])]
      (0x90400000, [0x88400000]) [(0x88400000, [])] (by decide) (by decide)
    have hevent := congrArg (Except.map fun s : FADC.State => s.eventNumber) hs
    have hvalue : s.eventNumber = 101 := (Except.ok.inj hevent).symm
    simp only [hvalue] at hnumber
    exact absurd hnumber (by decide)

end JanaExtensions
