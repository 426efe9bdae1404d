import JanaExtensions.Attribution
import JanaExtensions.BlockStructure
import JanaExtensions.EventNumbering

/-! What the block-structured parsers decode for each event of a block, told by the position
of the event. In a well-formed bank the hits containers are the sums of what is decoded
for the positions. -/

namespace JanaExtensions

open Failing

/-- Every block is complete and every data word belongs to an event. -/
structure WellFormed (ws : List Word) : Prop where
  framed : WellFramed ws
  inEvents : DataInEvents ws

section Positions

theorem lt_of_classify {trailerSlot eventSlot : Bool}
    {payload : Nat → UInt32 → List UInt32 → Option Payload} {d : UInt32} {following : List UInt32}
    {slot : UInt32} {nevents : Nat}
    (h : classify trailerSlot eventSlot payload d following = .blockHeader slot nevents) :
    nevents < 256 := by
  unfold classify at h
  by_cases hd : getBitsInRange d 31 31 = 1
  · simp only [hd, if_true] at h
    generalize (getBitsInRange d 30 27).toNat = dataType at h
    match dataType, h with
    | 0, h =>
      obtain ⟨-, rfl⟩ := Word.blockHeader.inj h
      rw [toNat_getBitsInRange d (by decide) (by decide) (by decide)]
      omega
    | n + 4, h =>
      cases hp : payload (n + 4) d following <;> simp [hp] at h
  · simp [hd] at h

theorem ordinal_le {ws : List Word} (haccepted : Framing.verdict {} ws = .accepted)
    (hcounts : ∀ slot nevents, .blockHeader slot nevents ∈ ws → nevents < 256) :
    ordinal ws ≤ 255 ∧ (framing ws).blockNevents + ordinal ws ≤ 255 := by
  induction ws using List.reverseRecOn with
  | nil => exact ⟨by decide, by decide⟩
  | append_singleton ws w ih =>
    obtain ⟨hordinal, hsum⟩ := ih (Framing.accepted_of_append haccepted) fun slot nevents hw =>
      hcounts slot nevents (by simp [hw])
    have hjudge := Framing.judge_of_accepted haccepted
    rw [framing_append_singleton, ordinal_append_singleton]
    cases w with
    | blockHeader slot nevents =>
      have hcount := hcounts slot nevents (by simp)
      simp only [Framing.next, Word.isBlockHeader, if_true]
      omega
    | blockTrailer slot =>
      have hzero : (framing ws).blockNevents = 0 := by
        by_contra hne
        simp [Framing.judge, hne] at hjudge
      simp only [Framing.next, Word.isBlockHeader, Word.isEventHeader, Bool.false_eq_true, if_false]
      omega
    | eventHeader slot =>
      have hpos : 0 < (framing ws).blockNevents := by
        by_contra hn
        simp [Framing.judge, hn] at hjudge
      simp only [Framing.next, Word.isBlockHeader, Word.isEventHeader, Bool.false_eq_true, if_false,
        if_true]
      omega
    | triggerTime _ | data _ | other => exact ⟨hordinal, hsum⟩

theorem eventIndex_at_header {ws : List Word} {slot : Option UInt32}
    (haccepted : Framing.verdict {} (ws ++ [.eventHeader slot]) = .accepted)
    (hclosed : ∀ pre slot nevents rest, ws = pre ++ .blockHeader slot nevents :: rest →
      isOpen pre = false) : (framing ws).eventIndex = UInt64.ofNat (ordinal ws) := by
  have hindex := framing_eventIndex (Framing.accepted_of_append haccepted) hclosed
  have hjudge := Framing.judge_of_accepted haccepted
  have hopen : isOpen ws = true := by
    by_contra hnot
    simp only [hnot] at hindex
    simp [Framing.judge, hindex.2] at hjudge
  rwa [if_pos hopen] at hindex

theorem current_of_entered {ws : List Word} (haccepted : Framing.verdict {} ws = .accepted)
    (hclosed : ∀ pre slot nevents rest, ws = pre ++ .blockHeader slot nevents :: rest →
      isOpen pre = false) (hentered : (framing ws).entered = true) :
    0 < ordinal ws ∧ (framing ws).current = some (UInt64.ofNat (ordinal ws - 1)) := by
  induction ws using List.reverseRecOn with
  | nil => exact absurd hentered (by decide)
  | append_singleton ws w ih =>
    have hclosed' : ∀ pre slot nevents rest, ws = pre ++ .blockHeader slot nevents :: rest →
        isOpen pre = false := fun pre slot nevents rest he =>
      hclosed pre slot nevents (rest ++ [w]) (by simp [he])
    have hih := ih (Framing.accepted_of_append haccepted) hclosed'
    rw [framing_append_singleton] at hentered ⊢
    rw [ordinal_append_singleton]
    cases w with
    | blockHeader slot nevents => exact absurd hentered (by simp [Framing.next])
    | eventHeader slot =>
      have hindex := eventIndex_at_header haccepted hclosed'
      simp [Framing.next, Word.isBlockHeader, Word.isEventHeader, hindex]
    | blockTrailer _ | triggerTime _ | data _ | other => exact hih hentered

end Positions

section Decodes

variable {σ H : Type} [AddMonoid H] (classify : UInt32 → List UInt32 → Word)
  (body : UInt32 → List UInt32 → σ → Except Fault (Nat × σ)) (blockState : σ → BlockState H)
  (init : σ)

/-- The hits that one word adds, under the position of its event in the block. An event
header adds no hits to its event. -/
def DecodesWord (ms : List (UInt32 × List UInt32)) (m : UInt32 × List UInt32)
    (entries : List (Nat × H)) : Prop :=
  match classify m.1 m.2 with
  | .eventHeader _ => entries = [(ordinal (ms.map fun m => classify m.1 m.2), 0)]
  | .data _ => ∃ s used s' hits, WordLoop.fold body ms init = .ok s ∧
      body m.1 m.2 s = .ok (used, s') ∧
      (blockState s').toEventHitsTable = (blockState s).toEventHitsTable.withHits hits ∧
      entries = [(ordinal (ms.map fun m => classify m.1 m.2) - 1, hits)]
  | _ => entries = []

/-- All hits that are decoded from the words, in their order. -/
inductive Decodes : List (UInt32 × List UInt32) → List (Nat × H) → Prop
  | nil : Decodes [] []
  | concat {ms : List (UInt32 × List UInt32)} {m : UInt32 × List UInt32} {log entries : List (Nat × H)}
      (h : Decodes ms log) (hm : DecodesWord classify body blockState init ms m entries) :
      Decodes (ms ++ [m]) (log ++ entries)

variable {classify body blockState init} {key : UInt64 → UInt64}

theorem withHits_inj [IsLeftCancelAdd H] {t : EventHitsTable H} {hits hits' : H}
    (h : t.withHits hits = t.withHits hits') : hits = hits' := by
  have hfind := congrArg (fun t => t.eventHitsMap.find t.eventNumber) h
  simpa [EventHitsTable.withHits, OrderedMap.find_addAt] using hfind

theorem DecodesWord.unique [IsLeftCancelAdd H] {ms : List (UInt32 × List UInt32)}
    {m : UInt32 × List UInt32} {entries entries' : List (Nat × H)}
    (h : DecodesWord classify body blockState init ms m entries)
    (h' : DecodesWord classify body blockState init ms m entries') : entries = entries' := by
  unfold DecodesWord at h h'
  cases hw : classify m.1 m.2 with
  | data payload =>
    simp only [hw] at h h'
    obtain ⟨s, used, s₁, hits, hs, hbody, hhits, rfl⟩ := h
    obtain ⟨t, used', t₁, hits', ht, hbody', hhits', rfl⟩ := h'
    obtain rfl := Except.ok.inj (hs.symm.trans ht)
    obtain ⟨-, rfl⟩ := Prod.mk.inj (Except.ok.inj (hbody.symm.trans hbody'))
    rw [withHits_inj (hhits.symm.trans hhits')]
  | eventHeader _ | blockHeader _ _ | blockTrailer _ | triggerTime _ | other =>
    simp only [hw] at h h'
    rw [h, h']

theorem Decodes.unique [IsLeftCancelAdd H] {ms : List (UInt32 × List UInt32)}
    {log log' : List (Nat × H)} (h : Decodes classify body blockState init ms log)
    (h' : Decodes classify body blockState init ms log') : log = log' := by
  induction h generalizing log' with
  | nil =>
    generalize hms : ([] : List (UInt32 × List UInt32)) = ms at h'
    cases h' with
    | nil => rfl
    | concat _ _ => exact absurd hms.symm (by simp)
  | @concat ms m log entries h hm ih =>
    generalize hms : ms ++ [m] = ms' at h'
    cases h' with
    | nil => exact absurd hms (by simp)
    | concat h' hm' =>
      obtain ⟨rfl, hlast⟩ := List.append_inj' hms rfl
      obtain rfl := List.singleton_inj.mp hlast
      rw [ih h', hm.unique hm']

/-- One word more of such a bank: the entries that it adds are what it adds to the containers. -/
theorem exists_decodesWord
    (hc : Conforms classify body (TracksIn blockState key) (Appends blockState))
    (hsteps : ∀ d following s used s', body d following s = .ok (used, s') →
      StepsTable key (classify d following) (blockState s) (blockState s'))
    (hcounts : ∀ d following slot nevents, classify d following = .blockHeader slot nevents →
      nevents < 256)
    (hinit : blockState init = {}) {ms : List (UInt32 × List UInt32)} {m : UInt32 × List UInt32}
    {t s : σ} {used : Nat} (ht : WordLoop.fold body ms init = .ok t)
    (hbody : body m.1 m.2 t = .ok (used, s))
    (hall : Framing.verdict {} ((ms.map fun m => classify m.1 m.2) ++ [classify m.1 m.2]) =
      .accepted)
    (hclosed : ∀ pre slot nevents rest,
      (ms.map fun m => classify m.1 m.2) = pre ++ .blockHeader slot nevents :: rest →
        isOpen pre = false)
    (hdata : DataInEvents ((ms.map fun m => classify m.1 m.2) ++ [classify m.1 m.2])) :
    ∃ entries, DecodesWord classify body blockState init ms m entries ∧
      (∀ x ∈ entries, x.1 < 256) ∧
      (blockState s).eventHitsMap = (entries.map fun x => (key (UInt64.ofNat x.1), x.2)).foldl
        (fun m x => m.addAt x.1 x.2) (blockState t).eventHitsMap := by
  have hR : TracksIn blockState key {} init := .init hinit
  obtain ⟨haccepted, hRt⟩ := hc.accepted_of_ok hR ht
  have hbound := (ordinal_le haccepted fun slot nevents hw => by
    obtain ⟨x, -, hx⟩ := List.mem_map.mp hw
    exact hcounts x.1 x.2 slot nevents hx).1
  have hstep := hsteps m.1 m.2 t used s hbody
  unfold StepsTable at hstep
  cases hw : classify m.1 m.2 with
  | eventHeader slot =>
    rw [hw] at hall hstep
    have hindex : (blockState t).eventIndex =
        UInt64.ofNat (ordinal (ms.map fun m => classify m.1 m.2)) := by
      rw [← eventIndex_at_header hall hclosed, hRt.frame]
      rfl
    refine ⟨[(ordinal (ms.map fun m => classify m.1 m.2), 0)], ?_, ?_, ?_⟩
    · rw [DecodesWord, hw]
    · simp only [List.mem_singleton, forall_eq]
      omega
    · rw [hstep, EventHitsTable.select_map, hindex]
      rfl
  | data payload =>
    rw [hw] at hdata
    have hentered := hdata (ms.map fun m => classify m.1 m.2) payload [] rfl
    obtain ⟨-, hcurrent⟩ := current_of_entered haccepted hclosed hentered
    obtain ⟨-, -, -, happends⟩ := hc.of_ok hRt hbody
    obtain ⟨hits, hhits⟩ := happends (by rw [hw]; rfl) (by rw [← framing, hcurrent]; rfl)
    have hnumber := (hRt.container _ hcurrent).1
    refine ⟨[(ordinal (ms.map fun m => classify m.1 m.2) - 1, hits)], ?_, ?_, ?_⟩
    · rw [DecodesWord, hw]
      exact ⟨t, used, s, hits, ht, hbody, by rw [hhits]; rfl, rfl⟩
    · simp only [List.mem_singleton, forall_eq]
      omega
    · rw [hhits, List.map_singleton, List.foldl_cons, List.foldl_nil, ← hnumber]
      rfl
  | blockHeader _ _ | blockTrailer _ | triggerTime _ | other =>
    rw [hw] at hstep
    refine ⟨[], ?_, by simp, ?_⟩
    · rw [DecodesWord, hw]
    · rw [hstep]
      rfl

/-- A bank that is read and well formed up to where it is read: what is decoded accounts for
the hits containers. -/
theorem exists_decodes
    (hc : Conforms classify body (TracksIn blockState key) (Appends blockState))
    (hsteps : ∀ d following s used s', body d following s = .ok (used, s') →
      StepsTable key (classify d following) (blockState s) (blockState s'))
    (hcounts : ∀ d following slot nevents, classify d following = .blockHeader slot nevents →
      nevents < 256)
    (hinit : blockState init = {}) {ms : List (UInt32 × List UInt32)} {s : σ}
    (h : WordLoop.fold body ms init = .ok s)
    (hclosed : ∀ pre slot nevents rest,
      (ms.map fun m => classify m.1 m.2) = pre ++ .blockHeader slot nevents :: rest →
        isOpen pre = false)
    (hdata : DataInEvents (ms.map fun m => classify m.1 m.2)) :
    ∃ log, Decodes classify body blockState init ms log ∧ (∀ x ∈ log, x.1 < 256) ∧
      (blockState s).eventHitsMap =
        (log.map fun x => (key (UInt64.ofNat x.1), x.2)).foldl (fun m x => m.addAt x.1 x.2) ∅ := by
  induction ms using List.reverseRecOn generalizing s with
  | nil =>
    obtain rfl := Except.ok.inj h
    exact ⟨[], .nil, by simp, by simp [hinit]⟩
  | append_singleton ms m ih =>
    have hall := (hc.accepted_of_ok (.init hinit) h).1
    obtain ⟨t, ht, hm⟩ := WordLoop.fold_append_ok.mp h
    obtain ⟨used, hbody⟩ := WordLoop.fold_singleton_ok.mp hm
    rw [List.map_append, List.map_singleton] at hall hclosed hdata
    have hclosed' : ∀ pre slot nevents rest,
        (ms.map fun m => classify m.1 m.2) = pre ++ .blockHeader slot nevents :: rest →
          isOpen pre = false := fun pre slot nevents rest he =>
      hclosed pre slot nevents (rest ++ [classify m.1 m.2]) (by rw [he]; simp)
    have hdata' : DataInEvents (ms.map fun m => classify m.1 m.2) := fun pre payload post he =>
      hdata pre payload (post ++ [classify m.1 m.2]) (by rw [he]; simp)
    obtain ⟨log, hlog, hpositions, hmap⟩ := ih ht hclosed' hdata'
    obtain ⟨entries, hentries, hsmall, hadded⟩ :=
      exists_decodesWord hc hsteps hcounts hinit ht hbody hall hclosed' hdata
    refine ⟨log ++ entries, .concat hlog hentries, ?_, ?_⟩
    · intro x hx
      exact (List.mem_append.mp hx).elim (hpositions x) (hsmall x)
    · rw [List.map_append, List.foldl_append, ← hmap, hadded]

end Decodes

end JanaExtensions
