import JanaExtensions.CAEN1190
import JanaExtensions.WordSteps

/-! Whether the decoded hits are stored under the event header that they follow. The
block-structured parsers ask of a data word only that some block is open, and look
up the container by an event number that may be left over. -/

namespace JanaExtensions

open Failing

/-- The parser throws, or returns and each data word changes only the container of the
last event header before it, which comes after the last block header. `read` is the
outcome of reading the words given to it, and `publish` makes the events of the last state.
`Stores` is about the states after the event header, before and after the word, and at the end. -/
def Attributes {α ρ σ : Type} (result : Except Fault ρ) (words : List α)
    (read : List α → Except Fault σ) (publish : σ → ρ)
    (isData isEventHeader isBlockHeader : α → Bool) (Stores : α → σ → σ → σ → σ → Prop) : Prop :=
  (∃ message, result = .error (.jexception message)) ∨
    ∃ last, read words = .ok last ∧ result = .ok (publish last) ∧
      ∀ pre m post, words = pre ++ m :: post → isData m = true →
        ∃ before header between s₀ s s', pre = before ++ header :: between ∧
          isEventHeader header = true ∧
          (∀ w ∈ between, isEventHeader w = false ∧ isBlockHeader w = false) ∧
          read (before ++ [header]) = .ok s₀ ∧ read pre = .ok s ∧ read (pre ++ [m]) = .ok s' ∧
          Stores m s₀ s s' last

/-- Every data word stands after an event header that is not before the last block header. -/
def DataInEvents (ws : List Word) : Prop :=
  ∀ pre payload post, ws = pre ++ .data payload :: post → (framing pre).entered = true

section Framing

theorem entered_of_other {f : Framing} {ws : List Word}
    (h : ∀ w ∈ ws, w.isEventHeader = false ∧ w.isBlockHeader = false) :
    (ws.foldl Framing.next f).entered = f.entered := by
  induction ws generalizing f with
  | nil => rfl
  | cons w ws ih =>
    rw [List.foldl_cons, ih fun x hx => h x (by simp [hx])]
    obtain ⟨hevent, hblock⟩ := h w (by simp)
    cases w with
    | blockHeader slot nevents => simp [Word.isBlockHeader] at hblock
    | eventHeader slot => simp [Word.isEventHeader] at hevent
    | blockTrailer _ | triggerTime _ | data _ | other => rfl

theorem exists_last_header {α : Type} {g : α → Word} {pre : List α}
    (h : (framing (pre.map g)).entered = true) :
    ∃ before header between, pre = before ++ header :: between ∧
      (g header).isEventHeader = true ∧
      ∀ w ∈ between, (g w).isEventHeader = false ∧ (g w).isBlockHeader = false := by
  have hsome : ∃ m ∈ pre, ((g m).isEventHeader || (g m).isBlockHeader) = true := by
    by_contra hnone
    have hother : ∀ w ∈ pre.map g, w.isEventHeader = false ∧ w.isBlockHeader = false := by
      intro w hw
      obtain ⟨m, hm, rfl⟩ := List.mem_map.mp hw
      have hmem : ¬ ((g m).isEventHeader || (g m).isBlockHeader) = true := fun hp =>
        hnone ⟨m, hm, hp⟩
      simpa using hmem
    rw [framing, entered_of_other hother] at h
    simp at h
  obtain ⟨before, header, between, rfl, hheader, hbetween⟩ := WordLoop.exists_last hsome
  have hrest : ∀ w ∈ between, (g w).isEventHeader = false ∧ (g w).isBlockHeader = false := by
    intro w hw
    simpa using hbetween w hw
  refine ⟨before, header, between, rfl, ?_, hrest⟩
  have hother : ∀ w ∈ between.map g, w.isEventHeader = false ∧ w.isBlockHeader = false :=
    List.forall_mem_map.mpr hrest
  rw [List.map_append, List.map_cons, framing, List.foldl_append, List.foldl_cons,
    entered_of_other hother] at h
  cases hw : g header with
  | blockHeader slot nevents => simp [hw, Framing.next] at h
  | eventHeader slot => rfl
  | blockTrailer _ | triggerTime _ | data _ | other =>
    simp [hw, Word.isEventHeader, Word.isBlockHeader] at hheader

theorem current_of_between (f : Framing) {ws : List Word}
    (h : ∀ w ∈ ws, w.isEventHeader = false) :
    (ws.foldl Framing.next f).current = f.current := by
  induction ws generalizing f with
  | nil => rfl
  | cons w ws ih =>
    rw [List.foldl_cons, ih (f.next w) fun x hx => h x (by simp [hx])]
    have hw := h w (by simp)
    cases w with
    | eventHeader slot => simp [Word.isEventHeader] at hw
    | blockHeader _ _ | blockTrailer _ | triggerTime _ | data _ | other => rfl

end Framing

section BlockParsers

variable {σ ρ : Type} {classify : UInt32 → List UInt32 → Word}
  {body : UInt32 → List UInt32 → σ → Except Fault (Nat × σ)} {R : Framing → σ → Prop}
  {T : σ → σ → Prop} {init : σ}

/-- `Attributes` for a parser that reads block by block. -/
def BlockAttributes (classify : UInt32 → List UInt32 → Word)
    (body : UInt32 → List UInt32 → σ → Except Fault (Nat × σ)) (init : σ) (publish : σ → ρ)
    (Stores : UInt32 × List UInt32 → σ → σ → σ → σ → Prop) (result : Except Fault ρ)
    (dataWords : List UInt32) : Prop :=
  Attributes result (interpretedWords classify dataWords)
    (fun ms => WordLoop.fold body ms init) publish (fun m => (classify m.1 m.2).isData)
    (fun m => (classify m.1 m.2).isEventHeader) (fun m => (classify m.1 m.2).isBlockHeader) Stores

/-- Reading the words of an event, from the state before its header, and the rest of the bank. -/
def StoresInEvent (classify : UInt32 → List UInt32 → Word)
    (body : UInt32 → List UInt32 → σ → Except Fault (Nat × σ)) (R : Framing → σ → Prop)
    (Stores : UInt32 × List UInt32 → σ → σ → σ → σ → Prop) : Prop :=
  ∀ f t (header : UInt32 × List UInt32) s₀ between s (m : UInt32 × List UInt32) s' used used' rest
      last, R f t →
    (classify header.1 header.2).isEventHeader = true →
    body header.1 header.2 t = .ok (used, s₀) →
    (∀ w ∈ between, (classify w.1 w.2).isEventHeader = false ∧ w.2 ≠ []) →
    WordLoop.fold body between s₀ = .ok s → (classify m.1 m.2).isData = true →
    body m.1 m.2 s = .ok (used', s') → WordLoop.fold body rest s' = .ok last →
    Stores m s₀ s s' last

theorem dataInEvents_of_headed {words : List (UInt32 × List UInt32)}
    (h : ∀ pre m post, words = pre ++ m :: post → (classify m.1 m.2).isData = true →
      ∃ before header between, pre = before ++ header :: between ∧
        (classify header.1 header.2).isEventHeader = true ∧
        ∀ w ∈ between, (classify w.1 w.2).isEventHeader = false ∧
          (classify w.1 w.2).isBlockHeader = false) :
    DataInEvents (words.map fun m => classify m.1 m.2) := by
  intro pre payload post hsplit
  obtain ⟨ms, ms', hms, rfl, hrest⟩ := List.map_eq_append_iff.mp hsplit
  obtain ⟨m, ms', rfl, hm, rfl⟩ := List.map_eq_cons_iff.mp hrest
  have hdata : (classify m.1 m.2).isData = true := by rw [hm]; rfl
  obtain ⟨before, header, between, rfl, hheader, hbetween⟩ := h ms m ms' hms hdata
  obtain ⟨slot, hw⟩ := Word.exists_of_isEventHeader hheader
  have hother : ∀ w ∈ between.map fun m => classify m.1 m.2,
      w.isEventHeader = false ∧ w.isBlockHeader = false := List.forall_mem_map.mpr hbetween
  rw [framing, List.map_append, List.map_cons, List.foldl_append, List.foldl_cons,
    entered_of_other hother, hw]
  rfl

theorem stores_of_entered (hc : Conforms classify body R T) (hR : R {} init)
    {Stores : UInt32 × List UInt32 → σ → σ → σ → σ → Prop}
    (hstores : StoresInEvent classify body R Stores)
    {pre post : List (UInt32 × List UInt32)} {m : UInt32 × List UInt32} {s : σ}
    (hs : WordLoop.fold body (pre ++ m :: post) init = .ok s)
    (hfollowing : ∀ w ∈ pre, w.2 ≠ []) (hm : (classify m.1 m.2).isData = true)
    (hentered : (framing (pre.map fun m => classify m.1 m.2)).entered = true) :
    ∃ before header between s₀ s₁ s', pre = before ++ header :: between ∧
      (classify header.1 header.2).isEventHeader = true ∧
      (∀ w ∈ between, (classify w.1 w.2).isEventHeader = false ∧
        (classify w.1 w.2).isBlockHeader = false) ∧
      WordLoop.fold body (before ++ [header]) init = .ok s₀ ∧
      WordLoop.fold body pre init = .ok s₁ ∧ WordLoop.fold body (pre ++ [m]) init = .ok s' ∧
      Stores m s₀ s₁ s' s := by
  obtain ⟨before, header, between, rfl, hheader, hbetween⟩ := exists_last_header hentered
  obtain ⟨s₁, hpre, hs⟩ := WordLoop.fold_append_ok.mp hs
  obtain ⟨used', s', hbody', hrest⟩ := WordLoop.fold_cons_ok.mp hs
  obtain ⟨t, ht, hevent⟩ := WordLoop.fold_append_ok.mp hpre
  obtain ⟨used, s₀, hbody, hfold⟩ := WordLoop.fold_cons_ok.mp hevent
  have hother : ∀ w ∈ between, (classify w.1 w.2).isEventHeader = false ∧ w.2 ≠ [] := by
    intro w hw
    exact ⟨(hbetween w hw).1, hfollowing w (by simp [hw])⟩
  have hRt := (hc.accepted_of_ok hR ht).2
  have hheaded : WordLoop.fold body (before ++ [header]) init = .ok s₀ :=
    WordLoop.fold_append_ok.mpr ⟨t, ht, WordLoop.fold_singleton_ok.mpr ⟨used, hbody⟩⟩
  have hread : WordLoop.fold body (before ++ header :: between ++ [m]) init = .ok s' :=
    WordLoop.fold_append_ok.mpr ⟨s₁, hpre, WordLoop.fold_singleton_ok.mpr ⟨used', hbody'⟩⟩
  exact ⟨before, header, between, s₀, s₁, s', rfl, hheader, hbetween, hheaded, hpre, hread,
    hstores _ t header s₀ between s₁ m s' used used' post s hRt hheader hbody hother hfold hm hbody'
      hrest⟩

theorem blockAttributes_iff (hc : Conforms classify body R T) (hR : R {} init)
    {Stores : UInt32 × List UInt32 → σ → σ → σ → σ → Prop}
    (hstores : StoresInEvent classify body R Stores) {dataWords : List UInt32} {publish : σ → ρ}
    {result : Except Fault ρ}
    (hresult : result = (WordLoop.run body 0 dataWords init >>= fun s => .ok (publish s))) :
    BlockAttributes classify body init publish Stores result dataWords ↔
      Framing.verdict {} (classified classify dataWords) = .rejected ∨
      Framing.verdict {} (classified classify dataWords) = .accepted ∧
        DataInEvents (classified classify dataWords) := by
  have hfold := hc.fold hR (interpretedWords classify dataWords)
  rw [← classified] at hfold
  rw [hc.run_eq_fold hR] at hresult
  cases hv : Framing.verdict {} (classified classify dataWords) with
  | rejected =>
    simp only [hv] at hfold
    obtain ⟨message, hm⟩ := hfold
    simp only [true_or, iff_true]
    exact .inl ⟨message, by rw [hresult, hm, bind_error]⟩
  | undefined =>
    simp only [hv] at hfold
    obtain ⟨fault, hf, hthrown⟩ := hfold
    simp only [reduceCtorEq, false_and, or_self, iff_false]
    intro hh
    rcases hh with ⟨message, he⟩ | ⟨last, -, he, -⟩
    · rw [hresult, hf, bind_error] at he
      rw [Except.error.inj he] at hthrown
      simp [Fault.isThrown] at hthrown
    · rw [hresult, hf, bind_error] at he
      simp at he
  | accepted =>
    simp only [hv] at hfold
    obtain ⟨s, hs, -⟩ := hfold
    have hok : result = .ok (publish s) := by rw [hresult, hs, bind_ok]
    simp only [reduceCtorEq, true_and, false_or]
    constructor
    · intro hh
      rcases hh with ⟨message, he⟩ | ⟨last, -, -, hdata⟩
      · rw [hok] at he
        simp at he
      · apply dataInEvents_of_headed
        intro pre m post hsplit hm
        obtain ⟨before, header, between, -, -, -, he, hheader, hbetween, -⟩ :=
          hdata pre m post hsplit hm
        exact ⟨before, header, between, he, hheader, hbetween⟩
    · intro hdata
      refine .inr ⟨s, hs, hok, fun pre m post hsplit hm => ?_⟩
      have hentered : (framing (pre.map fun m => classify m.1 m.2)).entered = true := by
        obtain ⟨payload, hw⟩ := Word.exists_of_isData hm
        exact hdata _ payload (post.map fun m => classify m.1 m.2)
          (by simp [classified, hsplit, hw])
      have hfollowing : ∀ w ∈ pre, w.2 ≠ [] := by
        intro w hw
        obtain ⟨left, right, rfl⟩ := List.append_of_mem hw
        have hrest : interpretedWords classify dataWords = left ++ w :: (right ++ m :: post) := by
          simp [hsplit]
        exact WordLoop.following_ne_nil hrest (by simp)
      rw [hsplit] at hs
      exact stores_of_entered hc hR hstores hs hfollowing hm hentered

theorem Conforms.of_event (hc : Conforms classify body R T) {f : Framing} {t s₀ s s' : σ}
    {header m : UInt32 × List UInt32} {between : List (UInt32 × List UInt32)} {used used' : Nat}
    (hR : R f t) (hheader : (classify header.1 header.2).isEventHeader = true)
    (hbody : body header.1 header.2 t = .ok (used, s₀))
    (hbetween : ∀ w ∈ between, (classify w.1 w.2).isEventHeader = false)
    (hfold : WordLoop.fold body between s₀ = .ok s) (hm : (classify m.1 m.2).isData = true)
    (hbody' : body m.1 m.2 s = .ok (used', s')) :
    ∃ f₀ f₁, R f₀ s₀ ∧ R f₁ s ∧ f₀.current = some f.eventIndex ∧
      f₁.current = some f.eventIndex ∧ T s s' := by
  obtain ⟨slot, hslot⟩ := Word.exists_of_isEventHeader hheader
  obtain ⟨-, -, hR₀, -⟩ := hc.of_ok hR hbody
  rw [hslot] at hR₀
  obtain ⟨-, hRs⟩ := hc.accepted_of_ok hR₀ hfold
  have hcurrent := current_of_between (f.next (.eventHeader slot))
    (List.forall_mem_map.mpr hbetween)
  obtain ⟨-, -, -, hT⟩ := hc.of_ok hRs hbody'
  exact ⟨_, _, hR₀, hRs, rfl, hcurrent, hT hm (by rw [hcurrent]; rfl)⟩

end BlockParsers

section MapParsers

variable {σ H : Type} [AddMonoid H] {classify : UInt32 → List UInt32 → Word}
  {body : UInt32 → List UInt32 → σ → Except Fault (Nat × σ)} {blockState : σ → BlockState H}
  {key : UInt64 → UInt64} {decoded : UInt32 × List UInt32 → σ → H}

/-- The hits of the word are appended to the container of the event header, which is there, and
they are among those of its number at the end. -/
def StoresIn (blockState : σ → BlockState H) (decoded : UInt32 × List UInt32 → σ → H)
    (m : UInt32 × List UInt32) (s₀ s s' last : σ) : Prop :=
  (blockState s₀).HasContainer ∧
    (blockState s').eventHitsMap =
      (blockState s).eventHitsMap.addAt (blockState s₀).eventNumber (decoded m s) ∧
    ∃ before after, (blockState last).eventHitsMap.find (blockState s₀).eventNumber =
      some (before + decoded m s + after)

/-- What the parser appends for a data word is what the word decodes to. -/
def AppendsDecoded (classify : UInt32 → List UInt32 → Word)
    (body : UInt32 → List UInt32 → σ → Except Fault (Nat × σ)) (blockState : σ → BlockState H)
    (decoded : UInt32 × List UInt32 → σ → H) : Prop :=
  ∀ (m : UInt32 × List UInt32) s used s', (classify m.1 m.2).isData = true →
    (blockState s).HasContainer → body m.1 m.2 s = .ok (used, s') →
    (blockState s').toEventHitsTable = (blockState s).toEventHitsTable.withHits (decoded m s)

theorem StepsTable.grows {w : Word} {s s' : BlockState H} (h : StepsTable key w s s') :
    OrderedMap.Grows s.eventHitsMap s'.eventHitsMap := by
  have hsame (heq : s'.toEventHitsTable = s.toEventHitsTable) :
      OrderedMap.Grows s.eventHitsMap s'.eventHitsMap := by
    rw [heq]
    exact .refl _
  cases w with
  | eventHeader slot =>
    have hselect : s'.toEventHitsTable = s.select (key s.eventIndex) := h
    rw [hselect, EventHitsTable.select_map]
    exact OrderedMap.grows_addAt _ _ _
  | data payload =>
    rcases h with heq | ⟨-, hits, heq⟩
    · exact hsame heq
    · rw [heq]
      exact OrderedMap.grows_addAt _ _ _
  | blockHeader _ _ | blockTrailer _ | triggerTime _ | other => exact hsame h

theorem fold_grows
    (htable : ∀ (m : UInt32 × List UInt32) s used s', body m.1 m.2 s = .ok (used, s') →
      StepsTable key (classify m.1 m.2) (blockState s) (blockState s'))
    {ms : List (UInt32 × List UInt32)} {s s' : σ} (h : WordLoop.fold body ms s = .ok s') :
    OrderedMap.Grows (blockState s).eventHitsMap (blockState s').eventHitsMap := by
  refine WordLoop.fold_invariant
    (I := fun t => OrderedMap.Grows (blockState s).eventHitsMap (blockState t).eventHitsMap)
    (fun m _ t used t' hbody hgrows => ?_) h (.refl _)
  exact hgrows.trans (htable m t used t' hbody).grows

theorem storesInEvent_map
    (hc : Conforms classify body (TracksIn blockState key) (Appends blockState))
    (htable : ∀ (m : UInt32 × List UInt32) s used s', body m.1 m.2 s = .ok (used, s') →
      StepsTable key (classify m.1 m.2) (blockState s) (blockState s'))
    (hdecoded : AppendsDecoded classify body blockState decoded) :
    StoresInEvent classify body (TracksIn blockState key) (StoresIn blockState decoded) := by
  intro f t header s₀ between s m s' used used' rest last hR hheader hbody hbetween hfold hm hbody'
    hrest
  obtain ⟨f₀, f₁, hR₀, hRs, hcurrent₀, hcurrent, -⟩ :=
    hc.of_event hR hheader hbody (fun w hw => (hbetween w hw).1) hfold hm hbody'
  have hheaded := hR₀.container f.eventIndex hcurrent₀
  have hcontainer := hRs.container f.eventIndex hcurrent
  have hnumber : (blockState s).eventNumber = (blockState s₀).eventNumber := by
    rw [hcontainer.1, hheaded.1]
  have hadded : (blockState s').eventHitsMap =
      (blockState s).eventHitsMap.addAt (blockState s₀).eventNumber (decoded m s) := by
    rw [hdecoded m s used' s' hm hcontainer.2 hbody', ← hnumber]
    rfl
  obtain ⟨after, hlast⟩ := fold_grows htable hrest (blockState s₀).eventNumber _ (by
    rw [hadded, OrderedMap.find_addAt, if_pos rfl])
  exact ⟨hheaded.2, hadded, _, after, hlast⟩

end MapParsers

namespace FADC

def decoded (rocid : UInt32) (m : UInt32 × List UInt32) (s : State) : EventHitsFADC :=
  match (getBitsInRange m.1 30 27).toNat with
  | 4 =>
    match parseWaveformData m.2 (hitBase rocid (getBitsInRange m.1 26 23) s)
      (getBitsInRange m.1 11 0) with
    | .ok (_, hit) => { waveforms := [hit] }
    | .error _ => 0
  | 7 => { pulseIntegrals := [pulseIntegralHit rocid m.1 s] }
  | 8 => { pulseTimes := [pulseTimeHit rocid m.1 s] }
  | 9 => { pulses := pulseRawHits rocid m.1 m.2 s }
  | 10 => { pulsePeaks := [pulsePeakHit rocid m.1 s] }
  | _ => 0

theorem appendsDecoded (rocid : UInt32) (triggerData : TriggerData) :
    AppendsDecoded readAs (parseWord rocid triggerData) State.toBlockState (decoded rocid) := by
  intro m s used s' hdata hc h
  obtain ⟨d, following⟩ := m
  unfold parseWord dispatch at h
  unfold readAs classify at hdata
  unfold decoded
  by_cases hd : getBitsInRange d 31 31 = 1
  · simp only [hd, if_true] at h hdata ⊢
    generalize (getBitsInRange d 30 27).toNat = dataType at h hdata ⊢
    match dataType, h, hdata with
    | 4, h, _ =>
      obtain ⟨-, -, hrest⟩ := bind_eq_ok.mp h
      obtain ⟨⟨used', hit⟩, hhit, hrest⟩ := bind_eq_ok.mp hrest
      obtain ⟨t, ht, hrest⟩ := bind_eq_ok.mp hrest
      rw [← (Prod.mk.inj (Except.ok.inj hrest)).2, (EventHitsTable.addHits_ok ht).2]
      simp only [hhit]
    | 9, h, _ =>
      obtain ⟨-, -, hrest⟩ := bind_eq_ok.mp h
      obtain ⟨t, ht, hrest⟩ := bind_eq_ok.mp hrest
      rw [addPulses_of_container _ hc] at ht
      rw [← (Prod.mk.inj (Except.ok.inj hrest)).2, ← Except.ok.inj ht]
      rfl
    | 7, h, _ | 8, h, _ | 10, h, _ =>
      obtain ⟨-, -, hrest⟩ := bind_eq_ok.mp h
      obtain ⟨t, ht, hrest⟩ := bind_eq_ok.mp hrest
      rw [← (Prod.mk.inj (Except.ok.inj hrest)).2]
      exact (EventHitsTable.addHits_ok ht).2
    | 0, _, hdata | 1, _, hdata | 2, _, hdata | 3, _, hdata | 5, _, hdata | 6, _, hdata
    | n + 11, _, hdata =>
      simp [Word.isData, payload] at hdata
  · simp [hd, Word.isData] at hdata

end FADC

namespace VFTDC

def decoded (rocid : UInt32) (m : UInt32 × List UInt32) (s : State) : EventHitsVFTDC :=
  { vftdcHits := [dataHit rocid m.1 s] }

theorem appendsDecoded (rocid : UInt32) (triggerData : TriggerData) :
    AppendsDecoded readAs (parseWord rocid triggerData) State.toBlockState (decoded rocid) := by
  intro m s used s' hdata _ h
  obtain ⟨d, following⟩ := m
  unfold parseWord dispatch at h
  unfold readAs classify at hdata
  by_cases hd : getBitsInRange d 31 31 = 1
  · simp only [hd, if_true] at h hdata
    generalize (getBitsInRange d 30 27).toNat = dataType at h hdata
    match dataType, h, hdata with
    | 7, h, _ =>
      obtain ⟨-, -, hrest⟩ := bind_eq_ok.mp h
      obtain ⟨t, ht, hrest⟩ := bind_eq_ok.mp hrest
      rw [← (Prod.mk.inj (Except.ok.inj hrest)).2]
      exact (EventHitsTable.addHits_ok ht).2
    | 0, _, hdata | 1, _, hdata | 2, _, hdata | 3, _, hdata | 4, _, hdata | 5, _, hdata
    | 6, _, hdata | n + 8, _, hdata =>
      simp [Word.isData, payload] at hdata
  · simp [hd, Word.isData] at hdata

end VFTDC

namespace MPD

/-- The hits of the whole groups that come before the next word with bit 31 set. -/
def apvHits (hit : UInt32 → UInt32 → UInt32 → MPDHit) : List UInt32 → List MPDHit
  | d2 :: d3 :: d4 :: following =>
    if getBitsInRange d2 31 31 = 0 then hit d2 d3 d4 :: apvHits hit following else []
  | _ => []

def decoded (rocid : UInt32) (m : UInt32 × List UInt32) (s : State) : EventHitsMPD :=
  { mpd := apvHits (apvHit rocid m.1 s) m.2 }

theorem apvGroups_table {rocid d : UInt32} {following : List UInt32} {s s' : State} {used : Nat}
    (hc : s.HasContainer) (h : apvGroups rocid d following s = .ok (used, s')) :
    s'.toEventHitsTable = s.toEventHitsTable.withHits ⟨apvHits (apvHit rocid d s) following⟩ := by
  fun_induction apvGroups rocid d following s generalizing used s' with
  | case1 s => cases h
  | case2 d2 s hd2 d3 d4 following ih =>
    obtain ⟨t, ht, hrest⟩ := bind_eq_ok.mp h
    obtain ⟨⟨used', s₁⟩, hs₁, hrest⟩ := bind_eq_ok.mp hrest
    obtain ⟨-, rfl⟩ := Prod.mk.inj (Except.ok.inj hrest)
    obtain ⟨-, rfl⟩ := EventHitsTable.addHits_ok ht
    rw [ih _ (s.toEventHitsTable.withHits_hasContainer _) hs₁, apvHits, if_pos hd2]
    exact EventHitsTable.withHits_withHits _ _ _
  | case3 => cases h
  | case4 d2 following s hd2 =>
    obtain ⟨-, rfl⟩ := Prod.mk.inj (Except.ok.inj h)
    have hnone : apvHits (apvHit rocid d s) (d2 :: following) = [] := by
      unfold apvHits
      split
      · rename_i heq
        rw [← (List.cons.inj heq).1, if_neg hd2]
      · rfl
    rw [hnone]
    exact (EventHitsTable.withHits_zero hc).symm

theorem appendsDecoded (rocid : UInt32) (triggerData : TriggerData) :
    AppendsDecoded readAs (parseWord rocid triggerData) State.toBlockState (decoded rocid) := by
  intro m s used s' hdata hc h
  obtain ⟨d, following⟩ := m
  unfold parseWord dispatch at h
  unfold readAs classify at hdata
  by_cases hd : getBitsInRange d 31 31 = 1
  · simp only [hd, if_true] at h hdata
    generalize (getBitsInRange d 30 27).toNat = dataType at h hdata
    match dataType, h, hdata with
    | 5, h, _ =>
      obtain ⟨-, -, hrest⟩ := bind_eq_ok.mp h
      exact apvGroups_table hc hrest
    | 0, _, hdata | 1, _, hdata | 2, _, hdata | 3, _, hdata | 4, _, hdata | n + 6, _, hdata =>
      simp [Word.isData, payload] at hdata
  · simp [hd, Word.isData] at hdata

end MPD

namespace HelicityDecoder

/-- The record is in the container of the open event, or in one that has been published. -/
def Holds (record : HelicityDecoderData) (s : State) : Prop :=
  ∃ before after, s.eventHits = some ⟨before ++ record :: after⟩ ∨
    ∃ eventNum, ⟨eventNum, [⟨before ++ record :: after⟩]⟩ ∈ s.physicsEvents

/-- The record of the word is appended to the container that the event header has made, which is
published later, and the record is held at the end. -/
def StoresRecord (rocid : UInt32) (m : UInt32 × List UInt32) (s₀ s s' last : State) : Prop :=
  s₀.eventHits = some {} ∧ s.physicsEvents = s₀.physicsEvents ∧
    s'.physicsEvents = s.physicsEvents ∧ (∃ eventHits, s.eventHits = some eventHits ∧
      s'.eventHits = some ⟨eventHits.helicity ++
        [decoderHit rocid m.2 (getBitsInRange m.1 5 0).toNat s]⟩) ∧
    Holds (decoderHit rocid m.2 (getBitsInRange m.1 5 0).toNat s) last

theorem mem_publish (triggerData : TriggerData) {s : State}
    {event : PhysicsEvent EventHitsHelicityDecoder} (h : event ∈ s.physicsEvents) :
    event ∈ publish triggerData s := by
  unfold publish
  split
  · exact List.mem_append_left _ h
  · exact h

theorem Holds.publish {record : HelicityDecoderData} {s : State} (h : Holds record s)
    (triggerData : TriggerData) :
    ∃ before after eventNum,
      ⟨eventNum, [⟨before ++ record :: after⟩]⟩ ∈ publish triggerData s := by
  obtain ⟨before, after, hheld | ⟨eventNum, hmem⟩⟩ := h
  · refine ⟨before, after, toCInt (triggerData.firstEventNumber + s.eventIndex), ?_⟩
    simp [HelicityDecoder.publish, hheld]
  · exact ⟨before, after, eventNum, mem_publish triggerData hmem⟩

theorem parseWord_holds {rocid d : UInt32} {triggerData : TriggerData} {following : List UInt32}
    {s s' : State} {used : Nat} {record : HelicityDecoderData}
    (h : parseWord rocid triggerData d following s = .ok (used, s')) (hs : Holds record s) :
    Holds record s' := by
  have hstep := parseWord_step h
  unfold Steps at hstep
  cases hw : readAs d following with
  | eventHeader slot =>
    simp only [hw] at hstep
    obtain ⟨before, after, eventNum, hmem⟩ := hs.publish triggerData
    exact ⟨before, after, .inr ⟨eventNum, by rw [hstep.2.2.2]; exact hmem⟩⟩
  | blockTrailer slot =>
    simp only [hw] at hstep
    obtain ⟨-, hhits, -, hevents⟩ := hstep
    obtain ⟨before, after, hheld | ⟨eventNum, hmem⟩⟩ := hs
    · exact ⟨before, after, .inl (by rw [hhits, hheld])⟩
    · refine ⟨before, after, .inr ⟨eventNum, ?_⟩⟩
      rw [hevents]
      split
      · exact mem_publish triggerData hmem
      · exact hmem
  | data payload =>
    simp only [hw] at hstep
    obtain ⟨-, ⟨eventHits, added, hhits, hhits', -⟩, -, hevents⟩ := hstep
    obtain ⟨before, after, hheld | ⟨eventNum, hmem⟩⟩ := hs
    · rw [hhits] at hheld
      refine ⟨before, after ++ [added], .inl ?_⟩
      rw [hhits', Option.some.inj hheld]
      simp
    · exact ⟨before, after, .inr ⟨eventNum, by rw [hevents]; exact hmem⟩⟩
  | blockHeader _ _ | triggerTime _ | other =>
    simp only [hw] at hstep
    obtain ⟨-, hhits, -, hevents⟩ := hstep
    unfold Holds
    rw [hhits, hevents]
    exact hs

theorem parseWord_record {rocid d : UInt32} {triggerData : TriggerData}
    {following : List UInt32} {s s' : State} {used : Nat}
    (hdata : (readAs d following).isData = true)
    (h : parseWord rocid triggerData d following s = .ok (used, s')) :
    s'.physicsEvents = s.physicsEvents ∧ ∃ eventHits, s.eventHits = some eventHits ∧
      s'.eventHits = some ⟨eventHits.helicity ++
        [decoderHit rocid following (getBitsInRange d 5 0).toNat s]⟩ := by
  unfold parseWord dispatch at h
  unfold readAs classify at hdata
  by_cases hd : getBitsInRange d 31 31 = 1
  · simp only [hd, if_true] at h hdata
    generalize (getBitsInRange d 30 27).toNat = dataType at h hdata
    match dataType, h, hdata with
    | 8, h, _ =>
      obtain ⟨-, -, hrest⟩ := bind_eq_ok.mp h
      dsimp only at hrest
      cases heventHits : s.eventHits with
      | none =>
        rw [heventHits] at hrest
        cases hrest
      | some eventHits =>
        rw [heventHits] at hrest
        rw [← (Prod.mk.inj (Except.ok.inj hrest)).2]
        exact ⟨rfl, eventHits, rfl, rfl⟩
    | 0, _, hdata | 1, _, hdata | 2, _, hdata | 3, _, hdata | 4, _, hdata | 5, _, hdata
    | 6, _, hdata | 7, _, hdata | n + 9, _, hdata =>
      simp [Word.isData, payload] at hdata
  · simp [hd, Word.isData] at hdata

theorem eventHits_of_eventHeader {rocid d : UInt32} {triggerData : TriggerData}
    {following : List UInt32} {s s' : State} {used : Nat}
    (hd : (readAs d following).isEventHeader = true)
    (h : parseWord rocid triggerData d following s = .ok (used, s')) :
    s'.eventHits = some {} := by
  have hstep := parseWord_step h
  obtain ⟨slot, hslot⟩ := Word.exists_of_isEventHeader hd
  simp only [Steps, hslot] at hstep
  exact hstep.2.1

theorem physicsEvents_of_other {rocid d : UInt32} {triggerData : TriggerData}
    {following : List UInt32} {s s' : State} {used : Nat}
    (hd : (readAs d following).isEventHeader = false) (hfollowing : following ≠ [])
    (h : parseWord rocid triggerData d following s = .ok (used, s')) :
    s'.physicsEvents = s.physicsEvents := by
  have hstep := parseWord_step h
  unfold Steps at hstep
  cases hw : readAs d following with
  | eventHeader slot =>
    rw [hw] at hd
    cases hd
  | blockTrailer slot =>
    simp only [hw] at hstep
    rw [hstep.2.2.2, if_neg hfollowing]
  | blockHeader _ _ | triggerTime _ | data _ | other =>
    simp only [hw] at hstep
    exact hstep.2.2.2

theorem storesInEvent (rocid : UInt32) (triggerData : TriggerData) :
    StoresInEvent readAs (parseWord rocid triggerData) TracksFraming (StoresRecord rocid) := by
  intro f t header s₀ between s m s' used used' rest last _ hheader hbody hbetween hfold hm hbody'
    hrest
  have hkept : s.physicsEvents = s₀.physicsEvents := by
    refine WordLoop.fold_preserves (fun t : State => t.physicsEvents)
      (fun x hx t u t' ht => ?_) hfold
    exact physicsEvents_of_other (hbetween x hx).1 (hbetween x hx).2 ht
  obtain ⟨hevents, eventHits, hhits, hhits'⟩ := parseWord_record hm hbody'
  have hstored : Holds (decoderHit rocid m.2 (getBitsInRange m.1 5 0).toNat s) s' :=
    ⟨eventHits.helicity, [], .inl hhits'⟩
  exact ⟨eventHits_of_eventHeader hheader hbody, hkept, hevents, ⟨eventHits, hhits, hhits'⟩,
    WordLoop.fold_invariant (fun _ _ _ _ _ => parseWord_holds) hrest hstored⟩

end HelicityDecoder

namespace CAEN1190

def isGlobalHeader (d : UInt32) : Bool := (getBitsInRange d 31 27).toNat = 8

def isMeasurement (d : UInt32) : Bool := (getBitsInRange d 31 27).toNat = 0

def decoded (rocid d : UInt32) (s : State) : EventHitsCAEN1190 :=
  { caenHits := [measurementHit rocid d s.toCarried] }

/-- The hit of the word is appended to the container of the global header, and it is among those
of its number at the end. -/
def StoresUnder (rocid d : UInt32) (s₀ s s' last : State) : Prop :=
  s₀.HasContainer ∧
    s'.eventHitsMap = s.eventHitsMap.addAt s₀.eventNumber (decoded rocid d s) ∧
    ∃ before after, last.eventHitsMap.find s₀.eventNumber =
      some (before + decoded rocid d s + after)

/-- What one word does: a measurement before any global header writes through a null
pointer, and every other word is read. -/
theorem parseWord_cases (rocid : UInt32) (triggerData : TriggerData) (s : State) (d : UInt32) :
    (isMeasurement d = true ∧ ¬ s.HasContainer ∧
      parseWord rocid triggerData s d = .error .nullEventHits) ∨
    ∃ s', parseWord rocid triggerData s d = .ok s' ∧
      (isMeasurement d = true → s.HasContainer ∧
        s'.eventHitsMap = s.eventHitsMap.addAt s.eventNumber (decoded rocid d s)) ∧
      (isGlobalHeader d = true → s'.HasContainer) ∧
      (isGlobalHeader d = false →
        s'.eventNumber = s.eventNumber ∧ (s'.HasContainer ↔ s.HasContainer)) ∧
      OrderedMap.Grows s.eventHitsMap s'.eventHitsMap := by
  unfold isMeasurement isGlobalHeader parseWord
  generalize (getBitsInRange d 31 27).toNat = dataType
  split
  · refine .inr ⟨_, rfl, by simp, fun _ => EventHitsTable.select_hasContainer _ _, by simp, ?_⟩
    simp only [globalHeader, EventHitsTable.select_map]
    exact OrderedMap.grows_addAt _ _ _
  · exact .inr ⟨_, rfl, by simp, by simp, fun _ => ⟨rfl, Iff.rfl⟩, .refl _⟩
  · exact .inr ⟨_, rfl, by simp, by simp, fun _ => ⟨rfl, Iff.rfl⟩, .refl _⟩
  · by_cases h : s.HasContainer
    · refine .inr ⟨_, tdcMeasurement_of_container h rocid d, fun _ => ⟨h, rfl⟩, by simp,
        fun _ => ⟨rfl, ?_⟩, OrderedMap.grows_addAt _ _ _⟩
      exact iff_of_true (EventHitsTable.withHits_hasContainer _ _) h
    · exact .inl ⟨by simp, h, tdcMeasurement_of_not_container h rocid d⟩
  · exact .inr ⟨_, rfl, by simp, by simp, fun _ => ⟨rfl, Iff.rfl⟩, .refl _⟩
  · exact .inr ⟨_, rfl, by simp, by simp, fun _ => ⟨rfl, Iff.rfl⟩, .refl _⟩
  · rename_i hheader _ _ hmeasurement _ _
    exact .inr ⟨_, rfl, fun h => absurd (of_decide_eq_true h) hmeasurement,
      fun h => absurd (of_decide_eq_true h) hheader, fun _ => ⟨rfl, Iff.rfl⟩, .refl _⟩

section Fold

variable {rocid : UInt32} {triggerData : TriggerData}

theorem parseWord_ok {s s' : State} {d : UInt32}
    (h : parseWord rocid triggerData s d = .ok s') :
    (isMeasurement d = true → s.HasContainer ∧
      s'.eventHitsMap = s.eventHitsMap.addAt s.eventNumber (decoded rocid d s)) ∧
    (isGlobalHeader d = true → s'.HasContainer) ∧
    (isGlobalHeader d = false →
      s'.eventNumber = s.eventNumber ∧ (s'.HasContainer ↔ s.HasContainer)) ∧
    OrderedMap.Grows s.eventHitsMap s'.eventHitsMap := by
  rcases parseWord_cases rocid triggerData s d with ⟨-, -, he⟩ | ⟨t, ht, hstep⟩
  · simp [he] at h
  · obtain rfl : s' = t := Except.ok.inj (h.symm.trans ht)
    exact hstep

theorem foldlM_ok {ws : List UInt32} {s : State}
    (h : ∀ pre d post, ws = pre ++ d :: post → isMeasurement d = true →
      s.HasContainer ∨ ∃ header ∈ pre, isGlobalHeader header = true) :
    ∃ s', ws.foldlM (parseWord rocid triggerData) s = .ok s' := by
  induction ws generalizing s with
  | nil => exact ⟨s, rfl⟩
  | cons d ws ih =>
    rcases parseWord_cases rocid triggerData s d with
      ⟨hm, hnone, -⟩ | ⟨s', hs', -, hheader, hother, -⟩
    · rcases h [] d ws rfl hm with hc | ⟨header, hmem, -⟩
      · exact absurd hc hnone
      · simp at hmem
    · obtain ⟨s'', hs''⟩ := ih (s := s') fun pre d' post he hm => by
        rcases h (d :: pre) d' post (by rw [he]; rfl) hm with hc | ⟨header, hmem, hh⟩
        · by_cases hd : isGlobalHeader d = true
          · exact .inl (hheader hd)
          · exact .inl ((hother (by simpa using hd)).2.mpr hc)
        · rcases List.mem_cons.mp hmem with rfl | hmem
          · exact .inl (hheader hh)
          · exact .inr ⟨header, hmem, hh⟩
      exact ⟨s'', by rw [List.foldlM_cons, hs', bind_ok, hs'']⟩

theorem foldlM_not_thrown {ws : List UInt32} {s : State} {message : String} :
    ws.foldlM (parseWord rocid triggerData) s ≠ .error (.jexception message) := by
  induction ws generalizing s with
  | nil => exact fun h => by cases h
  | cons d ws ih =>
    rw [List.foldlM_cons]
    rcases parseWord_cases rocid triggerData s d with ⟨-, -, he⟩ | ⟨s', hs', -⟩
    · rw [he, bind_error]
      simp
    · rw [hs', bind_ok]
      exact ih

theorem eventNumber_of_between {ws : List UInt32} {s s' : State}
    (h : ∀ d ∈ ws, isGlobalHeader d = false)
    (hs : ws.foldlM (parseWord rocid triggerData) s = .ok s') :
    s'.eventNumber = s.eventNumber := by
  induction ws generalizing s with
  | nil => rw [Except.ok.inj hs]
  | cons d ws ih =>
    obtain ⟨t, ht, hs⟩ := foldlM_cons_ok.mp hs
    obtain ⟨-, -, hother, -⟩ := parseWord_ok ht
    rw [ih (fun x hx => h x (by simp [hx])) hs]
    exact (hother (h d (by simp))).1

theorem foldlM_grows {ws : List UInt32} {s s' : State}
    (hs : ws.foldlM (parseWord rocid triggerData) s = .ok s') :
    OrderedMap.Grows s.eventHitsMap s'.eventHitsMap := by
  induction ws generalizing s with
  | nil =>
    obtain rfl := Except.ok.inj hs
    exact .refl _
  | cons d ws ih =>
    obtain ⟨t, ht, hs⟩ := foldlM_cons_ok.mp hs
    obtain ⟨-, -, -, hgrows⟩ := parseWord_ok ht
    exact hgrows.trans (ih hs)

theorem storesUnder_of_headed {pre post : List UInt32} {d : UInt32} {last : State}
    (hs : (pre ++ d :: post).foldlM (parseWord rocid triggerData) {} = .ok last)
    (hm : isMeasurement d = true) (hheaded : ∃ header ∈ pre, isGlobalHeader header = true) :
    ∃ before header between s₀ s₁ s', pre = before ++ header :: between ∧
      isGlobalHeader header = true ∧ (∀ w ∈ between, isGlobalHeader w = false) ∧
      (before ++ [header]).foldlM (parseWord rocid triggerData) {} = .ok s₀ ∧
      pre.foldlM (parseWord rocid triggerData) {} = .ok s₁ ∧
      (pre ++ [d]).foldlM (parseWord rocid triggerData) {} = .ok s' ∧
      StoresUnder rocid d s₀ s₁ s' last := by
  obtain ⟨before, header, between, rfl, hheader, hbetween⟩ := WordLoop.exists_last hheaded
  obtain ⟨s₁, hpre, hs⟩ := foldlM_append_ok.mp hs
  obtain ⟨s', hd, hrest⟩ := foldlM_cons_ok.mp hs
  obtain ⟨t, ht, hevent⟩ := foldlM_append_ok.mp hpre
  obtain ⟨s₀, hh, hfold⟩ := foldlM_cons_ok.mp hevent
  have hread : (before ++ [header]).foldlM (parseWord rocid triggerData) {} = .ok s₀ :=
    foldlM_append_ok.mpr ⟨t, ht, foldlM_singleton_ok.mpr hh⟩
  have hstored : (before ++ header :: between ++ [d]).foldlM (parseWord rocid triggerData) {} =
      .ok s' := foldlM_append_ok.mpr ⟨s₁, hpre, foldlM_singleton_ok.mpr hd⟩
  obtain ⟨-, hcontainer, -⟩ := parseWord_ok hh
  obtain ⟨hmeasured, -⟩ := parseWord_ok hd
  obtain ⟨-, hadded⟩ := hmeasured hm
  rw [eventNumber_of_between hbetween hfold] at hadded
  obtain ⟨after, hlast⟩ := foldlM_grows hrest s₀.eventNumber _ (by
    rw [hadded, OrderedMap.find_addAt, if_pos rfl])
  exact ⟨before, header, between, s₀, s₁, s', rfl, hheader, hbetween, hread, hpre, hstored,
    hcontainer hheader, hadded, _, after, hlast⟩

end Fold

theorem attributes_iff_headed (rocid : UInt32) (triggerData : TriggerData)
    (dataWords : List UInt32) :
    Attributes (parse rocid triggerData dataWords) dataWords
        (fun ws => ws.foldlM (parseWord rocid triggerData) {})
        (fun s => physicsEvents s.eventHitsMap) isMeasurement isGlobalHeader (fun _ => false)
        (StoresUnder rocid) ↔
      ∀ pre d post, dataWords = pre ++ d :: post → isMeasurement d = true →
        ∃ header ∈ pre, isGlobalHeader header = true := by
  constructor
  · rintro (⟨message, he⟩ | ⟨last, -, -, hdata⟩) pre d post hsplit hm
    · cases hs : dataWords.foldlM (parseWord rocid triggerData) {} with
      | ok s => simp [parse, hs] at he
      | error fault =>
        rw [parse, hs, bind_error] at he
        rw [Except.error.inj he] at hs
        exact absurd hs foldlM_not_thrown
    · obtain ⟨before, header, between, -, -, -, rfl, hheader, -⟩ := hdata pre d post hsplit hm
      exact ⟨header, by simp, hheader⟩
  · intro h
    obtain ⟨s, hs⟩ : ∃ s, dataWords.foldlM (parseWord rocid triggerData) {} = .ok s :=
      foldlM_ok fun pre d post hsplit hm => .inr (h pre d post hsplit hm)
    refine .inr ⟨s, hs, by rw [parse, hs, bind_ok], fun pre d post hsplit hm => ?_⟩
    rw [hsplit] at hs
    obtain ⟨before, header, between, s₀, s₁, s', he, hheader, hbetween, hread⟩ :=
      storesUnder_of_headed hs hm (h pre d post hsplit hm)
    exact ⟨before, header, between, s₀, s₁, s', he, hheader,
      fun w hw => ⟨hbetween w hw, rfl⟩, hread⟩

end CAEN1190

/-- Exactly on these banks every decoded hit is attributed, or the bank is rejected. -/
theorem attributes_iff (rocid : UInt32) (triggerData : TriggerData) (dataWords : List UInt32) :
    (BlockAttributes FADC.readAs (FADC.parseWord rocid triggerData) {}
        (fun s => physicsEvents s.eventHitsMap)
        (StoresIn FADC.State.toBlockState (FADC.decoded rocid))
        (FADC.parse rocid triggerData dataWords) dataWords ↔
      Framing.verdict {} (classified FADC.readAs dataWords) = .rejected ∨
      Framing.verdict {} (classified FADC.readAs dataWords) = .accepted ∧
        DataInEvents (classified FADC.readAs dataWords)) ∧
    (BlockAttributes VFTDC.readAs (VFTDC.parseWord rocid triggerData) {}
        (fun s => physicsEvents s.eventHitsMap)
        (StoresIn VFTDC.State.toBlockState (VFTDC.decoded rocid))
        (VFTDC.parse rocid triggerData dataWords) dataWords ↔
      Framing.verdict {} (classified VFTDC.readAs dataWords) = .rejected ∨
      Framing.verdict {} (classified VFTDC.readAs dataWords) = .accepted ∧
        DataInEvents (classified VFTDC.readAs dataWords)) ∧
    (BlockAttributes MPD.readAs (MPD.parseWord rocid triggerData) {}
        (fun s => physicsEvents s.eventHitsMap)
        (StoresIn MPD.State.toBlockState (MPD.decoded rocid))
        (MPD.parse rocid triggerData dataWords) dataWords ↔
      Framing.verdict {} (classified MPD.readAs dataWords) = .rejected ∨
      Framing.verdict {} (classified MPD.readAs dataWords) = .accepted ∧
        DataInEvents (classified MPD.readAs dataWords)) ∧
    (BlockAttributes HelicityDecoder.readAs (HelicityDecoder.parseWord rocid triggerData) {}
        HelicityDecoder.State.physicsEvents (HelicityDecoder.StoresRecord rocid)
        (HelicityDecoder.parse rocid triggerData dataWords) dataWords ↔
      Framing.verdict {} (classified HelicityDecoder.readAs dataWords) = .rejected ∨
      Framing.verdict {} (classified HelicityDecoder.readAs dataWords) = .accepted ∧
        DataInEvents (classified HelicityDecoder.readAs dataWords)) ∧
    (Attributes (CAEN1190.parse rocid triggerData dataWords) dataWords
        (fun ws => ws.foldlM (CAEN1190.parseWord rocid triggerData) {})
        (fun s => physicsEvents s.eventHitsMap) CAEN1190.isMeasurement CAEN1190.isGlobalHeader
        (fun _ => false) (CAEN1190.StoresUnder rocid) ↔
      ∀ pre d post, dataWords = pre ++ d :: post → CAEN1190.isMeasurement d = true →
        ∃ header ∈ pre, CAEN1190.isGlobalHeader header = true) := by
  refine ⟨?_, ?_, ?_, ?_, CAEN1190.attributes_iff_headed rocid triggerData dataWords⟩
  · have hstores := storesInEvent_map (FADC.conforms rocid triggerData)
      (fun _ _ _ _ h => (FADC.parseWord_step h).table) (FADC.appendsDecoded rocid triggerData)
    exact blockAttributes_iff (FADC.conforms rocid triggerData) Tracks.init hstores rfl
  · have hstores := storesInEvent_map (VFTDC.conforms rocid triggerData)
      (fun _ _ _ _ h => (VFTDC.parseWord_step h).table) (VFTDC.appendsDecoded rocid triggerData)
    exact blockAttributes_iff (VFTDC.conforms rocid triggerData) Tracks.init hstores rfl
  · have hstores := storesInEvent_map (MPD.conforms rocid triggerData)
      (fun _ _ _ _ h => (MPD.parseWord_step h).table) (MPD.appendsDecoded rocid triggerData)
    exact blockAttributes_iff (MPD.conforms rocid triggerData) Tracks.init hstores rfl
  · exact blockAttributes_iff (HelicityDecoder.conforms rocid triggerData) ⟨rfl, rfl, rfl⟩
      (HelicityDecoder.storesInEvent rocid triggerData) rfl

/-- A block header announcing one event, directly followed by pulse integral data. -/
theorem orphan_data_word :
    ¬ BlockAttributes FADC.readAs (FADC.parseWord 0 ⟨1, 1⟩) {}
      (fun s => physicsEvents s.eventHitsMap)
      (StoresIn FADC.State.toBlockState (FADC.decoded 0))
      (FADC.parse 0 ⟨1, 1⟩ [0x80400001, 0xB8000000]) [0x80400001, 0xB8000000] := by
  have hnull : FADC.parse 0 ⟨1, 1⟩ [0x80400001, 0xB8000000] = .error .nullEventHits := by decide
  intro hh
  rcases hh with ⟨message, he⟩ | ⟨last, -, he, -⟩
  · rw [hnull] at he
    simp at he
  · rw [hnull] at he
    simp at he

end JanaExtensions
