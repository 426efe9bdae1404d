import JanaExtensions.HitSummary

/-! The trees and the histogram of the event processor. The buffers that the branches of the trees
point to are members, which the next event finds as the last one has left them. -/

namespace JanaExtensions

namespace EvioProcessor

structure WaveformTreeRow where
  slot : UInt32 := 0
  chan : UInt32 := 0
  rocid : UInt32 := 0
  waveform : List UInt32 := []
  deriving DecidableEq, Repr

structure WaveformBranches where
  slot : List UInt32 := []
  chan : List UInt32 := []
  waveform : List UInt32 := []
  rocid : List UInt32 := []
  deriving DecidableEq, Repr

structure PulseBranches where
  integralSum : List UInt32 := []
  pedestalSum : UInt32 := 0
  coarseTime : List UInt32 := []
  fineTime : List UInt32 := []
  pulsePeak : List UInt32 := []
  pedestalQuality : UInt32 := 0
  nhits : Int := 0
  chan : List UInt32 := []
  slot : List UInt32 := []
  rocid : List UInt32 := []
  deriving DecidableEq, Repr

structure CAEN1190Branches where
  rocid : List UInt32 := []
  slot : List UInt32 := []
  chan : List UInt32 := []
  measurement : List UInt32 := []
  opt : List UInt32 := []
  flags : List UInt32 := []
  trigTime : List UInt32 := []
  hdrChipId : List UInt32 := []
  hdrEventId : List UInt32 := []
  hdrBunchId : List UInt32 := []
  trlStatus : List UInt32 := []
  deriving DecidableEq, Repr

structure HelDec where
  helicitySeed : UInt32 := 0
  nTstableFall : UInt32 := 0
  nTstableRise : UInt32 := 0
  nPattsync : UInt32 := 0
  nPairsync : UInt32 := 0
  timeTstableStart : UInt32 := 0
  timeTstableEnd : UInt32 := 0
  lastTstableDuration : UInt32 := 0
  lastTsettleDuration : UInt32 := 0
  trigTstable : UInt32 := 0
  trigPattsync : UInt32 := 0
  trigPairsync : UInt32 := 0
  trigHelicity : UInt32 := 0
  trigPat0Helicity : UInt32 := 0
  trigPolarity : UInt32 := 0
  trigPatCount : UInt32 := 0
  last32winsPattsync : UInt32 := 0
  last32winsPairsync : UInt32 := 0
  last32winsHelicity : UInt32 := 0
  last32winsPattsyncHel : UInt32 := 0
  deriving DecidableEq, Repr

/-- The members that hold what is filled, and those that the loops use on the way. -/
structure Members where
  waveform : WaveformBranches := {}
  pulse : PulseBranches := {}
  caen1190 : CAEN1190Branches := {}
  heldec : HelDec := {}
  waveformTreeRow : WaveformTreeRow := {}
  integralSum : UInt32
  coarseTime : UInt32
  fineTime : UInt32
  pulsePeak : UInt32
  deriving DecidableEq, Repr

structure Trees where
  waveformTree : List WaveformBranches := []
  pulseTree : List PulseBranches := []
  caen1190Tree : List CAEN1190Branches := []
  tree : List HelDec := []
  deriving DecidableEq, Repr

/-- `pulseIntegralHist` are the values that the histogram is filled with. -/
structure State where
  members : Members
  trees : Trees := {}
  pulseIntegralHist : List UInt32 := []

def clear (m : Members) : Members :=
  { m with
    waveform := { slot := [], chan := [], waveform := [], rocid := [] }
    pulse :=
      { integralSum := [], pedestalSum := 0, coarseTime := [], fineTime := [], pulsePeak := []
        pedestalQuality := 0, nhits := 0, chan := [], slot := [], rocid := [] }
    caen1190 :=
      { rocid := [], slot := [], chan := [], measurement := [], opt := [], flags := []
        trigTime := [], hdrChipId := [], hdrEventId := [], hdrBunchId := [], trlStatus := [] } }

def pushCAEN1190 (b : CAEN1190Branches) (hit : CAEN1190Hit) : CAEN1190Branches where
  rocid := b.rocid ++ [hit.rocid]
  slot := b.slot ++ [hit.slot]
  chan := b.chan ++ [hit.chan]
  measurement := b.measurement ++ [hit.measurement]
  opt := b.opt ++ [hit.opt]
  flags := b.flags ++ [hit.flags]
  trigTime := b.trigTime ++ [hit.trigTime]
  hdrChipId := b.hdrChipId ++ [hit.hdrChipId]
  hdrEventId := b.hdrEventId ++ [hit.hdrEventId]
  hdrBunchId := b.hdrBunchId ++ [hit.hdrBunchId]
  trlStatus := b.trlStatus ++ [hit.glbTrlStatus]

/-- The slot, the channel and the ROC ID are repeated for each sample. -/
def pushWaveform (m : Members) (hit : FADC250WaveformHit) : Members :=
  let row : WaveformTreeRow :=
    { slot := hit.slot, chan := hit.chan, rocid := hit.rocid, waveform := hit.waveform }
  let waveformSampleNumber := row.waveform.length
  { m with
    waveformTreeRow := row
    waveform :=
      { slot := m.waveform.slot ++ List.replicate waveformSampleNumber row.slot
        chan := m.waveform.chan ++ List.replicate waveformSampleNumber row.chan
        rocid := m.waveform.rocid ++ List.replicate waveformSampleNumber row.rocid
        waveform := m.waveform.waveform ++ row.waveform } }

/-- A pulse without an integral leaves its pedestal in the row, but is not counted. -/
def pushPulse (s : Members × Int) (hit : FADC250PulseHit) : Members × Int :=
  let m := { s.1 with
    integralSum := hit.integralSum
    coarseTime := hit.coarseTime
    fineTime := hit.fineTime
    pulsePeak := hit.pulsePeak
    pulse := { s.1.pulse with
      pedestalSum := hit.pedestalSum
      pedestalQuality := hit.pedestalQuality } }
  if m.integralSum ≠ 0 then
    ({ m with pulse := { m.pulse with
        integralSum := m.pulse.integralSum ++ [m.integralSum]
        coarseTime := m.pulse.coarseTime ++ [m.coarseTime]
        fineTime := m.pulse.fineTime ++ [m.fineTime]
        pulsePeak := m.pulse.pulsePeak ++ [m.pulsePeak]
        slot := m.pulse.slot ++ [hit.slot]
        chan := m.pulse.chan ++ [hit.chan]
        rocid := m.pulse.rocid ++ [hit.rocid] } }, s.2 + 1)
  else (m, s.2)

def helDec (hit : HelicityDecoderData) : HelDec where
  helicitySeed := hit.helicitySeed
  nTstableFall := hit.nTstableFall
  nTstableRise := hit.nTstableRise
  nPattsync := hit.nPattsync
  nPairsync := hit.nPairsync
  timeTstableStart := hit.timeTstableStart
  timeTstableEnd := hit.timeTstableEnd
  lastTstableDuration := hit.lastTstableDuration
  lastTsettleDuration := hit.lastTsettleDuration
  trigTstable := hit.trigTstable
  trigPattsync := hit.trigPattsync
  trigPairsync := hit.trigPairsync
  trigHelicity := hit.trigHelicity
  trigPat0Helicity := hit.trigPat0Helicity
  trigPolarity := hit.trigPolarity
  trigPatCount := hit.trigPatCount
  last32winsPattsync := hit.last32winsPattsync
  last32winsPairsync := hit.last32winsPairsync
  last32winsHelicity := hit.last32winsHelicity
  last32winsPattsyncHel := hit.last32winsPattsyncHel

def fillHelDec (s : State) (hit : HelicityDecoderData) : State :=
  { s with
    members := { s.members with heldec := helDec hit }
    trees := { s.trees with tree := s.trees.tree ++ [helDec hit] } }

def processSequential (s : State) (event : HitEvent) : State :=
  let m := clear s.members
  let m := { m with caen1190 := (event.hits .caen1190).foldl pushCAEN1190 m.caen1190 }
  let trees := { s.trees with caen1190Tree := s.trees.caen1190Tree ++ [m.caen1190] }
  let m := (event.hits .fadc250Waveform).foldl pushWaveform m
  let (m, nn) := (event.hits .fadc250Pulse).foldl pushPulse (m, 0)
  let m := { m with pulse := { m.pulse with nhits := nn } }
  let trees := { trees with waveformTree := trees.waveformTree ++ [m.waveform] }
  let trees := if nn > 0 then { trees with pulseTree := trees.pulseTree ++ [m.pulse] } else trees
  let pulseIntegralHist := s.pulseIntegralHist ++
    (event.hits .fadc250Pulse).map FADC250PulseHit.integralSum
  let m := { m with heldec := {} }
  (event.hits .helicityDecoder).foldl fillHelDec ⟨m, trees, pulseIntegralHist⟩

section Rows

structure Sample where
  slot : UInt32
  chan : UInt32
  rocid : UInt32
  value : UInt32
  deriving DecidableEq, Repr

def samplesOf (hit : FADC250WaveformHit) : List Sample :=
  hit.waveform.map fun value => ⟨hit.slot, hit.chan, hit.rocid, value⟩

def samples (hits : List FADC250WaveformHit) : List Sample := hits.flatMap samplesOf

/-- The pulses that a row of the pulse tree counts. -/
def counted (hits : List FADC250PulseHit) : List FADC250PulseHit :=
  hits.filter fun hit => hit.integralSum ≠ 0

def caen1190Row (hits : List CAEN1190Hit) : CAEN1190Branches where
  rocid := hits.map CAEN1190Hit.rocid
  slot := hits.map CAEN1190Hit.slot
  chan := hits.map CAEN1190Hit.chan
  measurement := hits.map CAEN1190Hit.measurement
  opt := hits.map CAEN1190Hit.opt
  flags := hits.map CAEN1190Hit.flags
  trigTime := hits.map CAEN1190Hit.trigTime
  hdrChipId := hits.map CAEN1190Hit.hdrChipId
  hdrEventId := hits.map CAEN1190Hit.hdrEventId
  hdrBunchId := hits.map CAEN1190Hit.hdrBunchId
  trlStatus := hits.map CAEN1190Hit.glbTrlStatus

def waveformRow (samples : List Sample) : WaveformBranches where
  slot := samples.map Sample.slot
  chan := samples.map Sample.chan
  waveform := samples.map Sample.value
  rocid := samples.map Sample.rocid

/-- The pedestal is the one of the last pulse, whether it is counted or not. -/
def pulseRow (hits : List FADC250PulseHit) : PulseBranches where
  integralSum := (counted hits).map FADC250PulseHit.integralSum
  pedestalSum := hits.getLast?.elim 0 FADC250PulseHit.pedestalSum
  coarseTime := (counted hits).map FADC250PulseHit.coarseTime
  fineTime := (counted hits).map FADC250PulseHit.fineTime
  pulsePeak := (counted hits).map FADC250PulseHit.pulsePeak
  pedestalQuality := hits.getLast?.elim 0 FADC250PulseHit.pedestalQuality
  nhits := (counted hits).length
  chan := (counted hits).map fun hit => hit.chan
  slot := (counted hits).map fun hit => hit.slot
  rocid := (counted hits).map fun hit => hit.rocid

/-- The pulses of the events with a row in the pulse tree. -/
def pulsesWithRow (events : List HitEvent) : List (List FADC250PulseHit) :=
  (events.map fun event => event.hits .fadc250Pulse).filter fun hits => counted hits ≠ []

def rows (events : List HitEvent) : Trees where
  waveformTree := events.map fun event => waveformRow (samples (event.hits .fadc250Waveform))
  pulseTree := (pulsesWithRow events).map pulseRow
  caen1190Tree := events.map fun event => caen1190Row (event.hits .caen1190)
  tree := events.flatMap fun event => (event.hits .helicityDecoder).map helDec

def Trees.append (a b : Trees) : Trees where
  waveformTree := a.waveformTree ++ b.waveformTree
  pulseTree := a.pulseTree ++ b.pulseTree
  caen1190Tree := a.caen1190Tree ++ b.caen1190Tree
  tree := a.tree ++ b.tree

end Rows

section Loops

theorem pushCAEN1190_foldl (hits : List CAEN1190Hit) :
    hits.foldl pushCAEN1190 {} = caen1190Row hits := by
  induction hits using List.reverseRecOn with
  | nil => rfl
  | append_singleton hits hit ih =>
      rw [List.foldl_append, ih]
      simp [pushCAEN1190, caen1190Row]

theorem waveformRow_append (a b : List Sample) :
    waveformRow (a ++ b) =
      { slot := (waveformRow a).slot ++ (waveformRow b).slot
        chan := (waveformRow a).chan ++ (waveformRow b).chan
        waveform := (waveformRow a).waveform ++ (waveformRow b).waveform
        rocid := (waveformRow a).rocid ++ (waveformRow b).rocid } := by
  simp [waveformRow]

theorem waveformRow_samplesOf (hit : FADC250WaveformHit) :
    waveformRow (samplesOf hit) =
      { slot := List.replicate hit.waveform.length hit.slot
        chan := List.replicate hit.waveform.length hit.chan
        waveform := hit.waveform
        rocid := List.replicate hit.waveform.length hit.rocid } := by
  simp [waveformRow, samplesOf, Function.comp_def]

/-- The loop changes the buffers of the waveform tree and what it uses on the way. -/
theorem pushWaveform_foldl (hits : List FADC250WaveformHit) (m : Members)
    (hempty : m.waveform = {}) :
    ∃ row, hits.foldl pushWaveform m =
      { m with waveformTreeRow := row, waveform := waveformRow (samples hits) } := by
  induction hits using List.reverseRecOn with
  | nil => exact ⟨m.waveformTreeRow, by simp [samples, waveformRow, ← hempty]⟩
  | append_singleton hits hit ih =>
      obtain ⟨row, ih⟩ := ih
      have hsamples : samples (hits ++ [hit]) = samples hits ++ samplesOf hit := by simp [samples]
      rw [List.foldl_append, ih, hsamples, waveformRow_append, waveformRow_samplesOf]
      exact ⟨_, rfl⟩

theorem counted_append (hits : List FADC250PulseHit) (hit : FADC250PulseHit) :
    counted (hits ++ [hit]) =
      counted hits ++ if hit.integralSum ≠ 0 then [hit] else [] := by
  rw [counted, List.filter_append]
  by_cases hzero : hit.integralSum = 0 <;> simp [counted, hzero]

/-- The members that a pulse leaves behind, of which none but the row is read again. -/
def afterPulses (m : Members) (hits : List FADC250PulseHit) : Members :=
  { m with
    integralSum := hits.getLast?.elim m.integralSum FADC250PulseHit.integralSum
    coarseTime := hits.getLast?.elim m.coarseTime FADC250PulseHit.coarseTime
    fineTime := hits.getLast?.elim m.fineTime FADC250PulseHit.fineTime
    pulsePeak := hits.getLast?.elim m.pulsePeak FADC250PulseHit.pulsePeak
    pulse := { pulseRow hits with nhits := 0 } }

@[simp] theorem afterPulses_waveform (m : Members) (hits : List FADC250PulseHit) :
    (afterPulses m hits).waveform = m.waveform := rfl

@[simp] theorem afterPulses_pulse (m : Members) (hits : List FADC250PulseHit) :
    (afterPulses m hits).pulse = { pulseRow hits with nhits := 0 } := rfl

theorem pushPulse_foldl (hits : List FADC250PulseHit) (m : Members) (hempty : m.pulse = {}) :
    hits.foldl pushPulse (m, 0) = (afterPulses m hits, ((counted hits).length : Int)) := by
  induction hits using List.reverseRecOn with
  | nil =>
      cases m
      obtain rfl := hempty
      rfl
  | append_singleton hits hit ih =>
      rw [List.foldl_append, ih, counted_append]
      by_cases hzero : hit.integralSum = 0
      · simp [pushPulse, afterPulses, pulseRow, counted_append, hzero]
      · simp [pushPulse, afterPulses, pulseRow, counted_append, hzero]

theorem fillHelDec_foldl (hits : List HelicityDecoderData) (s : State) :
    (hits.foldl fillHelDec s).trees = { s.trees with tree := s.trees.tree ++ hits.map helDec } ∧
      (hits.foldl fillHelDec s).pulseIntegralHist = s.pulseIntegralHist := by
  induction hits generalizing s with
  | nil => simp
  | cons hit hits ih => simp [ih, fillHelDec]

end Loops

section Runs

theorem Trees.append_assoc (a b c : Trees) : (a.append b).append c = a.append (b.append c) := by
  simp [Trees.append]

theorem rows_append (a b : List HitEvent) : rows (a ++ b) = (rows a).append (rows b) := by
  simp [rows, Trees.append, pulsesWithRow]

/-- The rows of an event do not depend on what the event before has left in the buffers. -/
theorem processSequential_eq (s : State) (event : HitEvent) :
    (processSequential s event).trees = s.trees.append (rows [event]) ∧
      (processSequential s event).pulseIntegralHist =
        s.pulseIntegralHist ++ (event.hits .fadc250Pulse).map FADC250PulseHit.integralSum := by
  obtain ⟨row, hwaveform⟩ := pushWaveform_foldl (event.hits .fadc250Waveform)
    { clear s.members with caen1190 := caen1190Row (event.hits .caen1190) } rfl
  have hpulse := pushPulse_foldl (event.hits .fadc250Pulse)
    { clear s.members with
      caen1190 := caen1190Row (event.hits .caen1190)
      waveformTreeRow := row
      waveform := waveformRow (samples (event.hits .fadc250Waveform)) } rfl
  have hcaen : (event.hits .caen1190).foldl pushCAEN1190 (clear s.members).caen1190 =
      caen1190Row (event.hits .caen1190) := pushCAEN1190_foldl (event.hits .caen1190)
  simp only [processSequential, hcaen, hwaveform, hpulse, fillHelDec_foldl, and_true]
  by_cases hnone : counted (event.hits .fadc250Pulse) = []
  · simp [rows, Trees.append, pulsesWithRow, hnone]
  · have hpos := List.length_pos_iff.mpr hnone
    simp [rows, Trees.append, pulsesWithRow, hnone, hpos, pulseRow]

theorem foldl_processSequential (events : List HitEvent) (s : State) :
    (events.foldl processSequential s).trees = s.trees.append (rows events) ∧
      (events.foldl processSequential s).pulseIntegralHist =
        s.pulseIntegralHist ++ events.flatMap fun event =>
          (event.hits .fadc250Pulse).map FADC250PulseHit.integralSum := by
  induction events generalizing s with
  | nil => simp [rows, pulsesWithRow, Trees.append]
  | cons event events ih =>
      obtain ⟨htrees, hhist⟩ := ih (processSequential s event)
      obtain ⟨htree, hfill⟩ := processSequential_eq s event
      rw [List.foldl_cons, htrees, hhist, htree, hfill, Trees.append_assoc, ← rows_append]
      simp

/-- Whatever the buffers hold before the first event, each event has a row of columns of the same
length in the trees of the waveforms and of the TDC, it has one in the pulse tree if a pulse of it
has an integral, and one in the helicity tree for each hit. -/
theorem trees_of_run (m : Members) (events : List HitEvent) :
    (events.foldl processSequential ⟨m, {}, []⟩).trees = rows events ∧
      (events.foldl processSequential ⟨m, {}, []⟩).pulseIntegralHist =
        events.flatMap fun event =>
          (event.hits .fadc250Pulse).map FADC250PulseHit.integralSum := by
  obtain ⟨htrees, hhist⟩ := foldl_processSequential events ⟨m, {}, []⟩
  rw [htrees, hhist]
  simp [Trees.append]

end Runs

section Readback

structure PulseEntry where
  integralSum : UInt32
  coarseTime : UInt32
  fineTime : UInt32
  pulsePeak : UInt32
  chan : UInt32
  slot : UInt32
  rocid : UInt32
  deriving DecidableEq, Repr

def PulseEntry.of (hit : FADC250PulseHit) : PulseEntry where
  integralSum := hit.integralSum
  coarseTime := hit.coarseTime
  fineTime := hit.fineTime
  pulsePeak := hit.pulsePeak
  chan := hit.chan
  slot := hit.slot
  rocid := hit.rocid

structure PulseRecord where
  entries : List PulseEntry
  pedestalSum : UInt32
  pedestalQuality : UInt32
  deriving DecidableEq, Repr

def PulseRecord.of (hits : List FADC250PulseHit) : PulseRecord where
  entries := (counted hits).map PulseEntry.of
  pedestalSum := hits.getLast?.elim 0 FADC250PulseHit.pedestalSum
  pedestalQuality := hits.getLast?.elim 0 FADC250PulseHit.pedestalQuality

/-- Columns that tell two entries apart tell two lists of entries apart. -/
theorem eq_of_columns {H V : Type} (columns : List (H → V))
    (hapart : ∀ hit hit', (∀ column ∈ columns, column hit = column hit') → hit = hit')
    (hsome : columns ≠ []) {hits hits' : List H}
    (h : ∀ column ∈ columns, hits.map column = hits'.map column) : hits = hits' := by
  induction hits generalizing hits' with
  | nil =>
      obtain ⟨column, hmem⟩ := List.exists_mem_of_ne_nil columns hsome
      exact (List.map_eq_nil_iff.mp (h column hmem).symm).symm
  | cons hit hits ih =>
      cases hits' with
      | nil =>
          obtain ⟨column, hmem⟩ := List.exists_mem_of_ne_nil columns hsome
          exact absurd (h column hmem) (List.cons_ne_nil _ _)
      | cons hit' hits' =>
          have hhit : hit = hit' :=
            hapart hit hit' fun column hmem => (List.cons.inj (h column hmem)).1
          have hhits : hits = hits' := ih fun column hmem => (List.cons.inj (h column hmem)).2
          rw [hhit, hhits]

theorem caen1190Row_injective : Function.Injective caen1190Row := by
  intro hits hits' h
  simp only [caen1190Row, CAEN1190Branches.mk.injEq] at h
  refine eq_of_columns [CAEN1190Hit.rocid, CAEN1190Hit.slot, CAEN1190Hit.chan,
    CAEN1190Hit.measurement, CAEN1190Hit.opt, CAEN1190Hit.flags, CAEN1190Hit.trigTime,
    CAEN1190Hit.hdrChipId, CAEN1190Hit.hdrEventId, CAEN1190Hit.hdrBunchId,
    CAEN1190Hit.glbTrlStatus] ?_ (List.cons_ne_nil _ _) (by simp [h])
  intro hit hit' hcolumns
  cases hit
  cases hit'
  simpa using hcolumns

theorem waveformRow_injective : Function.Injective waveformRow := by
  intro samples samples' h
  simp only [waveformRow, WaveformBranches.mk.injEq] at h
  refine eq_of_columns [Sample.slot, Sample.chan, Sample.value, Sample.rocid] ?_
    (List.cons_ne_nil _ _) (by simp [h])
  intro sample sample' hcolumns
  cases sample
  cases sample'
  simpa [and_comm] using hcolumns

theorem map_entry {V : Type} (column : PulseEntry → V) (hits : List FADC250PulseHit) :
    hits.map (fun hit => column (PulseEntry.of hit)) = (hits.map PulseEntry.of).map column := by
  rw [List.map_map]
  rfl

theorem pulseRow_eq_iff (hits hits' : List FADC250PulseHit) :
    pulseRow hits = pulseRow hits' ↔ PulseRecord.of hits = PulseRecord.of hits' := by
  constructor
  · intro h
    simp only [pulseRow, PulseBranches.mk.injEq] at h
    obtain ⟨hintegral, hsum, hcoarse, hfine, hpeak, hquality, -, hchan, hslot, hrocid⟩ := h
    have hentries :
        (counted hits).map PulseEntry.of = (counted hits').map PulseEntry.of := by
      refine eq_of_columns [PulseEntry.integralSum, PulseEntry.coarseTime, PulseEntry.fineTime,
        PulseEntry.pulsePeak, PulseEntry.chan, PulseEntry.slot, PulseEntry.rocid] ?_
        (List.cons_ne_nil _ _) ?_
      · intro entry entry' hcolumns
        cases entry
        cases entry'
        simpa using hcolumns
      · simp only [← map_entry]
        simp [PulseEntry.of, hintegral, hcoarse, hfine, hpeak, hchan, hslot, hrocid]
    rw [PulseRecord.of, PulseRecord.of, hentries, hsum, hquality]
  · intro h
    simp only [PulseRecord.of, PulseRecord.mk.injEq] at h
    obtain ⟨hentries, hsum, hquality⟩ := h
    have hcolumn (column : PulseEntry → UInt32) :
        (counted hits).map (fun hit => column (PulseEntry.of hit)) =
          (counted hits').map fun hit => column (PulseEntry.of hit) := by
      rw [map_entry, map_entry, hentries]
    have hlength := congrArg List.length hentries
    simp only [List.length_map] at hlength
    rw [pulseRow, pulseRow, PulseBranches.mk.injEq]
    exact ⟨hcolumn PulseEntry.integralSum, hsum, hcolumn PulseEntry.coarseTime,
      hcolumn PulseEntry.fineTime, hcolumn PulseEntry.pulsePeak, hquality,
      congrArg Nat.cast hlength, hcolumn PulseEntry.chan, hcolumn PulseEntry.slot,
      hcolumn PulseEntry.rocid⟩

theorem map_eq_map_iff {A B C : Type} {f : A → B} {g : A → C}
    (hfg : ∀ a a', f a = f a' ↔ g a = g a') (l l' : List A) :
    l.map f = l'.map f ↔ l.map g = l'.map g := by
  induction l generalizing l' with
  | nil => cases l' <;> simp
  | cons a l ih => cases l' <;> simp [hfg, ih]

/-- The hits of the TDC can be told from the trees, event by event, and so can the samples with the
place of each, but not where one waveform ends. A row of the pulse tree does not tell which event it
is of. -/
theorem trees_eq_iff (m m' : Members) (events events' : List HitEvent) :
    (events.foldl processSequential ⟨m, {}, []⟩).trees =
        (events'.foldl processSequential ⟨m', {}, []⟩).trees ↔
      (events.map fun event => event.hits .caen1190) =
          (events'.map fun event => event.hits .caen1190) ∧
        (events.map fun event => samples (event.hits .fadc250Waveform)) =
          (events'.map fun event => samples (event.hits .fadc250Waveform)) ∧
        (pulsesWithRow events).map PulseRecord.of = (pulsesWithRow events').map PulseRecord.of ∧
        (events.flatMap fun event => (event.hits .helicityDecoder).map helDec) =
          (events'.flatMap fun event => (event.hits .helicityDecoder).map helDec) := by
  have hcaen := map_eq_map_iff (fun event event' : HitEvent =>
    caen1190Row_injective.eq_iff (a := event.hits .caen1190) (b := event'.hits .caen1190))
    events events'
  have hsamples := map_eq_map_iff (fun event event' : HitEvent =>
    waveformRow_injective.eq_iff (a := samples (event.hits .fadc250Waveform))
      (b := samples (event'.hits .fadc250Waveform))) events events'
  have hpulses := map_eq_map_iff pulseRow_eq_iff (pulsesWithRow events) (pulsesWithRow events')
  rw [(foldl_processSequential events _).1, (foldl_processSequential events' _).1, ← hcaen,
    ← hsamples, ← hpulses]
  simp only [Trees.append, rows, List.nil_append, Trees.mk.injEq]
  tauto

end Readback

end EvioProcessor

end JanaExtensions
