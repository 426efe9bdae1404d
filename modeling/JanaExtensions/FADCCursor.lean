import JanaExtensions.FramingConformance

/-! The loops of the FADC250 parser that move its index over continuation words: where the index
is when they are done, and what lies between. -/

namespace JanaExtensions.FADC

open Failing

/-- The samples of at most `n` words from the index `k` on, behind those that there are. -/
def waveformSamplesAt (dataWords : List UInt32) :
    Nat → Nat → List UInt32 → Except Fault (List UInt32)
  | 0, _, waveform => .ok waveform
  | n + 1, k, waveform =>
    match dataWords[k]? with
    | none => .ok waveform
    | some ww =>
      if getBitsInRange ww 31 31 ≠ 0 then
        .error (.jexception (name ++ "::parseWaveformData: Invalid data format — " ++
          "lesser words than required for getting all waveform samples"))
      else waveformSamplesAt dataWords n (k + 1) (waveform ++ waveformWordSamples ww)

/-- The index after the waveform, and its hit. -/
def parseWaveformDataAt (dataWords : List UInt32) (index : Nat) (base : FADC250Hit)
    (waveformLen : UInt32) : Except Fault (Nat × FADC250WaveformHit) := do
  let nwaveformWords := ((waveformLen + 1) / 2).toNat
  let waveform ← waveformSamplesAt dataWords nwaveformWords (index + 1) []
  if waveformLen.toNat ≠ waveform.length then
    .error (.jexception (name ++ "::parseWaveformData: Invalid data — " ++
      s!"Header given waveform size ({waveformLen}) != Obtained waveform size ({waveform.length})"))
  else .ok (index + nwaveformWords, { base with waveform })

/-- The index after the pulses, and their hits behind those that there are. Two words are read, and
the index goes back if one of them is no continuation word. -/
def parsePulseDataAt (dataWords : List UInt32) (base : FADC250Hit)
    (pedestalQuality pedestalSum : UInt32) (index : Nat) (pulses : List FADC250PulseHit) :
    Nat × List FADC250PulseHit :=
  if h : index + 2 < dataWords.length then
    let w2 := dataWords[index + 1]
    let w3 := dataWords[index + 2]
    if getBitsInRange w2 31 31 ≠ 0 ∨ getBitsInRange w3 31 31 ≠ 0 then (index + 2 - 2, pulses)
    else parsePulseDataAt dataWords base pedestalQuality pedestalSum (index + 2)
      (pulses ++ [pulseHit base pedestalQuality pedestalSum w2 w3])
  else (index, pulses)
termination_by dataWords.length - index

section Waveform

variable {dataWords : List UInt32} {index : Nat} {base : FADC250Hit} {waveformLen : UInt32}

theorem waveformSamplesAt_eq (n k : Nat) (waveform : List UInt32) :
    waveformSamplesAt dataWords n k waveform =
      (waveformSamples n (dataWords.drop k)).map (waveform ++ ·) := by
  induction n generalizing k waveform with
  | zero => simp [waveformSamplesAt, waveformSamples, Except.map]
  | succ n ih =>
    rw [waveformSamplesAt]
    by_cases hk : k < dataWords.length
    · rw [List.getElem?_eq_getElem hk, List.drop_eq_getElem_cons hk, waveformSamples]
      dsimp only
      split
      · rfl
      · rw [ih]
        cases waveformSamples n (dataWords.drop (k + 1)) with
        | error fault => rfl
        | ok more => simp [Except.map]
    · rw [List.getElem?_eq_none (by omega), List.drop_eq_nil_of_le (by omega), waveformSamples]
      simp [Except.map]

/-- Reading on with an index is reading on in the rest of the words. -/
theorem parseWaveformDataAt_eq (dataWords : List UInt32) (index : Nat) (base : FADC250Hit)
    (waveformLen : UInt32) :
    parseWaveformDataAt dataWords index base waveformLen =
      (parseWaveformData (dataWords.drop (index + 1)) base waveformLen).map fun r =>
        (index + r.1, r.2) := by
  rw [parseWaveformDataAt, parseWaveformData, waveformSamplesAt_eq]
  cases waveformSamples ((waveformLen + 1) / 2).toNat (dataWords.drop (index + 1)) with
  | error fault => rfl
  | ok waveform =>
    simp only [Except.map, List.nil_append, bind_ok]
    split <;> rfl

theorem waveformSamples_eq_ok {n : Nat} {following waveform : List UInt32} :
    waveformSamples n following = .ok waveform ↔
      (∀ ww ∈ following.take n, getBitsInRange ww 31 31 = 0) ∧
        waveform = (following.take n).flatMap waveformWordSamples := by
  induction n generalizing following waveform with
  | zero => simp [waveformSamples, eq_comm]
  | succ n ih =>
    cases following with
    | nil => simp [waveformSamples, eq_comm]
    | cons ww following =>
      rw [waveformSamples, ite_error_eq_ok, List.take_succ_cons, List.forall_mem_cons,
        List.flatMap_cons, bind_eq_ok]
      simp only [ih, ne_eq, not_not, Except.ok.injEq]
      constructor
      · rintro ⟨hww, -, ⟨hrest, rfl⟩, rfl⟩
        exact ⟨⟨hww, hrest⟩, rfl⟩
      · rintro ⟨⟨hww, hrest⟩, rfl⟩
        exact ⟨hww, _, ⟨hrest, rfl⟩, rfl⟩

theorem length_waveformWordSamples_le (ww : UInt32) : (waveformWordSamples ww).length ≤ 2 := by
  rw [waveformWordSamples, List.length_append]
  split <;> split <;> simp

theorem length_flatMap_waveformWordSamples_le (words : List UInt32) :
    (words.flatMap waveformWordSamples).length ≤ 2 * words.length := by
  induction words with
  | nil => simp
  | cons ww words ih =>
    have hww := length_waveformWordSamples_le ww
    rw [List.flatMap_cons, List.length_append, List.length_cons]
    omega

theorem nwaveformWords_eq (hlen : waveformLen ≠ 0xFFFFFFFF) :
    ((waveformLen + 1) / 2).toNat = (waveformLen.toNat + 1) / 2 := by
  have hlt := waveformLen.toNat_lt
  have hne : waveformLen.toNat ≠ 0xFFFFFFFF := fun h => hlen (UInt32.toNat_inj.mp h)
  have hadd : (waveformLen + 1).toNat = waveformLen.toNat + 1 := by
    rw [UInt32.toNat_add]
    exact Nat.mod_eq_of_lt (by change waveformLen.toNat + 1 < 2 ^ 32; omega)
  rw [UInt32.toNat_div, hadd]
  rfl

/-- The words of the waveform are all there, or else too few samples have been read. -/
theorem parseWaveformDataAt_eq_ok (hindex : index < dataWords.length)
    (hlen : waveformLen ≠ 0xFFFFFFFF) {r : Nat × FADC250WaveformHit} :
    parseWaveformDataAt dataWords index base waveformLen = .ok r ↔
      index + (waveformLen.toNat + 1) / 2 < dataWords.length ∧
      (∀ ww ∈ (dataWords.drop (index + 1)).take ((waveformLen.toNat + 1) / 2),
        getBitsInRange ww 31 31 = 0) ∧
      (((dataWords.drop (index + 1)).take ((waveformLen.toNat + 1) / 2)).flatMap
        waveformWordSamples).length = waveformLen.toNat ∧
      r = (index + (waveformLen.toNat + 1) / 2, { base with
        waveform := ((dataWords.drop (index + 1)).take ((waveformLen.toNat + 1) / 2)).flatMap
          waveformWordSamples }) := by
  have hbound := length_flatMap_waveformWordSamples_le
    ((dataWords.drop (index + 1)).take ((waveformLen.toNat + 1) / 2))
  rw [List.length_take, List.length_drop] at hbound
  rw [parseWaveformDataAt_eq, map_eq_ok, parseWaveformData, nwaveformWords_eq hlen]
  simp only [bind_eq_ok, ite_error_eq_ok, waveformSamples_eq_ok, ne_eq, not_not, Except.ok.injEq]
  constructor
  · rintro ⟨-, ⟨-, ⟨hwords, rfl⟩, hsize, rfl⟩, rfl⟩
    exact ⟨by omega, hwords, hsize.symm, rfl⟩
  · rintro ⟨-, hwords, hsize, rfl⟩
    exact ⟨_, ⟨_, ⟨hwords, rfl⟩, hsize.symm, rfl⟩, rfl⟩

theorem parseWaveformDataAt_error {fault : Fault}
    (h : parseWaveformDataAt dataWords index base waveformLen = .error fault) :
    ∃ message, fault = .jexception message := by
  rw [parseWaveformDataAt_eq, parseWaveformData] at h
  cases hs : waveformSamples ((waveformLen + 1) / 2).toNat (dataWords.drop (index + 1)) with
  | error fault' =>
    obtain ⟨message, rfl⟩ := waveformSamples_error hs
    rw [hs] at h
    exact ⟨message, (Except.error.inj h).symm⟩
  | ok waveform =>
    rw [hs, bind_ok] at h
    split at h
    · exact ⟨_, (Except.error.inj h).symm⟩
    · cases h

end Waveform

/-- The index has moved over continuation words only, and is still in the list. -/
structure Moved (dataWords : List UInt32) (index index' : Nat) : Prop where
  le : index ≤ index'
  lt_length : index' < dataWords.length
  continues : ∀ k ww, index < k → k ≤ index' → dataWords[k]? = some ww →
    getBitsInRange ww 31 31 = 0

/-- Both words behind the index are there and continue the word in front of them. -/
def PairAt (dataWords : List UInt32) (index : Nat) (w2 w3 : UInt32) : Prop :=
  dataWords[index + 1]? = some w2 ∧ dataWords[index + 2]? = some w3 ∧
    getBitsInRange w2 31 31 = 0 ∧ getBitsInRange w3 31 31 = 0

section Pulses

variable {dataWords : List UInt32} {base : FADC250Hit} {pedestalQuality pedestalSum : UInt32}

theorem Moved.refl {index : Nat} (h : index < dataWords.length) : Moved dataWords index index :=
  ⟨le_rfl, h, fun k _ hlt hle => by omega⟩

theorem PairAt.moved {index index' : Nat} {w2 w3 : UInt32} (hpair : PairAt dataWords index w2 w3)
    (h : Moved dataWords (index + 2) index') : Moved dataWords index index' := by
  obtain ⟨h2, h3, hc2, hc3⟩ := hpair
  refine ⟨by have := h.le; omega, h.lt_length, ?_⟩
  intro k ww hlt hle hk
  by_cases hone : k = index + 1
  · subst hone
    obtain rfl := Option.some.inj (h2.symm.trans hk)
    exact hc2
  · by_cases htwo : k = index + 2
    · subst htwo
      obtain rfl := Option.some.inj (h3.symm.trans hk)
      exact hc3
    · exact h.continues k ww (by omega) hle hk

/-- The pulses of leading pairs of words, up to the first index without such a pair. -/
inductive LeadingPairs (dataWords : List UInt32) (base : FADC250Hit)
    (pedestalQuality pedestalSum : UInt32) : Nat → Nat → List FADC250PulseHit → Prop
  | done {index : Nat} (h : ∀ w2 w3, ¬ PairAt dataWords index w2 w3) :
    LeadingPairs dataWords base pedestalQuality pedestalSum index index []
  | pair {index index' : Nat} {w2 w3 : UInt32} {pulses : List FADC250PulseHit}
    (h : PairAt dataWords index w2 w3)
    (more : LeadingPairs dataWords base pedestalQuality pedestalSum (index + 2) index' pulses) :
    LeadingPairs dataWords base pedestalQuality pedestalSum index index'
      (pulseHit base pedestalQuality pedestalSum w2 w3 :: pulses)

theorem LeadingPairs.index_eq {index index' : Nat} {pulses : List FADC250PulseHit}
    (h : LeadingPairs dataWords base pedestalQuality pedestalSum index index' pulses) :
    index' = index + 2 * pulses.length := by
  induction h with
  | done => simp
  | pair _ _ ih =>
    rw [ih, List.length_cons]
    omega

theorem LeadingPairs.moved {index index' : Nat} {pulses : List FADC250PulseHit}
    (h : LeadingPairs dataWords base pedestalQuality pedestalSum index index' pulses)
    (hindex : index < dataWords.length) : Moved dataWords index index' := by
  induction h with
  | done => exact .refl hindex
  | pair hpair _ ih =>
    obtain ⟨hlt, -⟩ := List.getElem?_eq_some_iff.mp hpair.2.1
    exact hpair.moved (ih hlt)

variable (dataWords base pedestalQuality pedestalSum) in
theorem parsePulseDataAt_leadingPairs (index : Nat) (pulses : List FADC250PulseHit) :
    ∃ hits, (parsePulseDataAt dataWords base pedestalQuality pedestalSum index pulses).2 =
        pulses ++ hits ∧
      LeadingPairs dataWords base pedestalQuality pedestalSum index
        (parsePulseDataAt dataWords base pedestalQuality pedestalSum index pulses).1 hits := by
  fun_induction parsePulseDataAt dataWords base pedestalQuality pedestalSum index pulses with
  | case1 index pulses hmore w2 w3 hframing =>
    refine ⟨[], (List.append_nil _).symm, .done fun w2' w3' hpair => ?_⟩
    obtain ⟨h2, h3, hc2, hc3⟩ := hpair
    rw [List.getElem?_eq_getElem (by omega)] at h2 h3
    obtain rfl := Option.some.inj h2
    obtain rfl := Option.some.inj h3
    exact hframing.elim (absurd hc2) (absurd hc3)
  | case2 index pulses hmore w2 w3 hboth ih =>
    obtain ⟨hits, hpulses, hpairs⟩ := ih
    rw [not_or, not_not, not_not] at hboth
    have hpair : PairAt dataWords index w2 w3 :=
      ⟨List.getElem?_eq_getElem _, List.getElem?_eq_getElem _, hboth.1, hboth.2⟩
    exact ⟨_, by rw [hpulses, List.append_assoc, List.singleton_append], .pair hpair hpairs⟩
  | case3 index pulses hend =>
    refine ⟨[], (List.append_nil _).symm, .done fun w2 w3 hpair => ?_⟩
    obtain ⟨-, h3, -⟩ := hpair
    obtain ⟨hlt, -⟩ := List.getElem?_eq_some_iff.mp h3
    exact hend hlt

theorem drop_pair {index : Nat} (h : index + 2 < dataWords.length) :
    dataWords.drop (index + 1) =
      dataWords[index + 1] :: dataWords[index + 2] :: dataWords.drop (index + 2 + 1) := by
  rw [List.drop_eq_getElem_cons (by omega), List.drop_eq_getElem_cons (by omega)]

theorem parsePulseData_of_length_lt {words : List UInt32} (h : words.length < 2) :
    parsePulseData base pedestalQuality pedestalSum words = [] := by
  rw [parsePulseData]
  rintro w2 w3 following rfl
  simp only [List.length_cons] at h
  omega

/-- Reading on with an index is reading on in the rest of the words. -/
theorem parsePulseDataAt_eq (index : Nat) (pulses : List FADC250PulseHit) :
    parsePulseDataAt dataWords base pedestalQuality pedestalSum index pulses =
      (index + 2 * (parsePulseData base pedestalQuality pedestalSum
          (dataWords.drop (index + 1))).length,
        pulses ++ parsePulseData base pedestalQuality pedestalSum
          (dataWords.drop (index + 1))) := by
  fun_induction parsePulseDataAt dataWords base pedestalQuality pedestalSum index pulses with
  | case1 index pulses hmore w2 w3 hframing =>
    rw [drop_pair hmore, parsePulseData, if_pos hframing]
    simp
  | case2 index pulses hmore w2 w3 hboth ih =>
    rw [ih, drop_pair hmore, parsePulseData, if_neg hboth]
    simp only [List.length_cons, List.append_assoc, List.singleton_append]
    congr 1
    omega
  | case3 index pulses hend =>
    have hlength : (dataWords.drop (index + 1)).length < 2 := by
      rw [List.length_drop]
      omega
    rw [parsePulseData_of_length_lt hlength]
    simp

end Pulses

theorem parseWaveformDataAt_moved {dataWords : List UInt32} {index : Nat} {base : FADC250Hit}
    {waveformLen : UInt32} (hindex : index < dataWords.length) (hlen : waveformLen ≠ 0xFFFFFFFF)
    {r : Nat × FADC250WaveformHit}
    (h : parseWaveformDataAt dataWords index base waveformLen = .ok r) :
    Moved dataWords index r.1 := by
  obtain ⟨hlt, hwords, -, rfl⟩ := (parseWaveformDataAt_eq_ok hindex hlen).mp h
  refine ⟨Nat.le_add_right _ _, hlt, fun k ww hk hle hget => hwords ww ?_⟩
  dsimp only at hle
  refine List.mem_of_getElem? (i := k - (index + 1)) ?_
  rw [List.getElem?_take_of_lt (by omega), List.getElem?_drop]
  rw [← hget]
  congr 1
  omega

/-- A length that a header word declares has twelve bits. -/
theorem declaredLength_ne (d : UInt32) : getBitsInRange d 11 0 ≠ 0xFFFFFFFF := by
  intro h
  have hlt : (getBitsInRange d 11 0).toNat < 2 ^ 12 := by
    rw [toNat_getBitsInRange d (by decide) (by decide) (by decide)]
    exact Nat.mod_lt _ (by decide)
  rw [h] at hlt
  revert hlt
  decide

/-- After a waveform the main loop goes on behind continuation words. -/
theorem waveformData_moved {dataWords : List UInt32} {index : Nat}
    (hindex : index < dataWords.length) {rocid d : UInt32} {s s' : State} {used : Nat}
    (h : waveformData rocid d (dataWords.drop (index + 1)) s = .ok (used, s')) :
    Moved dataWords index (index + used) := by
  obtain ⟨-, -, h⟩ := bind_eq_ok.mp h
  obtain ⟨⟨used', hit⟩, hparse, h⟩ := bind_eq_ok.mp h
  obtain ⟨t, -, h⟩ := bind_eq_ok.mp h
  obtain ⟨rfl, -⟩ := Prod.mk.inj (Except.ok.inj h)
  have hat := parseWaveformDataAt_eq dataWords index
    (hitBase rocid (getBitsInRange d 26 23) s) (getBitsInRange d 11 0)
  rw [hparse] at hat
  exact parseWaveformDataAt_moved hindex (declaredLength_ne d) hat

theorem pulseRawData_moved {dataWords : List UInt32} {index : Nat}
    (hindex : index < dataWords.length) {rocid d : UInt32} {s s' : State} {used : Nat}
    (h : pulseRawData rocid d (dataWords.drop (index + 1)) s = .ok (used, s')) :
    Moved dataWords index (index + used) := by
  obtain ⟨-, -, h⟩ := bind_eq_ok.mp h
  obtain ⟨t, -, h⟩ := bind_eq_ok.mp h
  obtain ⟨rfl, -⟩ := Prod.mk.inj (Except.ok.inj h)
  obtain ⟨hits, -, hpairs⟩ := parsePulseDataAt_leadingPairs dataWords
    (hitBase rocid (getBitsInRange d 18 15) s) (getBitsInRange d 14 14) (getBitsInRange d 13 0)
    index []
  rw [parsePulseDataAt_eq] at hpairs
  exact hpairs.moved hindex

/-- The loops read the words that continue the one at the index: a waveform if all of them are
there and hold as many samples as declared, pulses as far as there are pairs. The length comes
from a field of twelve bits; only the largest number of 32 bits would overflow. -/
theorem continuation_cursor {dataWords : List UInt32} {index : Nat} {waveformLen : UInt32}
    (hindex : index < dataWords.length) (hlen : waveformLen ≠ 0xFFFFFFFF) (base : FADC250Hit)
    (pedestalQuality pedestalSum : UInt32) :
    let words := (dataWords.drop (index + 1)).take ((waveformLen.toNat + 1) / 2)
    let samples := words.flatMap waveformWordSamples
    ((∃ r, parseWaveformDataAt dataWords index base waveformLen = .ok r) ↔
      index + (waveformLen.toNat + 1) / 2 < dataWords.length ∧
        (∀ ww ∈ words, getBitsInRange ww 31 31 = 0) ∧ samples.length = waveformLen.toNat) ∧
    (∀ r, parseWaveformDataAt dataWords index base waveformLen = .ok r →
      r = (index + (waveformLen.toNat + 1) / 2, { base with waveform := samples }) ∧
        Moved dataWords index r.1) ∧
    (∀ fault, parseWaveformDataAt dataWords index base waveformLen = .error fault →
      ∃ message, fault = .jexception message) ∧
    (∃ index' pulses,
      parsePulseDataAt dataWords base pedestalQuality pedestalSum index [] = (index', pulses) ∧
        LeadingPairs dataWords base pedestalQuality pedestalSum index index' pulses ∧
        index' = index + 2 * pulses.length ∧ Moved dataWords index index') ∧
    ∀ rocid d s used s', waveformData rocid d (dataWords.drop (index + 1)) s = .ok (used, s') ∨
      pulseRawData rocid d (dataWords.drop (index + 1)) s = .ok (used, s') →
        Moved dataWords index (index + used) := by
  intro words samples
  refine ⟨?_, ?_, fun fault => parseWaveformDataAt_error, ?_, ?_⟩
  · simp only [parseWaveformDataAt_eq_ok hindex hlen, exists_and_left, exists_eq, and_true]
    rfl
  · intro r h
    exact ⟨((parseWaveformDataAt_eq_ok hindex hlen).mp h).2.2.2,
      parseWaveformDataAt_moved hindex hlen h⟩
  · obtain ⟨hits, hpulses, hpairs⟩ :=
      parsePulseDataAt_leadingPairs dataWords base pedestalQuality pedestalSum index []
    exact ⟨_, hits, Prod.ext rfl hpulses, hpairs, hpairs.index_eq, hpairs.moved hindex⟩
  · intro rocid d s used s' h
    exact h.elim (waveformData_moved hindex) (pulseRawData_moved hindex)

/-- A waveform of three samples in two words, and a trailer behind it. -/
theorem continuation_cursor_threeSamples :
    ∃ r, parseWaveformDataAt [0xA0000003, 0x00050007, 0x00092000, 0x88000005] 0
      ⟨1, 0, 0, 9, 4, 0, 0⟩ 3 = .ok r :=
  (continuation_cursor (by decide) (by decide) ⟨1, 0, 0, 9, 4, 0, 0⟩ 0 0).1.mpr
    ⟨by decide, List.forall_mem_cons.mpr ⟨by decide, List.forall_mem_singleton.mpr (by decide)⟩,
      by decide⟩

end JanaExtensions.FADC
