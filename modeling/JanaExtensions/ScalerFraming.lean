import JanaExtensions.Scalers

/-! Banks of FADC scaler records, each a header word and behind it as many counts as the
header says. The parser reads such a bank record by record only if the counts fill the
16 places of a hit. -/

namespace JanaExtensions.FADCScaler

open BitFields

structure Record where
  wordsIdx : BitVec 16
  slot : BitVec 8
  counts : List UInt32
  hlen : counts.length ≤ 16

def Record.header (r : Record) : UInt32 :=
  word [⟨16, r.wordsIdx⟩, ⟨8, r.slot⟩, ⟨8, BitVec.ofNat 8 r.counts.length⟩]

def Record.encode (r : Record) : List UInt32 := r.header :: r.counts

def Record.hit (rocid : UInt32) (r : Record) : FADCScalerHit where
  rocid := rocid
  wordsIdx := UInt32.ofNat r.wordsIdx.toNat
  slot := UInt32.ofNat r.slot.toNat
  ncounts := UInt32.ofNat r.counts.length
  counts := Vector.ofFn fun j => r.counts.getD j 0

/-- A record at whose counts the bank ends, with only some of them present. -/
structure CutRecord where
  record : Record
  present : Nat
  hcut : present < record.counts.length

def CutRecord.encode (c : CutRecord) : List UInt32 :=
  c.record.header :: c.record.counts.take c.present

structure Bank where
  records : List Record
  cut : Option CutRecord

def Bank.encode (bank : Bank) : List UInt32 :=
  bank.records.flatMap Record.encode ++ bank.cut.toList.flatMap CutRecord.encode

/-- The bank gives a hit for each of its records, or is rejected if it ends in a record. -/
def Bank.Framed (rocid : UInt32) (triggerData : TriggerData) (bank : Bank) : Prop :=
  match bank.cut with
  | none => parse rocid triggerData bank.encode =
      .ok [⟨toCInt triggerData.lastEventNumber, [⟨bank.records.map (Record.hit rocid)⟩]⟩]
  | some _ => ∃ message, parse rocid triggerData bank.encode = .error (.jexception message)

section Scalers

variable (rocid : UInt32)

def recordHit (d : UInt32) (following : List UInt32) : FADCScalerHit :=
  { rocid
    wordsIdx := getBitsInRange d 31 16
    slot := getBitsInRange d 15 8
    ncounts := getBitsInRange d 7 0
    counts := Vector.ofFn fun j => following.getD j 0 }

def scalersOf : List UInt32 → List FADCScalerHit
  | [] => []
  | d :: ws => recordHit rocid d ws :: scalersOf (ws.drop 16)
termination_by ws => ws.length

theorem run_parseRecord (ws : List UInt32) (scalers : List FADCScalerHit) :
    WordLoop.run (parseRecord rocid) 0 ws scalers = .ok (scalers ++ scalersOf rocid ws) := by
  fun_induction scalersOf rocid ws generalizing scalers with
  | case1 => rw [WordLoop.run_nil, List.append_nil]
  | case2 d ws ih =>
    have hbody : parseRecord rocid d ws scalers =
        .ok (min 16 ws.length, scalers ++ [recordHit rocid d ws]) := rfl
    have hdrop : ws.drop (min 16 ws.length) = ws.drop 16 := by
      rcases Nat.le_total 16 ws.length with h | h
      · rw [Nat.min_eq_left h]
      · rw [Nat.min_eq_right h, List.drop_length, List.drop_eq_nil_of_le h]
    rw [WordLoop.run_of_body hbody, WordLoop.run_skip, hdrop, ih, List.append_assoc,
      List.singleton_append]

theorem parse_eq (triggerData : TriggerData) (ws : List UInt32) :
    parse rocid triggerData ws =
      .ok [⟨toCInt triggerData.lastEventNumber, [⟨scalersOf rocid ws⟩]⟩] := by
  rw [parse, run_parseRecord, List.nil_append]
  rfl

theorem length_scalersOf (ws : List UInt32) :
    17 * (scalersOf rocid ws).length ≤ ws.length + 16 := by
  fun_induction scalersOf rocid ws with
  | case1 => simp
  | case2 d ws ih =>
    rw [List.length_drop] at ih
    simp only [List.length_cons]
    omega

end Scalers

section Records

variable {rocid : UInt32}

theorem width_header (r : Record) : width [⟨16, r.wordsIdx⟩, ⟨8, r.slot⟩,
    ⟨8, BitVec.ofNat 8 r.counts.length⟩] = 32 := by
  simp

theorem ncounts_header (r : Record) :
    getBitsInRange r.header 7 0 = UInt32.ofNat r.counts.length := by
  have hlen := r.hlen
  rw [Record.header, getBitsInRange_word (width_header r) (by decide) (by decide)
    (by simp [aligned])]
  have hcount : (BitVec.ofNat 8 r.counts.length).toNat = r.counts.length := by
    rw [BitVec.toNat_ofNat, Nat.mod_eq_of_lt (by omega)]
  simp [fieldValue, hcount]

theorem recordHit_header (r : Record) {following : List UInt32}
    (h : ∀ j < 16, following.getD j 0 = r.counts.getD j 0) :
    recordHit rocid r.header following = r.hit rocid := by
  have hcounts : (Vector.ofFn fun j : Fin 16 => following.getD j 0) =
      Vector.ofFn fun j : Fin 16 => r.counts.getD j 0 := by
    congr 1
    funext j
    exact h j j.isLt
  have hidx : getBitsInRange r.header 31 16 = UInt32.ofNat r.wordsIdx.toNat := by
    rw [Record.header, getBitsInRange_word (width_header r) (by decide) (by decide)
      (by simp [aligned])]
    simp [fieldValue]
  have hslot : getBitsInRange r.header 15 8 = UInt32.ofNat r.slot.toNat := by
    rw [Record.header, getBitsInRange_word (width_header r) (by decide) (by decide)
      (by simp [aligned])]
    simp [fieldValue]
  rw [recordHit, Record.hit, hidx, hslot, ncounts_header, hcounts]

theorem length_encode (records : List Record) :
    (records.flatMap Record.encode).length ≤ 17 * records.length := by
  induction records with
  | nil => simp
  | cons r records ih =>
    have hlen := r.hlen
    simp only [List.flatMap_cons, List.length_append, Record.encode, List.length_cons]
    omega

/-- A record without its 16 counts takes the header of the next one for a count, which is
noticed unless that header is zero, and then there are too few hits. -/
theorem scalersOf_short {r next : Record} {records : List Record} (hr : r.counts.length ≠ 16) :
    scalersOf rocid ((r :: next :: records).flatMap Record.encode) ≠
      (r :: next :: records).map (Record.hit rocid) := by
  have hlen := r.hlen
  intro heq
  have hcount := congrArg List.length heq
  simp only [List.flatMap_cons, Record.encode, List.cons_append, List.map_cons] at heq
  rw [scalersOf] at heq
  have hcounts := congrArg FADCScalerHit.counts (List.cons_eq_cons.mp heq).1
  have hlt : r.counts.length < 16 := by omega
  have hplace := congrArg (fun v : Vector UInt32 16 => v[r.counts.length]) hcounts
  simp only [recordHit, Record.hit, Vector.getElem_ofFn] at hplace
  have hzero : next.header = 0 := by simpa using hplace
  have hnone : next.counts.length = 0 := by
    have hn := ncounts_header next
    rw [hzero] at hn
    have hle := next.hlen
    have htoNat := congrArg UInt32.toNat hn
    rw [UInt32.toNat_ofNat_of_lt' (by simp [UInt32.size]; omega)] at htoNat
    exact htoNat.symm
  have hmost := length_scalersOf rocid ((r :: next :: records).flatMap Record.encode)
  have hwords := length_encode records
  rw [hcount] at hmost
  simp only [List.flatMap_cons, List.length_append, Record.encode, List.length_cons,
    List.length_map, hnone] at hmost
  omega

theorem scalersOf_encode_iff (rocid : UInt32) (records : List Record) :
    scalersOf rocid (records.flatMap Record.encode) = records.map (Record.hit rocid) ↔
      ∀ r ∈ records.dropLast, r.counts.length = 16 := by
  induction records with
  | nil => simp [scalersOf]
  | cons r records ih =>
    cases records with
    | nil =>
      have hhit : recordHit rocid r.header r.counts = r.hit rocid := recordHit_header r fun _ _ => rfl
      simp [Record.encode, scalersOf, hhit, List.drop_eq_nil_of_le r.hlen]
    | cons next records =>
      by_cases hr : r.counts.length = 16
      · have hhit : recordHit rocid r.header
            (r.counts ++ (next :: records).flatMap Record.encode) = r.hit rocid :=
          recordHit_header r fun j hj => by
            simp only [List.getD_eq_getElem?_getD, List.getElem?_append_left (hr ▸ hj)]
        have hdrop : (r.counts ++ (next :: records).flatMap Record.encode).drop 16 =
            (next :: records).flatMap Record.encode := List.drop_left' hr
        rw [List.flatMap_cons, Record.encode, List.cons_append, scalersOf, hhit, hdrop,
          List.map_cons, List.cons_eq_cons, ih]
        simp [hr]
      · refine iff_of_false (scalersOf_short hr) fun hall => hr (hall r ?_)
        simp

end Records

/-- A bank is read record by record exactly if it does not end in a record and all its
records but the last have 16 counts. -/
theorem framed_iff (rocid : UInt32) (triggerData : TriggerData) (bank : Bank) :
    bank.Framed rocid triggerData ↔
      bank.cut = none ∧ ∀ r ∈ bank.records.dropLast, r.counts.length = 16 := by
  rw [Bank.Framed, parse_eq]
  cases hcut : bank.cut with
  | none =>
    have hencode : bank.encode = bank.records.flatMap Record.encode := by
      simp [Bank.encode, hcut]
    rw [hencode, ← scalersOf_encode_iff rocid]
    simp
  | some c => simp

/-- Two records of one count each become one hit, and a record without its count is taken
for one with the count zero. -/
theorem not_framed_short :
    ¬ Bank.Framed 5 ⟨1, 1⟩ ⟨[⟨1, 3, [7], by decide⟩, ⟨2, 4, [9], by decide⟩], none⟩ ∧
      ¬ Bank.Framed 5 ⟨1, 1⟩ ⟨[], some ⟨⟨1, 3, [7], by decide⟩, 0, by decide⟩⟩ := by
  constructor
  · rw [Bank.Framed, parse_eq]
    intro h
    have hshort : scalersOf 5 ([⟨1, 3, [7], by decide⟩, ⟨2, 4, [9], by decide⟩].flatMap
        Record.encode) ≠ [⟨1, 3, [7], by decide⟩, ⟨2, 4, [9], by decide⟩].map (Record.hit 5) :=
      scalersOf_short (by decide)
    apply hshort
    simpa [Bank.encode] using h
  · rintro ⟨message, h⟩
    rw [parse_eq] at h
    cases h

end JanaExtensions.FADCScaler
