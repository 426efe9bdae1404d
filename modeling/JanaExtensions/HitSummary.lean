import JanaExtensions.EventCollections
import JanaExtensions.SelfDelimiting

/-! The text file of the event processor, with a summary of the hits of each event. The number of
each event that has a summary, and all that is printed of its hits, can be told from the file. -/

namespace JanaExtensions

structure HitEvent where
  eventNumber : UInt64
  hits : (t : RawHitType) → List t.Hit

def HitEvent.ofChild (child : JEvent EventHits) : HitEvent :=
  ⟨child.eventNumber, fun t => child.inserted.flatMap fun container => container.collection t⟩

namespace HitSummary

open SelfDelimiting

/-- The names and the values of the members of a hit that are printed. -/
abbrev Fields := List (String × Int)

def writeField (field : String × Int) : String := " " ++ field.1 ++ "=" ++ toString field.2

def writeFields (fields : Fields) : String := String.join (fields.map writeField)

def hitLine (label : String) (fields : Fields) (tail : String) : String :=
  "    " ++ label ++ writeFields fields ++ tail ++ "\n"

def commas (values : List UInt32) : String :=
  ",".intercalate (values.map fun value => toString value.toNat)

def ofUInt32 (value : UInt32) : Int := value.toNat

/-- The conversion `(int)`. -/
def asInt (value : UInt32) : Int := Int.bmod value.toNat (2 ^ 32)

/-- The part of the summary for one hit type. `tail` is what is printed of a hit behind its
fields. -/
structure Part (H : Type) where
  title : String
  absent : String
  label : String
  fields : H → Fields
  tail : H → String := fun _ => ""

namespace Part

variable {H : Type}

def line (part : Part H) (hit : H) : String := hitLine part.label (part.fields hit) (part.tail hit)

def write (part : Part H) (hits : List H) : String :=
  if hits = [] then "  " ++ part.absent ++ "\n"
  else "  " ++ part.title ++ ": " ++ toString hits.length ++ "\n" ++ String.join (hits.map part.line)

end Part

def caen1190 : Part CAEN1190Hit where
  title := "CAEN1190 hits"
  absent := "No CAEN1190hit in this event"
  label := "CAEN1190"
  fields hit := [("rocid", ofUInt32 hit.rocid), ("slot", ofUInt32 hit.slot),
    ("chan", ofUInt32 hit.chan), ("measurement", ofUInt32 hit.measurement),
    ("opt", ofUInt32 hit.opt), ("flags", ofUInt32 hit.flags),
    ("trig_time", ofUInt32 hit.trigTime), ("hdr_chip_id", ofUInt32 hit.hdrChipId),
    ("hdr_event_id", ofUInt32 hit.hdrEventId), ("hdr_bunch_id", ofUInt32 hit.hdrBunchId),
    ("trl_status", ofUInt32 hit.glbTrlStatus)]

def waveform : Part FADC250WaveformHit where
  title := "Waveform hits"
  absent := "No FADC250 waveform hits in this event"
  label := "WF"
  fields hit := [("rocid", ofUInt32 hit.rocid), ("slot", ofUInt32 hit.slot),
    ("chan", ofUInt32 hit.chan), ("nsamples", hit.waveform.length)]

def pulse : Part FADC250PulseHit where
  title := "Pulse hits"
  absent := "No FADC250 pulse hits in this event"
  label := "PULSE"
  fields hit := [("rocid", ofUInt32 hit.rocid), ("slot", ofUInt32 hit.slot),
    ("chan", ofUInt32 hit.chan), ("integral_sum", ofUInt32 hit.integralSum)]

/-- The counts that a record announces, of which there are 16 at most. -/
def fadcScaler : Part FADCScalerHit where
  title := "FADC scaler hits"
  absent := "No FADCScalerHit objects in this event"
  label := "SCALER"
  fields hit := [("rocid", ofUInt32 hit.rocid), ("slot", ofUInt32 hit.slot),
    ("ncounts", ofUInt32 hit.ncounts)]
  tail hit := " counts=" ++ commas (hit.counts.toList.take hit.ncounts.toNat)

def tiScaler : Part TIScalerHit where
  title := "TI scaler hits"
  absent := "No TIScalerHit objects in this event"
  label := "TISCALER"
  fields hit := [("rocid", ofUInt32 hit.rocid), ("slot", ofUInt32 hit.slot),
    ("nwords", ofUInt32 hit.nscalerwords), ("live_time", ofUInt32 hit.liveTime),
    ("busy_time", ofUInt32 hit.busyTime),
    ("ts_inputs_before_busy", ofUInt32 hit.tsInputsBeforeBusy)]

def mpd : Part MPDHit where
  title := "MPD hits"
  absent := "No MPDHit objects in this event"
  label := "MPD"
  fields hit := [("rocid", ofUInt32 hit.rocid), ("slot", ofUInt32 hit.slot),
    ("trigger_num", ofUInt32 hit.triggerNum), ("trigger_time", hit.triggerTime.toNat),
    ("mpd_id", asInt hit.mpdId), ("fiber_id", asInt hit.fiberId),
    ("apv_channel", asInt hit.apvChannel), ("apv_id", asInt hit.apvId)]
  tail hit := " apv_samples=[" ++ commas hit.apvSamples.toList ++ "]"

def vftdc : Part VFTDCHit where
  title := "VFTDC hits"
  absent := "No VFTDCHit objects in this event"
  label := "VFTDC"
  fields hit := [("rocid", ofUInt32 hit.rocid), ("slot", ofUInt32 hit.slot),
    ("board_id", ofUInt32 hit.boardId), ("timestamp", hit.timestamp.toNat),
    ("group_num", ofUInt32 hit.groupNum), ("channel_num", ofUInt32 hit.channelNum),
    ("edge_type", ofUInt32 hit.edgeType), ("coarse_time", ofUInt32 hit.coarseTime),
    ("fine_time", ofUInt32 hit.fineTime), ("two_ns", ofUInt32 hit.twoNs)]

def hallBPulseIntegral : Part FADC250HallBPulseIntegralHit where
  title := "HallB pulse integral hits"
  absent := "No HallB pulse integral hits in this event"
  label := "HALLB_INTEGRAL"
  fields hit := [("slot", ofUInt32 hit.slot), ("chan", ofUInt32 hit.chan),
    ("pulse_number", ofUInt32 hit.pulseNumber), ("pulse_integral", ofUInt32 hit.pulseIntegral)]

def hallBPulseTime : Part FADC250HallBPulseTimeHit where
  title := "HallB pulse time hits"
  absent := "No HallB pulse time hits in this event"
  label := "HALLB_TIME"
  fields hit := [("slot", ofUInt32 hit.slot), ("chan", ofUInt32 hit.chan),
    ("pulse_number", ofUInt32 hit.pulseNumber),
    ("measurement_quality_factor", ofUInt32 hit.measurementQualityFactor),
    ("coarse_pulse_time", ofUInt32 hit.coarsePulseTime),
    ("fine_pulse_time", ofUInt32 hit.finePulseTime)]

def hallBPulsePeak : Part FADC250HallBPulsePeakHit where
  title := "HallB pulse peak hits"
  absent := "No HallB pulse peak hits in this event"
  label := "HALLB_PEAK"
  fields hit := [("slot", ofUInt32 hit.slot), ("chan", ofUInt32 hit.chan),
    ("pulse_number", ofUInt32 hit.pulseNumber), ("Vmin", ofUInt32 hit.vmin),
    ("Vpeak", ofUInt32 hit.vpeak)]

/-- The hit types with a part of the summary, in its order. -/
inductive Summarized where
  | caen1190
  | waveform
  | pulse
  | fadcScaler
  | tiScaler
  | mpd
  | vftdc
  | hallBPulseIntegral
  | hallBPulseTime
  | hallBPulsePeak
  deriving DecidableEq

namespace Summarized

def type : Summarized → RawHitType
  | caen1190 => .caen1190
  | waveform => .fadc250Waveform
  | pulse => .fadc250Pulse
  | fadcScaler => .fadcScaler
  | tiScaler => .tiScaler
  | mpd => .mpd
  | vftdc => .vftdc
  | hallBPulseIntegral => .fadc250HallBPulseIntegral
  | hallBPulseTime => .fadc250HallBPulseTime
  | hallBPulsePeak => .fadc250HallBPulsePeak

def part : (s : Summarized) → Part s.type.Hit
  | caen1190 => HitSummary.caen1190
  | waveform => HitSummary.waveform
  | pulse => HitSummary.pulse
  | fadcScaler => HitSummary.fadcScaler
  | tiScaler => HitSummary.tiScaler
  | mpd => HitSummary.mpd
  | vftdc => HitSummary.vftdc
  | hallBPulseIntegral => HitSummary.hallBPulseIntegral
  | hallBPulseTime => HitSummary.hallBPulseTime
  | hallBPulsePeak => HitSummary.hallBPulsePeak

def all : List Summarized :=
  [caen1190, waveform, pulse, fadcScaler, tiScaler, mpd, vftdc, hallBPulseIntegral,
    hallBPulseTime, hallBPulsePeak]

end Summarized

def hasHits (event : HitEvent) : Bool := Summarized.all.any fun s => !(event.hits s.type).isEmpty

def summary (event : HitEvent) : String :=
  "Event " ++ toString event.eventNumber.toNat ++ "\n" ++
    String.join (Summarized.all.map fun s => s.part.write (event.hits s.type)) ++ "\n"

/-- An event without hits is left out. -/
def writeEvent (event : HitEvent) : String := if hasHits event then summary event else ""

def text (events : List HitEvent) : String := String.join (events.map writeEvent)

def Part.printed {H : Type} (part : Part H) (hit : H) : Fields × String :=
  (part.fields hit, part.tail hit)

def printed (event : HitEvent) : UInt64 × (Summarized → List (Fields × String)) :=
  (event.eventNumber, fun s => (event.hits s.type).map s.part.printed)

section Numbers

def isNumeric (c : Char) : Bool := c.isDigit || c == '-'

theorem isNumeric_of_mem_repr {n : Nat} : ∀ c ∈ n.repr.toList, c.isDigit = true := by
  intro c hc
  rw [Nat.toList_repr] at hc
  exact Nat.isDigit_of_mem_toDigits (by decide) (by decide) hc

theorem isNumeric_of_mem_toString (n : Int) : ∀ c ∈ (toString n).toList, isNumeric c = true := by
  intro c hc
  rw [Int.toString_eq_repr, Int.repr_eq_if] at hc
  split at hc
  · simp [isNumeric, isNumeric_of_mem_repr c hc]
  · rw [String.toList_append] at hc
    rcases List.mem_append.mp hc with hc | hc
    · obtain rfl := List.mem_singleton.mp hc
      rfl
    · simp [isNumeric, isNumeric_of_mem_repr c hc]

theorem repr_injective : Function.Injective Nat.repr := by
  intro m n h
  have hdigits := congrArg String.toList h
  rw [Nat.toList_repr, Nat.toList_repr] at hdigits
  rw [← Nat.ofDigitChars_ten_toDigits (n := m), hdigits, Nat.ofDigitChars_ten_toDigits]

theorem minus_repr_ne {m n : Nat} : "-" ++ m.repr ≠ n.repr := by
  intro h
  have hminus := isNumeric_of_mem_repr (n := n) '-' (by rw [← h]; simp)
  exact absurd hminus (by decide)

theorem toString_injective : Function.Injective (toString : Int → String) := by
  intro m n h
  rw [Int.toString_eq_repr, Int.toString_eq_repr, Int.repr_eq_if, Int.repr_eq_if] at h
  by_cases hm : 0 ≤ m <;> by_cases hn : 0 ≤ n <;> simp only [hm, hn, if_true, if_false] at h
  · have heq := repr_injective h
    omega
  · exact absurd h.symm minus_repr_ne
  · exact absurd h minus_repr_ne
  · have heq := repr_injective (String.append_right_inj "-" |>.mp h)
    omega

/-- A number ends where no digit follows. -/
theorem number_append {m n : Int} {rest rest' : List Char} (hrest : Ends isNumeric rest)
    (hrest' : Ends isNumeric rest')
    (h : (toString m).toList ++ rest = (toString n).toList ++ rest') : m = n ∧ rest = rest' := by
  obtain ⟨hnumber, hrest⟩ := eq_of_append_ends (isNumeric_of_mem_toString m)
    (isNumeric_of_mem_toString n) hrest hrest' h
  exact ⟨toString_injective (String.toList_injective hnumber), hrest⟩

end Numbers

section Lines

theorem toList_writeField (field : String × Int) : (writeField field).toList =
    ' ' :: (field.1.toList ++ '=' :: (toString field.2).toList) := by
  simp [writeField]

theorem toList_writeFields_cons (field : String × Int) (fields : Fields) :
    (writeFields (field :: fields)).toList =
      (writeField field).toList ++ (writeFields fields).toList := by
  simp [writeFields]

theorem ends_writeFields (fields : Fields) {rest : List Char} (hrest : Ends isNumeric rest) :
    Ends isNumeric ((writeFields fields).toList ++ rest) := by
  cases fields with
  | nil => exact hrest
  | cons field fields =>
    rw [toList_writeFields_cons, toList_writeField]
    exact ends_cons (by decide) _

theorem writeFields_append {fields fields' : Fields} {rest rest' : List Char}
    (hnames : fields.map Prod.fst = fields'.map Prod.fst) (hrest : Ends isNumeric rest)
    (hrest' : Ends isNumeric rest')
    (h : (writeFields fields).toList ++ rest = (writeFields fields').toList ++ rest') :
    fields = fields' ∧ rest = rest' := by
  induction fields generalizing fields' with
  | nil =>
    obtain rfl := List.map_eq_nil_iff.mp hnames.symm
    exact ⟨rfl, h⟩
  | cons field fields ih =>
    cases fields' with
    | nil => cases hnames
    | cons field' fields' =>
      obtain ⟨hname, htails⟩ := List.cons.inj hnames
      obtain ⟨name, value⟩ := field
      obtain ⟨name', value'⟩ := field'
      obtain rfl : name = name' := hname
      rw [toList_writeFields_cons, toList_writeFields_cons, toList_writeField, toList_writeField,
        List.cons_append, List.cons_append, List.cons_append, List.cons_append] at h
      have hbehindBlank := (List.cons.inj h).2
      simp only [List.append_assoc, List.cons_append] at hbehindBlank
      have hvalues := (List.cons.inj (List.append_cancel_left hbehindBlank)).2
      obtain ⟨rfl, hbehind⟩ := number_append (ends_writeFields fields hrest)
        (ends_writeFields fields' hrest') hvalues
      obtain ⟨rfl, heq⟩ := ih htails hbehind
      exact ⟨rfl, heq⟩

/-- What is printed of a hit can be told from its line. -/
structure Part.Regular {H : Type} (part : Part H) : Prop where
  same : ∀ x y, (part.fields x).map Prod.fst = (part.fields y).map Prod.fst
  newline : ∀ hit, ∀ name ∈ (part.fields hit).map Prod.fst, '\n' ∉ name.toList
  tail : ∀ hit, Ends isNumeric (part.tail hit).toList
  newline_label : '\n' ∉ part.label.toList
  newline_tail : ∀ hit, '\n' ∉ (part.tail hit).toList
  title : part.title.toList.head? ≠ some 'N'
  absent : part.absent.toList.head? = some 'N'

variable {H : Type} {part : Part H}

theorem newline_toString (n : Int) : '\n' ∉ (toString n).toList := by
  intro h
  exact absurd (isNumeric_of_mem_toString n _ h) (by decide)

theorem newline_writeFields {fields : Fields} (h : ∀ name ∈ fields.map Prod.fst, '\n' ∉ name.toList) :
    '\n' ∉ (writeFields fields).toList := by
  induction fields with
  | nil => simp [writeFields]
  | cons field fields ih =>
    obtain ⟨hname, hnames⟩ := List.forall_mem_cons.mp h
    rw [toList_writeFields_cons, toList_writeField]
    simpa [hname, ih hnames] using newline_toString field.2

def Part.lineText (part : Part H) (hit : H) : List Char :=
  "    ".toList ++ part.label.toList ++ (writeFields (part.fields hit)).toList ++
    (part.tail hit).toList

theorem toList_line (hit : H) : (part.line hit).toList = part.lineText hit ++ ['\n'] := by
  simp [Part.line, hitLine, Part.lineText]

theorem Part.Regular.newline_lineText (h : part.Regular) (hit : H) :
    '\n' ∉ part.lineText hit := by
  have hfields := newline_writeFields (h.newline hit)
  simp [Part.lineText, h.newline_label, hfields, h.newline_tail hit]

theorem Part.Regular.printed_eq (h : part.Regular) {x y : H}
    (heq : part.lineText x = part.lineText y) : part.printed x = part.printed y := by
  simp only [Part.lineText, List.append_assoc] at heq
  obtain ⟨hfields, htail⟩ := writeFields_append (h.same x y) (h.tail x)
    (h.tail y) (List.append_cancel_left (List.append_cancel_left heq))
  exact Prod.ext hfields (String.toList_injective htail)

theorem Part.Regular.tells_line (h : part.Regular) :
    Tells (fun hit => (part.line hit).toList) part.printed := by
  have htells := (tells_terminated '\n' h.newline_lineText).mono fun x y => h.printed_eq
  simpa only [toList_line] using htells

theorem tells_number : Tells (fun n : Nat => (toString n).toList ++ ['\n']) id := by
  have hnewline (n : Nat) : '\n' ∉ (toString n).toList := newline_toString (n : Int)
  refine (tells_terminated '\n' hnewline).mono fun m n heq => ?_
  exact repr_injective (String.toList_injective heq)

theorem toList_write (hits : List H) : (part.write hits).toList =
    if hits = [] then "  ".toList ++ (part.absent.toList ++ ['\n'])
    else "  ".toList ++ ((part.title.toList ++ ": ".toList) ++
      (((toString hits.length).toList ++ ['\n']) ++
        hits.flatMap fun hit => (part.line hit).toList)) := by
  rw [Part.write]
  split
  · simp
  · simp [List.flatMap_map]

theorem Part.Regular.tells_write (h : part.Regular) :
    Tells (fun hits => (part.write hits).toList) fun hits => hits.map part.printed := by
  have hsome : Tells (fun hits : List H => "  ".toList ++ ((part.title.toList ++ ": ".toList) ++
      (((toString hits.length).toList ++ ['\n']) ++
        hits.flatMap fun hit => (part.line hit).toList))) fun hits => hits.map part.printed :=
    ((tells_number.counted h.tells_line).literal _).literal _
  have hnone : Tells (fun _ : List H => "  ".toList ++ (part.absent.toList ++ ['\n']))
      fun _ => ([] : List (Fields × String)) :=
    (tells_const _).mono fun _ _ _ => rfl
  have hboth := hnone.ite (p := fun hits => hits = []) hsome fun x y rest rest' heq => ?_
  · simp only [toList_write]
    refine hboth.mono fun x y hview => ?_
    by_cases hx : x = [] <;> by_cases hy : y = [] <;> simp_all
  · -- The texts differ behind the indentation.
    rw [List.append_assoc, List.append_assoc] at heq
    have hhead := congrArg List.head? (List.append_cancel_left heq)
    obtain ⟨c, title, htitle⟩ : ∃ c title, part.title.toList ++ ": ".toList = c :: title := by
      cases part.title.toList <;> simp
    have hc : c ≠ 'N' := by
      rintro rfl
      cases hlist : part.title.toList with
      | nil => simp [hlist] at htitle
      | cons d ds =>
        rw [hlist] at htitle
        obtain rfl := (List.cons.inj htitle).1
        exact h.title (by rw [hlist]; rfl)
    obtain ⟨ds, habsent⟩ := List.head?_eq_some_iff.mp h.absent
    rw [htitle, habsent] at hhead
    exact hc (Option.some.inj hhead).symm

theorem toList_commas_cons (value : UInt32) (values : List UInt32) :
    (commas (value :: values)).toList = (toString value.toNat).toList ++
      values.flatMap fun value => ',' :: (toString value.toNat).toList := by
  rw [commas, String.toList_intercalate]
  induction values generalizing value with
  | nil => simp
  | cons next values ih =>
    have hnext := ih next
    simp only [List.map_cons, List.intercalate_cons_cons, List.flatMap_cons] at hnext ⊢
    rw [hnext]
    simp

theorem mem_commas {values : List UInt32} {c : Char} (hc : c ∈ (commas values).toList) :
    isNumeric c = true ∨ c = ',' := by
  cases values with
  | nil => simp [commas] at hc
  | cons value values =>
    have hnumber (value : UInt32) : ∀ c ∈ (toString value.toNat).toList, isNumeric c = true :=
      isNumeric_of_mem_toString (value.toNat : Int)
    rw [toList_commas_cons] at hc
    rcases List.mem_append.mp hc with hc | hc
    · exact .inl (hnumber value c hc)
    · obtain ⟨next, -, hc⟩ := List.mem_flatMap.mp hc
      rcases List.mem_cons.mp hc with hc | hc
      · exact .inr hc
      · exact .inl (hnumber next c hc)

theorem newline_commas (values : List UInt32) : '\n' ∉ (commas values).toList := by
  intro h
  rcases mem_commas h with h | h
  · exact absurd h (by decide)
  · exact absurd h (by decide)

theorem ends_separated (values : List UInt32) :
    Ends isNumeric (values.flatMap fun value => ',' :: (toString value.toNat).toList) := by
  cases values with
  | nil => exact fun c hc => by cases hc
  | cons value values => exact ends_cons (by decide) _

theorem separated_injective {values values' : List UInt32}
    (h : (values.flatMap fun value => ',' :: (toString value.toNat).toList) =
      values'.flatMap fun value => ',' :: (toString value.toNat).toList) : values = values' := by
  induction values generalizing values' with
  | nil =>
    cases values' with
    | nil => rfl
    | cons => cases h
  | cons value values ih =>
    cases values' with
    | nil => cases h
    | cons value' values' =>
      obtain ⟨hvalue, hrest⟩ := number_append (m := value.toNat) (n := value'.toNat)
        (ends_separated values) (ends_separated values') (List.cons.inj h).2
      obtain rfl : value = value' := UInt32.toNat.inj (by exact_mod_cast hvalue)
      rw [ih hrest]

theorem commas_injective : Function.Injective commas := by
  intro values values' h
  have hne (value : UInt32) (values : List UInt32) : commas (value :: values) ≠ commas [] := by
    intro h
    have hlength := congrArg (fun s => s.toList.length) h
    have hpos : 0 < (toString value.toNat).toList.length := by
      simp [Nat.length_toDigits_pos]
    simp only [toList_commas_cons, List.length_append] at hlength
    simp only [commas, List.map_nil, String.intercalate_nil, String.toList_empty,
      List.length_nil] at hlength
    omega
  cases values with
  | nil =>
    cases values' with
    | nil => rfl
    | cons value' values' => exact absurd h.symm (hne value' values')
  | cons value values =>
    cases values' with
    | nil => exact absurd h (hne value values)
    | cons value' values' =>
      have hchars := congrArg String.toList h
      rw [toList_commas_cons, toList_commas_cons] at hchars
      obtain ⟨hvalue, hrest⟩ := number_append (m := value.toNat) (n := value'.toNat)
        (ends_separated values) (ends_separated values') hchars
      obtain rfl : value = value' := UInt32.toNat.inj (by exact_mod_cast hvalue)
      rw [separated_injective hrest]

theorem names_eq (s : Summarized) (x y : s.type.Hit) :
    (s.part.fields x).map Prod.fst = (s.part.fields y).map Prod.fst := by
  cases s <;>
    simp only [Summarized.part, caen1190, waveform, pulse, fadcScaler, tiScaler, mpd, vftdc,
      hallBPulseIntegral, hallBPulseTime, hallBPulsePeak, List.map_cons, List.map_nil]

theorem newline_names (s : Summarized) (hit : s.type.Hit) :
    ∀ name ∈ (s.part.fields hit).map Prod.fst, '\n' ∉ name.toList := by
  cases s <;>
    simp only [Summarized.part, caen1190, waveform, pulse, fadcScaler, tiScaler, mpd, vftdc,
      hallBPulseIntegral, hallBPulseTime, hallBPulsePeak, List.map_cons, List.map_nil,
      List.forall_mem_cons] <;>
    decide

theorem tail_starts (s : Summarized) (hit : s.type.Hit) :
    Ends isNumeric (s.part.tail hit).toList ∧ '\n' ∉ (s.part.tail hit).toList := by
  cases s with
  | fadcScaler =>
    refine ⟨?_, by simp [Summarized.part, fadcScaler, newline_commas]⟩
    simp only [Summarized.part, fadcScaler, String.toList_append]
    exact ends_cons (by decide) _
  | mpd =>
    refine ⟨?_, by simp [Summarized.part, mpd, newline_commas]⟩
    simp only [Summarized.part, mpd, String.toList_append]
    exact ends_cons (by decide) _
  | _ =>
    refine ⟨fun c hc => ?_, ?_⟩
    · change c ∈ "".toList.head? at hc
      simp at hc
    · change '\n' ∉ "".toList
      simp

theorem regular (s : Summarized) : s.part.Regular where
  same := names_eq s
  newline := newline_names s
  tail hit := (tail_starts s hit).1
  newline_label := by cases s <;> decide
  newline_tail hit := (tail_starts s hit).2
  title := by cases s <;> decide
  absent := by cases s <;> decide

end Lines

section Events

theorem toList_summary (event : HitEvent) : (summary event).toList =
    "Event ".toList ++ (((toString event.eventNumber.toNat).toList ++ ['\n']) ++
      ((Summarized.all.flatMap fun s => (s.part.write (event.hits s.type)).toList) ++ ['\n'])) := by
  simp [summary, List.flatMap_map]

theorem mem_all (s : Summarized) : s ∈ Summarized.all := by cases s <;> decide

theorem tells_parts : Tells (fun event : HitEvent =>
    Summarized.all.flatMap fun s => (s.part.write (event.hits s.type)).toList)
      fun event => (printed event).2 := by
  intro x y rest rest' heq
  have hparts : ∀ s ∈ Summarized.all,
      Tells (fun event : HitEvent => (s.part.write (event.hits s.type)).toList)
        fun event => (event.hits s.type).map s.part.printed :=
    fun s _ => (regular s).tells_write.comp fun event : HitEvent => event.hits s.type
  obtain ⟨hviews, hrest⟩ := Tells.sequence hparts heq
  exact ⟨funext fun s => hviews s (mem_all s), hrest⟩

theorem tells_summary : Tells (fun event => (summary event).toList) printed := by
  have hnumber : Tells (fun event : HitEvent => (toString event.eventNumber.toNat).toList ++ ['\n'])
      HitEvent.eventNumber :=
    (tells_number.comp fun event : HitEvent => event.eventNumber.toNat).mono
      fun x y heq => UInt64.toNat.inj heq
  have hall := (hnumber.append (tells_parts.append (tells_const ['\n']))).literal "Event ".toList
  have htells : Tells (fun event => (summary event).toList) fun event =>
      (event.eventNumber, (printed event).2, ()) := by
    simpa only [toList_summary] using hall
  refine htells.mono fun x y heq => ?_
  obtain ⟨hnumber, hrest⟩ := Prod.mk.inj heq
  exact Prod.ext hnumber (Prod.mk.inj hrest).1

theorem toList_text (events : List HitEvent) :
    (text events).toList = (events.filter hasHits).flatMap fun event => (summary event).toList := by
  rw [text, String.toList_join, List.flatMap_map]
  induction events with
  | nil => rfl
  | cons event events ih =>
    rw [List.flatMap_cons, ih, writeEvent]
    by_cases hhits : hasHits event = true
    · rw [if_pos hhits, List.filter_cons_of_pos hhits, List.flatMap_cons]
    · rw [if_neg hhits, List.filter_cons_of_neg hhits]
      simp

theorem summary_congr {event event' : HitEvent} (h : printed event = printed event') :
    summary event = summary event' := by
  obtain ⟨hnumber, hprinted⟩ := Prod.mk.inj h
  have hwrite (s : Summarized) :
      s.part.write (event.hits s.type) = s.part.write (event'.hits s.type) := by
    have hs := congrFun hprinted s
    have hlines : (event.hits s.type).map s.part.line = (event'.hits s.type).map s.part.line := by
      have hline (hits : List s.type.Hit) : hits.map s.part.line =
          (hits.map s.part.printed).map fun p => hitLine s.part.label p.1 p.2 := by
        rw [List.map_map]
        rfl
      rw [hline, hline, hs]
    have hlength : (event.hits s.type).length = (event'.hits s.type).length := by
      simpa using congrArg List.length hs
    have hnil : event.hits s.type = [] ↔ event'.hits s.type = [] := by
      rw [← List.length_eq_zero_iff, ← List.length_eq_zero_iff, hlength]
    simp only [Part.write, hnil, hlines, hlength]
  rw [summary, summary, hnumber]
  simp only [hwrite]

theorem ofUInt32_inj {x y : UInt32} : ofUInt32 x = ofUInt32 y ↔ x = y := by
  rw [ofUInt32, ofUInt32, Nat.cast_inj, UInt32.toNat_inj]

theorem asInt_inj {x y : UInt32} : asInt x = asInt y ↔ x = y := by
  refine ⟨fun h => UInt32.toNat.inj ?_, fun h => by rw [h]⟩
  have hmod := mod_eq_of_bmod_eq h
  rwa [Nat.mod_eq_of_lt x.toNat_lt, Nat.mod_eq_of_lt y.toNat_lt] at hmod

theorem printed_caen1190_injective : Function.Injective caen1190.printed := by
  intro x y h
  have hfields := congrArg Prod.fst h
  simp only [Part.printed, caen1190, List.cons.injEq, Prod.mk.injEq, ofUInt32_inj, true_and,
    and_true] at hfields
  exact CAEN1190Hit.mk.injEq .. ▸ hfields

theorem printed_mpd_injective : Function.Injective mpd.printed := by
  intro x y h
  obtain ⟨hfields, htail⟩ := Prod.mk.inj h
  have hsamples : x.apvSamples = y.apvSamples := by
    have hcommas := String.append_left_inj _ |>.mp htail
    exact Vector.toList_inj.mp (commas_injective (String.append_right_inj _ |>.mp hcommas))
  simp only [mpd, List.cons.injEq, Prod.mk.injEq, ofUInt32_inj, asInt_inj, Nat.cast_inj,
    UInt64.toNat_inj, true_and, and_true] at hfields
  cases x
  cases y
  simp only at hfields hsamples
  simp [hfields, hsamples]

theorem printed_vftdc_injective : Function.Injective vftdc.printed := by
  intro x y h
  have hfields := congrArg Prod.fst h
  simp only [Part.printed, vftdc, List.cons.injEq, Prod.mk.injEq, ofUInt32_inj, Nat.cast_inj,
    UInt64.toNat_inj, true_and, and_true] at hfields
  exact VFTDCHit.mk.injEq .. ▸ hfields

/-- The hits of these types are printed as a whole. -/
theorem hits_eq_of_printed {event event' : HitEvent} (h : printed event = printed event') :
    event.hits .caen1190 = event'.hits .caen1190 ∧ event.hits .mpd = event'.hits .mpd ∧
      event.hits .vftdc = event'.hits .vftdc := by
  have hs (s : Summarized) (hinj : Function.Injective s.part.printed) :
      event.hits s.type = event'.hits s.type :=
    hinj.list_map (congrFun (Prod.mk.inj h).2 s)
  exact ⟨hs .caen1190 printed_caen1190_injective, hs .mpd printed_mpd_injective,
    hs .vftdc printed_vftdc_injective⟩

/-- Two runs of the processor write the same file exactly if they agree on all that is printed
of the events with hits, in their order. Then these events have the same numbers and the same
CAEN1190, MPD and VFTDC hits. -/
theorem text_eq_iff (events events' : List HitEvent) :
    (text events = text events' ↔
      (events.filter hasHits).map printed = (events'.filter hasHits).map printed) ∧
    (text events = text events' → List.Forall₂ (fun event event' =>
      event.eventNumber = event'.eventNumber ∧ event.hits .caen1190 = event'.hits .caen1190 ∧
        event.hits .mpd = event'.hits .mpd ∧ event.hits .vftdc = event'.hits .vftdc)
      (events.filter hasHits) (events'.filter hasHits)) := by
  have hne (event : HitEvent) : (summary event).toList ≠ [] := by
    rw [toList_summary]
    simp
  have hiff : text events = text events' ↔
      (events.filter hasHits).map printed = (events'.filter hasHits).map printed := by
    rw [← String.toList_inj, toList_text, toList_text]
    constructor
    · exact tells_summary.flatMap (fun event _ => hne event) fun event _ => hne event
    · intro h
      rw [← List.forall₂_eq_eq_eq, List.forall₂_map_left_iff, List.forall₂_map_right_iff] at h
      generalize events.filter hasHits = xs at h
      generalize events'.filter hasHits = ys at h
      induction h with
      | nil => rfl
      | cons hprinted _ ih => rw [List.flatMap_cons, List.flatMap_cons, summary_congr hprinted, ih]
  refine ⟨hiff, fun h => ?_⟩
  have hprinted := hiff.mp h
  rw [← List.forall₂_eq_eq_eq, List.forall₂_map_left_iff, List.forall₂_map_right_iff] at hprinted
  exact hprinted.imp fun event event' h => ⟨(Prod.mk.inj h).1, hits_eq_of_printed h⟩

end Events

end HitSummary

end JanaExtensions
