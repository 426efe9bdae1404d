import JanaExtensions.MappingGrammar

/-! Mapping files that are loaded into a table one after the other: a file is added as a whole
or not at all. -/

namespace JanaExtensions

open Failing RelatedLists

namespace TranslationTable

/-- The member function: its state is the table, which it assigns to at the end. -/
def loadMappingFileInto (fs : FileSystem) (path expectedDetector : String) :
    ExceptT String (StateM TranslationTable) Unit := do
  match fs.read path with
  | none => throw ("Unable to open detector mapping: " ++ path)
  | some content =>
    let s ← ofExcept (content.rows.foldlM (mappingRow path expectedDetector) {})
    if content.eof = false then throw ("Unable to read detector mapping: " ++ path)
    else if s.detector = "" ∨ s.fields = [] then
      throw (mappingError path content.rows.length "missing detector or fields declaration")
    else
      let combined ← ofExcept (combine path (← get) s.loaded)
      set combined

theorem ofExcept_ok_bind {ε σ α β : Type} (a : α) (f : α → ExceptT ε (StateM σ) β) :
    ((ofExcept (.ok a) : ExceptT ε (StateM σ) α) >>= f) = f a := rfl

theorem run_update {ε σ : Type} (f : σ → Except ε σ) (s : σ) :
    ExceptT.run (m := StateM σ) (do
        let updated ← ofExcept (f (← get))
        set updated) s =
      match f s with
      | .ok updated => (.ok (), updated)
      | .error e => (.error e, s) := by
  change ((ofExcept (f s) : ExceptT ε (StateM σ) σ) >>= fun updated => set updated).run s = _
  cases f s <;> rfl

theorem loadMappingFileInto_eq (fs : FileSystem) (path expectedDetector : String)
    (table : TranslationTable) :
    (loadMappingFileInto fs path expectedDetector).run table =
      match loadMappingFile fs table path expectedDetector with
      | .ok table' => (.ok (), table')
      | .error message => (.error message, table) := by
  rw [loadMappingFileInto, loadMappingFile]
  cases fs.read path with
  | none => rfl
  | some content =>
    dsimp only
    cases content.rows.foldlM (mappingRow path expectedDetector) {} with
    | error message => rfl
    | ok s =>
      rw [bind_ok, ofExcept_ok_bind]
      by_cases heof : content.eof = false
      · rw [if_pos heof, if_pos heof]
        rfl
      · rw [if_neg heof, if_neg heof]
        by_cases hdeclared : s.detector = "" ∨ s.fields = []
        · rw [if_pos hdeclared, if_pos hdeclared]
          rfl
        · rw [if_neg hdeclared, if_neg hdeclared]
          refine (run_update (fun t => combine path t s.loaded) table).trans ?_
          cases combine path table s.loaded <;> rfl

section Into

variable {fs : FileSystem} {path expectedDetector : String} {table table' : TranslationTable}
  {content : FileContent} {d : Document}

/-- Loading a file onto a table fails for no other reason than the file itself, and an address
that both have. -/
theorem loadMappingFile_onto_iff :
    (∃ table', loadMappingFile fs table path expectedDetector = .ok table') ↔
      ∃ content, fs.read path = some content ∧ content.eof = true ∧
        ∃ d : Document, d.IsText content.tokenLines ∧
          (expectedDetector ≠ "" → d.detector = expectedDetector) ∧
          ∀ row ∈ d.rows, table.lookup row.daq = none := by
  rw [loadMappingFile_iff]
  constructor
  · rintro ⟨alone, halone, hdisjoint⟩
    obtain ⟨content, hread, heof, hlines⟩ := loadMappingFile_alone_iff.mp ⟨alone, halone⟩
    obtain ⟨d, hd, hexpected⟩ := mappingLines_iff_document.mp hlines
    refine ⟨content, hread, heof, d, hd, hexpected, fun row hrow => ?_⟩
    exact hdisjoint row.daq (d.address row)
      ((lookup_loadMappingFile_document halone hread hd _ _).mpr (.inr ⟨row, hrow, rfl, rfl⟩))
  · rintro ⟨content, hread, heof, d, hd, hexpected, hnew⟩
    obtain ⟨alone, halone⟩ := loadMappingFile_alone_iff.mpr
      ⟨content, hread, heof, mappingLines_iff_document.mpr ⟨d, hd, hexpected⟩⟩
    refine ⟨alone, halone, fun daq address hlookup => ?_⟩
    rcases (lookup_loadMappingFile_document halone hread hd _ _).mp hlookup with
      hnone | ⟨row, hrow, rfl, -⟩
    · cases hnone
    · exact hnew row hrow

/-- The table has been extended by the rows of the document, which are about new addresses. -/
structure Extended (table table' : TranslationTable) (d : Document) : Prop where
  kept : ∀ daq address, table.lookup daq = some address → table'.lookup daq = some address
  added : ∀ row ∈ d.rows, table.lookup row.daq = none ∧
    table'.lookup row.daq = some (d.address row)
  others : ∀ daq, table.lookup daq = none → (∀ row ∈ d.rows, row.daq ≠ daq) →
    table'.lookup daq = none

theorem extended_of_loadMappingFile
    (h : loadMappingFile fs table path expectedDetector = .ok table') :
    ∃ content, fs.read path = some content ∧ content.eof = true ∧
      ∃ d : Document, d.IsText content.tokenLines ∧
        (expectedDetector ≠ "" → d.detector = expectedDetector) ∧ Extended table table' d := by
  obtain ⟨content, hread, heof, d, hd, hexpected, hnew⟩ := loadMappingFile_onto_iff.mp ⟨table', h⟩
  have hlookup := lookup_loadMappingFile_document h hread hd
  refine ⟨content, hread, heof, d, hd, hexpected, ?_, ?_, ?_⟩
  · exact fun daq address hold => (hlookup daq address).mpr (.inl hold)
  · exact fun row hrow => ⟨hnew row hrow, (hlookup _ _).mpr (.inr ⟨row, hrow, rfl, rfl⟩)⟩
  · intro daq hnone hother
    rw [Option.eq_none_iff_forall_ne_some]
    intro address haddress
    rcases (hlookup daq address).mp haddress with hold | ⟨row, hrow, hdaq, -⟩
    · rw [hnone] at hold
      cases hold
    · exact hother row hrow hdaq

/-- The tokens are no lawful line of a mapping file after the lines in front of them. -/
def IsMalformed (expectedDetector : String) : List (List String) → List String → Prop
  | [], tokens => ∀ detector, (expectedDetector ≠ "" → detector = expectedDetector) →
    tokens ≠ ["detector", detector]
  | [_], tokens => ∀ names : List String, names ≠ [] → names.Nodup → tokens ≠ "fields" :: names
  | _ :: declaration :: _, tokens =>
    ∀ row : Row, row.values.length + 1 = declaration.length → ¬ row.IsLine tokens

theorem Document.IsText.not_isMalformed {pre post : List (List String)} {tokens : List String}
    (hd : d.IsText (pre ++ tokens :: post))
    (hexpected : expectedDetector ≠ "" → d.detector = expectedDetector) :
    ¬ IsMalformed expectedDetector pre tokens := by
  obtain ⟨channels, hlines, hrows⟩ := hd
  match pre with
  | [] =>
    obtain ⟨rfl, -⟩ := List.cons.inj hlines
    exact fun h => h d.detector hexpected rfl
  | [declaration] =>
    simp only [List.cons_append, List.nil_append, List.cons.injEq] at hlines
    exact fun h => h d.fields d.fields_ne_nil d.fields_nodup hlines.2.1
  | first :: declaration :: pre =>
    simp only [List.cons_append, List.cons.injEq] at hlines
    obtain ⟨-, rfl, rfl⟩ := hlines
    obtain ⟨row, hrow, hline⟩ := exists_of_forall₂_mem hrows (x := tokens) (by simp)
    exact fun h => h row (by simp [d.length_values row hrow]) hline

/-- What a call does with the file and the table: all of the file is added, or nothing, and
what the table has stays. -/
structure AtomicUpdate (fs : FileSystem) (path expectedDetector : String)
    (table : TranslationTable) (outcome : Except String Unit) (table' : TranslationTable) :
    Prop where
  all_or_nothing :
    (∃ message, outcome = .error message ∧ ∀ daq, table'.lookup daq = table.lookup daq) ∨
      outcome = .ok () ∧ ∃ content, fs.read path = some content ∧ content.eof = true ∧
        ∃ d : Document, d.IsText content.tokenLines ∧
          (expectedDetector ≠ "" → d.detector = expectedDetector) ∧ Extended table table' d
  rejected : ∀ content, fs.read path = some content → ∀ pre tokens post,
    content.tokenLines = pre ++ tokens :: post →
      (IsMalformed expectedDetector pre tokens ∨
        ∃ row : Row, row.IsLine tokens ∧ table.lookup row.daq ≠ none) →
      ∃ message, outcome = .error message
  kept : ∀ daq address, table.lookup daq = some address → table'.lookup daq = some address

/-- A mapping file is added to a table as a whole or not at all, and replaces no entry. -/
theorem loadMappingFileInto_atomic (fs : FileSystem) (path expectedDetector : String)
    (table : TranslationTable) :
    AtomicUpdate fs path expectedDetector table
      ((loadMappingFileInto fs path expectedDetector).run table).1
      ((loadMappingFileInto fs path expectedDetector).run table).2 := by
  rw [loadMappingFileInto_eq]
  cases hload : loadMappingFile fs table path expectedDetector with
  | error message =>
    exact ⟨.inl ⟨message, rfl, fun _ => rfl⟩, fun _ _ _ _ _ _ _ => ⟨message, rfl⟩, fun _ _ => id⟩
  | ok table' =>
    obtain ⟨content, hread, heof, d, hd, hexpected, hextended⟩ := extended_of_loadMappingFile hload
    refine ⟨.inr ⟨rfl, content, hread, heof, d, hd, hexpected, hextended⟩, ?_, hextended.kept⟩
    intro content' hread' pre tokens post hlines hbad
    obtain rfl := Option.some.inj (hread.symm.trans hread')
    rcases hbad with hmalformed | ⟨row, hline, hold⟩
    · exact absurd hmalformed (Document.IsText.not_isMalformed (hlines ▸ hd) hexpected)
    · have htokens : tokens ∈ content.tokenLines := by simp [hlines]
      obtain ⟨row', hrow', hline'⟩ := hd.exists_row htokens hline.isChannelLine
      obtain rfl := hline.unique hline'
      exact absurd (hextended.added row hrow').1 hold

end Into

end TranslationTable

end JanaExtensions
