import JanaExtensions.FilterDB
import JanaExtensions.Grouping

/-! The filter is the union of its rows. The three lists of a ROC are the columns of its
distinct rows in reading order, which gives both the answers and the printed table. -/

namespace JanaExtensions

/-- A line with exactly four integers before the comment, in their ranges. -/
def FilterLine (line : List Char) (row : FilterRow) : Prop :=
  ∃ r₁ r₂ r₃ rest, Extracts (beforeComment line) row.rocid r₁ ∧ Extracts r₁ row.slot r₂ ∧
    Extracts r₂ row.module r₃ ∧ Extracts r₃ row.bank rest ∧ AllSpace rest ∧
    0 ≤ row.rocid ∧ 0 ≤ row.slot ∧ 0 ≤ row.module ∧ 0 ≤ row.bank ∧ row.bank ≤ 65535

namespace FilterFile

def Lists (file : FilterFile) (row : FilterRow) : Prop :=
  ∃ content, file.content = some content ∧ ∃ line ∈ content.lines, FilterLine line.2 row

/-- The rows of the file in reading order. -/
def rowsRead (file : FilterFile) : List FilterRow :=
  match file.content with
  | none => []
  | some content =>
    content.lines.filterMap fun line => FilterDB.filterRow (skipSpace (beforeComment line.2))

end FilterFile

namespace FilterDB

theorem filterRow_eq_some_iff {line : List Char} {row : FilterRow} :
    filterRow (skipSpace (beforeComment line)) = some row ↔ FilterLine line row := by
  obtain ⟨rocid, slot, module, bank⟩ := row
  simp only [filterRow, extractInt_skipSpace, Option.bind_eq_bind, Option.bind_eq_some_iff,
    Prod.exists, Option.ite_none_left_eq_some, Option.some.injEq, FilterRow.mk.injEq,
    extractInt_eq_some_iff, FilterLine]
  constructor
  · intro h
    obtain ⟨_, r₁, h₁, _, r₂, h₂, _, r₃, h₃, _, rest, h₄, hrange, rfl, rfl, rfl, rfl⟩ := h
    have hspace : AllSpace rest := skipSpace_eq_nil.mp (by
      by_contra hne
      exact hrange (Or.inl hne))
    exact ⟨r₁, r₂, r₃, rest, h₁, h₂, h₃, h₄, hspace, by omega, by omega, by omega, by omega,
      by omega⟩
  · intro h
    obtain ⟨r₁, r₂, r₃, rest, h₁, h₂, h₃, h₄, hspace, hroc, hslot, hmodule, hbank, hmax⟩ := h
    have hnil := skipSpace_eq_nil.mpr hspace
    refine ⟨_, r₁, h₁, _, r₂, h₂, _, r₃, h₃, _, rest, h₄, ?_, rfl, rfl, rfl, rfl⟩
    simp only [hnil, ne_eq, not_true_eq_false, false_or]
    omega

theorem mem_rowsRead {file : FilterFile} {row : FilterRow} :
    row ∈ file.rowsRead ↔ file.Lists row := by
  cases hc : file.content with
  | none => simp [FilterFile.rowsRead, FilterFile.Lists, hc]
  | some content =>
    simp only [FilterFile.rowsRead, FilterFile.Lists, hc, List.mem_filterMap,
      filterRow_eq_some_iff, Option.some.injEq, exists_eq_left']

def rowsOfROC (read : List FilterRow) (rocid : Int) : List FilterRow :=
  read.eraseDups.filter fun row => row.rocid = rocid

theorem mem_rowsOfROC {read : List FilterRow} {rocid : Int} {row : FilterRow} :
    row ∈ rowsOfROC read rocid ↔ row ∈ read ∧ row.rocid = rocid := by
  simp [rowsOfROC, List.mem_eraseDups]

structure Columns (entry : Entry) (rows : List FilterRow) : Prop where
  banks : entry.find "banks" = some (rows.map FilterRow.bank)
  slots : entry.find "slots" = some (rows.map FilterRow.slot)
  modules : entry.find "modules" = some (rows.map FilterRow.module)

/-- The table after some rows have been read. -/
structure Filled (read : List FilterRow) (db : FilterDB) : Prop where
  rows : ∀ row, row ∈ db.rows ↔ row ∈ read
  missing : ∀ rocid, db.data.find rocid = none ↔ ∀ row ∈ read, row.rocid ≠ rocid
  columns : ∀ rocid entry, db.data.find rocid = some entry →
    Columns entry (rowsOfROC read rocid)

theorem Filled.empty : Filled [] {} where
  rows := by simp
  missing := by simp
  columns := by simp

/-- The entry of a row with the row appended to its three lists. -/
def pushRow (row : FilterRow) (entry : Entry) : Entry :=
  pushBack "modules" row.module (pushBack "slots" row.slot (pushBack "banks" row.bank entry))

theorem columns_pushRow {entry : Entry} {rows : List FilterRow} {row : FilterRow}
    (h : Columns entry rows ∨ (entry = ∅ ∧ rows = [])) :
    Columns (pushRow row entry) (rows ++ [row]) := by
  have hsb : ("slots" : String) ≠ "banks" := by decide
  have hms : ("modules" : String) ≠ "slots" := by decide
  have hmb : ("modules" : String) ≠ "banks" := by decide
  rcases h with h | ⟨rfl, rfl⟩
  · constructor
    · simp [pushRow, pushBack, OrderedMap.find_insert, hsb.symm, hmb.symm, h.banks]
    · simp [pushRow, pushBack, OrderedMap.find_insert, hsb, hms.symm, h.slots]
    · simp [pushRow, pushBack, OrderedMap.find_insert, hms, hmb, h.modules]
  · constructor
    · simp [pushRow, pushBack, OrderedMap.find_insert, hsb.symm, hmb.symm]
    · simp [pushRow, pushBack, OrderedMap.find_insert, hsb, hms.symm]
    · simp [pushRow, pushBack, OrderedMap.find_insert, hms, hmb]

theorem rowsOfROC_concat_new {read : List FilterRow} {row : FilterRow} (h : row ∉ read)
    (rocid : Int) : rowsOfROC (read ++ [row]) rocid =
      if row.rocid = rocid then rowsOfROC read rocid ++ [row] else rowsOfROC read rocid := by
  rw [rowsOfROC, Grouping.eraseDups_concat, if_neg h, List.filter_append]
  by_cases hroc : row.rocid = rocid <;> simp [rowsOfROC, hroc]

theorem Filled.step {read : List FilterRow} {self : FilterDB} (h : Filled read self)
    (row : FilterRow) : Filled (read ++ [row]) (addRow row self) := by
  by_cases hmem : row ∈ read
  · have hself : addRow row self = self := if_pos ((h.rows row).mpr hmem)
    have hroc : ∀ rocid, rowsOfROC (read ++ [row]) rocid = rowsOfROC read rocid := by
      intro rocid
      rw [rowsOfROC, Grouping.eraseDups_concat, if_pos hmem, rowsOfROC]
    have hiff : ∀ r, r ∈ read ++ [row] ↔ r ∈ read := by
      intro r
      rw [List.mem_append, List.mem_singleton]
      exact ⟨fun hr => hr.elim id fun he => he ▸ hmem, Or.inl⟩
    rw [hself]
    constructor
    · intro r
      rw [h.rows, hiff]
    · intro rocid
      rw [h.missing]
      simp only [hiff]
    · intro rocid entry hfind
      rw [hroc]
      exact h.columns rocid entry hfind
  · have hself : addRow row self =
        { data := self.data.insert row.rocid
            (pushRow row ((self.data.find row.rocid).getD ∅)),
          rows := insert row self.rows } :=
      if_neg fun hm => hmem ((h.rows row).mp hm)
    rw [hself]
    constructor
    · intro r
      simp only [Finset.mem_insert, h.rows, List.mem_append, List.mem_singleton]
      exact or_comm
    · intro rocid
      rw [OrderedMap.find_insert]
      by_cases hroc : rocid = row.rocid
      · simp [hroc]
      · simp only [hroc, if_false, h.missing, List.mem_append, List.mem_singleton]
        constructor
        · intro hh r hr
          rcases hr with hr | rfl
          · exact hh r hr
          · exact fun he => hroc he.symm
        · exact fun hh r hr => hh r (Or.inl hr)
    · intro rocid entry hfind
      rw [OrderedMap.find_insert] at hfind
      rw [rowsOfROC_concat_new hmem]
      by_cases hroc : rocid = row.rocid
      · rw [if_pos hroc] at hfind
        rw [if_pos hroc.symm, ← Option.some.inj hfind]
        apply columns_pushRow
        rw [hroc]
        cases hentry : self.data.find row.rocid with
        | some entry => exact Or.inl (h.columns _ _ hentry)
        | none =>
          refine Or.inr ⟨rfl, List.eq_nil_iff_forall_not_mem.mpr fun r hr => ?_⟩
          obtain ⟨hr, he⟩ := mem_rowsOfROC.mp hr
          exact (h.missing row.rocid).mp hentry r hr he
      · rw [if_neg hroc] at hfind
        rw [if_neg fun he => hroc he.symm]
        exact h.columns rocid entry hfind

theorem Filled.steps {read rows : List FilterRow} {self : FilterDB} (h : Filled read self) :
    Filled (read ++ rows) (rows.foldl (fun self row => addRow row self) self) := by
  induction rows generalizing read self with
  | nil => simpa using h
  | cons row rows ih =>
    have hh := ih (h.step row)
    rwa [List.append_assoc, List.singleton_append] at hh

theorem filterRow_nil : filterRow [] = none := by decide

theorem fillLines_ok {filename : String} {lines : List (Nat × List Char)} {self : FilterDB}
    (h : (fillLines filename lines self).1 = .ok ()) :
    (fillLines filename lines self).2 =
      (lines.filterMap fun line => filterRow (skipSpace (beforeComment line.2))).foldl
        (fun self row => addRow row self) self := by
  induction lines generalizing self with
  | nil => rfl
  | cons line lines ih =>
    by_cases hblank : skipSpace (beforeComment line.2) = []
    · simp only [fillLines, hblank, if_true] at h ⊢
      rw [ih h, List.filterMap_cons, hblank, filterRow_nil]
    · cases hrow : filterRow (skipSpace (beforeComment line.2)) with
      | none => simp [fillLines, hblank, hrow] at h
      | some row =>
        simp only [fillLines, hblank, if_false, hrow] at h ⊢
        rw [ih h, List.filterMap_cons, hrow, List.foldl_cons]

theorem fillDB_ok {file : FilterFile} {self : FilterDB} (h : (fillDB file self).1 = .ok ()) :
    (fillDB file self).2 = file.rowsRead.foldl (fun self row => addRow row self) self := by
  cases hc : file.content with
  | none => simp [fillDB, hc] at h
  | some content =>
    cases hfill : fillLines file.filename content.lines self with
    | mk result self' =>
      cases result with
      | error message => simp [fillDB, hc, hfill] at h
      | ok =>
        have hlines := fillLines_ok (congrArg Prod.fst hfill)
        rw [hfill] at hlines
        cases heof : content.eof with
        | false => simp [fillDB, hc, hfill, heof] at h
        | true =>
          simp only [fillDB, hc, hfill, heof, FilterFile.rowsRead]
          exact hlines

/-- Files read in order, until one of them is rejected. -/
def fillDBs : List FilterFile → FilterDB → Except String Unit × FilterDB
  | [], self => (.ok (), self)
  | file :: files, self =>
    match fillDB file self with
    | (.ok (), self) => fillDBs files self
    | (.error message, self) => (.error message, self)

/-- All rows of the files in reading order. -/
def rowsRead (files : List FilterFile) : List FilterRow := files.flatMap FilterFile.rowsRead

theorem Filled.files {read : List FilterRow} {self : FilterDB} {files : List FilterFile}
    (h : Filled read self) (hok : (fillDBs files self).1 = .ok ()) :
    Filled (read ++ rowsRead files) (fillDBs files self).2 := by
  induction files generalizing read self with
  | nil => simpa [rowsRead, fillDBs] using h
  | cons file rest ih =>
    cases hfill : fillDB file self with
    | mk result self' =>
      cases result with
      | error message => simp [fillDBs, hfill] at hok
      | ok =>
        simp only [fillDBs, hfill] at hok ⊢
        have hself := fillDB_ok (congrArg Prod.fst hfill)
        rw [hfill] at hself
        have hfilled : Filled (read ++ file.rowsRead) self' := by
          dsimp only at hself
          rw [hself]
          exact h.steps
        have hrest := ih hfilled hok
        rwa [List.append_assoc] at hrest

def Listed (files : List FilterFile) (row : FilterRow) : Prop := ∃ file ∈ files, file.Lists row

theorem mem_rowsRead_iff {files : List FilterFile} {row : FilterRow} :
    row ∈ rowsRead files ↔ Listed files row := by
  simp only [rowsRead, List.mem_flatMap, mem_rowsRead, Listed]

section Answers

variable {read : List FilterRow} {self : FilterDB}

theorem Filled.isEmpty_iff (h : Filled read self) :
    self.data.entries.isEmpty = true ↔ ∀ row, row ∉ read := by
  rw [List.isEmpty_iff]
  constructor
  · intro hempty row hmem
    have hnone : self.data.find row.rocid = none := by
      rw [OrderedMap.find, hempty]
      rfl
    exact (h.missing row.rocid).mp hnone row hmem rfl
  · intro hread
    rw [List.eq_nil_iff_forall_not_mem]
    intro entry hentry
    have hfind := OrderedMap.mem_entries_iff.mp hentry
    have hnone := (h.missing entry.1).mpr fun row hmem => absurd hmem (hread row)
    rw [hnone] at hfind
    exact absurd hfind (by simp)

theorem Filled.isROCAllowed_iff (h : Filled read self) (rocid : Int) :
    self.isROCAllowed rocid = true ↔
      (∀ row, row ∉ read) ∨ ∃ row ∈ read, row.rocid = rocid := by
  have hsome : (self.data.find rocid).isSome = true ↔ ∃ row ∈ read, row.rocid = rocid := by
    rw [Option.isSome_iff_ne_none, ne_eq, h.missing]
    push Not
    rfl
  rw [isROCAllowed, Bool.or_eq_true, h.isEmpty_iff, hsome]

/-- The shape of the three answers that look into a list. -/
theorem Filled.isAllowedIn_iff (h : Filled read self) {column : String}
    {value : FilterRow → Int}
    (hcolumn : ∀ entry rows, Columns entry rows → entry.find column = some (rows.map value))
    (rocid v : Int) :
    self.isAllowedIn column rocid v = true ↔
      (∀ row, row ∉ read) ∨ ∃ row ∈ read, row.rocid = rocid ∧ value row = v := by
  rw [isAllowedIn, Bool.or_eq_true, h.isEmpty_iff]
  cases hentry : self.data.find rocid with
  | none =>
    have hnone := (h.missing rocid).mp hentry
    have hno : ¬ ∃ row ∈ read, row.rocid = rocid ∧ value row = v := by
      intro hh
      obtain ⟨row, hmem, hroc, -⟩ := hh
      exact hnone row hmem hroc
    simp [hno]
  | some entry =>
    have hfind := hcolumn entry _ (h.columns rocid entry hentry)
    simp only [hfind, List.contains_iff_mem, List.mem_map, mem_rowsOfROC, and_assoc]

theorem Filled.isBankAllowed_iff (h : Filled read self) (rocid bank : Int) :
    self.isBankAllowed rocid bank = true ↔
      (∀ row, row ∉ read) ∨ ∃ row ∈ read, row.rocid = rocid ∧ row.bank = bank :=
  h.isAllowedIn_iff (fun _ _ hc => hc.banks) rocid bank

theorem Filled.isSlotAllowed_iff (h : Filled read self) (rocid slot : Int) :
    self.isSlotAllowed rocid slot = true ↔
      (∀ row, row ∉ read) ∨ ∃ row ∈ read, row.rocid = rocid ∧ row.slot = slot :=
  h.isAllowedIn_iff (fun _ _ hc => hc.slots) rocid slot

theorem Filled.isModuleAllowed_iff (h : Filled read self) (rocid module : Int) :
    self.isModuleAllowed rocid module = true ↔
      (∀ row, row ∉ read) ∨ ∃ row ∈ read, row.rocid = rocid ∧ row.module = module :=
  h.isAllowedIn_iff (fun _ _ hc => hc.modules) rocid module

end Answers

section Table

def rowLine (w : Widths) (row : FilterRow) : String :=
  tableLine w (toString row.rocid) (toString row.slot) (toString row.module) (toString row.bank)

theorem cell_map {rows : List FilterRow} {i : Nat} (h : i < rows.length) (value : FilterRow → Int) :
    cell (rows.map value) i = toString (value rows[i]) := by
  simp [cell, h]

theorem columnOf_of_find {entry : Entry} {column : String} {values : List Int}
    (h : entry.find column = some values) : columnOf entry column = .ok values := by
  simp [columnOf, h]

theorem entryLines_of_columns {rocid : Int} {entry : Entry} {rows : List FilterRow}
    (h : Columns entry rows) (hroc : ∀ row ∈ rows, row.rocid = rocid) (w : Widths) :
    entryLines w (rocid, entry) = .ok (rows.map (rowLine w)) := by
  simp only [entryLines, columnOf_of_find h.slots, columnOf_of_find h.modules,
    columnOf_of_find h.banks, Failing.bind_ok, List.length_map, Nat.max_self, Except.ok.injEq]
  apply List.ext_getElem
  · simp
  · intro i hi hi'
    have hlt : i < rows.length := by simpa using hi'
    simp only [List.getElem_map, List.getElem_range, cell_map hlt, rowLine,
      hroc rows[i] (List.getElem_mem hlt)]

theorem widenBy_of_columns (rocid : Int) {entry : Entry} {rows : List FilterRow}
    (h : Columns entry rows) (w : Widths) : ∃ w', widenBy w (rocid, entry) = .ok w' := by
  simp [widenBy, columnOf_of_find h.slots, columnOf_of_find h.modules, columnOf_of_find h.banks]

/-- The table is printed, with one line for each distinct row. -/
theorem Filled.printSummaryTable_eq {read : List FilterRow} {self : FilterDB}
    (h : Filled read self) :
    ∃ w, ∃ printed : List FilterRow,
      self.printSummaryTable = .ok (tableHead w ++ printed.map (rowLine w)) ∧
      printed.Perm read.eraseDups := by
  have hentry : ∀ entry ∈ self.data.entries, Columns entry.2 (rowsOfROC read entry.1) := by
    intro entry hmem
    exact h.columns _ _ (OrderedMap.mem_entries_iff.mp hmem)
  have hwidths : ∃ w, self.data.entries.foldlM widenBy {} = .ok w ∧ True := by
    apply Failing.foldlM_total (I := fun _ _ => True) trivial
    intro pre entry post w hsplit _
    obtain ⟨w', hw'⟩ := widenBy_of_columns entry.1 (hentry entry (by simp [hsplit])) w
    exact ⟨w', hw', trivial⟩
  obtain ⟨w, hw, -⟩ := hwidths
  have hlines : self.data.entries.mapM (entryLines w) =
      .ok (self.data.entries.map fun entry => (rowsOfROC read entry.1).map (rowLine w)) := by
    apply Failing.mapM_of_ok
    intro entry hmem
    exact entryLines_of_columns (hentry entry hmem) (fun row hrow => (mem_rowsOfROC.mp hrow).2) w
  refine ⟨w, self.data.keys.flatMap (rowsOfROC read), ?_, ?_⟩
  · simp only [printSummaryTable, hw, hlines, Failing.bind_ok]
    rw [List.map_flatMap, OrderedMap.keys, List.flatMap_map, List.flatMap_def]
  · apply Grouping.flatMap_filter_perm FilterRow.rocid self.data.keys_nodup
    intro row hrow
    rw [OrderedMap.mem_keys_iff, ← Option.isSome_iff_exists, Option.isSome_iff_ne_none]
    intro hnone
    exact (h.missing row.rocid).mp hnone row (List.mem_eraseDups.mp hrow) rfl

end Table

inductive Query where
  | roc (rocid : Int)
  | bank (rocid bank : Int)
  | slot (rocid slot : Int)
  | module (rocid module : Int)

def answer (self : FilterDB) : Query → Bool
  | .roc rocid => self.isROCAllowed rocid
  | .bank rocid bank => self.isBankAllowed rocid bank
  | .slot rocid slot => self.isSlotAllowed rocid slot
  | .module rocid module => self.isModuleAllowed rocid module

/-- The row has the ROC of the query and the value that it asks for. -/
def Query.Matches : Query → FilterRow → Prop
  | .roc rocid, row => row.rocid = rocid
  | .bank rocid b, row => row.rocid = rocid ∧ row.bank = b
  | .slot rocid s, row => row.rocid = rocid ∧ row.slot = s
  | .module rocid m, row => row.rocid = rocid ∧ row.module = m

theorem Filled.answer_iff {read : List FilterRow} {self : FilterDB} (h : Filled read self)
    (query : Query) :
    self.answer query = true ↔ (∀ row, row ∉ read) ∨ ∃ row ∈ read, query.Matches row := by
  cases query with
  | roc rocid => exact h.isROCAllowed_iff rocid
  | bank rocid bank => exact h.isBankAllowed_iff rocid bank
  | slot rocid slot => exact h.isSlotAllowed_iff rocid slot
  | module rocid module => exact h.isModuleAllowed_iff rocid module

theorem filled_fillDBs {files : List FilterFile} (hok : (fillDBs files {}).1 = .ok ()) :
    Filled (rowsRead files) (fillDBs files {}).2 :=
  Filled.empty.files hok

theorem answer_fillDBs_iff {files : List FilterFile} (hok : (fillDBs files {}).1 = .ok ())
    (query : Query) :
    (fillDBs files {}).2.answer query = true ↔
      (∀ row, ¬ Listed files row) ∨ ∃ row, Listed files row ∧ query.Matches row := by
  have h := (filled_fillDBs hok).answer_iff query
  simpa only [mem_rowsRead_iff] using h

/-- After files are read, with the listed rows as the set Q: every query answers by Q alone,
whatever the order and repetition of files and rows; more files turn answers only to true
once Q is not empty; the lists of a ROC are the columns of its distinct rows in reading
order; and the table has exactly one line for each row of Q. -/
theorem fillDBs_union (files : List FilterFile) (hok : (fillDBs files {}).1 = .ok ()) :
    (∀ query, (fillDBs files {}).2.answer query = true ↔
      (∀ row, ¬ Listed files row) ∨ ∃ row, Listed files row ∧ query.Matches row) ∧
    (∀ others, (fillDBs others {}).1 = .ok () → (∀ row, Listed files row ↔ Listed others row) →
      ∀ query, (fillDBs files {}).2.answer query = (fillDBs others {}).2.answer query) ∧
    (∀ appended, (fillDBs (files ++ appended) {}).1 = .ok () → (∃ row, Listed files row) →
      ∀ query, (fillDBs files {}).2.answer query = true →
        (fillDBs (files ++ appended) {}).2.answer query = true) ∧
    (∀ rocid entry, (fillDBs files {}).2.data.find rocid = some entry →
      ∃ banks slots modules, entry.find "banks" = some banks ∧ entry.find "slots" = some slots ∧
        entry.find "modules" = some modules ∧
        banks = (rowsOfROC (rowsRead files) rocid).map FilterRow.bank ∧
        slots = (rowsOfROC (rowsRead files) rocid).map FilterRow.slot ∧
        modules = (rowsOfROC (rowsRead files) rocid).map FilterRow.module) ∧
    ∃ w, ∃ printed : List FilterRow,
      (fillDBs files {}).2.printSummaryTable = .ok (tableHead w ++ printed.map (rowLine w)) ∧
      printed.Nodup ∧ ∀ row, row ∈ printed ↔ Listed files row := by
  have hfilled := filled_fillDBs hok
  refine ⟨answer_fillDBs_iff hok, ?_, ?_, ?_, ?_⟩
  · intro others hothers hsame query
    rw [Bool.eq_iff_iff, answer_fillDBs_iff hok, answer_fillDBs_iff hothers]
    simp only [hsame]
  · intro appended happended hlisted query htrue
    have hmore : ∀ row, Listed files row → Listed (files ++ appended) row := by
      intro row hrow
      obtain ⟨file, hfile, hlists⟩ := hrow
      exact ⟨file, List.mem_append_left _ hfile, hlists⟩
    rw [answer_fillDBs_iff happended]
    rcases (answer_fillDBs_iff hok query).mp htrue with hnone | ⟨row, hrow, hmatches⟩
    · obtain ⟨row, hrow⟩ := hlisted
      exact absurd hrow (hnone row)
    · exact Or.inr ⟨row, hmore row hrow, hmatches⟩
  · intro rocid entry hfind
    have hcolumns := hfilled.columns rocid entry hfind
    exact ⟨_, _, _, hcolumns.banks, hcolumns.slots, hcolumns.modules, rfl, rfl, rfl⟩
  · obtain ⟨w, printed, htable, hperm⟩ := hfilled.printSummaryTable_eq
    refine ⟨w, printed, htable, hperm.nodup_iff.mpr (Grouping.nodup_eraseDups _), fun row => ?_⟩
    rw [hperm.mem_iff, List.mem_eraseDups, mem_rowsRead_iff]

/-- A core file and an appended file that repeats one of its rows. -/
def unionFiles : List FilterFile :=
  [⟨"core/filter.db", some ⟨"1 3 250 250\n", true⟩⟩,
    ⟨"site/filter.db", some ⟨" # site\n1 3 250 250\n2 5 253 595\n", true⟩⟩]

theorem fillDBs_union_site :
    (fillDBs unionFiles {}).1 = .ok () ∧
    ((fillDBs unionFiles {}).2.answer (.bank 2 595) = true ↔
      (∀ row, ¬ Listed unionFiles row) ∨
        ∃ row, Listed unionFiles row ∧ row.rocid = 2 ∧ row.bank = 595) := by
  have hok : (fillDBs unionFiles {}).1 = .ok () := by decide +kernel
  exact ⟨hok, (fillDBs_union unionFiles hok).1 (.bank 2 595)⟩

end FilterDB

end JanaExtensions
