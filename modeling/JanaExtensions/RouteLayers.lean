import JanaExtensions.BankToModuleMap
import JanaExtensions.Overlay

/-! A mapping file as a layer of routes. The lines of a file are read by a grammar, a file
is accepted when its lines follow the grammar and agree on every bank, and an accepted
file overrides the routes before it. -/

namespace JanaExtensions

namespace BankToModuleMap

/-- A line with nothing but whitespace before the comment. -/
def BlankRow (line : List Char) : Prop := AllSpace (beforeComment line)

/-- A line with exactly two integers before the comment, in their ranges. -/
def RouteRow (line : List Char) (moduleId bankId : Int) : Prop :=
  ∃ middle rest, Extracts (beforeComment line) moduleId middle ∧
    Extracts middle bankId rest ∧ AllSpace rest ∧
    0 ≤ moduleId ∧ 0 ≤ bankId ∧ bankId ≤ 65535

theorem mappingRow_eq_some_iff {line : List Char} {moduleId bankId : Int} :
    mappingRow (skipSpace (beforeComment line)) = some (moduleId, bankId) ↔
      RouteRow line moduleId bankId := by
  simp only [mappingRow, extractInt_skipSpace, Option.bind_eq_bind, Option.bind_eq_some_iff,
    Prod.exists, Option.ite_none_left_eq_some, Option.some.injEq, Prod.mk.injEq,
    extractInt_eq_some_iff, RouteRow]
  constructor
  · intro h
    obtain ⟨m, middle, hm, b, rest, hb, hrange, rfl, rfl⟩ := h
    have hspace : AllSpace rest := skipSpace_eq_nil.mp (by
      by_contra hne
      exact hrange (Or.inl hne))
    exact ⟨middle, rest, hm, hb, hspace, by omega, by omega, by omega⟩
  · intro h
    obtain ⟨middle, rest, hm, hb, hspace, hmodule, hbank, hmax⟩ := h
    have hnil := skipSpace_eq_nil.mpr hspace
    refine ⟨moduleId, middle, hm, bankId, rest, hb, ?_, rfl, rfl⟩
    simp only [hnil, ne_eq, not_true_eq_false, false_or]
    omega

theorem RouteRow.unique {line : List Char} {m b m' b' : Int} (h : RouteRow line m b)
    (h' : RouteRow line m' b') : m = m' ∧ b = b' := by
  have hh := (mappingRow_eq_some_iff.mpr h).symm.trans (mappingRow_eq_some_iff.mpr h')
  exact Prod.mk.inj (Option.some.inj hh)

theorem RouteRow.not_blank {line : List Char} {m b : Int} (h : RouteRow line m b) :
    ¬ BlankRow line := by
  obtain ⟨middle, rest, hm, -⟩ := h
  exact hm.not_allSpace

section StageRow

variable {filename : String} {routes : Routes} {line : Nat × List Char}

theorem stageRow_blank (h : BlankRow line.2) : stageRow filename routes line = .ok routes := by
  simp [stageRow, skipSpace_eq_nil.mpr h]

theorem stageRow_row {moduleId bankId : Int} (h : RouteRow line.2 moduleId bankId) :
    stageRow filename routes line =
      match routes.find bankId with
      | none => .ok (routes.insert bankId (moduleId, rowSource filename line.1))
      | some staged =>
        if staged.1 ≠ moduleId then
          .error ("Conflicting mapping for bank " ++ toString bankId ++ " at " ++ staged.2 ++
            " and " ++ rowSource filename line.1)
        else .ok routes := by
  have hne : skipSpace (beforeComment line.2) ≠ [] := fun hnil =>
    h.not_blank (skipSpace_eq_nil.mp hnil)
  cases hfind : routes.find bankId <;>
    simp only [stageRow, hne, if_false, mappingRow_eq_some_iff.mpr h, hfind]

theorem stageRow_malformed (hblank : ¬ BlankRow line.2) (hrow : ∀ m b, ¬ RouteRow line.2 m b) :
    stageRow filename routes line =
      .error ("Malformed mapping row at " ++ rowSource filename line.1) := by
  have hne : skipSpace (beforeComment line.2) ≠ [] := fun hnil =>
    hblank (skipSpace_eq_nil.mp hnil)
  have hnone : mappingRow (skipSpace (beforeComment line.2)) = none := by
    cases hm : mappingRow (skipSpace (beforeComment line.2)) with
    | none => rfl
    | some row => exact absurd (mappingRow_eq_some_iff.mp hm) (hrow row.1 row.2)
  simp only [stageRow, hne, if_false, hnone]

end StageRow

/-- What is staged after some lines: the routes of their rows, each with the place of a
row that gives it. -/
structure Staged (filename : String) (lines : List (Nat × List Char)) (routes : Routes) :
    Prop where
  rows : ∀ line ∈ lines, BlankRow line.2 ∨ ∃ m b, RouteRow line.2 m b
  sound : ∀ bank m source, routes.find bank = some (m, source) →
    ∃ line ∈ lines, RouteRow line.2 m bank ∧ source = rowSource filename line.1
  complete : ∀ line ∈ lines, ∀ m bank, RouteRow line.2 m bank →
    ∃ source, routes.find bank = some (m, source)

section Staged

variable {filename : String} {lines : List (Nat × List Char)} {routes : Routes}
  {line : Nat × List Char}

theorem Staged.empty (filename : String) : Staged filename [] ∅ where
  rows := by simp
  sound := by simp
  complete := by simp

theorem Staged.blank (h : Staged filename lines routes) (hblank : BlankRow line.2) :
    Staged filename (lines ++ [line]) routes where
  rows := Failing.forall_mem_concat.mpr ⟨h.rows, Or.inl hblank⟩
  sound := by
    intro bank m source hfind
    obtain ⟨l, hl, hrow⟩ := h.sound bank m source hfind
    exact ⟨l, List.mem_append_left _ hl, hrow⟩
  complete := by
    refine Failing.forall_mem_concat.mpr ⟨h.complete, fun m bank hrow => ?_⟩
    exact absurd hblank hrow.not_blank

theorem Staged.new {moduleId bankId : Int} (h : Staged filename lines routes)
    (hrow : RouteRow line.2 moduleId bankId) (hnone : routes.find bankId = none) :
    Staged filename (lines ++ [line])
      (routes.insert bankId (moduleId, rowSource filename line.1)) where
  rows := Failing.forall_mem_concat.mpr ⟨h.rows, Or.inr ⟨moduleId, bankId, hrow⟩⟩
  sound := by
    intro bank m source hfind
    rw [OrderedMap.find_insert] at hfind
    by_cases hbank : bank = bankId
    · rw [if_pos hbank, Option.some.injEq, Prod.mk.injEq] at hfind
      obtain ⟨rfl, rfl⟩ := hfind
      exact ⟨line, by simp, hbank ▸ hrow, rfl⟩
    · rw [if_neg hbank] at hfind
      obtain ⟨l, hl, hl'⟩ := h.sound bank m source hfind
      exact ⟨l, List.mem_append_left _ hl, hl'⟩
  complete := by
    refine Failing.forall_mem_concat.mpr ⟨fun l hl m bank hl' => ?_, fun m bank hl' => ?_⟩
    · obtain ⟨source, hfind⟩ := h.complete l hl m bank hl'
      have hbank : bank ≠ bankId := by
        intro he
        rw [he, hnone] at hfind
        exact absurd hfind (by simp)
      exact ⟨source, by rw [OrderedMap.find_insert, if_neg hbank, hfind]⟩
    · obtain ⟨rfl, rfl⟩ := hl'.unique hrow
      exact ⟨rowSource filename line.1, OrderedMap.find_insert_self _ _ _⟩

theorem Staged.again {moduleId bankId : Int} {source : String}
    (h : Staged filename lines routes) (hrow : RouteRow line.2 moduleId bankId)
    (hfind : routes.find bankId = some (moduleId, source)) :
    Staged filename (lines ++ [line]) routes where
  rows := Failing.forall_mem_concat.mpr ⟨h.rows, Or.inr ⟨moduleId, bankId, hrow⟩⟩
  sound := by
    intro bank m source hfind
    obtain ⟨l, hl, hl'⟩ := h.sound bank m source hfind
    exact ⟨l, List.mem_append_left _ hl, hl'⟩
  complete := by
    refine Failing.forall_mem_concat.mpr ⟨h.complete, fun m bank hl' => ?_⟩
    obtain ⟨rfl, rfl⟩ := hl'.unique hrow
    exact ⟨source, hfind⟩

theorem Staged.step {routes' : Routes} (h : Staged filename lines routes)
    (hok : stageRow filename routes line = .ok routes') :
    Staged filename (lines ++ [line]) routes' := by
  by_cases hblank : BlankRow line.2
  · rw [stageRow_blank hblank] at hok
    obtain rfl := Except.ok.inj hok
    exact h.blank hblank
  · by_cases hrow : ∃ m b, RouteRow line.2 m b
    · obtain ⟨moduleId, bankId, hrow⟩ := hrow
      rw [stageRow_row hrow] at hok
      cases hfind : routes.find bankId with
      | none =>
        rw [hfind] at hok
        obtain rfl := Except.ok.inj hok
        exact h.new hrow hfind
      | some staged =>
        obtain ⟨m, source⟩ := staged
        simp only [hfind, Failing.ite_error_eq_ok, not_not] at hok
        obtain ⟨rfl, hok⟩ := hok
        obtain rfl := Except.ok.inj hok
        exact h.again hrow hfind
    · rw [stageRow_malformed hblank (by simpa using hrow)] at hok
      exact absurd hok (by simp)

end Staged

end BankToModuleMap

namespace MappingFile

open BankToModuleMap

def Mentions (file : MappingFile) (bank moduleId : Int) : Prop :=
  ∃ content, file.content = some content ∧ ∃ line ∈ content.lines, RouteRow line.2 moduleId bank

/-- The row at the given line maps the bank to the module. -/
def RowAt (file : MappingFile) (lineNumber : Nat) (bank moduleId : Int) : Prop :=
  ∃ content, file.content = some content ∧
    ∃ line ∈ content.lines, line.1 = lineNumber ∧ RouteRow line.2 moduleId bank

/-- A file that can be read, whose lines follow the grammar, and in which no bank has two
modules. -/
structure Accepted (file : MappingFile) : Prop where
  readable : ∃ content, file.content = some content ∧ content.eof = true ∧
    ∀ line ∈ content.lines, BlankRow line.2 ∨ ∃ m b, RouteRow line.2 m b
  agree : ∀ bank m m', file.Mentions bank m → file.Mentions bank m' → m = m'

theorem mentions_iff {file : MappingFile} {content : FileContent}
    (h : file.content = some content) {bank m : Int} :
    file.Mentions bank m ↔ ∃ line ∈ content.lines, RouteRow line.2 m bank := by
  simp [Mentions, h]

end MappingFile

namespace BankToModuleMap

theorem readRoutes_eq_ok {file : MappingFile} {routes : Routes} :
    readRoutes file = .ok routes ↔
      ∃ content, file.content = some content ∧ content.eof = true ∧
        content.lines.foldlM (stageRow file.filename) ∅ = .ok routes := by
  unfold readRoutes
  cases hc : file.content with
  | none => simp
  | some content =>
    simp only [Failing.bind_eq_ok, Failing.ite_error_eq_ok, Except.ok.injEq, Option.some.injEq,
      exists_eq_left']
    cases content.eof <;> simp

theorem staged_of_readRoutes {file : MappingFile} {routes : Routes}
    (h : readRoutes file = .ok routes) :
    ∃ content, file.content = some content ∧ content.eof = true ∧
      Staged file.filename content.lines routes := by
  obtain ⟨content, hc, heof, hloop⟩ := readRoutes_eq_ok.mp h
  refine ⟨content, hc, heof, ?_⟩
  apply Failing.foldlM_invariant (Staged.empty file.filename) ?_ hloop
  intro pre line post t t' _ hstaged hstep
  exact hstaged.step hstep

theorem find_readRoutes {file : MappingFile} {routes : Routes} (h : readRoutes file = .ok routes)
    (bank m : Int) : (∃ source, routes.find bank = some (m, source)) ↔ file.Mentions bank m := by
  obtain ⟨content, hc, -, hstaged⟩ := staged_of_readRoutes h
  rw [MappingFile.mentions_iff hc]
  constructor
  · intro hh
    obtain ⟨source, hfind⟩ := hh
    obtain ⟨line, hline, hrow, -⟩ := hstaged.sound bank m source hfind
    exact ⟨line, hline, hrow⟩
  · intro hh
    obtain ⟨line, hline, hrow⟩ := hh
    exact hstaged.complete line hline m bank hrow

theorem source_of_readRoutes {file : MappingFile} {routes : Routes}
    (h : readRoutes file = .ok routes) {bank m : Int} {source : String}
    (hfind : routes.find bank = some (m, source)) :
    ∃ line, file.RowAt line bank m ∧ source = rowSource file.filename line := by
  obtain ⟨content, hc, -, hstaged⟩ := staged_of_readRoutes h
  obtain ⟨line, hline, hrow, hsource⟩ := hstaged.sound bank m source hfind
  exact ⟨line.1, ⟨content, hc, line, hline, rfl, hrow⟩, hsource⟩

theorem accepted_of_readRoutes {file : MappingFile} {routes : Routes}
    (h : readRoutes file = .ok routes) : file.Accepted where
  readable := by
    obtain ⟨content, hc, heof, hstaged⟩ := staged_of_readRoutes h
    exact ⟨content, hc, heof, hstaged.rows⟩
  agree := by
    intro bank m m' hm hm'
    obtain ⟨source, hfind⟩ := (find_readRoutes h bank m).mpr hm
    obtain ⟨source', hfind'⟩ := (find_readRoutes h bank m').mpr hm'
    rw [hfind] at hfind'
    exact congrArg Prod.fst (Option.some.inj hfind')

theorem readRoutes_of_accepted {file : MappingFile} (h : file.Accepted) :
    ∃ routes, readRoutes file = .ok routes := by
  obtain ⟨content, hc, heof, hrows⟩ := h.readable
  have hstep : ∀ pre line post t, content.lines = pre ++ line :: post →
      Staged file.filename pre t → ∃ t', stageRow file.filename t line = .ok t' ∧
        Staged file.filename (pre ++ [line]) t' := by
    intro pre line post t hsplit hstaged
    have hline : line ∈ content.lines := by
      rw [hsplit]
      exact List.mem_append_right _ List.mem_cons_self
    have hok : ∃ t', stageRow file.filename t line = .ok t' := by
      rcases hrows line hline with hblank | ⟨m, b, hrow⟩
      · exact ⟨t, stageRow_blank hblank⟩
      · rw [stageRow_row hrow]
        cases hfind : t.find b with
        | none => exact ⟨_, rfl⟩
        | some staged =>
          obtain ⟨l, hl, hrow', -⟩ := hstaged.sound b staged.1 staged.2 hfind
          have hmem : l ∈ content.lines := by
            rw [hsplit]
            exact List.mem_append_left _ hl
          have hagree : staged.1 = m := h.agree b _ _ ⟨content, hc, l, hmem, hrow'⟩
            ⟨content, hc, line, hline, hrow⟩
          exact ⟨t, by simp [hagree]⟩
    obtain ⟨t', ht'⟩ := hok
    exact ⟨t', ht', hstaged.step ht'⟩
  obtain ⟨routes, hroutes, -⟩ := Failing.foldlM_total (Staged.empty file.filename) hstep
  exact ⟨routes, readRoutes_eq_ok.mpr ⟨content, hc, heof, hroutes⟩⟩

def slot (self : BankToModuleMap) (bank : Int) : Option Int × Option String :=
  (self.bankToModule.find bank, self.routeSources.find bank)

def updateSlot (current : Option Int × Option String) (route : Int × String) :
    Option Int × Option String :=
  if current.1 = some route.1 then current else (some route.1, some route.2)

theorem slot_publishRoute (self : BankToModuleMap) (entry : Int × (Int × String)) (bank : Int) :
    (publishRoute self entry).slot bank =
      if bank = entry.1 then updateSlot (self.slot bank) entry.2 else self.slot bank := by
  obtain ⟨b, route⟩ := entry
  by_cases hbank : bank = b
  · subst hbank
    cases hfind : self.bankToModule.find bank with
    | none => simp [publishRoute, slot, updateSlot, hfind]
    | some existing =>
      by_cases he : existing = route.1
      · simp [publishRoute, slot, updateSlot, hfind, he]
      · simp [publishRoute, slot, updateSlot, hfind, he]
  · cases hfind : self.bankToModule.find b with
    | none => simp [publishRoute, slot, hfind, OrderedMap.find_insert_ne _ hbank, hbank]
    | some existing =>
      by_cases he : existing = route.1
      · simp [publishRoute, slot, hfind, he, hbank]
      · simp [publishRoute, slot, hfind, he, OrderedMap.find_insert_ne _ hbank, hbank]

theorem slot_publish (routes : Routes) (self : BankToModuleMap) (bank : Int) :
    (routes.entries.foldl publishRoute self).slot bank =
      (routes.find bank).elim (self.slot bank) (updateSlot (self.slot bank)) :=
  OrderedMap.view_foldl_entries slot_publishRoute routes self bank

theorem publishRoute_frozen (self : BankToModuleMap) (entry : Int × (Int × String)) :
    (publishRoute self entry).frozen = self.frozen := by
  obtain ⟨bank, route⟩ := entry
  cases hfind : self.bankToModule.find bank with
  | none => simp [publishRoute, hfind]
  | some existing => by_cases he : existing = route.1 <;> simp [publishRoute, hfind, he]

theorem publish_frozen (entries : List (Int × (Int × String))) (self : BankToModuleMap) :
    (entries.foldl publishRoute self).frozen = self.frozen := by
  induction entries generalizing self with
  | nil => rfl
  | cons entry entries ih => rw [List.foldl_cons, ih, publishRoute_frozen]

/-- The warning that publishing a route gives, when it replaces another module. -/
def warningOf (self : BankToModuleMap) (entry : Int × (Int × String)) : Option String :=
  match self.bankToModule.find entry.1 with
  | some existing =>
    if existing = entry.2.1 then none
    else some (overrideWarning entry.1 existing (self.routeSources.find entry.1) entry.2)
  | none => none

theorem warnings_publishRoute (self : BankToModuleMap) (entry : Int × (Int × String)) :
    (publishRoute self entry).warnings = self.warnings ++ (self.warningOf entry).toList := by
  obtain ⟨bank, route⟩ := entry
  cases hfind : self.bankToModule.find bank with
  | none => simp [publishRoute, warningOf, hfind]
  | some existing => by_cases he : existing = route.1 <;> simp [publishRoute, warningOf, hfind, he]

theorem warningOf_congr {self self' : BankToModuleMap} {entry : Int × (Int × String)}
    (h : self.slot entry.1 = self'.slot entry.1) : self.warningOf entry = self'.warningOf entry := by
  obtain ⟨hroute, hsource⟩ := Prod.mk.inj h
  simp only [warningOf, hroute, hsource]

/-- The keys of the entries differ, so each warning is about the state before the file. -/
theorem warnings_publish {entries : List (Int × (Int × String))}
    (hsorted : entries.Pairwise fun a b => a.1 < b.1) (self : BankToModuleMap) :
    (entries.foldl publishRoute self).warnings =
      self.warnings ++ entries.filterMap self.warningOf := by
  induction entries generalizing self with
  | nil => simp
  | cons entry entries ih =>
    have hp := List.pairwise_cons.mp hsorted
    have hrest : entries.filterMap (publishRoute self entry).warningOf =
        entries.filterMap self.warningOf := by
      apply List.filterMap_congr
      intro e he
      apply warningOf_congr
      have hne : e.1 ≠ entry.1 := (hp.1 e he).ne'
      rw [slot_publishRoute, if_neg hne]
    rw [List.foldl_cons, ih hp.2, hrest, warnings_publishRoute, List.append_assoc]
    cases h : self.warningOf entry <;> simp [h]

def layer (file : MappingFile) (bank : Int) : Option Int :=
  match readRoutes file with
  | .ok routes => (routes.find bank).map Prod.fst
  | .error _ => none

theorem layer_eq_some_iff {file : MappingFile} (h : file.Accepted) {bank m : Int} :
    layer file bank = some m ↔ file.Mentions bank m := by
  obtain ⟨routes, hroutes⟩ := readRoutes_of_accepted h
  rw [← find_readRoutes hroutes]
  simp [layer, hroutes]

theorem layer_eq_none {file : MappingFile} (h : file.Accepted) {bank : Int}
    (hnone : ∀ m, ¬ file.Mentions bank m) : layer file bank = none := by
  cases hlayer : layer file bank with
  | none => rfl
  | some m => exact absurd ((layer_eq_some_iff h).mp hlayer) (hnone m)

def route (self : BankToModuleMap) (bank : Int) : Option Int := self.bankToModule.find bank

theorem updateSlot_fst (current : Option Int × Option String) (route : Int × String) :
    (updateSlot current route).1 = some route.1 := by
  unfold updateSlot
  split
  · assumption
  · rfl

theorem route_loadMappingFile (file : MappingFile) (self : BankToModuleMap)
    (h : (loadMappingFile file self).1 = .ok ()) :
    file.Accepted ∧ self.frozen = false ∧ (loadMappingFile file self).2.frozen = false ∧
      (loadMappingFile file self).2.route = Overlay.overlay self.route (layer file) := by
  cases hroutes : readRoutes file with
  | error message => simp [loadMappingFile, hroutes] at h
  | ok routes =>
    cases hfrozen : self.frozen with
    | true => simp [loadMappingFile, hroutes, hfrozen] at h
    | false =>
      have hload : (loadMappingFile file self).2 = routes.entries.foldl publishRoute self := by
        simp [loadMappingFile, hroutes, hfrozen]
      rw [hload, publish_frozen, hfrozen]
      refine ⟨accepted_of_readRoutes hroutes, rfl, rfl, ?_⟩
      funext bank
      change ((routes.entries.foldl publishRoute self).slot bank).1 = _
      rw [slot_publish]
      simp only [Overlay.overlay, layer, hroutes]
      cases routes.find bank with
      | none => rfl
      | some r => exact updateSlot_fst _ _

theorem loadMappingFile_ok_iff {file : MappingFile} {self : BankToModuleMap}
    (hfrozen : self.frozen = false) : (loadMappingFile file self).1 = .ok () ↔ file.Accepted := by
  constructor
  · intro h
    exact (route_loadMappingFile file self h).1
  · intro h
    obtain ⟨routes, hroutes⟩ := readRoutes_of_accepted h
    simp [loadMappingFile, hroutes, hfrozen]

theorem loadMappingFile_error {file : MappingFile} {self : BankToModuleMap} {message : String}
    (h : (loadMappingFile file self).1 = .error message) : (loadMappingFile file self).2 = self := by
  cases hroutes : readRoutes file with
  | error message' => simp [loadMappingFile, hroutes]
  | ok routes =>
    cases hfrozen : self.frozen with
    | true => simp [loadMappingFile, hroutes, hfrozen]
    | false => simp [loadMappingFile, hroutes, hfrozen] at h

theorem loadMappingFile_frozen (file : MappingFile) (self : BankToModuleMap) :
    (loadMappingFile file self).2.frozen = self.frozen := by
  cases hroutes : readRoutes file with
  | error message => simp [loadMappingFile, hroutes]
  | ok routes =>
    cases hfrozen : self.frozen <;> simp [loadMappingFile, hroutes, hfrozen, publish_frozen]

/-- Files loaded in order, until one of them is rejected. -/
def loadMappingFiles : List MappingFile → BankToModuleMap → Except String Unit × BankToModuleMap
  | [], self => (.ok (), self)
  | file :: files, self =>
    match loadMappingFile file self with
    | (.ok (), self) => loadMappingFiles files self
    | (.error message, self) => (.error message, self)

theorem route_loadMappingFiles {files : List MappingFile} {self : BankToModuleMap}
    (h : (loadMappingFiles files self).1 = .ok ()) :
    (∀ file ∈ files, file.Accepted) ∧
      (loadMappingFiles files self).2.route = Overlay.overlays self.route (files.map layer) := by
  induction files generalizing self with
  | nil => exact ⟨by simp, rfl⟩
  | cons file files ih =>
    cases hload : loadMappingFile file self with
    | mk result self' =>
      cases result with
      | error message => simp [loadMappingFiles, hload] at h
      | ok =>
        have hfile := route_loadMappingFile file self (by rw [hload])
        simp only [loadMappingFiles, hload] at h ⊢ hfile
        obtain ⟨haccepted, hroute⟩ := ih h
        refine ⟨by simpa using ⟨hfile.1, haccepted⟩, ?_⟩
        rw [hroute, hfile.2.2.2]
        rfl

theorem loadMappingFiles_ok {files : List MappingFile} {self : BankToModuleMap}
    (hfrozen : self.frozen = false) (h : ∀ file ∈ files, file.Accepted) :
    (loadMappingFiles files self).1 = .ok () := by
  induction files generalizing self with
  | nil => rfl
  | cons file files ih =>
    have hok := (loadMappingFile_ok_iff hfrozen).mpr (h file (by simp))
    have hstate := (route_loadMappingFile file self hok).2.2.1
    have hrest := ih hstate fun f hf => h f (by simp [hf])
    cases hload : loadMappingFile file self with
    | mk result self' =>
      rw [hload] at hok hrest
      obtain rfl := hok
      simpa [loadMappingFiles, hload] using hrest

theorem loadMappingFiles_frozen (files : List MappingFile) (self : BankToModuleMap) :
    (loadMappingFiles files self).2.frozen = self.frozen := by
  induction files generalizing self with
  | nil => rfl
  | cons file files ih =>
    have hfile := loadMappingFile_frozen file self
    cases hload : loadMappingFile file self with
    | mk result self' =>
      rw [hload] at hfile
      cases result with
      | error message => simpa [loadMappingFiles, hload] using hfile
      | ok =>
        simp only [loadMappingFiles, hload]
        rw [ih, hfile]

/-- Loading mapping files into a registry that is not frozen. A file is accepted exactly
when it reads to its end, its lines follow the grammar and it maps no bank twice; a
rejected file changes nothing; and after all files are loaded a bank has the module of the
last file that mentions it, else its earlier route, else the answer is -1. -/
theorem loadMappingFiles_layered (self : BankToModuleMap) (hfrozen : self.frozen = false) :
    (∀ file, (loadMappingFile file self).1 = .ok () ↔ file.Accepted) ∧
    (∀ file message, (loadMappingFile file self).1 = .error message →
      (loadMappingFile file self).2.bankToModule = self.bankToModule ∧
      (loadMappingFile file self).2.routeSources = self.routeSources) ∧
    ∀ files : List MappingFile,
      ((loadMappingFiles files self).1 = .ok () ↔ ∀ file ∈ files, file.Accepted) ∧
      ((loadMappingFiles files self).1 = .ok () → ∀ bank,
        (∀ pre file post m, files = pre ++ file :: post → file.Mentions bank m →
          (∀ later ∈ post, ∀ m', ¬ later.Mentions bank m') →
          (getModuleId bank (loadMappingFiles files self).2).1 = m) ∧
        ((∀ file ∈ files, ∀ m, ¬ file.Mentions bank m) →
          (getModuleId bank (loadMappingFiles files self).2).1 =
            (self.bankToModule.find bank).getD (-1))) := by
  refine ⟨fun file => loadMappingFile_ok_iff hfrozen, fun file message h => ?_, fun files => ?_⟩
  · rw [loadMappingFile_error h]
    exact ⟨rfl, rfl⟩
  · refine ⟨⟨fun h => (route_loadMappingFiles h).1, loadMappingFiles_ok hfrozen⟩, fun h bank => ?_⟩
    obtain ⟨haccepted, hroute⟩ := route_loadMappingFiles h
    have hanswer : (getModuleId bank (loadMappingFiles files self).2).1 =
        (Overlay.overlays self.route (files.map layer) bank).getD (-1) := by
      rw [← hroute]
      rfl
    rw [hanswer]
    constructor
    · intro pre file post m hfiles hmentions hlater
      have hlayer := (layer_eq_some_iff (haccepted file (by simp [hfiles]))).mpr hmentions
      have hnone : ∀ later ∈ post.map layer, later bank = none := by
        intro later hmem
        obtain ⟨f, hf, rfl⟩ := List.mem_map.mp hmem
        exact layer_eq_none (haccepted f (by simp [hfiles, hf])) (hlater f hf)
      rw [hfiles, List.map_append, List.map_cons, Overlay.overlays_eq_last hlayer hnone]
      rfl
    · intro hnone
      rw [Overlay.overlays_eq_base]
      · rfl
      · intro l hmem
        obtain ⟨f, hf, rfl⟩ := List.mem_map.mp hmem
        exact layer_eq_none (haccepted f hf) (hnone f hf)

def pluginRoutes : BankToModuleMap := { bankToModule := OrderedMap.empty.insert 9250 9250 }

/-- A core file and an appended file that overrides one of its banks. -/
def layerFiles : List MappingFile :=
  [⟨"core/mapping.db", some ⟨"250 250\n9001 9001\n", true⟩⟩,
    ⟨"site/mapping.db", some ⟨" # site\n999 250 # new\n", true⟩⟩]

theorem loadMappingFiles_layered_site :
    (loadMappingFiles layerFiles pluginRoutes).1 = .ok () ∧
    (getModuleId 250 (loadMappingFiles layerFiles pluginRoutes).2).1 = 999 := by
  have hok : (loadMappingFiles layerFiles pluginRoutes).1 = .ok () := by decide +kernel
  obtain ⟨-, -, hfiles⟩ := loadMappingFiles_layered pluginRoutes rfl
  refine ⟨hok, (((hfiles layerFiles).2 hok 250).1 [layerFiles[0]] layerFiles[1] [] 999 rfl ?_
    (by simp))⟩
  exact ⟨_, rfl, (2, "999 250 # new".toList), by decide +kernel,
    mappingRow_eq_some_iff.mp (by decide +kernel)⟩

end BankToModuleMap

end JanaExtensions
