import JanaExtensions.RouteLayers

/-! The registry of routes over any sequence of calls. Its first lookup fixes all answers,
and until then the recorded source of a bank tells which call last set its module. -/

namespace JanaExtensions

namespace BankToModuleMap

inductive Call where
  | addRoute (bankId moduleId : Int)
  | loadMappingFile (file : MappingFile)
  | getModuleId (bankId : Int)

/-- What the call returns or throws, and the registry after it. -/
def perform : Call → BankToModuleMap → Except String (Option Int) × BankToModuleMap
  | .addRoute bankId moduleId, self =>
    ((addRoute bankId moduleId self).1.map fun _ => none, (addRoute bankId moduleId self).2)
  | .loadMappingFile file, self =>
    ((loadMappingFile file self).1.map fun _ => none, (loadMappingFile file self).2)
  | .getModuleId bankId, self => (.ok (getModuleId bankId self).1, (getModuleId bankId self).2)

def after (calls : List Call) : BankToModuleMap :=
  calls.foldl (fun self call => (perform call self).2) {}

theorem after_append_singleton (calls : List Call) (call : Call) :
    after (calls ++ [call]) = (perform call (after calls)).2 := by
  simp [after]

/-- What a call can do to a bank: nothing, or a new plugin route, or a route from a row. -/
theorem slot_perform (call : Call) (self : BankToModuleMap) (bank : Int) :
    (perform call self).2.slot bank = self.slot bank ∨
    (∃ m, call = .addRoute bank m ∧ self.route bank = none ∧
      (perform call self).2.slot bank = (some m, self.routeSources.find bank)) ∨
    ∃ file line m, call = .loadMappingFile file ∧ self.route bank ≠ some m ∧
      file.RowAt line bank m ∧
      (perform call self).2.slot bank = (some m, some (rowSource file.filename line)) := by
  cases call with
  | getModuleId bankId => exact Or.inl rfl
  | addRoute bankId moduleId =>
    cases hfrozen : self.frozen with
    | true =>
      left
      simp [perform, addRoute, hfrozen]
    | false =>
      cases hfind : self.bankToModule.find bankId with
      | some existing =>
        left
        simp [perform, addRoute, hfrozen, OrderedMap.emplace, hfind]
      | none =>
        by_cases hbank : bank = bankId
        · subst hbank
          right
          left
          refine ⟨moduleId, rfl, hfind, ?_⟩
          simp [perform, addRoute, hfrozen, OrderedMap.emplace, hfind, slot]
        · left
          simp [perform, addRoute, hfrozen, OrderedMap.emplace, hfind, slot,
            OrderedMap.find_insert_ne _ hbank]
  | loadMappingFile file =>
    cases hroutes : readRoutes file with
    | error message =>
      left
      simp [perform, loadMappingFile, hroutes]
    | ok routes =>
      cases hfrozen : self.frozen with
      | true =>
        left
        simp [perform, loadMappingFile, hroutes, hfrozen]
      | false =>
        have hload : (perform (.loadMappingFile file) self).2.slot bank =
            (routes.find bank).elim (self.slot bank) (updateSlot (self.slot bank)) := by
          rw [← slot_publish]
          simp [perform, loadMappingFile, hroutes, hfrozen]
        rw [hload]
        cases hfind : routes.find bank with
        | none => exact Or.inl rfl
        | some r =>
          obtain ⟨m, source⟩ := r
          by_cases hsame : self.route bank = some m
          · left
            exact if_pos hsame
          · obtain ⟨line, hrow, rfl⟩ := source_of_readRoutes hroutes hfind
            right
            right
            exact ⟨file, line, m, rfl, hsame, hrow, if_neg hsame⟩

/-- The last call that changed the route of a bank, and the calls before it. -/
def LastChange (calls : List Call) (bank : Int) (pre : List Call) (call : Call) : Prop :=
  ∃ post, calls = pre ++ call :: post ∧
    (after (pre ++ [call])).route bank ≠ (after pre).route bank ∧
    ∀ later, later <+: post → (after (pre ++ call :: later)).route bank = (after calls).route bank

theorem LastChange.append_of_eq {calls pre : List Call} {bank : Int} {call next : Call}
    (h : LastChange calls bank pre call)
    (hsame : (after (calls ++ [next])).route bank = (after calls).route bank) :
    LastChange (calls ++ [next]) bank pre call := by
  obtain ⟨post, rfl, hchange, hlater⟩ := h
  refine ⟨post ++ [next], by simp, hchange, ?_⟩
  intro later hpre
  rw [hsame]
  rcases List.prefix_concat_iff.mp hpre with rfl | hpre
  · simpa using hsame
  · exact hlater later hpre

theorem lastChange_of_ne {calls : List Call} {bank : Int} {next : Call}
    (hchange : (after (calls ++ [next])).route bank ≠ (after calls).route bank) :
    LastChange (calls ++ [next]) bank calls next := by
  refine ⟨[], rfl, hchange, ?_⟩
  intro later hpre
  rw [List.prefix_nil.mp hpre]

theorem LastChange.unique {calls pre pre' : List Call} {bank : Int} {call call' : Call}
    (h : LastChange calls bank pre call) (h' : LastChange calls bank pre' call') :
    pre = pre' ∧ call = call' := by
  have hle : ∀ {p p' : List Call} {c c' : Call}, LastChange calls bank p c →
      LastChange calls bank p' c' → p'.length ≤ p.length := by
    intro p p' c c' hl hl'
    obtain ⟨post, hsplit, -, hlater⟩ := hl
    obtain ⟨post', hsplit', hchange', hlater'⟩ := hl'
    by_contra hlt
    have hpre : p ++ [c] <+: p' := by
      have hp : p ++ [c] <+: calls := ⟨post, by simp [hsplit]⟩
      have hp' : p' <+: calls := ⟨c' :: post', hsplit'.symm⟩
      apply List.prefix_of_prefix_length_le hp hp'
      simp only [List.length_append, List.length_singleton]
      omega
    obtain ⟨between, rfl⟩ := hpre
    have hpost : post = between ++ c' :: post' := by
      rw [hsplit] at hsplit'
      simpa using hsplit'
    have hbefore := hlater between ⟨c' :: post', hpost.symm⟩
    have hafter := hlater' [] List.nil_prefix
    apply hchange'
    rw [hafter, ← hbefore]
    simp
  have hlength : pre.length = pre'.length := Nat.le_antisymm (hle h' h) (hle h h')
  obtain ⟨post, hsplit, -⟩ := h
  obtain ⟨post', hsplit', -⟩ := h'
  obtain ⟨rfl, hcons⟩ := List.append_inj (hsplit.symm.trans hsplit') hlength
  exact ⟨rfl, (List.cons.inj hcons).1⟩

/-- The recorded source of a bank names the row that last set its module; without a
recorded source the module was set by a plugin. -/
structure Provenance (calls : List Call) (bank : Int) : Prop where
  fromRow : ∀ source, (after calls).routeSources.find bank = some source →
    ∃ pre file line m, LastChange calls bank pre (.loadMappingFile file) ∧
      (after calls).route bank = some m ∧ file.RowAt line bank m ∧
      source = rowSource file.filename line
  fromPlugin : (after calls).routeSources.find bank = none →
    ∀ m, (after calls).route bank = some m → ∃ pre, LastChange calls bank pre (.addRoute bank m)

theorem Provenance.step {calls : List Call} {bank : Int} (h : Provenance calls bank)
    (call : Call) : Provenance (calls ++ [call]) bank := by
  have hslot := slot_perform call (after calls) bank
  rw [← after_append_singleton] at hslot
  rcases hslot with hsame | ⟨m, rfl, hnone, hnew⟩ | ⟨file, line, m, rfl, hne, hrow, hnew⟩
  · obtain ⟨hroute, hsource⟩ := Prod.mk.inj hsame
    constructor
    · intro source hfind
      rw [hsource] at hfind
      obtain ⟨pre, file, line, m, hlast, hm, hrow, rfl⟩ := h.fromRow source hfind
      exact ⟨pre, file, line, m, hlast.append_of_eq hroute, hroute.trans hm, hrow, rfl⟩
    · intro hfind m hm
      rw [hsource] at hfind
      obtain ⟨pre, hlast⟩ := h.fromPlugin hfind m (hroute.symm.trans hm)
      exact ⟨pre, hlast.append_of_eq hroute⟩
  · obtain ⟨hroute, hsource⟩ := Prod.mk.inj hnew
    have hnosource : (after calls).routeSources.find bank = none := by
      cases hfind : (after calls).routeSources.find bank with
      | none => rfl
      | some source =>
        obtain ⟨_, _, _, m', _, hm, _⟩ := h.fromRow source hfind
        rw [hnone] at hm
        exact absurd hm (by simp)
    constructor
    · intro source hfind
      rw [hsource, hnosource] at hfind
      exact absurd hfind (by simp)
    · intro _ m' hm'
      have hm : m' = m := Option.some.inj (hm'.symm.trans hroute)
      subst hm
      refine ⟨calls, lastChange_of_ne ?_⟩
      rw [hm', hnone]
      simp
  · obtain ⟨hroute, hsource⟩ := Prod.mk.inj hnew
    have hlast : LastChange (calls ++ [.loadMappingFile file]) bank calls
        (.loadMappingFile file) := by
      apply lastChange_of_ne
      intro he
      exact hne (he.symm.trans hroute)
    constructor
    · intro source hfind
      have hs : source = rowSource file.filename line :=
        Option.some.inj (hfind.symm.trans hsource)
      exact ⟨calls, file, line, m, hlast, hroute, hrow, hs⟩
    · intro hfind
      exact absurd (hfind.symm.trans hsource) (by simp)

theorem provenance_after (calls : List Call) (bank : Int) : Provenance calls bank := by
  induction calls using List.reverseRecOn with
  | nil => exact ⟨by simp [after], by simp [after, route]⟩
  | append_singleton calls call ih => exact ih.step call

theorem perform_of_frozen {self : BankToModuleMap} (h : self.frozen = true) (call : Call) :
    (perform call self).2.frozen = true ∧
      (perform call self).2.bankToModule = self.bankToModule := by
  cases call with
  | addRoute bankId moduleId => simp [perform, addRoute, h]
  | loadMappingFile file =>
    cases hroutes : readRoutes file <;> simp [perform, loadMappingFile, hroutes, h]
  | getModuleId bankId => simp [perform, getModuleId]

theorem after_lookup (pre post : List Call) (asked : Int) :
    (after (pre ++ .getModuleId asked :: post)).frozen = true ∧
      (after (pre ++ .getModuleId asked :: post)).bankToModule = (after pre).bankToModule := by
  induction post using List.reverseRecOn with
  | nil =>
    rw [after_append_singleton]
    exact ⟨rfl, rfl⟩
  | append_singleton post call ih =>
    have hsplit : pre ++ .getModuleId asked :: (post ++ [call]) =
        (pre ++ .getModuleId asked :: post) ++ [call] := by simp
    obtain ⟨hfrozen, hroutes⟩ := perform_of_frozen ih.1 call
    rw [hsplit, after_append_singleton]
    exact ⟨hfrozen, hroutes.trans ih.2⟩

theorem addRoute_of_frozen {self : BankToModuleMap} (h : self.frozen = true)
    (bankId moduleId : Int) : ∃ message, (addRoute bankId moduleId self).1 = .error message := by
  simp [addRoute, h]

theorem loadMappingFile_of_frozen {self : BankToModuleMap} (h : self.frozen = true)
    (file : MappingFile) : ∃ message, (loadMappingFile file self).1 = .error message := by
  cases hroutes : readRoutes file <;> simp [loadMappingFile, hroutes, h]

theorem addRoute_of_routed {self : BankToModuleMap} {bankId : Int} (h : self.route bankId ≠ none)
    (moduleId : Int) : ∃ message, addRoute bankId moduleId self = (.error message, self) := by
  obtain ⟨existing, hfind⟩ := Option.ne_none_iff_exists'.mp h
  have hemplace : self.bankToModule.find bankId = some existing := hfind
  cases hfrozen : self.frozen <;> simp [addRoute, hfrozen, OrderedMap.emplace, hemplace]

theorem isSome_routeSources_iff (calls : List Call) (bank : Int) :
    ((after calls).routeSources.find bank).isSome ↔
      ∃ pre file, LastChange calls bank pre (.loadMappingFile file) := by
  have h := provenance_after calls bank
  constructor
  · intro hsome
    obtain ⟨source, hfind⟩ := Option.isSome_iff_exists.mp hsome
    obtain ⟨pre, file, -, -, hlast, -⟩ := h.fromRow source hfind
    exact ⟨pre, file, hlast⟩
  · intro hh
    obtain ⟨pre, file, hlast⟩ := hh
    by_contra hnone
    have hnone : (after calls).routeSources.find bank = none := by simpa using hnone
    cases hroute : (after calls).route bank with
    | none =>
      -- The load gave the bank a module, and nothing has changed its route since.
      obtain ⟨post, hcalls, hchange, hlater⟩ := hlast
      have hset := hlater [] List.nil_prefix
      rw [hroute, after_append_singleton] at hset
      rw [after_append_singleton] at hchange
      rcases slot_perform (.loadMappingFile file) (after pre) bank with hsame | hnew | hnew
      · exact hchange (congrArg Prod.fst hsame)
      · obtain ⟨m, hcall, -⟩ := hnew
        exact absurd hcall (by simp)
      · obtain ⟨_, _, m, _, _, _, hnew⟩ := hnew
        exact absurd (hset.symm.trans (congrArg Prod.fst hnew)) (by simp)
    | some m =>
      obtain ⟨pre', hplugin⟩ := h.fromPlugin hnone m hroute
      exact absurd (hlast.unique hplugin).2 (by simp)

/-- A warning of a load names the two modules, the new row, and what set the overridden
module: its row, or a plugin. -/
theorem warnings_loadMappingFile (calls : List Call) (file : MappingFile) :
    ∃ fresh, (loadMappingFile file (after calls)).2.warnings = (after calls).warnings ++ fresh ∧
      ∀ warning ∈ fresh, ∃ bank existing m line,
        (after calls).route bank = some existing ∧ existing ≠ m ∧ file.RowAt line bank m ∧
        ((∃ pre old oldLine, LastChange calls bank pre (.loadMappingFile old) ∧
            old.RowAt oldLine bank existing ∧
            warning = overrideWarning bank existing (some (rowSource old.filename oldLine))
              (m, rowSource file.filename line)) ∨
          ∃ pre, LastChange calls bank pre (.addRoute bank existing) ∧
            warning = overrideWarning bank existing none (m, rowSource file.filename line)) := by
  cases hroutes : readRoutes file with
  | error message => exact ⟨[], by simp [loadMappingFile, hroutes]⟩
  | ok routes =>
    cases hfrozen : (after calls).frozen with
    | true => exact ⟨[], by simp [loadMappingFile, hroutes, hfrozen]⟩
    | false =>
      refine ⟨routes.entries.filterMap (after calls).warningOf, ?_, ?_⟩
      · simp [loadMappingFile, hroutes, hfrozen, warnings_publish routes.sorted]
      · intro warning hmem
        obtain ⟨entry, hentry, hwarning⟩ := List.mem_filterMap.mp hmem
        obtain ⟨bank, m, source⟩ := entry
        obtain ⟨line, hrow, rfl⟩ :=
          source_of_readRoutes hroutes (OrderedMap.mem_entries_iff.mp hentry)
        simp only [warningOf] at hwarning
        cases hroute : (after calls).bankToModule.find bank with
        | none => simp [hroute] at hwarning
        | some existing =>
          simp only [hroute, Option.ite_none_left_eq_some, Option.some.injEq] at hwarning
          obtain ⟨hne, rfl⟩ := hwarning
          refine ⟨bank, existing, m, line, hroute, hne, hrow, ?_⟩
          have h := provenance_after calls bank
          cases hsource : (after calls).routeSources.find bank with
          | none =>
            obtain ⟨pre, hlast⟩ := h.fromPlugin hsource existing hroute
            exact Or.inr ⟨pre, hlast, rfl⟩
          | some source =>
            obtain ⟨pre, old, oldLine, m', hlast, hm', hold, rfl⟩ := h.fromRow source hsource
            have he : m' = existing := Option.some.inj (hm'.symm.trans hroute)
            exact Or.inl ⟨pre, old, oldLine, hlast, he ▸ hold, rfl⟩

/-- A load that returns has given each bank with a row in the file the module of the row, and has
left the other banks alone. -/
theorem published_of_load {file : MappingFile} {self : BankToModuleMap}
    (h : (loadMappingFile file self).1 = .ok ()) (bank : Int) :
    (∀ m, file.Mentions bank m → (loadMappingFile file self).2.route bank = some m) ∧
      ((∀ m, ¬ file.Mentions bank m) →
        (loadMappingFile file self).2.route bank = self.route bank) := by
  obtain ⟨haccepted, -, -, hroute⟩ := route_loadMappingFile file self h
  rw [hroute, Overlay.overlay]
  constructor
  · intro m hmentions
    rw [(layer_eq_some_iff haccepted).mpr hmentions, Option.some_or]
  · intro hnone
    rw [layer_eq_none haccepted hnone, Option.none_or]

/-- Over every sequence of calls: the first lookup fixes all answers and closes the
registry, a routed bank takes no plugin route, a load that
returns has published every row of its file, a bank has a recorded source exactly when a
file last set its module, and the source, as well as every warning that quotes it, names
the row. -/
theorem route_registry (calls : List Call) :
    (∀ pre asked post, calls = pre ++ .getModuleId asked :: post →
      (∀ bank m, ∃ message, (addRoute bank m (after calls)).1 = .error message) ∧
      (∀ file, ∃ message, (loadMappingFile file (after calls)).1 = .error message) ∧
      ∀ bank, (getModuleId bank (after calls)).1 = (getModuleId bank (after pre)).1) ∧
    (∀ bank m, (after calls).route bank ≠ none →
      ∃ message, addRoute bank m (after calls) = (.error message, after calls)) ∧
    (∀ file, (loadMappingFile file (after calls)).1 = .ok () → ∀ bank,
      (∀ m, file.Mentions bank m →
        (loadMappingFile file (after calls)).2.route bank = some m) ∧
      ((∀ m, ¬ file.Mentions bank m) →
        (loadMappingFile file (after calls)).2.route bank = (after calls).route bank)) ∧
    (∀ bank, ((after calls).routeSources.find bank).isSome ↔
      ∃ pre file, LastChange calls bank pre (.loadMappingFile file)) ∧
    (∀ bank source, (after calls).routeSources.find bank = some source →
      ∃ pre file line m, LastChange calls bank pre (.loadMappingFile file) ∧
        (after calls).route bank = some m ∧ file.RowAt line bank m ∧
        source = rowSource file.filename line) ∧
    ∀ file, ∃ fresh,
      (loadMappingFile file (after calls)).2.warnings = (after calls).warnings ++ fresh ∧
      ∀ warning ∈ fresh, ∃ bank existing m line,
        (after calls).route bank = some existing ∧ existing ≠ m ∧ file.RowAt line bank m ∧
        ((∃ pre old oldLine, LastChange calls bank pre (.loadMappingFile old) ∧
            old.RowAt oldLine bank existing ∧
            warning = overrideWarning bank existing (some (rowSource old.filename oldLine))
              (m, rowSource file.filename line)) ∨
          ∃ pre, LastChange calls bank pre (.addRoute bank existing) ∧
            warning = overrideWarning bank existing none (m, rowSource file.filename line)) := by
  refine ⟨?_, ?_, fun file => published_of_load, isSome_routeSources_iff calls, ?_,
    warnings_loadMappingFile calls⟩
  · intro pre asked post hcalls
    subst hcalls
    obtain ⟨hfrozen, hroutes⟩ := after_lookup pre post asked
    refine ⟨addRoute_of_frozen hfrozen, loadMappingFile_of_frozen hfrozen, fun bank => ?_⟩
    simp only [getModuleId, hroutes]
  · intro bank m hrouted
    exact addRoute_of_routed hrouted m
  · intro bank
    exact (provenance_after calls bank).fromRow

end BankToModuleMap

end JanaExtensions
