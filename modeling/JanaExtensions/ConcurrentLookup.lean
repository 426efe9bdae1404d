import JanaExtensions.Interleaving
import JanaExtensions.RunSelection

/-! Concurrent lookups of tables. Calls of `getTable` take turns in any order, at each read
and write of what they share: the run tables, the once flag of the load, the loaded flag and
the pointer to the run range of a recent lookup. -/

namespace JanaExtensions.TranslationService

open IntervalTable

namespace ConcurrentLookup

/-- A call that throws inside `call_once` resets the flag. -/
inductive OnceFlag (Call : Type*) where
  | idle
  | running (call : Call)
  | done
  deriving DecidableEq

structure Shared (Call : Type*) where
  runTables : List RunRangeTable := []
  loaded : Bool := false
  loadOnce : OnceFlag Call := .idle
  /-- The pointer to an entry of the run tables, as its index. -/
  cachedRunTable : Option Nat := none

inductive Outcome where
  | returned (table : SharedTable)
  | thrown (message : String)
  /-- The dereference of a pointer that is not to an entry of the run tables. -/
  | undefined
  deriving DecidableEq

/-- How far a call of `getTable` has come. -/
inductive Point where
  | start
  | callOnce
  | loadTables
  | clearCache
  | setLoaded
  | leaveOnce
  | readCache
  | testCache (cached : Option Nat)
  | search
  | storeCache (range : Nat)
  | loadFailed (message : String)
  | ended (outcome : Outcome)
  deriving DecidableEq

def findRunIndex (runTables : List RunRangeTable) (runNumber : UInt64) : Option Nat :=
  match upperBound (fun range => decide (runNumber < range.runMin)) runTables with
  | 0 => none
  | n + 1 => (runTables[n]?.filter fun range => decide (runNumber ≤ range.runMax)).map fun _ => n

def tableAt (runTables : List RunRangeTable) (range : Nat) : Outcome :=
  match runTables[range]? with
  | some range => .returned range.table
  | none => .undefined

def testCached (runTables : List RunRangeTable) (runNumber : UInt64) : Option Nat → Point
  | none => .search
  | some cached =>
    match runTables[cached]? with
    | none => .ended .undefined
    | some range =>
      if range.runMin ≤ runNumber ∧ runNumber ≤ range.runMax then .ended (.returned range.table)
      else .search

/-- What the loading of the tables reads: the files, and the catalogs at that time. -/
abbrev Environment := FileSystem × Configuration

/-- The next step of a call of `getTable`, none if it waits for the load of another call or
has ended. The load publishes its tables at the end, after all that can throw. -/
def getTableStep {Call : Type*} (runNumber : Call → UInt64) (environment : Environment)
    (call : Call) (s : Shared Call) : Point → Option (Shared Call × Point)
  | .start => some (s, if s.loaded then .readCache else .callOnce)
  | .callOnce =>
    match s.loadOnce with
    | .idle => some ({ s with loadOnce := .running call }, .loadTables)
    | .running _ => none
    | .done => some (s, .readCache)
  | .loadTables =>
    match TranslationService.loadTables environment.1 environment.2 with
    | .error message => some ({ s with loadOnce := .idle }, .loadFailed message)
    | .ok runTables =>
      some ({ s with runTables }, if environment.2.providers = [] then .setLoaded else .clearCache)
  | .clearCache => some ({ s with cachedRunTable := none }, .setLoaded)
  | .setLoaded => some ({ s with loaded := true }, .leaveOnce)
  | .leaveOnce => some ({ s with loadOnce := .done }, .readCache)
  | .readCache => some (s, .testCache s.cachedRunTable)
  | .testCache cached => some (s, testCached s.runTables (runNumber call) cached)
  | .search =>
    match findRunIndex s.runTables (runNumber call) with
    | some range => some (s, .storeCache range)
    | none => some (s, .ended (.thrown (noTable (runNumber call))))
  | .storeCache range =>
    some ({ s with cachedRunTable := some range }, .ended (tableAt s.runTables range))
  | .loadFailed _ | .ended _ => none

variable {Call : Type*}

abbrev State (Call : Type*) := Interleaving.State Call (Shared Call) Point

def initial : State Call := ⟨{}, fun _ => .start⟩

/-- The state after the given turns of the calls. -/
def afterTurns [DecidableEq Call] (runNumber : Call → UInt64)
    (schedule : List (Call × Environment)) : State Call :=
  Interleaving.run (getTableStep runNumber) initial schedule

/-- The binary search over the run tables alone. -/
def searchAlone (runTables : List RunRangeTable) (runNumber : UInt64) : Outcome :=
  match answer runTables runNumber with
  | .ok table => .returned table
  | .error message => .thrown message

section Search

variable {runTables : List RunRangeTable} {runNumber : UInt64}

theorem findRunTable_eq_bind :
    findRunTable runTables runNumber =
      (findRunIndex runTables runNumber).bind fun range => runTables[range]? := by
  rw [findRunTable, search, findRunIndex]
  generalize upperBound (fun range => decide (runNumber < range.runMin)) runTables = bound
  cases bound with
  | zero => rfl
  | succ n =>
    cases hget : runTables[n]? with
    | none => simp [hget]
    | some range =>
      by_cases hend : runNumber ≤ range.runMax <;> simp [Option.filter, hend, hget]

theorem findRunIndex_eq_some {range : Nat} (h : findRunIndex runTables runNumber = some range) :
    ∃ t, runTables[range]? = some t ∧ findRunTable runTables runNumber = some t := by
  have hfound : findRunTable runTables runNumber = runTables[range]? := by
    rw [findRunTable_eq_bind, h, Option.bind_some]
  rw [findRunIndex] at h
  split at h
  · cases h
  · obtain ⟨t, ht, rfl⟩ := Option.map_eq_some_iff.mp h
    have hget := (Option.filter_eq_some_iff.mp ht).1
    exact ⟨t, hget, hfound.trans hget⟩

theorem searchAlone_of_find {t : RunRangeTable} (h : findRunTable runTables runNumber = some t) :
    searchAlone runTables runNumber = .returned t.table := by
  rw [searchAlone, answer, h]

theorem searchAlone_of_not_found (h : findRunIndex runTables runNumber = none) :
    searchAlone runTables runNumber = .thrown (noTable runNumber) := by
  rw [searchAlone, answer, findRunTable_eq_bind, h, Option.bind_none]

theorem tableAt_of_found {range : Nat} (h : findRunIndex runTables runNumber = some range) :
    tableAt runTables range = searchAlone runTables runNumber := by
  obtain ⟨t, hget, hfound⟩ := findRunIndex_eq_some h
  rw [tableAt, hget, searchAlone_of_find hfound]

/-- A cached run range that contains the run is the one that the search finds. -/
theorem testCached_cases (runNumber : UInt64) (hordered : Ordered runTables)
    {cached : Option Nat} (hcached : ∀ i ∈ cached, i < runTables.length) :
    testCached runTables runNumber cached = .search ∨
      testCached runTables runNumber cached = .ended (searchAlone runTables runNumber) := by
  cases cached with
  | none => exact .inl rfl
  | some i =>
    obtain ⟨t, ht⟩ : ∃ t, runTables[i]? = some t :=
      ⟨runTables.get ⟨i, hcached i rfl⟩, List.getElem?_eq_getElem (hcached i rfl)⟩
    by_cases hhit : t.runMin ≤ runNumber ∧ runNumber ≤ t.runMax
    · right
      have hfound := (findRunTable_eq_some_iff hordered).mpr ⟨List.mem_of_getElem? ht, hhit⟩
      rw [testCached, ht, searchAlone_of_find hfound]
      exact if_pos hhit
    · left
      rw [testCached, ht]
      exact if_neg hhit

end Search

section Invariant

structure Consistent (s : Shared Call) : Prop where
  ordered : s.loaded = true → Ordered s.runTables
  cached : ∀ i ∈ s.cachedRunTable, s.loaded = true ∧ i < s.runTables.length
  idle : s.loadOnce = .idle → s.loaded = false
  done : s.loadOnce = .done → s.loaded = true

/-- The call is inside `call_once`. -/
def Point.InOnce : Point → Prop
  | .loadTables | .clearCache | .setLoaded | .leaveOnce => True
  | _ => False

/-- What holds when the call has come to this point. -/
def Point.Holds (runNumber : UInt64) (s : Shared Call) : Point → Prop
  | .start | .callOnce => True
  | .loadTables => s.loaded = false
  | .clearCache | .setLoaded => s.loaded = false ∧ Ordered s.runTables
  | .leaveOnce | .readCache | .search => s.loaded = true
  | .testCache cached => s.loaded = true ∧ ∀ i ∈ cached, i < s.runTables.length
  | .storeCache range => s.loaded = true ∧ findRunIndex s.runTables runNumber = some range
  | .loadFailed _ => True
  | .ended outcome => s.loaded = true ∧ outcome = searchAlone s.runTables runNumber

/-- The call holds the once flag exactly while it is inside. -/
structure At (runNumber : Call → UInt64) (s : Shared Call) (call : Call) (point : Point) :
    Prop where
  once : s.loadOnce = .running call ↔ point.InOnce
  holds : point.Holds (runNumber call) s

/-- What the step of a call changes: the tables only while they are not loaded, and what
belongs to the load only from inside `call_once` or on entering it. -/
structure Change (call : Call) (s s' : Shared Call) : Prop where
  loaded : s.loaded = true → s'.loaded = true ∧ s'.runTables = s.runTables
  other : ∀ c ≠ call, s.loadOnce = .running c → s'.loadOnce = .running c ∧
    s'.loaded = s.loaded ∧ s'.runTables = s.runTables
  entered : ∀ c ≠ call, s'.loadOnce = .running c → s.loadOnce = .running c

theorem Change.refl (call : Call) (s : Shared Call) : Change call s s :=
  ⟨fun h => ⟨h, rfl⟩, fun _ _ h => ⟨h, rfl, rfl⟩, fun _ _ h => h⟩

variable {runNumber : Call → UInt64} {environment : Environment} {call : Call}
  {s s' : Shared Call} {point point' : Point}

theorem Change.of_inside (hinside : s.loadOnce = .running call)
    (hloaded : s.loaded = true → s'.loaded = true ∧ s'.runTables = s.runTables)
    (hnext : ∀ c, s'.loadOnce = .running c → c = call) : Change call s s' := by
  refine ⟨hloaded, fun c hc h => ?_, fun c hc h => absurd (hnext c h) hc⟩
  rw [hinside] at h
  exact absurd (OnceFlag.running.inj h).symm hc

theorem At.inside (h : At runNumber s call point) (hin : point.InOnce) :
    s.loadOnce = .running call ∧ ∀ c, s.loadOnce = .running c → c = call := by
  refine ⟨h.once.mpr hin, fun c hc => ?_⟩
  rw [h.once.mpr hin] at hc
  exact (OnceFlag.running.inj hc).symm

/-- A step outside of `call_once` that leaves the shared state as it is. -/
theorem At.outside (h : At runNumber s call point) (hout : ¬ point.InOnce)
    (hout' : ¬ point'.InOnce) (hholds : point'.Holds (runNumber call) s) :
    At runNumber s call point' where
  once := iff_of_false (fun hrunning => hout (h.once.mp hrunning)) hout'
  holds := hholds

theorem getTableStep_change (hpoint : At runNumber s call point)
    (h : getTableStep runNumber environment call s point = some (s', point')) :
    Change call s s' := by
  cases point with
  | start =>
    obtain ⟨rfl, -⟩ := Prod.mk.inj (Option.some.inj h)
    exact Change.refl call s
  | callOnce =>
    rw [getTableStep] at h
    split at h
    · rename_i hidle
      obtain ⟨rfl, -⟩ := Prod.mk.inj (Option.some.inj h)
      refine ⟨fun hl => ⟨hl, rfl⟩, fun c _ hrunning => ?_, fun c hc hrunning => ?_⟩
      · rw [hidle] at hrunning
        cases hrunning
      · exact absurd (OnceFlag.running.inj hrunning).symm hc
    · cases h
    · obtain ⟨rfl, -⟩ := Prod.mk.inj (Option.some.inj h)
      exact Change.refl call s
  | loadTables =>
    obtain ⟨hinside, honly⟩ := hpoint.inside trivial
    have hloaded : s.loaded = false := hpoint.holds
    rw [getTableStep] at h
    split at h
    · obtain ⟨rfl, -⟩ := Prod.mk.inj (Option.some.inj h)
      exact .of_inside hinside (fun hl => ⟨hl, rfl⟩) fun c hc => by cases hc
    · obtain ⟨rfl, -⟩ := Prod.mk.inj (Option.some.inj h)
      exact .of_inside hinside (fun hl => by simp [hloaded] at hl) honly
  | clearCache =>
    obtain ⟨hinside, honly⟩ := hpoint.inside trivial
    obtain ⟨rfl, -⟩ := Prod.mk.inj (Option.some.inj h)
    exact .of_inside hinside (fun hl => ⟨hl, rfl⟩) honly
  | setLoaded =>
    obtain ⟨hinside, honly⟩ := hpoint.inside trivial
    obtain ⟨rfl, -⟩ := Prod.mk.inj (Option.some.inj h)
    exact .of_inside hinside (fun _ => ⟨rfl, rfl⟩) honly
  | leaveOnce =>
    obtain ⟨hinside, -⟩ := hpoint.inside trivial
    obtain ⟨rfl, -⟩ := Prod.mk.inj (Option.some.inj h)
    exact .of_inside hinside (fun hl => ⟨hl, rfl⟩) fun c hc => by cases hc
  | readCache =>
    obtain ⟨rfl, -⟩ := Prod.mk.inj (Option.some.inj h)
    exact Change.refl call s
  | testCache cached =>
    obtain ⟨rfl, -⟩ := Prod.mk.inj (Option.some.inj h)
    exact Change.refl call s
  | search =>
    rw [getTableStep] at h
    split at h <;> obtain ⟨rfl, -⟩ := Prod.mk.inj (Option.some.inj h) <;> exact Change.refl call s
  | storeCache range =>
    obtain ⟨rfl, -⟩ := Prod.mk.inj (Option.some.inj h)
    exact ⟨fun hl => ⟨hl, rfl⟩, fun _ _ hc => ⟨hc, rfl, rfl⟩, fun _ _ hc => hc⟩
  | loadFailed message => cases h
  | ended outcome => cases h

theorem getTableStep_own (hs : Consistent s) (hpoint : At runNumber s call point)
    (h : getTableStep runNumber environment call s point = some (s', point')) :
    Consistent s' ∧ At runNumber s' call point' := by
  cases point with
  | start =>
    obtain ⟨rfl, rfl⟩ := Prod.mk.inj (Option.some.inj h)
    by_cases hl : s.loaded = true
    · rw [if_pos hl]
      exact ⟨hs, hpoint.outside (fun hin => hin) (fun hin => hin) hl⟩
    · rw [if_neg hl]
      exact ⟨hs, hpoint.outside (fun hin => hin) (fun hin => hin) trivial⟩
  | callOnce =>
    rw [getTableStep] at h
    split at h
    · rename_i hidle
      obtain ⟨rfl, rfl⟩ := Prod.mk.inj (Option.some.inj h)
      exact ⟨⟨hs.ordered, hs.cached, nofun, nofun⟩,
        iff_of_true rfl trivial, hs.idle hidle⟩
    · cases h
    · rename_i hdone
      obtain ⟨rfl, rfl⟩ := Prod.mk.inj (Option.some.inj h)
      exact ⟨hs, hpoint.outside (fun hin => hin) (fun hin => hin) (hs.done hdone)⟩
  | loadTables =>
    have hinside := hpoint.inside trivial
    have hloaded : s.loaded = false := hpoint.holds
    have hnone (i : Nat) : i ∉ s.cachedRunTable := fun hi => by
      have hl := (hs.cached i hi).1
      simp [hloaded] at hl
    rw [getTableStep] at h
    split at h
    · obtain ⟨rfl, rfl⟩ := Prod.mk.inj (Option.some.inj h)
      exact ⟨⟨hs.ordered, hs.cached, fun _ => hloaded, nofun⟩,
        iff_of_false nofun fun hin => hin, trivial⟩
    · rename_i runTables hload
      obtain ⟨rfl, rfl⟩ := Prod.mk.inj (Option.some.inj h)
      refine ⟨⟨fun hl => ?_, fun i hi => absurd hi (hnone i), fun _ => hloaded, fun hc => ?_⟩, ?_⟩
      · simp [hloaded] at hl
      · rw [hinside.1] at hc
        cases hc
      · split
        · exact ⟨iff_of_true hinside.1 trivial, hloaded, loadTables_ordered hload⟩
        · exact ⟨iff_of_true hinside.1 trivial, hloaded, loadTables_ordered hload⟩
  | clearCache =>
    have hinside := hpoint.inside trivial
    obtain ⟨rfl, rfl⟩ := Prod.mk.inj (Option.some.inj h)
    refine ⟨⟨hs.ordered, fun i hi => ?_, hs.idle, hs.done⟩, iff_of_true hinside.1 trivial,
      hpoint.holds⟩
    cases hi
  | setLoaded =>
    have hinside := hpoint.inside trivial
    obtain ⟨-, hordered⟩ := hpoint.holds
    obtain ⟨rfl, rfl⟩ := Prod.mk.inj (Option.some.inj h)
    refine ⟨⟨fun _ => hordered, fun i hi => ⟨rfl, (hs.cached i hi).2⟩, fun hc => ?_, fun _ => rfl⟩,
      iff_of_true hinside.1 trivial, rfl⟩
    rw [hinside.1] at hc
    cases hc
  | leaveOnce =>
    have hl : s.loaded = true := hpoint.holds
    obtain ⟨rfl, rfl⟩ := Prod.mk.inj (Option.some.inj h)
    exact ⟨⟨hs.ordered, hs.cached, nofun, fun _ => hl⟩,
      iff_of_false nofun fun hin => hin, hl⟩
  | readCache =>
    have hcached : ∀ i ∈ s.cachedRunTable, i < s.runTables.length :=
      fun i hi => (hs.cached i hi).2
    obtain ⟨rfl, rfl⟩ := Prod.mk.inj (Option.some.inj h)
    exact ⟨hs, hpoint.outside (fun hin => hin) (fun hin => hin) ⟨hpoint.holds, hcached⟩⟩
  | testCache cached =>
    obtain ⟨hl, hcached⟩ := hpoint.holds
    obtain ⟨rfl, rfl⟩ := Prod.mk.inj (Option.some.inj h)
    refine ⟨hs, ?_⟩
    rcases testCached_cases (runNumber call) (hs.ordered hl) hcached with hc | hc
    · rw [hc]
      exact hpoint.outside (fun hin => hin) (fun hin => hin) hl
    · rw [hc]
      exact hpoint.outside (fun hin => hin) (fun hin => hin) ⟨hl, rfl⟩
  | search =>
    have hl : s.loaded = true := hpoint.holds
    rw [getTableStep] at h
    split at h
    · rename_i range hfound
      obtain ⟨rfl, rfl⟩ := Prod.mk.inj (Option.some.inj h)
      exact ⟨hs, hpoint.outside (fun hin => hin) (fun hin => hin) ⟨hl, hfound⟩⟩
    · rename_i hmissing
      obtain ⟨rfl, rfl⟩ := Prod.mk.inj (Option.some.inj h)
      exact ⟨hs, hpoint.outside (fun hin => hin) (fun hin => hin)
        ⟨hl, (searchAlone_of_not_found hmissing).symm⟩⟩
  | storeCache range =>
    have hnot : s.loadOnce ≠ .running call := hpoint.once.mp
    obtain ⟨hl, hfound⟩ := hpoint.holds
    obtain ⟨rfl, rfl⟩ := Prod.mk.inj (Option.some.inj h)
    obtain ⟨t, hget, -⟩ := findRunIndex_eq_some hfound
    refine ⟨⟨hs.ordered, fun i hi => ⟨hl, ?_⟩, hs.idle, hs.done⟩, iff_of_false hnot fun hin => hin,
      hl, tableAt_of_found hfound⟩
    obtain rfl := Option.some.inj hi
    exact (List.getElem?_eq_some_iff.mp hget).1
  | loadFailed message => cases h
  | ended outcome => cases h

/-- The steps of other calls do not interfere: the tables stay once they are loaded, and
inside `call_once` there is one call at most. -/
theorem At.of_change (hchange : Change call s s') {c : Call} (hc : c ≠ call)
    (h : At runNumber s c point) : At runNumber s' c point := by
  refine ⟨⟨fun hrunning => h.once.mp (hchange.entered c hc hrunning),
    fun hin => (hchange.other c hc (h.once.mpr hin)).1⟩, ?_⟩
  have hinside (hin : point.InOnce) : s'.loaded = s.loaded ∧ s'.runTables = s.runTables :=
    (hchange.other c hc (h.once.mpr hin)).2
  have hholds := h.holds
  cases point with
  | start => trivial
  | callOnce => trivial
  | loadTables => exact (hinside trivial).1.trans hholds
  | clearCache =>
    obtain ⟨hl, hruns⟩ := hinside trivial
    exact ⟨hl.trans hholds.1, hruns ▸ hholds.2⟩
  | setLoaded =>
    obtain ⟨hl, hruns⟩ := hinside trivial
    exact ⟨hl.trans hholds.1, hruns ▸ hholds.2⟩
  | leaveOnce => exact (hchange.loaded hholds).1
  | readCache => exact (hchange.loaded hholds).1
  | testCache cached =>
    obtain ⟨hl, hruns⟩ := hchange.loaded hholds.1
    exact ⟨hl, hruns ▸ hholds.2⟩
  | search => exact (hchange.loaded hholds).1
  | storeCache range =>
    obtain ⟨hl, hruns⟩ := hchange.loaded hholds.1
    exact ⟨hl, hruns ▸ hholds.2⟩
  | loadFailed message => trivial
  | ended outcome =>
    obtain ⟨hl, hruns⟩ := hchange.loaded hholds.1
    exact ⟨hl, hruns ▸ hholds.2⟩

end Invariant

section Progress

variable {runNumber : Call → UInt64} {environment : Environment} {call : Call}
  {s s' : Shared Call}

/-- The run tables have been replaced, and the loaded flag is not set yet. -/
def Point.Published : Point → Prop
  | .clearCache | .setLoaded => True
  | _ => False

theorem testCached_eq_search_or_ended (runTables : List RunRangeTable) (r : UInt64)
    (cached : Option Nat) :
    testCached runTables r cached = .search ∨ ∃ outcome,
      testCached runTables r cached = .ended outcome := by
  rw [testCached.eq_def]
  split
  · exact .inl rfl
  · split
    · exact .inr ⟨_, rfl⟩
    · split
      · exact .inr ⟨_, rfl⟩
      · exact .inl rfl

/-- A load throws, and then it has written nothing, or it replaces the run tables. Any other
step leaves them as they are. -/
theorem getTableStep_load {point point' : Point}
    (h : getTableStep runNumber environment call s point = some (s', point')) :
    (point = .loadTables ∧ ∃ message,
        TranslationService.loadTables environment.1 environment.2 = .error message ∧
        s' = { s with loadOnce := .idle } ∧ point' = .loadFailed message) ∨
      (point = .loadTables ∧ ∃ runTables,
        TranslationService.loadTables environment.1 environment.2 = .ok runTables ∧
        s' = { s with runTables } ∧ point'.Published) ∨
      s'.runTables = s.runTables ∧ (s'.loaded = true → s.loaded = true ∨ point.Published) ∧
        (point'.Published → point.Published) ∧ ∀ message, point' ≠ .loadFailed message := by
  cases point with
  | start =>
    obtain ⟨rfl, rfl⟩ := Prod.mk.inj (Option.some.inj h)
    right; right
    by_cases hl : s.loaded = true
    · simp [hl, Point.Published]
    · simp [hl, Point.Published]
  | callOnce =>
    right; right
    rw [getTableStep] at h
    split at h
    · obtain ⟨rfl, rfl⟩ := Prod.mk.inj (Option.some.inj h)
      exact ⟨rfl, .inl, id, nofun⟩
    · cases h
    · obtain ⟨rfl, rfl⟩ := Prod.mk.inj (Option.some.inj h)
      exact ⟨rfl, .inl, id, nofun⟩
  | loadTables =>
    rw [getTableStep] at h
    split at h
    · rename_i message hfail
      obtain ⟨rfl, rfl⟩ := Prod.mk.inj (Option.some.inj h)
      exact .inl ⟨rfl, message, hfail, rfl, rfl⟩
    · rename_i runTables hload
      obtain ⟨rfl, rfl⟩ := Prod.mk.inj (Option.some.inj h)
      refine .inr (.inl ⟨rfl, runTables, hload, rfl, ?_⟩)
      split
      · trivial
      · trivial
  | clearCache =>
    obtain ⟨rfl, rfl⟩ := Prod.mk.inj (Option.some.inj h)
    exact .inr (.inr ⟨rfl, .inl, fun _ => trivial, nofun⟩)
  | setLoaded =>
    obtain ⟨rfl, rfl⟩ := Prod.mk.inj (Option.some.inj h)
    exact .inr (.inr ⟨rfl, fun _ => .inr trivial, fun _ => trivial, nofun⟩)
  | leaveOnce =>
    obtain ⟨rfl, rfl⟩ := Prod.mk.inj (Option.some.inj h)
    exact .inr (.inr ⟨rfl, .inl, id, nofun⟩)
  | readCache =>
    obtain ⟨rfl, rfl⟩ := Prod.mk.inj (Option.some.inj h)
    exact .inr (.inr ⟨rfl, .inl, id, nofun⟩)
  | testCache cached =>
    obtain ⟨rfl, rfl⟩ := Prod.mk.inj (Option.some.inj h)
    right; right
    rcases testCached_eq_search_or_ended s.runTables (runNumber call) cached with hc | ⟨outcome, hc⟩
    · rw [hc]
      exact ⟨rfl, .inl, id, nofun⟩
    · rw [hc]
      exact ⟨rfl, .inl, id, nofun⟩
  | search =>
    right; right
    rw [getTableStep] at h
    split at h
    · obtain ⟨rfl, rfl⟩ := Prod.mk.inj (Option.some.inj h)
      exact ⟨rfl, .inl, id, nofun⟩
    · obtain ⟨rfl, rfl⟩ := Prod.mk.inj (Option.some.inj h)
      exact ⟨rfl, .inl, id, nofun⟩
  | storeCache range =>
    obtain ⟨rfl, rfl⟩ := Prod.mk.inj (Option.some.inj h)
    exact .inr (.inr ⟨rfl, .inl, id, nofun⟩)
  | loadFailed message => cases h
  | ended outcome => cases h

def Point.Ended : Point → Prop
  | .loadFailed _ | .ended _ => True
  | _ => False

/-- A bound on the steps that the call still takes. -/
def Point.remaining : Point → Nat
  | .start => 10
  | .callOnce => 9
  | .loadTables => 8
  | .clearCache => 7
  | .setLoaded => 6
  | .leaveOnce => 5
  | .readCache => 4
  | .testCache _ => 3
  | .search => 2
  | .storeCache _ => 1
  | .loadFailed _ | .ended _ => 0

theorem Point.ended_of_remaining {point : Point} (h : point.remaining = 0) : point.Ended := by
  cases point <;> trivial

/-- The call does not wait any more. -/
def Point.Past : Point → Prop
  | .start | .callOnce => False
  | _ => True

theorem Point.past_of_inOnce {point : Point} (h : point.InOnce) : point.Past := by
  cases point <;> trivial

theorem Point.not_inOnce_of_ended {point : Point} (h : point.Ended) : ¬ point.InOnce := by
  intro hin
  cases point <;> trivial

theorem testCached_past (runTables : List RunRangeTable) (r : UInt64) (cached : Option Nat) :
    (testCached runTables r cached).Past ∧ (testCached runTables r cached).remaining < 3 := by
  rcases testCached_eq_search_or_ended runTables r cached with hc | ⟨outcome, hc⟩
  · rw [hc]
    exact ⟨trivial, by simp [Point.remaining]⟩
  · rw [hc]
    exact ⟨trivial, by simp [Point.remaining]⟩

theorem getTableStep_past (s : Shared Call) (point : Point) (hpast : point.Past)
    (hremaining : point.remaining ≠ 0) :
    ∃ s' point', getTableStep runNumber environment call s point = some (s', point') ∧
      point'.Past ∧ point'.remaining < point.remaining := by
  cases point with
  | start => exact hpast.elim
  | callOnce => exact hpast.elim
  | loadTables =>
    rw [getTableStep]
    split
    · exact ⟨_, _, rfl, trivial, by simp [Point.remaining]⟩
    · refine ⟨_, _, rfl, ?_⟩
      split
      · exact ⟨trivial, by simp [Point.remaining]⟩
      · exact ⟨trivial, by simp [Point.remaining]⟩
  | clearCache => exact ⟨_, _, rfl, trivial, by simp [Point.remaining]⟩
  | setLoaded => exact ⟨_, _, rfl, trivial, by simp [Point.remaining]⟩
  | leaveOnce => exact ⟨_, _, rfl, trivial, by simp [Point.remaining]⟩
  | readCache => exact ⟨_, _, rfl, trivial, by simp [Point.remaining]⟩
  | testCache cached => exact ⟨_, _, rfl, testCached_past _ _ _⟩
  | search =>
    rw [getTableStep]
    split
    · exact ⟨_, _, rfl, trivial, by simp [Point.remaining]⟩
    · exact ⟨_, _, rfl, trivial, by simp [Point.remaining]⟩
  | storeCache range => exact ⟨_, _, rfl, trivial, by simp [Point.remaining]⟩
  | loadFailed message => exact absurd rfl hremaining
  | ended outcome => exact absurd rfl hremaining

abbrev Invariant (runNumber : Call → UInt64) (s : State Call) : Prop :=
  Interleaving.Invariant Consistent (At runNumber) s

theorem invariant_initial : Invariant runNumber (initial : State Call) where
  shared := ⟨nofun, nofun, fun _ => rfl, nofun⟩
  each _ := ⟨iff_of_false nofun fun hin => hin, trivial⟩

end Progress

section Turns

variable [DecidableEq Call] {runNumber : Call → UInt64}

theorem invariant_run {s : State Call} (hs : Invariant runNumber s)
    (schedule : List (Call × Environment)) :
    Invariant runNumber (Interleaving.run (getTableStep runNumber) s schedule) := by
  refine Interleaving.Invariant.run ?_ ?_ hs schedule
  · intro environment call s point s' point' hconsistent hpoint h
    exact getTableStep_own hconsistent hpoint h
  · intro environment call s point s' point' _ hpoint h c hc q hq
    exact hq.of_change (getTableStep_change hpoint h) hc

theorem invariant_afterTurns (runNumber : Call → UInt64) (schedule : List (Call × Environment)) :
    Invariant runNumber (afterTurns runNumber schedule) :=
  invariant_run invariant_initial schedule

/-- A turn after which its call has failed is one at which its load threw. -/
theorem turn_loadFailed {s : State Call} {t : Call × Environment} {message : String}
    (hbefore : s.point t.1 ≠ .loadFailed message)
    (hafter : (Interleaving.turn (getTableStep runNumber) s t).point t.1 = .loadFailed message) :
    s.point t.1 = .loadTables ∧ TranslationService.loadTables t.2.1 t.2.2 = .error message ∧
      (Interleaving.turn (getTableStep runNumber) s t).shared =
        { s.shared with loadOnce := .idle } := by
  cases hstep : getTableStep runNumber t.2 t.1 s.shared (s.point t.1) with
  | none =>
    rw [Interleaving.turn_of_blocked hstep] at hafter
    exact absurd hafter hbefore
  | some r =>
    obtain ⟨shared, point⟩ := r
    rw [Interleaving.turn_of_step hstep] at hafter ⊢
    obtain rfl : point = .loadFailed message := by simpa using hafter
    rcases getTableStep_load hstep with ⟨hpoint, m, hload, hshared, hm⟩ |
      ⟨-, -, -, -, hpublished⟩ | ⟨-, -, -, hother⟩
    · obtain rfl := Point.loadFailed.inj hm
      exact ⟨hpoint, hload, hshared⟩
    · exact hpublished.elim
    · exact absurd rfl (hother message)

theorem turn_kept_of_loadFailed {s : State Call} {t : Call × Environment} {message : String}
    (h : (Interleaving.turn (getTableStep runNumber) s t).point t.1 = .loadFailed message) :
    (Interleaving.turn (getTableStep runNumber) s t).shared.runTables = s.shared.runTables ∧
      (Interleaving.turn (getTableStep runNumber) s t).shared.loaded = s.shared.loaded ∧
      (Interleaving.turn (getTableStep runNumber) s t).shared.cachedRunTable =
        s.shared.cachedRunTable := by
  by_cases hbefore : s.point t.1 = .loadFailed message
  · rw [Interleaving.turn_of_blocked (by rw [hbefore]; rfl)]
    exact ⟨rfl, rfl, rfl⟩
  · rw [(turn_loadFailed hbefore h).2.2]
    exact ⟨rfl, rfl, rfl⟩

/-- These run tables have been published, and perhaps the loaded flag is not set yet. -/
def Published (runTables : List RunRangeTable) (s : State Call) : Prop :=
  s.shared.runTables = runTables ∧ (s.shared.loaded = true ∨ ∃ call, (s.point call).Published)

theorem turn_published {s : State Call} {t : Call × Environment}
    {runTables : List RunRangeTable} (hbefore : ¬ Published runTables s)
    (hafter : Published runTables (Interleaving.turn (getTableStep runNumber) s t)) :
    s.point t.1 = .loadTables ∧ TranslationService.loadTables t.2.1 t.2.2 = .ok runTables := by
  cases hstep : getTableStep runNumber t.2 t.1 s.shared (s.point t.1) with
  | none =>
    rw [Interleaving.turn_of_blocked hstep] at hafter
    exact absurd hafter hbefore
  | some r =>
    obtain ⟨shared, point⟩ := r
    rw [Interleaving.turn_of_step hstep] at hafter
    obtain ⟨hruns, hpublished⟩ := hafter
    -- The turn leaves the points of the other calls, so only its own one can be new.
    have hown (hloaded : shared.loaded = true → s.shared.loaded = true ∨ (s.point t.1).Published)
        (hpoint : point.Published → (s.point t.1).Published) :
        s.shared.loaded = true ∨ ∃ call, (s.point call).Published := by
      rcases hpublished with hl | ⟨c, hc⟩
      · exact (hloaded hl).imp id fun h => ⟨t.1, h⟩
      · by_cases hct : c = t.1
        · subst hct
          simp only [Function.update_self] at hc
          exact .inr ⟨_, hpoint hc⟩
        · simp only [Function.update_of_ne hct] at hc
          exact .inr ⟨c, hc⟩
    rcases getTableStep_load hstep with ⟨-, m, -, rfl, rfl⟩ | ⟨hpoint, tables, hload, rfl, -⟩ |
      ⟨hsame, hloaded, hpoint, -⟩
    · exact absurd ⟨hruns, hown .inl False.elim⟩ hbefore
    · exact ⟨hpoint, hload.trans (congrArg Except.ok hruns)⟩
    · exact absurd ⟨hsame.symm.trans hruns, hown hloaded hpoint⟩ hbefore

/-- A turn of the schedule at which its call loads the tables. -/
def LoadingTurn (runNumber : Call → UInt64) (schedule : List (Call × Environment))
    (t : Call × Environment) : Prop :=
  ∃ before after, schedule = before ++ t :: after ∧
    (afterTurns runNumber before).point t.1 = .loadTables

theorem exists_loadingTurn_of_loadFailed {schedule : List (Call × Environment)} {call : Call}
    {message : String} (h : (afterTurns runNumber schedule).point call = .loadFailed message) :
    ∃ environment, LoadingTurn runNumber schedule (call, environment) ∧
      TranslationService.loadTables environment.1 environment.2 = .error message := by
  obtain ⟨before, t, after, rfl, hbefore, hafter⟩ := Interleaving.exists_turn_of_run
    (Q := fun s => s.point call = .loadFailed message) (s := initial) nofun h
  have hcall : call = t.1 := by
    by_contra hne
    rw [Interleaving.turn_point_of_ne hne] at hafter
    exact hbefore hafter
  subst hcall
  obtain ⟨hpoint, hload, -⟩ := turn_loadFailed hbefore hafter
  exact ⟨t.2, ⟨before, after, rfl, hpoint⟩, hload⟩

theorem exists_loadingTurn_of_loaded {schedule : List (Call × Environment)}
    (h : (afterTurns runNumber schedule).shared.loaded = true) :
    ∃ t, LoadingTurn runNumber schedule t ∧ TranslationService.loadTables t.2.1 t.2.2 =
      .ok (afterTurns runNumber schedule).shared.runTables := by
  have hstart (runTables : List RunRangeTable) : ¬ Published runTables (initial : State Call) := by
    rintro ⟨-, hloaded | ⟨call, hpoint⟩⟩
    · cases hloaded
    · exact hpoint
  obtain ⟨before, t, after, hsplit, hbefore, hafter⟩ := Interleaving.exists_turn_of_run
    (hstart (afterTurns runNumber schedule).shared.runTables) ⟨rfl, .inl h⟩
  obtain ⟨hpoint, hload⟩ := turn_published hbefore hafter
  exact ⟨t, ⟨before, after, hsplit, hpoint⟩, hload⟩

theorem exists_turns_of_past (runNumber : Call → UInt64) (environment : Environment)
    {s : State Call} {call : Call} (hpast : (s.point call).Past) :
    ∃ more : List (Call × Environment), (∀ t ∈ more, t.1 = call) ∧
      ((Interleaving.run (getTableStep runNumber) s more).point call).Ended := by
  obtain ⟨more, hown, hend⟩ := Interleaving.exists_run_ended (getTableStep runNumber)
    Point.remaining environment call getTableStep_past hpast
  exact ⟨more, hown, Point.ended_of_remaining hend⟩

theorem exists_turns_of_free (runNumber : Call → UInt64) (environment : Environment)
    {s : State Call} {call : Call} (hpoint : s.point call = .callOnce)
    (hfree : ∀ c, s.shared.loadOnce ≠ .running c) :
    ∃ more : List (Call × Environment),
      ((Interleaving.run (getTableStep runNumber) s more).point call).Ended := by
  obtain ⟨shared, point, hstep, hpast⟩ : ∃ shared point, getTableStep runNumber environment call
      s.shared (s.point call) = some (shared, point) ∧ point.Past := by
    rw [hpoint, getTableStep]
    cases honce : s.shared.loadOnce with
    | idle => exact ⟨_, _, rfl, trivial⟩
    | running c => exact absurd honce (hfree c)
    | done => exact ⟨_, _, rfl, trivial⟩
  have hturn : (Interleaving.turn (getTableStep runNumber) s (call, environment)).point call =
      point := by
    rw [Interleaving.turn_of_step hstep]
    exact Function.update_self _ _ _
  rw [← hturn] at hpast
  obtain ⟨more, -, hend⟩ := exists_turns_of_past runNumber environment hpast
  exact ⟨(call, environment) :: more, hend⟩

/-- A call that waits for the load of another one can go on when that one has ended. -/
theorem exists_turns_of_callOnce (runNumber : Call → UInt64) (environment : Environment)
    {s : State Call} (hs : Invariant runNumber s) {call : Call}
    (hpoint : s.point call = .callOnce) :
    ∃ more : List (Call × Environment),
      ((Interleaving.run (getTableStep runNumber) s more).point call).Ended := by
  by_cases hfree : ∀ c, s.shared.loadOnce ≠ .running c
  · exact exists_turns_of_free runNumber environment hpoint hfree
  · obtain ⟨holder, hholder⟩ := not_forall_not.mp hfree
    have hin : (s.point holder).InOnce := (hs.each holder).once.mp hholder
    have hne : call ≠ holder := by
      rintro rfl
      rw [hpoint] at hin
      exact hin
    obtain ⟨first, hown, hend⟩ := exists_turns_of_past runNumber environment
      (Point.past_of_inOnce hin)
    have hothers (c : Call) (hc : c ≠ holder) :
        (Interleaving.run (getTableStep runNumber) s first).point c = s.point c :=
      Interleaving.run_point_of_ne fun t ht => hown t ht ▸ hc
    have hs' := invariant_run hs first
    have hfree' (c : Call) :
        (Interleaving.run (getTableStep runNumber) s first).shared.loadOnce ≠ .running c := by
      intro hc
      have hin' := (hs'.each c).once.mp hc
      by_cases hch : c = holder
      · exact Point.not_inOnce_of_ended (hch ▸ hend) hin'
      · rw [hothers c hch] at hin'
        rw [(hs.each c).once.mpr hin'] at hholder
        exact hch (OnceFlag.running.inj hholder)
    obtain ⟨more, hmore⟩ := exists_turns_of_free runNumber environment
      ((hothers call hne).trans hpoint) hfree'
    exact ⟨first ++ more, by rwa [Interleaving.run_append]⟩

/-- Whatever the calls have done so far, each of them can still come to its end. -/
theorem exists_turns (runNumber : Call → UInt64) (environment : Environment) {s : State Call}
    (hs : Invariant runNumber s) (call : Call) : ∃ more : List (Call × Environment),
      ((Interleaving.run (getTableStep runNumber) s more).point call).Ended := by
  by_cases hpast : (s.point call).Past
  · obtain ⟨more, -, hend⟩ := exists_turns_of_past runNumber environment hpast
    exact ⟨more, hend⟩
  · cases hpoint : s.point call with
    | start =>
      have hturn : (Interleaving.turn (getTableStep runNumber) s (call, environment)).point call =
          if s.shared.loaded then .readCache else .callOnce := by
        rw [Interleaving.turn_of_step (by rw [hpoint]; rfl)]
        exact Function.update_self _ _ _
      by_cases hl : s.shared.loaded = true
      · rw [if_pos hl] at hturn
        have hgone : ((Interleaving.turn (getTableStep runNumber) s
            (call, environment)).point call).Past := by
          rw [hturn]
          trivial
        obtain ⟨more, -, hend⟩ := exists_turns_of_past runNumber environment hgone
        exact ⟨(call, environment) :: more, hend⟩
      · rw [if_neg hl] at hturn
        have hs' := invariant_run hs [(call, environment)]
        obtain ⟨more, hend⟩ := exists_turns_of_callOnce runNumber environment hs' hturn
        exact ⟨(call, environment) :: more, hend⟩
    | callOnce => exact exists_turns_of_callOnce runNumber environment hs hpoint
    | _ =>
      rw [hpoint] at hpast
      exact absurd trivial hpast

end Turns

/-- In every state that calls of `getTable` reach by taking turns, a call that has ended gave
what the binary search gives over the tables of the one load that succeeded, or threw what its
own load threw, and the cached pointer is null or to an entry of the loaded run tables. A load
that throws changes neither the run tables nor the loaded flag nor the cache, and no call is
kept from its end. -/
theorem getTable_interleaved {Call : Type*} [DecidableEq Call] (runNumber : Call → UInt64)
    (schedule : List (Call × Environment)) :
    (∀ call outcome, (afterTurns runNumber schedule).point call = .ended outcome →
        (afterTurns runNumber schedule).shared.loaded = true ∧
          outcome = searchAlone (afterTurns runNumber schedule).shared.runTables
            (runNumber call)) ∧
      ((afterTurns runNumber schedule).shared.loaded = true →
        ∃ t, LoadingTurn runNumber schedule t ∧ TranslationService.loadTables t.2.1 t.2.2 =
          .ok (afterTurns runNumber schedule).shared.runTables) ∧
      (∀ call message, (afterTurns runNumber schedule).point call = .loadFailed message →
        ∃ environment, LoadingTurn runNumber schedule (call, environment) ∧
          TranslationService.loadTables environment.1 environment.2 = .error message) ∧
      (∀ i, (afterTurns runNumber schedule).shared.cachedRunTable = some i →
        (afterTurns runNumber schedule).shared.loaded = true ∧
          i < (afterTurns runNumber schedule).shared.runTables.length) ∧
      (∀ t message, (afterTurns runNumber (schedule ++ [t])).point t.1 = .loadFailed message →
        (afterTurns runNumber (schedule ++ [t])).shared.runTables =
            (afterTurns runNumber schedule).shared.runTables ∧
          (afterTurns runNumber (schedule ++ [t])).shared.loaded =
            (afterTurns runNumber schedule).shared.loaded ∧
          (afterTurns runNumber (schedule ++ [t])).shared.cachedRunTable =
            (afterTurns runNumber schedule).shared.cachedRunTable) ∧
      ∀ call, Environment → ∃ more,
        ((afterTurns runNumber (schedule ++ more)).point call).Ended := by
  have hs := invariant_afterTurns runNumber schedule
  refine ⟨fun call outcome h => ?_, exists_loadingTurn_of_loaded,
    fun call message => exists_loadingTurn_of_loadFailed, fun i => hs.shared.cached i,
    fun t message h => ?_, fun call environment => ?_⟩
  · have hcall := (hs.each call).holds
    rwa [h] at hcall
  · simp only [afterTurns, Interleaving.run_append] at h ⊢
    exact turn_kept_of_loadFailed h
  · obtain ⟨more, hend⟩ := exists_turns runNumber environment hs call
    exact ⟨more, by rwa [afterTurns, Interleaving.run_append]⟩

/-- The first call comes before the files are there, and the second one waits for its load
and then loads the tables. The third one has another run of the same range. -/
def retrySchedule : List (Fin 3 × Environment) :=
  let missing : Environment := (⟨fun _ => none, .ok⟩, ⟨"/maps", [], []⟩)
  let found : Environment := (singleDetector, ⟨"/maps", [], []⟩)
  [(0, missing), (1, missing), (0, missing), (1, missing), (0, missing)] ++
    List.replicate 9 (1, found) ++ List.replicate 3 (2, found)

def retryRuns (call : Fin 3) : UInt64 := 5 + call.val.toUInt64

theorem getTable_interleaved_retry :
    (∃ environment, LoadingTurn retryRuns retrySchedule (0, environment) ∧
        TranslationService.loadTables environment.1 environment.2 =
          .error "Unable to read detector mapping catalog: /maps/manifest.map") ∧
      (afterTurns retryRuns retrySchedule.dropLast).point 2 = .testCache (some 0) ∧
      ∃ table, (afterTurns retryRuns retrySchedule).point 1 = .ended (.returned table) ∧
        (afterTurns retryRuns retrySchedule).point 2 = .ended (.returned table) ∧
        ∀ call ∈ [1, 2], searchAlone (afterTurns retryRuns retrySchedule).shared.runTables
          (retryRuns call) = .returned table := by
  obtain ⟨hended, -, hfailed, -, -, -⟩ := getTable_interleaved retryRuns retrySchedule
  have hsecond : (afterTurns retryRuns retrySchedule).point 1 = .ended (.returned ⟨0,
      ⟨OrderedMap.insert ∅ ⟨2, 4, 0xFFFFFFFF⟩ ⟨"BCAL", [("module", 7), ("end", -1)]⟩⟩⟩) := by
    decide +kernel
  have hthird : (afterTurns retryRuns retrySchedule).point 2 = .ended (.returned ⟨0,
      ⟨OrderedMap.insert ∅ ⟨2, 4, 0xFFFFFFFF⟩ ⟨"BCAL", [("module", 7), ("end", -1)]⟩⟩⟩) := by
    decide +kernel
  refine ⟨hfailed 0 _ (by decide +kernel), by decide +kernel, _, hsecond, hthird, ?_⟩
  intro call hcall
  rcases List.mem_pair.mp hcall with rfl | rfl
  · exact (hended 1 _ hsecond).2.symm
  · exact (hended 2 _ hthird).2.symm

end ConcurrentLookup

end JanaExtensions.TranslationService
