import JanaExtensions.EvioEventParser

/-! The dispatch of the data banks refines the filter and the route tables: the banks are
paired with the trigger segments, every bank that the filter and the routes let through
goes to its parser in tree order, and the other banks do nothing. -/

namespace JanaExtensions

namespace EvioEventParser

variable {P W : Type}

def Allowed (services : Services P) (dbRocid : UInt32) (dma : BaseStructure) : Prop :=
  services.filterDB.isBankAllowed dbRocid.toNat dma.tag.toNat = true

/-- The module that a bank is routed to, where -1 stands for no route. -/
def routedModule (services : Services P) (dma : BaseStructure) : Int :=
  (services.bankToModule.getModuleId dma.tag.toNat).1

def parserOf (services : Services P) (dma : BaseStructure) : Option P :=
  services.moduleParsers.moduleParsers.find (routedModule services dma)

def Selected (services : Services P) (dbRocid : UInt32) (dma : BaseStructure) : Prop :=
  Allowed services dbRocid dma ∧ routedModule services dma ≠ -1

instance (services : Services P) (dbRocid : UInt32) (dma : BaseStructure) :
    Decidable (Selected services dbRocid dma) := by
  unfold Selected Allowed
  infer_instance

structure Invocation (P : Type) where
  parser : P
  dma : BaseStructure
  context : BankContext

def invocation? (services : Services P) (dbRocid : UInt32) (dma : BaseStructure) :
    Option (Invocation P) :=
  if Selected services dbRocid dma then
    (parserOf services dma).map fun parser => ⟨parser, dma, bankContext dbRocid dma⟩
  else none

def invocations (services : Services P) (dataBanks : List BaseStructure) : List (Invocation P) :=
  dataBanks.flatMap fun dataBank =>
    dataBank.children.filterMap (invocation? services (rocid dataBank))

/-- The reasons to reject a block: the banks and segments differ in number or in a ROC ID,
or a selected bank has no parser. -/
def Rejected (services : Services P) (dataBanks segments : List BaseStructure) : Prop :=
  dataBanks.length ≠ segments.length ∨
  (∃ banks ∈ dataBanks.zip segments, banks.2.tag.toUInt32 ≠ rocid banks.1) ∨
  ∃ dataBank ∈ dataBanks, ∃ dma ∈ dataBank.children,
    Selected services (rocid dataBank) dma ∧ parserOf services dma = none

/-- The tables of the services, apart from whether they are frozen. -/
def SameTables (services services' : Services P) : Prop :=
  services'.filterDB = services.filterDB ∧
  services'.bankToModule.bankToModule = services.bankToModule.bankToModule ∧
  services'.moduleParsers.moduleParsers = services.moduleParsers.moduleParsers

section SameTables

variable {services services' : Services P}

theorem SameTables.selected (h : SameTables services services') (dbRocid : UInt32)
    (dma : BaseStructure) : Selected services' dbRocid dma ↔ Selected services dbRocid dma := by
  obtain ⟨hfilter, hroutes, -⟩ := h
  simp only [Selected, Allowed, routedModule, BankToModuleMap.getModuleId, hfilter, hroutes]

theorem SameTables.parserOf_eq (h : SameTables services services') (dma : BaseStructure) :
    parserOf services' dma = parserOf services dma := by
  obtain ⟨-, hroutes, hparsers⟩ := h
  simp only [parserOf, routedModule, BankToModuleMap.getModuleId, hroutes, hparsers]

theorem SameTables.invocation?_eq (h : SameTables services services') (dbRocid : UInt32)
    (dma : BaseStructure) :
    invocation? services' dbRocid dma = invocation? services dbRocid dma := by
  simp only [invocation?, h.selected, h.parserOf_eq]

end SameTables

theorem isROCAllowed_of_isBankAllowed {filterDB : FilterDB} {rocid bank : Int}
    (h : filterDB.isBankAllowed rocid bank = true) : filterDB.isROCAllowed rocid = true := by
  rw [FilterDB.isBankAllowed, FilterDB.isAllowedIn, Bool.or_eq_true] at h
  rw [FilterDB.isROCAllowed, Bool.or_eq_true]
  refine h.imp_right fun hentry => ?_
  cases hfind : filterDB.data.find rocid with
  | none =>
    rw [hfind] at hentry
    exact absurd hentry (by simp)
  | some entry => rfl

variable (invoke : P → BaseStructure → BankContext → W → Except Fault W)

def call (shared : W) (inv : Invocation P) : Except Fault W :=
  invoke inv.parser inv.dma inv.context shared

section ParseDMA

variable {services : Services P} {s : State P W} {dbRocid : UInt32} {dma : BaseStructure}

theorem parseDMA_of_not_selected (h : ¬ Selected s.services dbRocid dma) :
    ∃ s', parseDMA invoke dbRocid s dma = .ok s' ∧ s'.shared = s.shared ∧
      SameTables s.services s'.services := by
  by_cases hallowed : Allowed s.services dbRocid dma
  · have hroute : (s.services.bankToModule.getModuleId dma.tag.toNat).1 = -1 := by
      by_contra hne
      exact h ⟨hallowed, hne⟩
    let bankToModule := (s.services.bankToModule.getModuleId dma.tag.toNat).2
    refine ⟨⟨{ s.services with bankToModule }, s.shared⟩, ?_, rfl, rfl, rfl, rfl⟩
    rw [Allowed] at hallowed
    simp [parseDMA, hallowed, hroute, bankToModule]
  · refine ⟨s, ?_, rfl, rfl, rfl, rfl⟩
    rw [Allowed] at hallowed
    simp [parseDMA, hallowed]

theorem parseDMA_of_missing (h : Selected s.services dbRocid dma)
    (hparser : parserOf s.services dma = none) :
    ∃ message, parseDMA invoke dbRocid s dma = .error (.jexception message) := by
  obtain ⟨hallowed, hroute⟩ := h
  rw [Allowed] at hallowed
  rw [routedModule] at hroute
  simp only [parserOf, routedModule] at hparser
  simp [parseDMA, hallowed, hroute, ModuleParsersMap.getParser, hparser]

theorem parseDMA_of_found (h : Selected s.services dbRocid dma) {parser : P}
    (hparser : parserOf s.services dma = some parser) :
    ∃ services', SameTables s.services services' ∧
      parseDMA invoke dbRocid s dma =
        (invoke parser dma (bankContext dbRocid dma) s.shared).map (State.mk services') := by
  obtain ⟨hallowed, hroute⟩ := h
  rw [Allowed] at hallowed
  rw [routedModule] at hroute
  simp only [parserOf, routedModule] at hparser
  refine ⟨{ s.services with
    bankToModule := (s.services.bankToModule.getModuleId dma.tag.toNat).2
    moduleParsers := { s.services.moduleParsers with frozen := true } }, ⟨rfl, rfl, rfl⟩, ?_⟩
  simp only [parseDMA, hallowed, Bool.not_true, Bool.false_eq_true, if_false, hroute,
    ModuleParsersMap.getParser, hparser]
  cases invoke parser dma (bankContext dbRocid dma) s.shared <;> rfl

/-- One bank does the parser calls that belong to it. -/
theorem parseDMA_simulates (hs : SameTables services s.services)
    (hok : ¬ (Selected services dbRocid dma ∧ parserOf services dma = none)) :
    (parseDMA invoke dbRocid s dma).map State.shared =
      (invocation? services dbRocid dma).toList.foldlM (call invoke) s.shared := by
  by_cases hsel : Selected services dbRocid dma
  · have hsel' := (hs.selected dbRocid dma).mpr hsel
    cases hparser : parserOf services dma with
    | none => exact absurd ⟨hsel, hparser⟩ hok
    | some parser =>
      have hinv : invocation? services dbRocid dma =
          some ⟨parser, dma, bankContext dbRocid dma⟩ := by
        simp [invocation?, hsel, hparser]
      obtain ⟨services', -, heq⟩ := parseDMA_of_found invoke hsel'
        ((hs.parserOf_eq dma).trans hparser)
      rw [heq, hinv, Option.toList_some, List.foldlM_cons]
      simp only [call]
      cases invoke parser dma (bankContext dbRocid dma) s.shared <;> rfl
  · obtain ⟨s', heq, hshared, -⟩ := parseDMA_of_not_selected invoke
      (fun h => hsel ((hs.selected dbRocid dma).mp h))
    have hinv : invocation? services dbRocid dma = none := if_neg hsel
    rw [heq, hinv]
    exact congrArg Except.ok hshared

theorem parseDMA_sameTables {s' : State P W} (hs : SameTables services s.services)
    (h : parseDMA invoke dbRocid s dma = .ok s') : SameTables services s'.services := by
  have htrans : ∀ services', SameTables s.services services' → SameTables services services' := by
    intro services' hh
    exact ⟨hh.1.trans hs.1, hh.2.1.trans hs.2.1, hh.2.2.trans hs.2.2⟩
  by_cases hsel : Selected s.services dbRocid dma
  · cases hparser : parserOf s.services dma with
    | none =>
      obtain ⟨message, herror⟩ := parseDMA_of_missing invoke hsel hparser
      rw [herror] at h
      exact absurd h (by simp)
    | some parser =>
      obtain ⟨services', hsame, heq⟩ := parseDMA_of_found invoke hsel hparser
      rw [heq] at h
      obtain ⟨shared, -, rfl⟩ := Failing.map_eq_ok.mp h
      exact htrans services' hsame
  · obtain ⟨t, heq, -, hsame⟩ := parseDMA_of_not_selected invoke hsel
    rw [heq] at h
    obtain rfl := Except.ok.inj h
    exact htrans t.services hsame

end ParseDMA

section ParseROCBank

variable {services : Services P} {s : State P W} {banks : BaseStructure × BaseStructure}

theorem parseROCBank_of_match (h : banks.2.tag.toUInt32 = rocid banks.1) :
    parseROCBank invoke s banks =
      if !s.services.filterDB.isROCAllowed (rocid banks.1).toNat then .ok s
      else banks.1.children.foldlM (parseDMA invoke (rocid banks.1)) s := by
  simp [parseROCBank, h]

theorem parseROCBank_of_mismatch (h : banks.2.tag.toUInt32 ≠ rocid banks.1) :
    ∃ message, parseROCBank invoke s banks = .error (.jexception message) := by
  simp [parseROCBank, h]

theorem not_selected_of_skipped {filterDB : FilterDB} {dbRocid : UInt32}
    (hfilter : services.filterDB = filterDB)
    (hskip : filterDB.isROCAllowed dbRocid.toNat = false) (dma : BaseStructure) :
    ¬ Selected services dbRocid dma := by
  intro hsel
  have hallowed := isROCAllowed_of_isBankAllowed hsel.1
  rw [hfilter, hskip] at hallowed
  exact absurd hallowed (by simp)

theorem parseROCBank_simulates (hs : SameTables services s.services)
    (hmatch : banks.2.tag.toUInt32 = rocid banks.1)
    (hok : ∀ dma ∈ banks.1.children,
      ¬ (Selected services (rocid banks.1) dma ∧ parserOf services dma = none)) :
    (parseROCBank invoke s banks).map State.shared =
      (banks.1.children.filterMap (invocation? services (rocid banks.1))).foldlM (call invoke)
        s.shared := by
  rw [parseROCBank_of_match invoke hmatch]
  cases hroc : s.services.filterDB.isROCAllowed (rocid banks.1).toNat with
  | false =>
    have hnil : banks.1.children.filterMap (invocation? services (rocid banks.1)) = [] := by
      rw [List.filterMap_eq_nil_iff]
      intro dma _
      exact if_neg (not_selected_of_skipped hs.1.symm hroc dma)
    rw [hnil]
    rfl
  | true =>
    rw [List.filterMap_eq_flatMap_toList]
    apply Failing.foldlM_simulates (I := fun t => SameTables services t.services) hs
    intro dma hdma t ht
    exact ⟨parseDMA_simulates invoke ht (hok dma hdma), fun t' => parseDMA_sameTables invoke ht⟩

theorem parseROCBank_sameTables {s' : State P W} (hs : SameTables services s.services)
    (h : parseROCBank invoke s banks = .ok s') : SameTables services s'.services := by
  by_cases hmatch : banks.2.tag.toUInt32 = rocid banks.1
  · rw [parseROCBank_of_match invoke hmatch] at h
    cases hroc : s.services.filterDB.isROCAllowed (rocid banks.1).toNat with
    | false =>
      simp only [hroc, Bool.not_false, if_true] at h
      obtain rfl := Except.ok.inj h
      exact hs
    | true =>
      simp only [hroc, Bool.not_true, Bool.false_eq_true, if_false] at h
      exact (Failing.exists_step_of_ok h hs fun dma _ t t' ht hstep =>
        parseDMA_sameTables invoke ht hstep).1
  · obtain ⟨message, herror⟩ := parseROCBank_of_mismatch (s := s) invoke hmatch
    rw [herror] at h
    exact absurd h (by simp)

/-- A ROC bank that is passed agrees with its segment and has no bank without parser. -/
theorem parseROCBank_ok {s' : State P W} (hs : SameTables services s.services)
    (h : parseROCBank invoke s banks = .ok s') :
    banks.2.tag.toUInt32 = rocid banks.1 ∧ ∀ dma ∈ banks.1.children,
      ¬ (Selected services (rocid banks.1) dma ∧ parserOf services dma = none) := by
  by_cases hmatch : banks.2.tag.toUInt32 = rocid banks.1
  · refine ⟨hmatch, fun dma hdma hbad => ?_⟩
    obtain ⟨hsel, hparser⟩ := hbad
    rw [parseROCBank_of_match invoke hmatch] at h
    cases hroc : s.services.filterDB.isROCAllowed (rocid banks.1).toNat with
    | false => exact not_selected_of_skipped hs.1.symm hroc dma hsel
    | true =>
      simp only [hroc, Bool.not_true, Bool.false_eq_true, if_false] at h
      obtain ⟨-, hsteps⟩ := Failing.exists_step_of_ok h hs fun dma _ t t' ht hstep =>
        parseDMA_sameTables invoke ht hstep
      obtain ⟨t, t', ht, hstep⟩ := hsteps dma hdma
      obtain ⟨message, herror⟩ := parseDMA_of_missing invoke
        ((ht.selected (rocid banks.1) dma).mpr hsel) ((ht.parserOf_eq dma).trans hparser)
      rw [herror] at hstep
      exact absurd hstep (by simp)
  · obtain ⟨message, herror⟩ := parseROCBank_of_mismatch (s := s) invoke hmatch
    rw [herror] at h
    exact absurd h (by simp)

/-- Where the parsers return, a ROC bank fails with an exception of the dispatch only. -/
theorem parseROCBank_error {fault : Fault} (hs : SameTables services s.services)
    (htotal : ∀ inv ∈ banks.1.children.filterMap (invocation? services (rocid banks.1)),
      ∀ shared, ∃ shared', call invoke shared inv = .ok shared')
    (h : parseROCBank invoke s banks = .error fault) : ∃ message, fault = .jexception message := by
  by_cases hmatch : banks.2.tag.toUInt32 = rocid banks.1
  · rw [parseROCBank_of_match invoke hmatch] at h
    cases hroc : s.services.filterDB.isROCAllowed (rocid banks.1).toNat with
    | false => simp [hroc] at h
    | true =>
      simp only [hroc, Bool.not_true, Bool.false_eq_true, if_false] at h
      obtain ⟨dma, hdma, t, ht, hstep⟩ := Failing.exists_step_of_error h hs
        fun dma _ t t' ht hstep => parseDMA_sameTables invoke ht hstep
      by_cases hsel : Selected t.services (rocid banks.1) dma
      · cases hparser : parserOf t.services dma with
        | none =>
          obtain ⟨message, herror⟩ := parseDMA_of_missing invoke hsel hparser
          rw [herror] at hstep
          exact ⟨message, (Except.error.inj hstep).symm⟩
        | some parser =>
          have hinv : invocation? services (rocid banks.1) dma =
              some ⟨parser, dma, bankContext (rocid banks.1) dma⟩ := by
            rw [← ht.invocation?_eq]
            simp [invocation?, hsel, hparser]
          obtain ⟨shared', hshared⟩ := htotal _ (List.mem_filterMap.mpr ⟨dma, hdma, hinv⟩) t.shared
          obtain ⟨services', -, heq⟩ := parseDMA_of_found invoke hsel hparser
          simp only [call] at hshared
          rw [heq, hshared] at hstep
          exact absurd hstep (by simp [Except.map])
      · obtain ⟨t', heq, -⟩ := parseDMA_of_not_selected invoke hsel
        rw [heq] at hstep
        exact absurd hstep (by simp)
  · obtain ⟨message, herror⟩ := parseROCBank_of_mismatch (s := s) invoke hmatch
    rw [herror] at h
    exact ⟨message, (Except.error.inj h).symm⟩

end ParseROCBank

section ParseROCBanks

variable {dataBanks segments : List BaseStructure} {s : State P W}

theorem parseROCBanks_of_length (h : dataBanks.length = segments.length) :
    parseROCBanks invoke dataBanks segments s =
      (dataBanks.zip segments).foldlM (parseROCBank invoke) s := by
  simp [parseROCBanks, h]

theorem exists_mem_zip {α β : Type} {xs : List α} {ys : List β} (h : xs.length = ys.length)
    {x : α} (hx : x ∈ xs) : ∃ y, (x, y) ∈ xs.zip ys := by
  have hmem : x ∈ (xs.zip ys).map Prod.fst := by rwa [List.map_fst_zip h.le]
  obtain ⟨p, hp, rfl⟩ := List.mem_map.mp hmem
  exact ⟨p.2, hp⟩

theorem not_rejected_of_ok {s' : State P W}
    (h : parseROCBanks invoke dataBanks segments s = .ok s') :
    ¬ Rejected s.services dataBanks segments := by
  by_cases hlength : dataBanks.length = segments.length
  · rw [parseROCBanks_of_length invoke hlength] at h
    obtain ⟨-, hsteps⟩ := Failing.exists_step_of_ok
      (I := fun t => SameTables s.services t.services) h ⟨rfl, rfl, rfl⟩
      fun banks _ t t' ht hstep => parseROCBank_sameTables invoke ht hstep
    intro hrejected
    rcases hrejected with hne | ⟨banks, hbanks, hmismatch⟩ | ⟨dataBank, hdata, dma, hdma, hbad⟩
    · exact hne hlength
    · obtain ⟨t, t', ht, hstep⟩ := hsteps banks hbanks
      exact hmismatch (parseROCBank_ok invoke ht hstep).1
    · obtain ⟨segment, hbanks⟩ := exists_mem_zip hlength hdata
      obtain ⟨t, t', ht, hstep⟩ := hsteps _ hbanks
      exact (parseROCBank_ok invoke ht hstep).2 dma hdma hbad
  · simp [parseROCBanks, hlength] at h

theorem parseROCBanks_simulates (h : ¬ Rejected s.services dataBanks segments) :
    (parseROCBanks invoke dataBanks segments s).map State.shared =
      (invocations s.services dataBanks).foldlM (call invoke) s.shared := by
  have hlength : dataBanks.length = segments.length := by
    by_contra hne
    exact h (Or.inl hne)
  have hitems : invocations s.services dataBanks =
      (dataBanks.zip segments).flatMap fun banks =>
        banks.1.children.filterMap (invocation? s.services (rocid banks.1)) := by
    have hfst := List.map_fst_zip hlength.le
    conv_lhs => rw [invocations, ← hfst, List.flatMap_map]
  rw [parseROCBanks_of_length invoke hlength, hitems]
  apply Failing.foldlM_simulates (I := fun t => SameTables s.services t.services) ⟨rfl, rfl, rfl⟩
  intro banks hbanks t ht
  refine ⟨?_, fun t' => parseROCBank_sameTables invoke ht⟩
  apply parseROCBank_simulates invoke ht
  · by_contra hmismatch
    exact h (Or.inr (Or.inl ⟨banks, hbanks, hmismatch⟩))
  · intro dma hdma hbad
    exact h (Or.inr (Or.inr ⟨banks.1, (List.of_mem_zip hbanks).1, dma, hdma, hbad⟩))

theorem parseROCBanks_error {fault : Fault}
    (htotal : ∀ inv ∈ invocations s.services dataBanks, ∀ shared,
      ∃ shared', call invoke shared inv = .ok shared')
    (h : parseROCBanks invoke dataBanks segments s = .error fault) :
    ∃ message, fault = .jexception message := by
  by_cases hlength : dataBanks.length = segments.length
  · rw [parseROCBanks_of_length invoke hlength] at h
    obtain ⟨banks, hbanks, t, ht, hstep⟩ := Failing.exists_step_of_error
      (I := fun t => SameTables s.services t.services) h ⟨rfl, rfl, rfl⟩
      fun banks _ t t' ht hstep => parseROCBank_sameTables invoke ht hstep
    apply parseROCBank_error invoke ht ?_ hstep
    intro inv hinv
    exact htotal inv (List.mem_flatMap.mpr ⟨banks.1, (List.of_mem_zip hbanks).1, hinv⟩)
  · simp only [parseROCBanks, hlength, ne_eq, not_false_eq_true, if_true] at h
    exact ⟨_, (Except.error.inj h).symm⟩

/-- Parsing the data banks refines the filter and the route tables. Where the parsers return,
it throws exactly on the rejected blocks; it never accepts a rejected block; and on the
other blocks it is the sequence of parser calls of the selected banks in tree order. A bank
that the filter accepts is in no skipped ROC, and a filtered or unmapped bank does nothing. -/
theorem parseROCBanks_refines (dataBanks segments : List BaseStructure) (s : State P W) :
    ((∀ inv ∈ invocations s.services dataBanks, ∀ shared,
        ∃ shared', call invoke shared inv = .ok shared') →
      ((∃ message, parseROCBanks invoke dataBanks segments s = .error (.jexception message)) ↔
        Rejected s.services dataBanks segments)) ∧
    (∀ s', parseROCBanks invoke dataBanks segments s = .ok s' →
      ¬ Rejected s.services dataBanks segments) ∧
    (¬ Rejected s.services dataBanks segments →
      (parseROCBanks invoke dataBanks segments s).map State.shared =
        (invocations s.services dataBanks).foldlM (call invoke) s.shared) ∧
    (∀ rocid bank, s.services.filterDB.isBankAllowed rocid bank = true →
      s.services.filterDB.isROCAllowed rocid = true) ∧
    ∀ dbRocid dma, ¬ Selected s.services dbRocid dma →
      ∃ s', parseDMA invoke dbRocid s dma = .ok s' ∧ s'.shared = s.shared := by
  refine ⟨fun htotal => ⟨?_, ?_⟩, fun s' => not_rejected_of_ok invoke,
    parseROCBanks_simulates invoke, fun rocid bank => isROCAllowed_of_isBankAllowed, ?_⟩
  · intro hh
    obtain ⟨message, herror⟩ := hh
    by_contra hnot
    have hsim := parseROCBanks_simulates invoke hnot
    have hcalls : ∃ shared, (invocations s.services dataBanks).foldlM (call invoke) s.shared =
        .ok shared ∧ True := by
      apply Failing.foldlM_total (I := fun _ _ => True) trivial
      intro pre inv post t hsplit _
      obtain ⟨t', ht'⟩ := htotal inv (by simp [hsplit]) t
      exact ⟨t', ht', trivial⟩
    obtain ⟨shared, hshared, -⟩ := hcalls
    rw [herror, hshared] at hsim
    exact absurd hsim (by simp [Except.map])
  · intro hrejected
    cases hparse : parseROCBanks invoke dataBanks segments s with
    | ok s' => exact absurd hrejected (not_rejected_of_ok invoke hparse)
    | error fault =>
      obtain ⟨message, rfl⟩ := parseROCBanks_error invoke htotal hparse
      exact ⟨message, rfl⟩
  · intro dbRocid dma hsel
    obtain ⟨s', heq, hshared, -⟩ := parseDMA_of_not_selected invoke hsel
    exact ⟨s', heq, hshared⟩

end ParseROCBanks

end EvioEventParser

end JanaExtensions
