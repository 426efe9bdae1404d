import JanaExtensions.BankDispatch
import JanaExtensions.LookupPrograms

/-! Blocks parsed in parallel. The parser calls share the registries of routes and of module
parsers, whose methods lock them one call at a time, and plugins may still register routes
and parsers meanwhile. -/

namespace JanaExtensions

namespace EvioEventParser

open Failing LookupPrograms

variable {P W : Type}

/-- The calls of the shared services in which a block parser takes turns with others. -/
inductive Lookup where
  | getModuleId (bankId : Int)
  | getParser (moduleId : Int)
  deriving DecidableEq

abbrev Answer (P : Type) : Lookup → Type
  | .getModuleId _ => Int
  | .getParser _ => Option P

inductive Registration (P : Type) where
  | addRoute (bankId moduleId : Int)
  | loadMappingFile (file : MappingFile)
  | addParser (moduleId : Int) (parser : Option P)

def answer (services : Services P) : (lookup : Lookup) → Answer P lookup
  | .getModuleId bankId => (services.bankToModule.getModuleId bankId).1
  | .getParser moduleId => (services.moduleParsers.getParser moduleId).1

def look (services : Services P) : Lookup → Services P
  | .getModuleId bankId =>
    { services with bankToModule := (services.bankToModule.getModuleId bankId).2 }
  | .getParser moduleId =>
    { services with moduleParsers := (services.moduleParsers.getParser moduleId).2 }

def Registration.register (services : Services P) : Registration P → Services P
  | .addRoute bankId moduleId =>
    { services with bankToModule := (services.bankToModule.addRoute bankId moduleId).2 }
  | .loadMappingFile file =>
    { services with bankToModule := (services.bankToModule.loadMappingFile file).2 }
  | .addParser moduleId parser =>
    { services with moduleParsers := (services.moduleParsers.addParser moduleId parser).2 }

section Registries

/-- The filter is that of the other services, and so is every frozen registry. -/
structure Keeps (s t : Services P) : Prop where
  filterDB : t.filterDB = s.filterDB
  routes : s.bankToModule.frozen = true → t.bankToModule.frozen = true ∧
    t.bankToModule.bankToModule = s.bankToModule.bankToModule
  parsers : s.moduleParsers.frozen = true → t.moduleParsers.frozen = true ∧
    t.moduleParsers.moduleParsers = s.moduleParsers.moduleParsers

theorem Keeps.refl (s : Services P) : Keeps s s := ⟨rfl, fun h => ⟨h, rfl⟩, fun h => ⟨h, rfl⟩⟩

theorem Keeps.trans {s t u : Services P} (h : Keeps s t) (h' : Keeps t u) : Keeps s u := by
  refine ⟨h'.filterDB.trans h.filterDB, fun hs => ?_, fun hs => ?_⟩
  · obtain ⟨ht, hroutes⟩ := h.routes hs
    obtain ⟨hu, hroutes'⟩ := h'.routes ht
    exact ⟨hu, hroutes'.trans hroutes⟩
  · obtain ⟨ht, hparsers⟩ := h.parsers hs
    obtain ⟨hu, hparsers'⟩ := h'.parsers ht
    exact ⟨hu, hparsers'.trans hparsers⟩

theorem keeps_look (s : Services P) (lookup : Lookup) : Keeps s (look s lookup) := by
  cases lookup with
  | getModuleId bankId => exact ⟨rfl, fun _ => ⟨rfl, rfl⟩, fun h => ⟨h, rfl⟩⟩
  | getParser moduleId => exact ⟨rfl, fun h => ⟨h, rfl⟩, fun _ => ⟨rfl, rfl⟩⟩

theorem addRoute_of_frozen {self : BankToModuleMap} (h : self.frozen = true)
    (bankId moduleId : Int) : (self.addRoute bankId moduleId).2 = self := by
  rw [BankToModuleMap.addRoute, if_pos h]

theorem loadMappingFile_of_frozen {self : BankToModuleMap} (h : self.frozen = true)
    (file : MappingFile) : (self.loadMappingFile file).2 = self := by
  rw [BankToModuleMap.loadMappingFile]
  split
  · rfl
  · rw [if_pos h]

theorem addParser_of_frozen {self : ModuleParsersMap P} (h : self.frozen = true)
    (moduleId : Int) (parser : Option P) : (self.addParser moduleId parser).2 = self := by
  rw [ModuleParsersMap.addParser.eq_def, if_pos h]

theorem keeps_register (registration : Registration P) (s : Services P) :
    Keeps s (registration.register s) := by
  cases registration with
  | addRoute bankId moduleId =>
    refine ⟨rfl, fun h => ?_, fun h => ⟨h, rfl⟩⟩
    rw [Registration.register, addRoute_of_frozen h]
    exact ⟨h, rfl⟩
  | loadMappingFile file =>
    refine ⟨rfl, fun h => ?_, fun h => ⟨h, rfl⟩⟩
    rw [Registration.register, loadMappingFile_of_frozen h]
    exact ⟨h, rfl⟩
  | addParser moduleId parser =>
    refine ⟨rfl, fun h => ⟨h, rfl⟩, fun h => ?_⟩
    rw [Registration.register, addParser_of_frozen h]
    exact ⟨h, rfl⟩

theorem answer_final {s t : Services P} {lookup : Lookup} (h : Keeps (look s lookup) t) :
    answer t lookup = answer s lookup := by
  cases lookup with
  | getModuleId bankId =>
    have hroutes := (h.routes rfl).2
    rw [answer, BankToModuleMap.getModuleId, hroutes]
    rfl
  | getParser moduleId =>
    have hparsers := (h.parsers rfl).2
    rw [answer, ModuleParsersMap.getParser, hparsers]
    rfl

theorem answer_look (s : Services P) (lookup lookup' : Lookup) :
    answer (look s lookup) lookup' = answer s lookup' := by
  cases lookup <;> cases lookup' <;> rfl

/-- The registries as a store. A registry that has answered a lookup is frozen. -/
def registries (P : Type) : Store (Services P) Lookup (Answer P) (Registration P) where
  answer := answer
  look := look
  update registration services := registration.register services
  Keeps := Keeps
  refl := Keeps.refl
  trans := Keeps.trans
  keeps_look := keeps_look
  keeps_update := keeps_register
  answer_final := answer_final
  answer_look := answer_look

end Registries

section Programs

variable (invoke : P → BaseStructure → BankContext → W → Except Fault W) (filterDB : FilterDB)

abbrev BlockProgram (P W : Type) := Program Lookup (Answer P) (Except Fault W)

def dmaProgram (dbRocid : UInt32) (shared : W) (dma : BaseStructure) : BlockProgram P W :=
  let bankTag := dma.tag
  if !filterDB.isBankAllowed dbRocid.toNat bankTag.toNat then .done (.ok shared)
  else .ask (.getModuleId bankTag.toNat) fun (moduleId : Int) =>
    if moduleId = -1 then .done (.ok shared)
    else .ask (.getParser moduleId) fun (parser : Option P) =>
      match parser with
      | none => .done (.error (.jexception
          ("EvioEventParser::parseROCBanks: No parser found for module ID " ++
            toString moduleId ++ " (bank tag " ++ toString bankTag ++ ")")))
      | some parser => .done (invoke parser dma (bankContext dbRocid dma) shared)

def rocBankProgram (shared : W) (banks : BaseStructure × BaseStructure) : BlockProgram P W :=
  let tbRocid := banks.2.tag.toUInt32
  let dbRocid := rocid banks.1
  if tbRocid ≠ dbRocid then
    .done (.error (.jexception
      ("EvioEventParser::parseROCBanks: Trigger bank roc segment rocid != Data bank rocid -- " ++
        toString tbRocid ++ " != " ++ toString dbRocid)))
  else if !filterDB.isROCAllowed dbRocid.toNat then .done (.ok shared)
  else .foldExcept (dmaProgram invoke filterDB dbRocid) shared banks.1.children

def rocBanksProgram (dataBanks triggerBankROCSegments : List BaseStructure) (shared : W) :
    BlockProgram P W :=
  if dataBanks.length ≠ triggerBankROCSegments.length then
    .done (.error (.jexception
      ("EvioEventParser::parseROCBanks: #ROC databanks != #ROC segments in trigger bank -- " ++
        toString dataBanks.length ++ " != " ++ toString triggerBankROCSegments.length)))
  else .foldExcept (rocBankProgram invoke filterDB) shared (dataBanks.zip triggerBankROCSegments)

end Programs

def parseProgram {H : Type}
    (invoke : P → BaseStructure → BankContext → Shared H → Except Fault (Shared H))
    (filterDB : FilterDB) (eventNumber : UInt64) (event : EvioEvent) :
    BlockProgram P (List (PhysicsEvent H)) :=
  match event.children with
  | [] => .done (.error (.jexception
      "vector::_M_range_check: __n (which is 0) >= this->size() (which is 0)"))
  | triggerBank :: rocBanks =>
    match parseTriggerBank triggerBank with
    | .error fault => .done (.error fault)
    | .ok (segments, triggerData) =>
      (rocBanksProgram invoke filterDB rocBanks segments ⟨triggerData, []⟩).bind fun result =>
        match result with
        | .error fault => .done (.error fault)
        | .ok shared =>
          if shared.physicsEvents.isEmpty then
            .done (.error (.jexception
              ("EvioEventParser::parse: No physics events found for evio block " ++
                toString eventNumber)))
          else .done (.ok (consolidate shared.physicsEvents))

section Alone

variable (invoke : P → BaseStructure → BankContext → W → Except Fault W)

theorem eval_dmaProgram (s : State P W) (dbRocid : UInt32) (dma : BaseStructure) :
    (dmaProgram invoke s.services.filterDB dbRocid s.shared dma).eval (answer s.services) =
      (parseDMA invoke dbRocid s dma).map State.shared := by
  rw [dmaProgram, parseDMA]
  by_cases hallowed : s.services.filterDB.isBankAllowed dbRocid.toNat dma.tag.toNat = true
  · by_cases hroute : (s.services.bankToModule.getModuleId dma.tag.toNat).1 = -1
    · simp [hallowed, Program.eval, answer, hroute, Except.map]
    · cases hparser : (s.services.moduleParsers.getParser
          (s.services.bankToModule.getModuleId dma.tag.toNat).1).1 with
      | none =>
        have hfind : s.services.moduleParsers.moduleParsers.find
            (s.services.bankToModule.getModuleId dma.tag.toNat).1 = none := hparser
        simp [hallowed, Program.eval, answer, hroute, ModuleParsersMap.getParser, hfind, Except.map]
      | some parser =>
        have hfind : s.services.moduleParsers.moduleParsers.find
            (s.services.bankToModule.getModuleId dma.tag.toNat).1 = some parser := hparser
        simp only [hallowed, Bool.not_true, Bool.false_eq_true, if_false, Program.eval, answer,
          hroute, ModuleParsersMap.getParser, hfind]
        cases invoke parser dma (bankContext dbRocid dma) s.shared <;> rfl
  · simp [hallowed, Program.eval, Except.map]

theorem SameTables.answer_eq {services services' : Services P} (h : SameTables services services') :
    answer services' = answer services := by
  obtain ⟨-, hroutes, hparsers⟩ := h
  funext lookup
  cases lookup with
  | getModuleId bankId => rw [answer, BankToModuleMap.getModuleId, hroutes]; rfl
  | getParser moduleId => rw [answer, ModuleParsersMap.getParser, hparsers]; rfl

/-- A loop over states is the loop over what they share, if the tables stay as they are. -/
theorem eval_loop {α : Type} {services : Services P} {f : State P W → α → Except Fault (State P W)}
    {program : W → α → BlockProgram P W} {s : State P W} (hs : SameTables services s.services)
    (hsame : ∀ t x t', SameTables services t.services → f t x = .ok t' →
      SameTables services t'.services)
    (hstep : ∀ t x, SameTables services t.services →
      (program t.shared x).eval (answer services) = (f t x).map State.shared) (xs : List α) :
    (Program.foldExcept program s.shared xs).eval (answer services) =
      (xs.foldlM f s).map State.shared := by
  rw [Program.eval_foldExcept]
  have hsim : (xs.foldlM f s).map State.shared = (xs.flatMap fun x => [x]).foldlM
      (fun shared x => (program shared x).eval (answer services)) s.shared := by
    apply foldlM_simulates (I := fun t => SameTables services t.services) hs
    intro x _ t ht
    refine ⟨?_, fun t' => hsame t x t' ht⟩
    rw [← hstep t x ht, List.foldlM_cons]
    cases (program t.shared x).eval (answer services) <;> rfl
  rw [hsim, List.flatMap_singleton']

theorem eval_rocBankProgram (s : State P W) (banks : BaseStructure × BaseStructure) :
    (rocBankProgram invoke s.services.filterDB s.shared banks).eval (answer s.services) =
      (parseROCBank invoke s banks).map State.shared := by
  rw [rocBankProgram, parseROCBank]
  by_cases hmatch : banks.2.tag.toUInt32 = rocid banks.1
  · by_cases hroc : s.services.filterDB.isROCAllowed (rocid banks.1).toNat = true
    · simp only [hmatch, ne_eq, not_true_eq_false, if_false, hroc, Bool.not_true, Bool.false_eq_true]
      refine eval_loop ⟨rfl, rfl, rfl⟩ (fun t dma t' ht => parseDMA_sameTables invoke ht) ?_ _
      intro t dma ht
      rw [← ht.answer_eq, ← ht.1]
      exact eval_dmaProgram invoke t _ dma
    · simp [hmatch, hroc, Program.eval, Except.map]
  · simp [hmatch, Program.eval, Except.map]

theorem eval_rocBanksProgram (s : State P W) (dataBanks segments : List BaseStructure) :
    (rocBanksProgram invoke s.services.filterDB dataBanks segments s.shared).eval
      (answer s.services) = (parseROCBanks invoke dataBanks segments s).map State.shared := by
  rw [rocBanksProgram, parseROCBanks]
  by_cases hlength : dataBanks.length = segments.length
  · simp only [hlength, ne_eq, not_true_eq_false, if_false]
    refine eval_loop ⟨rfl, rfl, rfl⟩ (fun t banks t' ht => parseROCBank_sameTables invoke ht) ?_ _
    intro t banks ht
    rw [← ht.answer_eq, ← ht.1]
    exact eval_rocBankProgram invoke t banks
  · simp [hlength, Program.eval, Except.map]

/-- On its own, the program of a block gives what the parse of the block returns or throws. -/
theorem eval_parseProgram {H : Type}
    (invoke : P → BaseStructure → BankContext → Shared H → Except Fault (Shared H))
    (eventNumber : UInt64) (event : EvioEvent) (services : Services P) :
    (parseProgram invoke services.filterDB eventNumber event).eval (answer services) =
      (parse invoke eventNumber event services).map Prod.fst := by
  rw [parseProgram, parse]
  cases event.children with
  | nil => rfl
  | cons triggerBank rocBanks =>
    dsimp only
    cases parseTriggerBank triggerBank with
    | error fault => rfl
    | ok r =>
      obtain ⟨segments, triggerData⟩ := r
      have hbanks := eval_rocBanksProgram invoke ⟨services, triggerData, []⟩ rocBanks segments
      dsimp only
      rw [Program.eval_bind, hbanks, bind_ok]
      cases parseROCBanks invoke rocBanks segments ⟨services, triggerData, []⟩ with
      | error fault => rfl
      | ok s =>
        rw [bind_ok]
        by_cases hempty : s.shared.physicsEvents.isEmpty = true
        · simp [Except.map, hempty, Program.eval]
        · simp [Except.map, hempty, Program.eval]

end Alone

section Interleaved

variable {H ι : Type} [DecidableEq ι]

def afterTurns (invoke : P → BaseStructure → BankContext → Shared H → Except Fault (Shared H))
    (services : Services P) (eventNumber : ι → UInt64) (event : ι → EvioEvent)
    (schedule : List (ι × Option (Registration P))) :
    Interleaving.State ι (Services P)
      (BlockProgram P (List (PhysicsEvent H))) :=
  (registries P).afterTurns
    (fun i => parseProgram invoke services.filterDB (eventNumber i) (event i)) services schedule

/-- Whatever the order in which the parsers of any number of blocks call the shared services
and plugins go on to register routes and parsers: a block that has been parsed gave what its
parse gives alone on the services as they are now, whether it returned or threw. Without
registrations that is what it gives on the services at the start. No block is kept from its end. -/
theorem parse_interleaved
    (invoke : P → BaseStructure → BankContext → Shared H → Except Fault (Shared H))
    (services : Services P) (eventNumber : ι → UInt64) (event : ι → EvioEvent)
    (schedule : List (ι × Option (Registration P))) :
    (∀ i result, (afterTurns invoke services eventNumber event schedule).point i = .done result →
      result = (parse invoke (eventNumber i) (event i)
        (afterTurns invoke services eventNumber event schedule).shared).map Prod.fst) ∧
    ((∀ t ∈ schedule, t.2 = none) → ∀ i result,
      (afterTurns invoke services eventNumber event schedule).point i = .done result →
        result = (parse invoke (eventNumber i) (event i) services).map Prod.fst) ∧
    ∀ i, ∃ more result,
      (afterTurns invoke services eventNumber event (schedule ++ more)).point i = .done result := by
  have hkeeps : Keeps services (afterTurns invoke services eventNumber event schedule).shared :=
    (Store.invariant_afterTurns (registries P) _ services schedule).shared
  have hresult : ∀ i result,
      (afterTurns invoke services eventNumber event schedule).point i = .done result →
      result = (parseProgram invoke services.filterDB (eventNumber i) (event i)).eval
        (answer (afterTurns invoke services eventNumber event schedule).shared) :=
    fun i result h => Store.result_eq_eval (registries P) _ services h
  refine ⟨fun i result h => ?_, fun hlookups i result h => ?_, fun i => ?_⟩
  · rw [hresult i result h, ← hkeeps.filterDB, eval_parseProgram]
  · have hanswer : answer (afterTurns invoke services eventNumber event schedule).shared =
        answer services :=
      Store.answer_of_lookups (registries P) _ services hlookups
    rw [hresult i result h, hanswer, eval_parseProgram]
  · exact Store.exists_result (registries P) _ services schedule i

end Interleaved

end EvioEventParser

end JanaExtensions
