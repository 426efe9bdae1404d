import JanaExtensions.Interleaving
import Mathlib.Data.List.Induction

/-! Programs that look things up in a store while other programs and updates change it. What
a lookup has answered is final, so that each program gives what it would give on the state
that the store is left in. -/

namespace LookupPrograms

variable {Q R S σ U ι : Type*} {A : Q → Type*}

/-- A computation that has its result, or waits for the answer to a query. -/
inductive Program (Q : Type*) (A : Q → Type*) (R : Type*) where
  | done (result : R)
  | ask (query : Q) (next : A query → Program Q A R)

namespace Program

def bind (p : Program Q A R) (f : R → Program Q A S) : Program Q A S :=
  match p with
  | done result => f result
  | ask query next => ask query fun answer => (next answer).bind f

def eval (answer : (query : Q) → A query) : Program Q A R → R
  | done result => result
  | ask query next => (next (answer query)).eval answer

theorem eval_bind (answer : (query : Q) → A query) (p : Program Q A R) (f : R → Program Q A S) :
    (p.bind f).eval answer = (f (p.eval answer)).eval answer := by
  induction p with
  | done result => rfl
  | ask query next ih => exact ih (answer query)

variable {ε α : Type*}

def foldExcept (step : S → α → Program Q A (Except ε S)) : S → List α → Program Q A (Except ε S)
  | s, [] => done (.ok s)
  | s, x :: xs => (step s x).bind fun result =>
    match result with
    | .ok s' => foldExcept step s' xs
    | .error e => done (.error e)

theorem eval_foldExcept {S ε : Type _} (answer : (query : Q) → A query)
    (step : S → α → Program Q A (Except ε S)) (s : S) (xs : List α) :
    (foldExcept step s xs).eval answer = xs.foldlM (fun s x => (step s x).eval answer) s := by
  induction xs generalizing s with
  | nil => rfl
  | cons x xs ih =>
    rw [foldExcept, eval_bind, List.foldlM_cons]
    cases (step s x).eval answer with
    | ok s' => exact ih s'
    | error e => rfl

/-- A process that runs a program comes to its end when it is given enough turns. -/
theorem exists_done {π ε' : Type*} [DecidableEq ι] {step : ε' → ι → σ → π → Option (σ × π)}
    {event : ε'} {i : ι} (point : Program Q A R → π)
    (hask : ∀ s query next, ∃ s' answer,
      step event i s (point (.ask query next)) = some (s', point (next answer)))
    (p : Program Q A R) {s : Interleaving.State ι σ π} (hs : s.point i = point p) :
    ∃ more result, (Interleaving.run step s more).point i = point (.done result) := by
  induction p generalizing s with
  | done result => exact ⟨[], result, hs⟩
  | ask query next ih =>
    obtain ⟨s', answer, hstep⟩ := hask s.shared query next
    have hpoint : (Interleaving.turn step s (i, event)).point i = point (next answer) := by
      rw [Interleaving.turn_of_step (hs ▸ hstep)]
      exact Function.update_self _ _ _
    obtain ⟨more, result, hmore⟩ := ih answer hpoint
    exact ⟨(i, event) :: more, result, hmore⟩

end Program

/-- A store with its lookups and its updates. A state keeps another one if it has all that
is final there. -/
structure Store (σ Q : Type*) (A : Q → Type*) (U : Type*) where
  answer : σ → (query : Q) → A query
  look : σ → Q → σ
  update : U → σ → σ
  Keeps : σ → σ → Prop
  refl : ∀ s, Keeps s s
  trans : ∀ {s t u}, Keeps s t → Keeps t u → Keeps s u
  keeps_look : ∀ s query, Keeps s (look s query)
  keeps_update : ∀ u s, Keeps s (update u s)
  /-- A lookup makes its answer final. -/
  answer_final : ∀ {s query t}, Keeps (look s query) t → answer t query = answer s query
  /-- A lookup does not change what other queries answer. -/
  answer_look : ∀ s query query', answer (look s query) query' = answer s query'

namespace Store

variable (store : Store σ Q A U)

/-- A turn of a program is its next lookup. In the other turns the store is updated. -/
def step (event : Option U) (_ : ι) (s : σ) (p : Program Q A R) : Option (σ × Program Q A R) :=
  match event, p with
  | some u, p => some (store.update u s, p)
  | none, .ask query next => some (store.look s query, next (store.answer s query))
  | none, .done _ => none

variable {store}

theorem step_cases {event : Option U} {i : ι} {s s' : σ} {p p' : Program Q A R}
    (h : store.step event i s p = some (s', p')) :
    (∃ u, event = some u ∧ s' = store.update u s ∧ p' = p) ∨
      ∃ query next, event = none ∧ p = .ask query next ∧ s' = store.look s query ∧
        p' = next (store.answer s query) := by
  cases event with
  | some u =>
    obtain ⟨rfl, rfl⟩ := Prod.mk.inj (Option.some.inj h)
    exact .inl ⟨u, rfl, rfl, rfl⟩
  | none =>
    cases p with
    | done result => cases h
    | ask query next =>
      obtain ⟨rfl, rfl⟩ := Prod.mk.inj (Option.some.inj h)
      exact .inr ⟨query, next, rfl, rfl, rfl, rfl⟩

theorem keeps_step {event : Option U} {i : ι} {s s' : σ} {p p' : Program Q A R}
    (h : store.step event i s p = some (s', p')) : store.Keeps s s' := by
  rcases step_cases h with ⟨u, -, rfl, -⟩ | ⟨query, next, -, -, rfl, -⟩
  · exact store.keeps_update u s
  · exact store.keeps_look s query

/-- On every state that keeps the reached one, the rest of the program gives what the whole
program gives. -/
def OnCourse (store : Store σ Q A U) (whole : Program Q A R) (s : σ) (p : Program Q A R) : Prop :=
  ∀ t, store.Keeps s t → p.eval (store.answer t) = whole.eval (store.answer t)

theorem OnCourse.step {whole : Program Q A R} {event : Option U} {i : ι} {s s' : σ}
    {p p' : Program Q A R} (hp : OnCourse store whole s p)
    (h : store.step event i s p = some (s', p')) : OnCourse store whole s' p' := by
  intro t ht
  have hwhole := hp t (store.trans (keeps_step h) ht)
  rcases step_cases h with ⟨u, -, -, rfl⟩ | ⟨query, next, -, rfl, rfl, rfl⟩
  · exact hwhole
  · have hanswer := store.answer_final ht
    rw [← hwhole, Program.eval, hanswer]

theorem OnCourse.of_keeps {whole : Program Q A R} {s s' : σ} {p : Program Q A R}
    (hp : OnCourse store whole s p) (h : store.Keeps s s') : OnCourse store whole s' p :=
  fun t ht => hp t (store.trans h ht)

section Runs

variable [DecidableEq ι] (store) (programs : ι → Program Q A R) (start : σ)

def afterTurns (schedule : List (ι × Option U)) : Interleaving.State ι σ (Program Q A R) :=
  Interleaving.run store.step ⟨start, programs⟩ schedule

theorem invariant_afterTurns (schedule : List (ι × Option U)) :
    Interleaving.Invariant (store.Keeps start)
      (fun s i p => OnCourse store (programs i) s p)
      (store.afterTurns programs start schedule) := by
  refine Interleaving.Invariant.run ?_ ?_ ⟨store.refl start, fun i t _ => rfl⟩ schedule
  · intro event i s p s' p' hs hp hstep
    exact ⟨store.trans hs (keeps_step hstep), hp.step hstep⟩
  · intro event i s p s' p' _ _ hstep j _ q hq
    exact hq.of_keeps (keeps_step hstep)

/-- A program that has ended gave what it gives on the state reached. -/
theorem result_eq_eval {schedule : List (ι × Option U)} {i : ι} {result : R}
    (h : (store.afterTurns programs start schedule).point i = .done result) :
    result = (programs i).eval
      (store.answer (store.afterTurns programs start schedule).shared) := by
  have hi : OnCourse store (programs i) _ _ := (invariant_afterTurns store programs start schedule).each i
  rw [h] at hi
  exact hi _ (store.refl _)

theorem answer_of_lookups {schedule : List (ι × Option U)} (h : ∀ t ∈ schedule, t.2 = none) :
    store.answer (store.afterTurns programs start schedule).shared = store.answer start := by
  induction schedule using List.reverseRecOn with
  | nil => rfl
  | append_singleton schedule t ih =>
    obtain ⟨hschedule, hlast⟩ := List.forall_mem_append.mp h
    obtain ⟨i, event⟩ := t
    obtain rfl : event = none := hlast _ List.mem_cons_self
    rw [← ih hschedule, afterTurns, Interleaving.run_append]
    funext query'
    change store.answer (Interleaving.turn store.step _ (i, none)).shared query' = _
    cases hp : (Interleaving.run store.step ⟨start, programs⟩ schedule).point i with
    | done result =>
      rw [Interleaving.turn_of_blocked (by rw [hp]; rfl)]
      rfl
    | ask query next =>
      rw [Interleaving.turn_of_step (by rw [hp]; rfl)]
      exact store.answer_look _ _ _

theorem exists_result (schedule : List (ι × Option U)) (i : ι) : ∃ more : List (ι × Option U),
    ∃ result, (store.afterTurns programs start (schedule ++ more)).point i = .done result := by
  have hask : ∀ s query (next : A query → Program Q A R), ∃ s' answer,
      store.step none i s (id (.ask query next)) = some (s', id (next answer)) :=
    fun s query next => ⟨store.look s query, store.answer s query, rfl⟩
  obtain ⟨more, result, hmore⟩ := Program.exists_done id hask _
    (s := store.afterTurns programs start schedule) rfl
  exact ⟨more, result, by rwa [afterTurns, Interleaving.run_append]⟩

end Runs

end Store

end LookupPrograms
