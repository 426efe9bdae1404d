import Mathlib.Data.List.Basic

/-! Reading a sequence of items with a carried state: what an item emits depends on the
state that the items before it leave behind. -/

structure Transducer (ι σ β : Type*) where
  carry : ι → σ → σ
  emit : ι → σ → List β

namespace Transducer

variable {ι σ β : Type*} (T : Transducer ι σ β)

def carried : List ι → σ → σ
  | [], s => s
  | x :: xs, s => carried xs (T.carry x s)

def emissions : List ι → σ → List (List β)
  | [], _ => []
  | x :: xs, s => T.emit x s :: emissions xs (T.carry x s)

def emitted (xs : List ι) (s : σ) : List β := (T.emissions xs s).flatten

@[simp]
theorem carried_nil (s : σ) : T.carried [] s = s := rfl

@[simp]
theorem carried_cons (x : ι) (xs : List ι) (s : σ) :
    T.carried (x :: xs) s = T.carried xs (T.carry x s) := rfl

@[simp]
theorem emitted_nil (s : σ) : T.emitted [] s = [] := rfl

@[simp]
theorem emitted_cons (x : ι) (xs : List ι) (s : σ) :
    T.emitted (x :: xs) s = T.emit x s ++ T.emitted xs (T.carry x s) := rfl

theorem emitted_append (xs ys : List ι) (s : σ) :
    T.emitted (xs ++ ys) s = T.emitted xs s ++ T.emitted ys (T.carried xs s) := by
  induction xs generalizing s with
  | nil => rfl
  | cons x xs ih => simp [ih]

/-- A property of each item and what it emits, told from the items before it. -/
theorem forall₂_emissions_iff {P : ι → List β → Prop} (xs : List ι) (s : σ) :
    List.Forall₂ P xs (T.emissions xs s) ↔
      ∀ pre x post, xs = pre ++ x :: post → P x (T.emit x (T.carried pre s)) := by
  induction xs generalizing s with
  | nil => simp [emissions]
  | cons y ys ih =>
    rw [emissions, List.forall₂_cons, ih]
    constructor
    · rintro ⟨hy, hys⟩ pre x post h
      cases pre with
      | nil =>
        obtain ⟨rfl, -⟩ := List.cons_eq_cons.mp h
        exact hy
      | cons z pre =>
        obtain ⟨rfl, hrest⟩ := List.cons_eq_cons.mp h
        exact hys pre x post hrest
    · intro h
      exact ⟨h [] y ys rfl, fun pre x post hrest => h (y :: pre) x post (by simp [hrest])⟩

/-- A state that only the items of one kind replace is that of the last such item. -/
theorem carried_eq_getLast {γ : Type*} (observe : σ → γ) {sets : ι → Option γ}
    (h : ∀ x s, observe (T.carry x s) = (sets x).getD (observe s)) (xs : List ι) (s : σ) :
    observe (T.carried xs s) = ((xs.filterMap sets).getLast?).getD (observe s) := by
  induction xs generalizing s with
  | nil => rfl
  | cons x xs ih =>
    rw [carried_cons, ih, h]
    cases hx : sets x with
    | none => simp [hx]
    | some v =>
      cases hl : (xs.filterMap sets).getLast? <;> simp [hx, hl, List.getLast?_cons]

end Transducer
