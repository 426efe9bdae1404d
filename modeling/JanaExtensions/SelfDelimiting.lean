import Mathlib.Data.List.Basic
import Mathlib.Logic.Function.Basic

/-! Texts that are put together from parts, and what a reader can tell from them. A part tells a
value if it shows both the value and where it ends itself, whatever comes behind it. -/

namespace SelfDelimiting

variable {α β γ δ σ : Type*}

/-- Texts that begin with what is written for two objects agree on the view of the objects and
on the rest. -/
def Tells (write : α → List σ) (view : α → β) : Prop :=
  ∀ ⦃x y⦄ ⦃rest rest' : List σ⦄, write x ++ rest = write y ++ rest' → view x = view y ∧ rest = rest'

theorem tells_const (text : List σ) : Tells (fun _ : α => text) fun _ => () :=
  fun _ _ _ _ h => ⟨rfl, List.append_cancel_left h⟩

variable {write : α → List σ} {view : α → β}

theorem Tells.literal (h : Tells write view) (text : List σ) :
    Tells (fun x => text ++ write x) view := by
  intro x y rest rest' heq
  rw [List.append_assoc, List.append_assoc] at heq
  exact h (List.append_cancel_left heq)

theorem Tells.append {write' : α → List σ} {view' : α → γ} (h : Tells write view)
    (h' : Tells write' view') :
    Tells (fun x => write x ++ write' x) fun x => (view x, view' x) := by
  intro x y rest rest' heq
  rw [List.append_assoc, List.append_assoc] at heq
  obtain ⟨hview, hrest⟩ := h heq
  obtain ⟨hview', hrest'⟩ := h' hrest
  exact ⟨Prod.ext hview hview', hrest'⟩

theorem Tells.mono (h : Tells write view) {view' : α → γ}
    (himp : ∀ x y, view x = view y → view' x = view' y) : Tells write view' := by
  intro x y rest rest' heq
  obtain ⟨hview, hrest⟩ := h heq
  exact ⟨himp x y hview, hrest⟩

theorem Tells.comp (h : Tells write view) (f : γ → α) : Tells (fun x => write (f x)) fun x => view (f x) :=
  fun _ _ _ _ heq => h heq

theorem Tells.flatMap_of_length (h : Tells write view) {xs ys : List α}
    (hlength : xs.length = ys.length) {rest rest' : List σ}
    (heq : xs.flatMap write ++ rest = ys.flatMap write ++ rest') :
    xs.map view = ys.map view ∧ rest = rest' := by
  induction xs generalizing ys with
  | nil =>
    obtain rfl := List.length_eq_zero_iff.mp hlength.symm
    exact ⟨rfl, heq⟩
  | cons x xs ih =>
    cases ys with
    | nil => cases hlength
    | cons y ys =>
      rw [List.flatMap_cons, List.flatMap_cons, List.append_assoc, List.append_assoc] at heq
      obtain ⟨hview, hrest⟩ := h heq
      obtain ⟨hviews, hrest'⟩ := ih (Nat.succ.inj hlength) hrest
      exact ⟨by rw [List.map_cons, List.map_cons, hview, hviews], hrest'⟩

/-- The number of elements is written in front of them. -/
theorem Tells.counted {count : Nat → List σ} (hcount : Tells count id) (h : Tells write view) :
    Tells (fun xs : List α => count xs.length ++ xs.flatMap write) fun xs => xs.map view := by
  intro xs ys rest rest' heq
  rw [List.append_assoc, List.append_assoc] at heq
  obtain ⟨hlength, hrest⟩ := hcount heq
  exact h.flatMap_of_length hlength hrest

/-- Two forms that no text can begin with both of. -/
theorem Tells.ite {p : α → Prop} [DecidablePred p] {write' : α → List σ} {view' : α → β}
    (h : Tells write view) (h' : Tells write' view')
    (hapart : ∀ x y rest rest', write x ++ rest ≠ write' y ++ rest') :
    Tells (fun x => if p x then write x else write' x) fun x => if p x then view x else view' x := by
  intro x y rest rest' heq
  dsimp only at heq ⊢
  by_cases hx : p x <;> by_cases hy : p y <;> simp only [hx, hy, if_true, if_false] at heq ⊢
  · exact h heq
  · exact absurd heq (hapart x y rest rest')
  · exact absurd heq.symm (hapart y x rest' rest)
  · exact h' heq

theorem Tells.sequence {ι : Type*} {parts : List ι} {write : ι → α → List σ} {view : ι → α → β}
    (h : ∀ i ∈ parts, Tells (write i) (view i)) {x y : α} {rest rest' : List σ}
    (heq : (parts.flatMap fun i => write i x) ++ rest = (parts.flatMap fun i => write i y) ++ rest') :
    (∀ i ∈ parts, view i x = view i y) ∧ rest = rest' := by
  induction parts with
  | nil => exact ⟨by simp, heq⟩
  | cons i parts ih =>
    obtain ⟨hi, hparts⟩ := List.forall_mem_cons.mp h
    rw [List.flatMap_cons, List.flatMap_cons, List.append_assoc, List.append_assoc] at heq
    obtain ⟨hview, hrest⟩ := hi heq
    obtain ⟨hviews, hrest'⟩ := ih hparts hrest
    exact ⟨List.forall_mem_cons.mpr ⟨hview, hviews⟩, hrest'⟩

/-- A whole text tells its parts. -/
theorem Tells.flatMap (h : Tells write view) {xs ys : List α} (hxs : ∀ x ∈ xs, write x ≠ [])
    (hys : ∀ y ∈ ys, write y ≠ []) (heq : xs.flatMap write = ys.flatMap write) :
    xs.map view = ys.map view := by
  induction xs generalizing ys with
  | nil =>
    cases ys with
    | nil => rfl
    | cons y ys =>
      have hy := (List.forall_mem_cons.mp hys).1
      simp [hy] at heq
  | cons x xs ih =>
    obtain ⟨hx, hxs⟩ := List.forall_mem_cons.mp hxs
    cases ys with
    | nil => simp [hx] at heq
    | cons y ys =>
      rw [List.flatMap_cons, List.flatMap_cons] at heq
      obtain ⟨hview, hrest⟩ := h heq
      rw [List.map_cons, List.map_cons, hview, ih hxs (List.forall_mem_cons.mp hys).2 hrest]

section Delimited

variable {p : σ → Bool}

/-- The text begins with none of the symbols. -/
def Ends (p : σ → Bool) (text : List σ) : Prop := ∀ c ∈ text.head?, p c = false

theorem takeWhile_append_of_ends {word rest : List σ} (hword : ∀ c ∈ word, p c = true)
    (hrest : Ends p rest) : (word ++ rest).takeWhile p = word := by
  rw [List.takeWhile_append_of_pos hword]
  cases rest with
  | nil => simp
  | cons c rest => simp [hrest c rfl]

/-- A word ends where a symbol follows that words do not have. -/
theorem eq_of_append_ends {word word' rest rest' : List σ} (hword : ∀ c ∈ word, p c = true)
    (hword' : ∀ c ∈ word', p c = true) (hrest : Ends p rest) (hrest' : Ends p rest')
    (heq : word ++ rest = word' ++ rest') : word = word' ∧ rest = rest' := by
  have hsame : word = word' := by
    rw [← takeWhile_append_of_ends hword hrest, heq, takeWhile_append_of_ends hword' hrest']
  subst hsame
  exact ⟨rfl, List.append_cancel_left heq⟩

theorem ends_cons {c : σ} (hc : p c = false) (text : List σ) : Ends p (c :: text) := by
  intro d hd
  obtain rfl := Option.some.inj hd
  exact hc

/-- A word is told by a symbol at its end that words do not have. -/
theorem tells_terminated [DecidableEq σ] (stop : σ) {write : α → List σ}
    (h : ∀ x, stop ∉ write x) : Tells (fun x => write x ++ [stop]) write := by
  have hword (x : α) : ∀ c ∈ write x, decide (c ≠ stop) = true := fun c hc =>
    decide_eq_true fun hstop => h x (hstop ▸ hc)
  have hends (rest : List σ) : Ends (fun c => decide (c ≠ stop)) (stop :: rest) :=
    ends_cons (by simp) rest
  intro x y rest rest' heq
  rw [List.append_assoc, List.append_assoc] at heq
  obtain ⟨hwrite, hrest⟩ := eq_of_append_ends (hword x) (hword y) (hends rest) (hends rest') heq
  exact ⟨hwrite, (List.cons.inj hrest).2⟩

end Delimited

end SelfDelimiting
