import Mathlib.Data.List.Forall2

/-! Lists whose elements are related one by one. -/

namespace RelatedLists

variable {α β γ : Type*} {R Q : α → β → Prop} {xs : List α} {ys : List β}

theorem forall₂_of_mem (h : List.Forall₂ R xs ys) (hR : ∀ x ∈ xs, ∀ y, R x y → Q x y) :
    List.Forall₂ Q xs ys := by
  induction h with
  | nil => exact .nil
  | cons hxy _ ih =>
    obtain ⟨hx, hxs⟩ := List.forall_mem_cons.mp hR
    exact .cons (hx _ hxy) (ih hxs)

theorem exists_of_forall₂_mem (h : List.Forall₂ R xs ys) {x : α} (hx : x ∈ xs) :
    ∃ y ∈ ys, R x y := by
  induction h with
  | nil => cases hx
  | cons hxy _ ih =>
    rcases List.mem_cons.mp hx with rfl | hx
    · exact ⟨_, List.mem_cons_self, hxy⟩
    · obtain ⟨y, hy, hR⟩ := ih hx
      exact ⟨y, List.mem_cons_of_mem _ hy, hR⟩

theorem exists_of_forall₂_mem_right (h : List.Forall₂ R xs ys) {y : β} (hy : y ∈ ys) :
    ∃ x ∈ xs, R x y :=
  exists_of_forall₂_mem h.flip hy

/-- Lists match through the values that lie between their elements. -/
theorem forall₂_through_iff {R : α → γ → Prop} {p : γ → Prop} {g : γ → β} :
    List.Forall₂ (fun x y => ∃ z, R x z ∧ p z ∧ y = g z) xs ys ↔
      ∃ zs, List.Forall₂ R xs zs ∧ (∀ z ∈ zs, p z) ∧ ys = zs.map g := by
  constructor
  · intro h
    induction h with
    | nil => exact ⟨[], .nil, by simp, rfl⟩
    | cons hxy _ ih =>
      obtain ⟨z, hz, hp, rfl⟩ := hxy
      obtain ⟨zs, hzs, hps, rfl⟩ := ih
      exact ⟨z :: zs, .cons hz hzs, List.forall_mem_cons.mpr ⟨hp, hps⟩, rfl⟩
  · rintro ⟨zs, hzs, hps, rfl⟩
    induction hzs with
    | nil => exact .nil
    | cons hz _ ih =>
      obtain ⟨hp, hps⟩ := List.forall_mem_cons.mp hps
      exact .cons ⟨_, hz, hp, rfl⟩ (ih hps)

end RelatedLists
