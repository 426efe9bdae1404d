import Mathlib.Data.List.Nodup
import Mathlib.Data.List.Perm.Basic
import Mathlib.Data.List.Induction

/-! Lists without repetitions in reading order, lists partitioned by a key, and lists of rows that
are read position by position. -/

namespace Grouping

section Distinct

variable {α : Type*} [DecidableEq α]

theorem eraseDups_concat (xs : List α) (x : α) :
    (xs ++ [x]).eraseDups = if x ∈ xs then xs.eraseDups else xs.eraseDups ++ [x] := by
  rw [List.eraseDups_append]
  by_cases hx : x ∈ xs <;> simp [List.removeAll, hx, List.eraseDups_cons]

theorem nodup_eraseDups (xs : List α) : xs.eraseDups.Nodup := by
  induction xs using List.reverseRecOn with
  | nil => simp
  | append_singleton xs x ih =>
    rw [eraseDups_concat]
    split
    · exact ih
    · rename_i hx
      refine List.nodup_append'.mpr ⟨ih, by simp, ?_⟩
      simpa [List.disjoint_singleton, List.mem_eraseDups] using hx

end Distinct

section Partition

variable {α κ : Type*} [DecidableEq κ]

theorem flatMap_filter_perm (key : α → κ) {keys : List κ}
    (hnd : keys.Nodup) (xs : List α) (hcover : ∀ x ∈ xs, key x ∈ keys) :
    (keys.flatMap fun k => xs.filter fun x => key x = k).Perm xs := by
  induction keys generalizing xs with
  | nil =>
    have : xs = [] := List.eq_nil_iff_forall_not_mem.mpr fun x hx => by simpa using hcover x hx
    simp [this]
  | cons k ks ih =>
    have hk := List.nodup_cons.mp hnd
    have hrest : (ks.flatMap fun k' => xs.filter fun x => key x = k') =
        ks.flatMap fun k' => (xs.filter fun x => ¬ key x = k).filter fun x => key x = k' := by
      apply List.flatMap_congr
      intro k' hk'
      rw [List.filter_filter]
      apply List.filter_congr
      intro x _
      have hne : k' ≠ k := fun he => hk.1 (he ▸ hk')
      by_cases hx : key x = k' <;> simp [hx, hne]
    have hcov : ∀ x ∈ xs.filter fun x => ¬ key x = k, key x ∈ ks := by
      intro x hx
      obtain ⟨hx, hne⟩ := List.mem_filter.mp hx
      exact (List.mem_cons.mp (hcover x hx)).resolve_left (by simpa using hne)
    rw [List.flatMap_cons, hrest]
    refine ((ih hk.2 _ hcov).append_left _).trans ?_
    simpa using List.filter_append_perm (fun x => decide (key x = k)) xs

end Partition

section Positions

variable {α β κ : Type*}

/-- What pairs of a key and an element give is the same whether it is collected key by key or
element by element, but for the order. -/
theorem flatMap_filterMap_perm (f : α → κ → Option β) (keys : List κ) (xs : List α) :
    (keys.flatMap fun k => xs.filterMap fun x => f x k).Perm
      (xs.flatMap fun x => keys.filterMap (f x)) := by
  induction xs with
  | nil => simp
  | cons x xs ih =>
    have hcons (k : κ) : (x :: xs).filterMap (fun x => f x k) =
        (f x k).toList ++ xs.filterMap fun x => f x k := by
      rw [List.filterMap_cons]
      cases f x k <;> rfl
    have hkeys : (keys.flatMap fun k => (f x k).toList) = keys.filterMap (f x) :=
      (List.filterMap_eq_flatMap_toList (f x) keys).symm
    simp only [hcons, List.flatMap_cons]
    rw [← hkeys]
    exact (List.flatMap_append_perm keys _ _).symm.trans (ih.append_left _)

theorem filterMap_range_getElem? {xs : List α} {n : Nat} (h : xs.length ≤ n) :
    ((List.range n).filterMap fun k => xs[k]?) = xs := by
  induction xs generalizing n with
  | nil => simp
  | cons x xs ih =>
    cases n with
    | zero => exact absurd h (Nat.not_succ_le_zero _)
    | succ n =>
      have hn : xs.length ≤ n := Nat.le_of_succ_le_succ h
      rw [List.range_succ_eq_map, List.filterMap_cons, List.filterMap_map]
      exact congrArg (x :: ·) (ih hn)

theorem filterMap_range_single {f : Nat → Option β} {j m : Nat} {y : β}
    (hf : ∀ k, f k = if k = j then some y else none) (hm : ∀ k, m ≤ k → f k = none) :
    (List.range m).filterMap f = [y] := by
  have hj : j < m := by
    by_contra hle
    have hnone := hm j (Nat.le_of_not_lt hle)
    rw [hf, if_pos rfl] at hnone
    cases hnone
  obtain ⟨l, rfl⟩ := Nat.exists_eq_add_of_lt hj
  have hbefore : (List.range j).filterMap f = [] := by
    refine List.filterMap_eq_nil_iff.mpr fun k hk => ?_
    have hlt := List.mem_range.mp hk
    rw [hf, if_neg (by omega)]
  have hafter : ((List.range l).map (j + 1 + ·)).filterMap f = [] := by
    refine List.filterMap_eq_nil_iff.mpr fun k hk => ?_
    obtain ⟨i, -, rfl⟩ := List.mem_map.mp hk
    rw [hf, if_neg (by omega)]
  have hsplit : j + l + 1 = j + 1 + l := by omega
  rw [hsplit, List.range_add, List.filterMap_append, hafter, List.range_succ,
    List.filterMap_append, hbefore, List.filterMap_cons, hf, if_pos rfl]
  rfl

theorem flatMap_filter_eq {p : α → Bool} {f : α → List β} {xs : List α}
    (h : ∀ x ∈ xs, p x = false → f x = []) : (xs.filter p).flatMap f = xs.flatMap f := by
  induction xs with
  | nil => rfl
  | cons x xs ih =>
    obtain ⟨hx, hxs⟩ := List.forall_mem_cons.mp h
    cases hp : p x with
    | true => rw [List.filter_cons_of_pos hp, List.flatMap_cons, List.flatMap_cons, ih hxs]
    | false =>
      rw [List.filter_cons_of_neg (by simp [hp]), List.flatMap_cons, hx hp, ih hxs, List.nil_append]

/-- Rows that are read position by position have the same entries. -/
theorem flatMap_positions_perm {rows : List (List α)} {n : Nat}
    (h : ∀ row ∈ rows, row.length ≤ n) :
    ((List.range n).flatMap fun k => rows.filterMap fun row => row[k]?).Perm rows.flatten := by
  have hrows : (rows.flatMap fun row => (List.range n).filterMap fun k => row[k]?) =
      rows.flatten := by
    rw [List.flatten_eq_flatMap]
    exact List.flatMap_congr fun row hrow => filterMap_range_getElem? (h row hrow)
  exact (flatMap_filterMap_perm (fun row k => row[k]?) _ rows).trans (.of_eq hrows)

end Positions

end Grouping
