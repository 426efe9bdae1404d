import Mathlib.Data.List.Basic

/-! Lists cut at separators. Elements that do not count are left out of the parts, and so are parts
that are empty then. -/

namespace Separated

variable {α : Type*} (sep drop : α → Bool)

def clean (part : List α) : List α := part.filter fun x => !drop x

def parts (xs : List α) : List (List α) :=
  ((xs.splitOnP sep).map (clean drop)).filter fun part => !part.isEmpty

/-- A part that is cut out again as it is. -/
structure Part (part : List α) : Prop where
  nonempty : part ≠ []
  whole : ∀ x ∈ part, sep x = false
  counts : ∀ x ∈ part, drop x = false

variable {sep drop}

@[simp] theorem parts_nil : parts sep drop [] = [] := by simp [parts, clean]

theorem parts_append {x : α} (hsep : sep x = true) (xs ys : List α) :
    parts sep drop (xs ++ x :: ys) = parts sep drop xs ++ parts sep drop ys := by
  simp [parts, List.splitOnP_append_cons xs ys hsep]

theorem parts_append_separators (xs : List α) {tail : List α} (htail : ∀ x ∈ tail, sep x = true) :
    parts sep drop (xs ++ tail) = parts sep drop xs := by
  induction tail generalizing xs with
  | nil => rw [List.append_nil]
  | cons x tail ih =>
      obtain ⟨hx, hrest⟩ := List.forall_mem_cons.mp htail
      have hnone := ih [] hrest
      rw [List.nil_append, parts_nil] at hnone
      rw [parts_append hx, hnone, List.append_nil]

theorem Part.parts_eq {part : List α} (h : Part sep drop part) : parts sep drop part = [part] := by
  have hclean : clean drop part = part := by
    rw [clean, List.filter_eq_self]
    intro x hx
    simp [h.counts x hx]
  rw [parts, List.splitOnP_eq_singleton h.whole]
  simp [hclean, h.nonempty]

theorem parts_flatMap {x : α} (hsep : sep x = true) (lists : List (List α)) :
    parts sep drop (lists.flatMap fun list => list ++ [x]) = lists.flatMap (parts sep drop) := by
  induction lists with
  | nil => simp
  | cons list lists ih =>
      rw [List.flatMap_cons, List.append_assoc, List.singleton_append, parts_append hsep, ih,
        List.flatMap_cons]

/-- Parts that are joined with a separator are cut apart again. -/
theorem parts_intercalate {x : α} (hsep : sep x = true) {names : List (List α)}
    (hnames : ∀ name ∈ names, Part sep drop name) :
    parts sep drop ([x].intercalate names) = names := by
  induction names with
  | nil => simp [List.intercalate]
  | cons name names ih =>
      obtain ⟨hname, hrest⟩ := List.forall_mem_cons.mp hnames
      have hjoined := ih hrest
      cases names with
      | nil => simpa [List.intercalate] using hname.parts_eq
      | cons next names =>
          rw [List.intercalate_cons_cons, List.append_assoc, List.singleton_append,
            parts_append hsep, hname.parts_eq, hjoined]
          rfl

theorem splitOnP_whole (xs : List α) : ∀ part ∈ xs.splitOnP sep, ∀ x ∈ part, sep x = false := by
  induction xs with
  | nil => simp
  | cons y ys ih =>
      cases hy : sep y with
      | true => simpa [List.splitOnP_cons_eq_if_modifyHead, hy] using ih
      | false =>
          obtain ⟨first, rest, hsplit⟩ := List.exists_cons_of_ne_nil (List.splitOnP_ne_nil sep ys)
          rw [hsplit, List.forall_mem_cons] at ih
          have hfirst : ∀ x ∈ y :: first, sep x = false := List.forall_mem_cons.mpr ⟨hy, ih.1⟩
          have hparts : (y :: ys).splitOnP sep = (y :: first) :: rest := by
            simp [List.splitOnP_cons_eq_if_modifyHead, hy, hsplit]
          rw [hparts]
          exact List.forall_mem_cons.mpr ⟨hfirst, ih.2⟩

theorem part_of_mem_parts {xs part : List α} (h : part ∈ parts sep drop xs) :
    Part sep drop part := by
  obtain ⟨hmem, hne⟩ := List.mem_filter.mp h
  obtain ⟨whole, hwhole, rfl⟩ := List.mem_map.mp hmem
  refine ⟨by simpa using hne, fun x hx => ?_, fun x hx => ?_⟩
  · exact splitOnP_whole xs whole hwhole x (List.mem_of_mem_filter hx)
  · simpa using List.of_mem_filter hx

theorem splitOnP_clean {xs : List α} (h : ∀ x ∈ xs, sep x = true → drop x = false) :
    (clean drop xs).splitOnP sep = (xs.splitOnP sep).map (clean drop) := by
  induction xs with
  | nil => simp [clean]
  | cons y ys ih =>
      obtain ⟨hy, hys⟩ := List.forall_mem_cons.mp h
      have hrest := ih hys
      obtain ⟨first, rest, hsplit⟩ := List.exists_cons_of_ne_nil (List.splitOnP_ne_nil sep ys)
      rw [hsplit] at hrest
      rw [List.splitOnP_cons_eq_if_modifyHead, hsplit]
      cases hdrop : drop y with
      | true =>
          have hwhole : sep y = false := by
            by_contra hsep
            have := hy (by simpa using hsep)
            rw [hdrop] at this
            exact absurd this (by decide)
          have hclean : clean drop (y :: ys) = clean drop ys := by simp [clean, hdrop]
          rw [hclean, hrest, hwhole]
          simp [clean, hdrop]
      | false =>
          have hclean : clean drop (y :: ys) = y :: clean drop ys := by simp [clean, hdrop]
          rw [hclean, List.splitOnP_cons_eq_if_modifyHead, hrest]
          cases hsep : sep y <;> simp [clean, hdrop]

/-- Leaving elements out before the cut is the same as after it, when none of them separates. -/
theorem parts_clean {xs : List α} (h : ∀ x ∈ xs, sep x = true → drop x = false) :
    parts sep drop (clean drop xs) = parts sep drop xs := by
  have hclean (part : List α) : clean drop (clean drop part) = clean drop part := by
    simp [clean, List.filter_filter]
  simp [parts, splitOnP_clean h, Function.comp_def, hclean]

end Separated
