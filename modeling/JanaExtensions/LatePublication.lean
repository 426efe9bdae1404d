import Mathlib.Data.List.Basic

/-! Items that come in batches and are published late: an item is published when the
next one comes, under a position that starts from zero with each batch. What is still
pending after the last batch is published there or not at all. -/

namespace LatePublication

variable {α : Type*}

/-- The publications of further batches, given the pending item. -/
def publications (flush : Bool) (pending : Option α) : List (List α) → List α → List (α × Nat)
  | [], last =>
    if flush then (pending.toList ++ last).zipIdx else (pending.toList ++ last).dropLast.zipIdx
  | batch :: batches, last =>
    (pending.toList ++ batch).dropLast.zipIdx ++
      publications flush (pending.toList ++ batch).getLast? batches last

def inPlace (batches : List (List α)) : List (α × Nat) := batches.flatMap List.zipIdx

theorem inPlace_cons (batch : List α) (batches : List (List α)) :
    inPlace (batch :: batches) = batch.zipIdx ++ inPlace batches := rfl

theorem map_fst_publications (flush : Bool) (pending : Option α) (batches : List (List α))
    (last : List α) :
    (publications flush pending batches last).map Prod.fst =
      if flush then pending.toList ++ (batches ++ [last]).flatten
      else (pending.toList ++ (batches ++ [last]).flatten).dropLast := by
  induction batches generalizing pending with
  | nil => cases flush <;> simp [publications, List.zipIdx_map_fst]
  | cons batch batches ih =>
    rw [publications, List.map_append, List.zipIdx_map_fst, ih, List.cons_append,
      List.flatten_cons, ← List.append_assoc]
    rcases List.eq_nil_or_concat (pending.toList ++ batch) with hnil | ⟨init, x, hitems⟩
    · simp [hnil]
    · rw [hitems]
      cases flush <;> simp [List.dropLast_append_of_ne_nil]

theorem publications_some_eq_iff {x : α} {j : Nat} (batches : List (List α)) (last : List α) :
    publications true (some x) batches last = (x, j) :: inPlace (batches ++ [last]) ↔
      j = 0 ∧ last = [] ∧ ∀ batch ∈ batches, batch.length ≤ 1 := by
  induction batches generalizing x j with
  | nil =>
    cases last with
    | nil => simp [publications, inPlace, eq_comm]
    | cons y last => simp [publications, inPlace]
  | cons batch batches ih =>
    match batch with
    | [] => simpa [publications, inPlace_cons] using ih
    | [y] =>
      have hy := ih (x := y) (j := 0)
      simp only [true_and] at hy
      simp [publications, inPlace_cons, hy, eq_comm]
    | y :: z :: batch => simp [publications, inPlace_cons]

/-- Publication is in place exactly if it is late within the last batch only, or if no
batch has a second item and nothing comes in the last one. -/
theorem publications_none_eq_iff (batches : List (List α)) (last : List α) :
    publications true none batches last = inPlace (batches ++ [last]) ↔
      (∀ batch ∈ batches, batch = []) ∨ last = [] ∧ ∀ batch ∈ batches, batch.length ≤ 1 := by
  induction batches with
  | nil => simp [publications, inPlace]
  | cons batch batches ih =>
    rcases List.eq_nil_or_concat batch with rfl | ⟨init, x, rfl⟩
    · simpa [publications, inPlace_cons] using ih
    · have hx := publications_some_eq_iff (x := x) (j := init.length) batches last
      simp [publications, inPlace_cons, List.zipIdx_append, hx, and_left_comm]

theorem map_eq_map {β : Type*} {f : α × Nat → β} {n : Nat}
    (hf : ∀ x y, x.2 < n → y.2 < n → f x = f y → x = y) {xs ys : List (α × Nat)}
    (hxs : ∀ x ∈ xs, x.2 < n) (hys : ∀ y ∈ ys, y.2 < n) (h : xs.map f = ys.map f) : xs = ys := by
  induction xs generalizing ys with
  | nil => exact (List.map_eq_nil_iff.mp h.symm).symm
  | cons x xs ih =>
    obtain ⟨y, ys', rfl, hxy, hrest⟩ := List.map_eq_cons_iff.mp h.symm
    rw [hf x y (hxs x (by simp)) (hys y (by simp)) hxy.symm,
      ih (fun z hz => hxs z (by simp [hz])) (fun z hz => hys z (by simp [hz])) hrest.symm]

theorem snd_lt_of_mem_zipIdx {xs : List α} {x : α × Nat} (h : x ∈ xs.zipIdx) : x.2 < xs.length :=
  (List.mem_zipIdx' h).1

theorem snd_lt_of_mem_inPlace {batches : List (List α)} {n : Nat}
    (hlen : ∀ batch ∈ batches, batch.length ≤ n) {x : α × Nat} (h : x ∈ inPlace batches) :
    x.2 < n := by
  obtain ⟨batch, hbatch, hx⟩ := List.mem_flatMap.mp h
  exact Nat.lt_of_lt_of_le (snd_lt_of_mem_zipIdx hx) (hlen batch hbatch)

theorem snd_lt_of_mem_publications {flush : Bool} {pending : Option α} {batches : List (List α)}
    {last : List α} {n : Nat} (hlen : ∀ batch ∈ batches ++ [last], batch.length < n) {x : α × Nat}
    (h : x ∈ publications flush pending batches last) : x.2 < n := by
  have hitems (pending : Option α) {batch : List α} (hb : batch.length < n) :
      (pending.toList ++ batch).length ≤ n := by
    cases pending <;> simp <;> omega
  have hdrop (pending : Option α) {batch : List α} (hb : batch.length < n) :
      (pending.toList ++ batch).dropLast.length ≤ n :=
    Nat.le_trans (List.dropLast_sublist _).length_le (hitems pending hb)
  induction batches generalizing pending with
  | nil =>
    cases flush with
    | true =>
      exact Nat.lt_of_lt_of_le (snd_lt_of_mem_zipIdx (by simpa [publications] using h))
        (hitems pending (hlen last (by simp)))
    | false =>
      exact Nat.lt_of_lt_of_le (snd_lt_of_mem_zipIdx (by simpa [publications] using h))
        (hdrop pending (hlen last (by simp)))
  | cons batch batches ih =>
    rcases List.mem_append.mp h with h | h
    · exact Nat.lt_of_lt_of_le (snd_lt_of_mem_zipIdx h) (hdrop pending (hlen batch (by simp)))
    · exact ih (fun b hb => hlen b (List.mem_cons_of_mem batch hb)) h

end LatePublication
