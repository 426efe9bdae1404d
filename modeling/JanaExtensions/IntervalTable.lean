import JanaExtensions.OrderedMap
import Mathlib.Data.List.TakeDrop

/-! Tables of inclusive intervals in increasing order, and the binary search for the
interval that contains a point. -/

namespace IntervalTable

section UpperBound

variable {α : Type*}

/-- Binary search for the first element satisfying `after`, each step halving the part of
the list that is still searched. -/
def upperBoundIn (after : α → Bool) : Nat → List α → Nat
  | 0, _ => 0
  | fuel + 1, xs =>
    match xs.drop (xs.length / 2) with
    | [] => 0
    | mid :: rest =>
      if after mid then upperBoundIn after fuel (xs.take (xs.length / 2))
      else xs.length / 2 + 1 + upperBoundIn after fuel rest

def upperBound (after : α → Bool) (xs : List α) : Nat := upperBoundIn after xs.length xs

theorem upperBoundIn_append {after : α → Bool} {fuel : Nat} {ys zs : List α}
    (hys : ∀ y ∈ ys, after y = false) (hzs : ∀ z ∈ zs, after z = true)
    (hfuel : (ys ++ zs).length ≤ fuel) : upperBoundIn after fuel (ys ++ zs) = ys.length := by
  induction fuel generalizing ys zs with
  | zero =>
    have hnil : ys = [] := List.length_eq_zero_iff.mp (by simp at hfuel; simp [hfuel])
    simp [upperBoundIn, hnil]
  | succ fuel ih =>
    rw [List.length_append] at hfuel
    rw [upperBoundIn, List.length_append]
    generalize hhalf : (ys.length + zs.length) / 2 = half
    by_cases hy : half < ys.length
    · -- the middle element lies before the bound, which is searched behind it
      have hdrop : (ys ++ zs).drop half = ys[half] :: (ys.drop (half + 1) ++ zs) := by
        rw [List.drop_append_of_le_length (Nat.le_of_lt hy), List.drop_eq_getElem_cons hy,
          List.cons_append]
      have hmid : after ys[half] = false := hys _ (List.getElem_mem hy)
      have hrest : upperBoundIn after fuel (ys.drop (half + 1) ++ zs) =
          (ys.drop (half + 1)).length :=
        ih (fun y hmem => hys y (List.mem_of_mem_drop hmem)) hzs (by
          rw [List.length_append, List.length_drop]
          omega)
      simp only [hdrop, hmid, Bool.false_eq_true, if_false, hrest, List.length_drop]
      omega
    · by_cases hz : half - ys.length < zs.length
      · have hdrop : (ys ++ zs).drop half =
            zs[half - ys.length] :: zs.drop (half - ys.length + 1) := by
          rw [List.drop_append, List.drop_eq_nil_of_le (by omega), List.nil_append,
            List.drop_eq_getElem_cons hz]
        have hmid : after zs[half - ys.length] = true := hzs _ (List.getElem_mem hz)
        have htake : (ys ++ zs).take half = ys ++ zs.take (half - ys.length) := by
          rw [List.take_append, List.take_of_length_le (by omega)]
        have hrest : upperBoundIn after fuel (ys ++ zs.take (half - ys.length)) = ys.length :=
          ih hys (fun z hmem => hzs z (List.mem_of_mem_take hmem)) (by
            rw [List.length_append, List.length_take]
            omega)
        simp only [hdrop, hmid, if_true, htake, hrest]
      · have hnil : ys ++ zs = [] := List.length_eq_zero_iff.mp (by
          rw [List.length_append]
          omega)
        rw [List.append_eq_nil_iff] at hnil
        simp [hnil.1, hnil.2]

theorem upperBound_append {after : α → Bool} {ys zs : List α} (hys : ∀ y ∈ ys, after y = false)
    (hzs : ∀ z ∈ zs, after z = true) : upperBound after (ys ++ zs) = ys.length :=
  upperBoundIn_append hys hzs (Nat.le_refl _)

end UpperBound

variable {α κ : Type*} [LinearOrder κ] (lo hi : α → κ)

/-- The last interval that starts at or before `r`, if it contains `r`. -/
def search (xs : List α) (r : κ) : Option α :=
  match upperBound (fun x => decide (r < lo x)) xs with
  | 0 => none
  | n + 1 => xs[n]?.filter fun x => decide (r ≤ hi x)

structure Increasing (xs : List α) : Prop where
  nonempty : ∀ x ∈ xs, lo x ≤ hi x
  disjoint : xs.Pairwise fun a b => hi a < lo b

variable {lo hi}

theorem Increasing.append_singleton {xs : List α} {x : α} (h : Increasing lo hi xs)
    (hx : lo x ≤ hi x) (hlast : ∀ y ∈ xs, hi y < lo x) : Increasing lo hi (xs ++ [x]) where
  nonempty y hy := by
    rcases List.mem_append.mp hy with hy | hy
    · exact h.nonempty y hy
    · rw [List.mem_singleton.mp hy]
      exact hx
  disjoint := by
    refine List.pairwise_append.mpr ⟨h.disjoint, List.pairwise_singleton _ _, fun a ha b hb => ?_⟩
    rw [List.mem_singleton.mp hb]
    exact hlast a ha

theorem Increasing.pairwise_lt {xs : List α} (h : Increasing lo hi xs) :
    xs.Pairwise fun a b => lo a < lo b :=
  h.disjoint.imp_of_mem fun ha _ hab => (h.nonempty _ ha).trans_lt hab

/-- A set of intervals has one order only in which it is increasing. -/
theorem Increasing.eq_of_perm {xs ys : List α} (h : Increasing lo hi xs) (hperm : ys.Perm xs)
    (hys : ys.Pairwise fun a b => lo a ≤ lo b) : ys = xs := by
  have hne : ys.Pairwise fun a b => lo a ≠ lo b :=
    (hperm.pairwise_iff fun hab => hab.symm).mpr (h.pairwise_lt.imp ne_of_lt)
  have hys : ys.Pairwise fun a b => a = b ∨ lo a < lo b :=
    (hys.and hne).imp fun hab => .inr (lt_of_le_of_ne hab.1 hab.2)
  have hxs : xs.Pairwise fun a b => a = b ∨ lo a < lo b := h.pairwise_lt.imp .inr
  refine List.Perm.eq_of_pairwise ?_ hys hxs hperm
  intro a b _ _ hab hba
  rcases hab with rfl | hab
  · rfl
  · rcases hba with rfl | hba
    · rfl
    · exact absurd hab hba.not_gt

/-- Two intervals are apart exactly if no point lies in both. -/
theorem separate_iff {a b : α} (ha : lo a ≤ hi a) (hb : lo b ≤ hi b) :
    hi a < lo b ∨ hi b < lo a ↔ ∀ r, ¬ ((lo a ≤ r ∧ r ≤ hi a) ∧ lo b ≤ r ∧ r ≤ hi b) := by
  constructor
  · rintro (hab | hba) r ⟨⟨halo, hahi⟩, hblo, hbhi⟩
    · exact absurd (hblo.trans hahi) hab.not_ge
    · exact absurd (halo.trans hbhi) hba.not_ge
  · intro h
    by_contra hmeet
    rw [not_or, not_lt, not_lt] at hmeet
    exact h (max (lo a) (lo b)) ⟨⟨le_max_left _ _, max_le ha hmeet.1⟩,
      le_max_right _ _, max_le hmeet.2 hb⟩

theorem Increasing.exists_split {xs : List α} (h : Increasing lo hi xs) (r : κ) :
    ∃ ys zs, xs = ys ++ zs ∧ (∀ y ∈ ys, lo y ≤ r) ∧ ∀ z ∈ zs, r < lo z := by
  induction xs with
  | nil => exact ⟨[], [], rfl, by simp, by simp⟩
  | cons x xs ih =>
    have hp := List.pairwise_cons.mp h.disjoint
    by_cases hx : lo x ≤ r
    · obtain ⟨ys, zs, hxs, hys, hzs⟩ := ih ⟨fun y hy => h.nonempty y (by simp [hy]), hp.2⟩
      refine ⟨x :: ys, zs, by rw [hxs, List.cons_append], ?_, hzs⟩
      intro y hy
      rcases List.mem_cons.mp hy with rfl | hy
      · exact hx
      · exact hys y hy
    · refine ⟨[], x :: xs, rfl, by simp, ?_⟩
      intro z hz
      rcases List.mem_cons.mp hz with rfl | hz
      · exact not_le.mp hx
      · exact (not_le.mp hx).trans ((h.nonempty x (by simp)).trans_lt (hp.1 z hz))

theorem search_eq_some_iff {xs : List α} (h : Increasing lo hi xs) {r : κ} {x : α} :
    search lo hi xs r = some x ↔ x ∈ xs ∧ lo x ≤ r ∧ r ≤ hi x := by
  obtain ⟨ys, zs, rfl, hbefore, hafter⟩ := h.exists_split r
  have hbound : upperBound (fun x => decide (r < lo x)) (ys ++ zs) = ys.length :=
    upperBound_append (fun y hy => by simpa using hbefore y hy)
      (fun z hz => by simpa using hafter z hz)
  rcases List.eq_nil_or_concat ys with rfl | ⟨init, y, hys⟩
  · rw [search, hbound]
    constructor
    · simp
    · intro hh
      obtain ⟨hx, hlo, -⟩ := hh
      exact absurd hlo (hafter x hx).not_ge
  · rw [List.concat_eq_append] at hys
    subst hys
    have hget : (init ++ [y] ++ zs)[init.length]? = some y := by simp
    have hsearch : search lo hi (init ++ [y] ++ zs) r = if r ≤ hi y then some y else none := by
      rw [search, hbound, List.length_append, List.length_singleton]
      simp [Option.filter]
    have hinit : ∀ w ∈ init, hi w < r := by
      intro w hw
      have hwy : hi w < lo y := (List.pairwise_append.mp
        (List.pairwise_append.mp h.disjoint).1).2.2 w hw y (by simp)
      exact hwy.trans_le (hbefore y (by simp))
    rw [hsearch]
    constructor
    · intro hsome
      split at hsome
      · rename_i hhi
        obtain rfl := Option.some.inj hsome
        exact ⟨by simp, hbefore _ (by simp), hhi⟩
      · cases hsome
    · intro hh
      obtain ⟨hx, hlo, hhi⟩ := hh
      have hmem : x ∈ init ∨ x = y ∨ x ∈ zs := by simpa [or_assoc] using hx
      rcases hmem with hmem | rfl | hmem
      · exact absurd (hinit x hmem) hhi.not_gt
      · rw [if_pos hhi]
      · exact absurd hlo (hafter x hmem).not_ge

theorem search_isSome_iff {xs : List α} (h : Increasing lo hi xs) {r : κ} :
    (search lo hi xs r).isSome ↔ ∃ x ∈ xs, lo x ≤ r ∧ r ≤ hi x := by
  simp only [Option.isSome_iff_exists, search_eq_some_iff h]

section Segments

def maxValue : UInt64 := 0xFFFFFFFFFFFFFFFF

theorem le_maxValue (n : UInt64) : n ≤ maxValue := by
  have := n.toNat_lt
  rw [UInt64.le_iff_toNat_le, maxValue]
  simp
  omega

theorem add_one_le_iff {a b : UInt64} (ha : a ≠ maxValue) : a + 1 ≤ b ↔ a < b := by
  have hlt : a.toNat < 18446744073709551615 := by
    have hle := UInt64.le_iff_toNat_le.mp (le_maxValue a)
    have hne : a.toNat ≠ maxValue.toNat := fun h => ha (UInt64.toNat.inj h)
    simp [maxValue] at hle hne
    omega
  rw [UInt64.le_iff_toNat_le, UInt64.lt_iff_toNat_lt, UInt64.toNat_add]
  simp
  omega

theorem le_sub_one_iff {a b c : UInt64} (h : a < b) : c ≤ b - 1 ↔ c < b := by
  have hpos := UInt64.lt_iff_toNat_lt.mp h
  have hone : (1 : UInt64) ≤ b := by
    rw [UInt64.le_iff_toNat_le]
    simp
    omega
  rw [UInt64.le_iff_toNat_le, UInt64.lt_iff_toNat_lt, UInt64.toNat_sub_of_le _ _ hone]
  simp
  omega

/-- The segments into which increasing cuts divide the numbers from the first cut on. -/
def segments : List UInt64 → List (UInt64 × UInt64)
  | [] => []
  | [cut] => [(cut, maxValue)]
  | cut :: next :: cuts => (cut, next - 1) :: segments (next :: cuts)

theorem fst_mem_of_mem_segments {cuts : List UInt64} {s : UInt64 × UInt64}
    (h : s ∈ segments cuts) : s.1 ∈ cuts := by
  fun_induction segments cuts with
  | case1 => simp at h
  | case2 cut => simp_all
  | case3 cut next cuts ih =>
    rcases List.mem_cons.mp h with rfl | h
    · exact List.mem_cons_self
    · exact List.mem_cons_of_mem _ (ih h)

theorem segments_increasing {cuts : List UInt64} (h : cuts.Pairwise (· < ·)) :
    Increasing Prod.fst Prod.snd (segments cuts) := by
  fun_induction segments cuts with
  | case1 => exact ⟨by simp, .nil⟩
  | case2 cut => exact ⟨by simp [le_maxValue], by simp⟩
  | case3 cut next cuts ih =>
    have hp := List.pairwise_cons.mp h
    have hlt : cut < next := hp.1 next List.mem_cons_self
    have hrest := ih hp.2
    refine ⟨fun s hs => ?_, List.pairwise_cons.mpr ⟨fun s hs => ?_, hrest.disjoint⟩⟩
    · rcases List.mem_cons.mp hs with rfl | hs
      · exact (le_sub_one_iff hlt).mpr hlt
      · exact hrest.nonempty s hs
    · have hnext : next ≤ s.1 := by
        rcases List.mem_cons.mp (fst_mem_of_mem_segments hs) with heq | hmem
        · exact heq.ge
        · exact ((List.pairwise_cons.mp hp.2).1 _ hmem).le
      exact ((le_sub_one_iff hlt).mp le_rfl).trans_le hnext

theorem cut_le_iff {cuts : List UInt64} (h : cuts.Pairwise (· < ·)) {s : UInt64 × UInt64}
    (hs : s ∈ segments cuts) {r : UInt64} (hlo : s.1 ≤ r) (hhi : r ≤ s.2) {c : UInt64}
    (hc : c ∈ cuts) : c ≤ r ↔ c ≤ s.1 := by
  refine ⟨fun hcr => ?_, fun hcs => hcs.trans hlo⟩
  fun_induction segments cuts with
  | case1 => simp at hs
  | case2 cut => simp_all
  | case3 cut next cuts ih =>
    have hp := List.pairwise_cons.mp h
    have hlt : cut < next := hp.1 next List.mem_cons_self
    rcases List.mem_cons.mp hs with rfl | hrest
    · have hr : r < next := (le_sub_one_iff hlt).mp hhi
      rcases List.mem_cons.mp hc with rfl | hc
      · exact le_rfl
      · have hnext : next ≤ c := by
          rcases List.mem_cons.mp hc with heq | hmem
          · exact heq.ge
          · exact ((List.pairwise_cons.mp hp.2).1 _ hmem).le
        exact absurd (hr.trans_le (hnext.trans hcr)) (lt_irrefl _)
    · rcases List.mem_cons.mp hc with rfl | hc
      · rcases List.mem_cons.mp (fst_mem_of_mem_segments hrest) with heq | hmem
        · exact hlt.le.trans heq.ge
        · exact (hp.1 _ (List.mem_cons_of_mem _ hmem)).le
      · exact ih hp.2 hrest hc

theorem exists_segment {cuts : List UInt64} {c r : UInt64} (hc : c ∈ cuts) (hcr : c ≤ r)
    (h : cuts.Pairwise (· < ·)) : ∃ s ∈ segments cuts, s.1 ≤ r ∧ r ≤ s.2 := by
  fun_induction segments cuts generalizing c with
  | case1 => simp at hc
  | case2 cut =>
    rw [List.mem_singleton] at hc
    exact ⟨_, List.mem_singleton_self _, hc ▸ hcr, le_maxValue r⟩
  | case3 cut next cuts ih =>
    have hp := List.pairwise_cons.mp h
    have hlt : cut < next := hp.1 next List.mem_cons_self
    by_cases hr : next ≤ r
    · obtain ⟨s, hs, hcontains⟩ := ih List.mem_cons_self hr hp.2
      exact ⟨s, List.mem_cons_of_mem _ hs, hcontains⟩
    · have hcut : cut ≤ r := by
        rcases List.mem_cons.mp hc with rfl | hc
        · exact hcr
        · exact (hp.1 c hc).le.trans hcr
      exact ⟨_, List.mem_cons_self, hcut, (le_sub_one_iff hlt).mpr (not_le.mp hr)⟩

/-- Whether an interval that starts and ends at cuts contains a point depends on the
segment of the point alone. -/
theorem mem_interval_iff {cuts : List UInt64} (h : cuts.Pairwise (· < ·)) {s : UInt64 × UInt64}
    (hs : s ∈ segments cuts) {r : UInt64} (hr : s.1 ≤ r ∧ r ≤ s.2) {first last : UInt64}
    (hfirst : first ∈ cuts) (hlast : last ≠ maxValue → last + 1 ∈ cuts) :
    (first ≤ r ∧ r ≤ last) ↔ (first ≤ s.1 ∧ s.1 ≤ last) := by
  rw [cut_le_iff h hs hr.1 hr.2 hfirst]
  apply and_congr_right
  intro _
  by_cases hmax : last = maxValue
  · simp [hmax, le_maxValue]
  · have hcut := cut_le_iff h hs hr.1 hr.2 (hlast hmax)
    rw [add_one_le_iff hmax, add_one_le_iff hmax] at hcut
    rw [← not_lt, ← not_lt, hcut]

end Segments

end IntervalTable
