import Mathlib.Order.Lattice
import Mathlib.Data.List.Basic
import Mathlib.Data.List.Nodup
import Mathlib.Data.List.Perm.Basic
import Mathlib.Data.List.Induction
import Mathlib.Algebra.BigOperators.Group.List.Basic

/-! Ordered maps with unique keys, stored as a list of entries in strictly
increasing key order. Iterating over such a map reads the entries in order. -/

instance UInt64.linearOrder : LinearOrder UInt64 where
  le_refl _ := UInt64.le_refl _
  le_trans _ _ _ := UInt64.le_trans
  le_antisymm _ _ := UInt64.le_antisymm
  le_total := UInt64.le_total
  lt_iff_le_not_ge _ _ := by
    rw [UInt64.lt_iff_toNat_lt, UInt64.le_iff_toNat_le, UInt64.le_iff_toNat_le]
    omega
  toDecidableLE := inferInstance
  toDecidableEq := inferInstance
  toDecidableLT := inferInstance

instance UInt32.linearOrder : LinearOrder UInt32 where
  le_refl _ := UInt32.le_refl _
  le_trans _ _ _ := UInt32.le_trans
  le_antisymm _ _ := UInt32.le_antisymm
  le_total := UInt32.le_total
  lt_iff_le_not_ge _ _ := by
    rw [UInt32.lt_iff_toNat_lt, UInt32.le_iff_toNat_le, UInt32.le_iff_toNat_le]
    omega
  toDecidableLE := inferInstance
  toDecidableEq := inferInstance
  toDecidableLT := inferInstance

namespace OrderedMap

variable {κ ν : Type*} [LinearOrder κ]

def insertEntry (k : κ) (v : ν) : List (κ × ν) → List (κ × ν)
  | [] => [(k, v)]
  | e :: es =>
    if k < e.1 then (k, v) :: e :: es
    else if k = e.1 then (k, v) :: es
    else e :: insertEntry k v es

def findEntry (k : κ) : List (κ × ν) → Option ν
  | [] => none
  | e :: es => if k = e.1 then some e.2 else findEntry k es

theorem mem_insertEntry {k : κ} {v : ν} {e : κ × ν} {es : List (κ × ν)}
    (h : e ∈ insertEntry k v es) : e = (k, v) ∨ e ∈ es := by
  induction es with
  | nil => simpa [insertEntry] using h
  | cons x xs ih =>
    simp only [insertEntry] at h
    split at h
    · simpa using h
    · split at h
      · rcases List.mem_cons.mp h with rfl | h
        · exact Or.inl rfl
        · exact Or.inr (List.mem_cons_of_mem _ h)
      · rcases List.mem_cons.mp h with rfl | h
        · exact Or.inr List.mem_cons_self
        · exact (ih h).imp_right (List.mem_cons_of_mem _)

theorem insertEntry_sorted (k : κ) (v : ν) {es : List (κ × ν)}
    (h : es.Pairwise (fun a b => a.1 < b.1)) :
    (insertEntry k v es).Pairwise (fun a b => a.1 < b.1) := by
  induction es with
  | nil => simp [insertEntry]
  | cons x xs ih =>
    have hp := List.pairwise_cons.mp h
    simp only [insertEntry]
    split
    · rename_i hlt
      refine List.pairwise_cons.mpr ⟨fun b hb => ?_, h⟩
      rcases List.mem_cons.mp hb with rfl | hb
      · exact hlt
      · exact hlt.trans (hp.1 b hb)
    · split
      · rename_i heq
        subst heq
        exact List.pairwise_cons.mpr ⟨hp.1, hp.2⟩
      · rename_i hlt hne
        refine List.pairwise_cons.mpr ⟨fun b hb => ?_, ih hp.2⟩
        rcases mem_insertEntry hb with rfl | hb
        · exact lt_of_le_of_ne (not_lt.mp hlt) (Ne.symm hne)
        · exact hp.1 b hb

theorem findEntry_insertEntry_self (k : κ) (v : ν) (es : List (κ × ν)) :
    findEntry k (insertEntry k v es) = some v := by
  induction es with
  | nil => simp [insertEntry, findEntry]
  | cons x xs ih =>
    simp only [insertEntry]
    split
    · simp [findEntry]
    · split
      · simp [findEntry]
      · rename_i hne
        simp [findEntry, hne, ih]

theorem findEntry_insertEntry_ne {k k' : κ} (hne : k' ≠ k) (v : ν) (es : List (κ × ν)) :
    findEntry k' (insertEntry k v es) = findEntry k' es := by
  induction es with
  | nil => simp [insertEntry, findEntry, hne]
  | cons x xs ih =>
    simp only [insertEntry]
    split
    · simp [findEntry, hne]
    · split
      · rename_i heq
        simp [findEntry, ← heq, hne]
      · simp [findEntry, ih]

theorem findEntry_eq_some {k : κ} {v : ν} {es : List (κ × ν)}
    (h : es.Pairwise (fun a b => a.1 < b.1)) :
    findEntry k es = some v ↔ (k, v) ∈ es := by
  induction es with
  | nil => simp [findEntry]
  | cons x xs ih =>
    have hp := List.pairwise_cons.mp h
    by_cases hk : k = x.1
    · have hno : (k, v) ∉ xs := fun hm => absurd (hp.1 _ hm) (by simp [hk])
      simp only [findEntry, hk, if_true, Option.some.injEq, List.mem_cons]
      constructor
      · rintro rfl
        exact Or.inl rfl
      · intro hh
        rcases hh with he | hm
        · exact (congrArg Prod.snd he).symm
        · exact absurd (hk ▸ hm) hno
    · simp only [findEntry, hk, if_false, List.mem_cons, ih hp.2]
      refine ⟨Or.inr, fun hm => hm.resolve_left fun he => hk (by rw [← he])⟩

end OrderedMap

/-- A map whose entries stand in strictly increasing key order. -/
structure OrderedMap (κ : Type*) (ν : Type*) [LinearOrder κ] where
  entries : List (κ × ν)
  sorted : entries.Pairwise (fun a b => a.1 < b.1)

namespace OrderedMap

variable {κ ν : Type*} [LinearOrder κ]

@[ext]
theorem ext_entries {m m' : OrderedMap κ ν} (h : m.entries = m'.entries) : m = m' := by
  cases m
  cases m'
  simpa using h

instance [DecidableEq ν] : DecidableEq (OrderedMap κ ν) := fun m m' =>
  decidable_of_iff (m.entries = m'.entries) ⟨ext_entries, fun h => h ▸ rfl⟩

def empty : OrderedMap κ ν := ⟨[], List.Pairwise.nil⟩

instance : EmptyCollection (OrderedMap κ ν) := ⟨empty⟩

instance : Inhabited (OrderedMap κ ν) := ⟨empty⟩

def find (m : OrderedMap κ ν) (k : κ) : Option ν := findEntry k m.entries

/-- Assignment through the key: the value is stored whether or not the key was present. -/
def insert (m : OrderedMap κ ν) (k : κ) (v : ν) : OrderedMap κ ν :=
  ⟨insertEntry k v m.entries, insertEntry_sorted k v m.sorted⟩

/-- Insertion which never replaces an entry; the flag tells whether the key was new. -/
def emplace (m : OrderedMap κ ν) (k : κ) (v : ν) : OrderedMap κ ν × Bool :=
  match m.find k with
  | some _ => (m, false)
  | none => (m.insert k v, true)

def keys (m : OrderedMap κ ν) : List κ := m.entries.map Prod.fst

@[simp]
theorem entries_empty : (∅ : OrderedMap κ ν).entries = [] := rfl

@[simp]
theorem find_empty (k : κ) : (∅ : OrderedMap κ ν).find k = none := rfl

@[simp]
theorem find_insert_self (m : OrderedMap κ ν) (k : κ) (v : ν) :
    (m.insert k v).find k = some v :=
  findEntry_insertEntry_self k v m.entries

theorem find_insert_ne (m : OrderedMap κ ν) {k k' : κ} (h : k' ≠ k) (v : ν) :
    (m.insert k v).find k' = m.find k' :=
  findEntry_insertEntry_ne h v m.entries

theorem find_insert (m : OrderedMap κ ν) (k k' : κ) (v : ν) :
    (m.insert k v).find k' = if k' = k then some v else m.find k' := by
  split
  · rename_i h
    rw [h, find_insert_self]
  · rename_i h
    exact find_insert_ne m h v

theorem mem_entries_iff {m : OrderedMap κ ν} {k : κ} {v : ν} :
    (k, v) ∈ m.entries ↔ m.find k = some v :=
  (findEntry_eq_some m.sorted).symm

theorem keys_sorted (m : OrderedMap κ ν) : m.keys.Pairwise (· < ·) :=
  List.pairwise_map.mpr m.sorted

theorem keys_nodup (m : OrderedMap κ ν) : m.keys.Nodup :=
  m.keys_sorted.imp ne_of_lt

theorem mem_keys_iff {m : OrderedMap κ ν} {k : κ} : k ∈ m.keys ↔ ∃ v, m.find k = some v := by
  simp [keys, ← mem_entries_iff]

theorem mem_keys_insert (m : OrderedMap κ ν) (k : κ) (v : ν) {k' : κ} :
    k' ∈ (m.insert k v).keys ↔ k' = k ∨ k' ∈ m.keys := by
  rw [mem_keys_iff, mem_keys_iff, find_insert]
  by_cases hk : k' = k <;> simp [hk]

theorem entries_nodup (m : OrderedMap κ ν) : m.entries.Nodup :=
  List.Nodup.of_map Prod.fst m.keys_nodup

theorem ext_find {m m' : OrderedMap κ ν} (h : ∀ k, m.find k = m'.find k) : m = m' := by
  have hp : m.entries.Perm m'.entries := by
    refine (List.perm_ext_iff_of_nodup m.entries_nodup m'.entries_nodup).mpr ?_
    intro entry
    obtain ⟨k, v⟩ := entry
    rw [mem_entries_iff, mem_entries_iff, h]
  exact ext_entries (hp.eq_of_pairwise (fun a b _ _ hab hba => absurd hab hba.asymm)
    m.sorted m'.sorted)

theorem entries_perm {m : OrderedMap κ ν} {es : List (κ × ν)} (hnd : es.Nodup)
    (h : ∀ k v, (k, v) ∈ es ↔ m.find k = some v) : m.entries.Perm es := by
  refine (List.perm_ext_iff_of_nodup m.entries_nodup hnd).mpr ?_
  intro entry
  obtain ⟨k, v⟩ := entry
  rw [mem_entries_iff, h]

/-- A loop over the entries of a map, whose step changes the state at the key of the entry
only, changes the state at each key once or not at all. -/
theorem view_foldl_entries {σ β : Type*} {step : σ → κ × ν → σ} {view : σ → κ → β}
    {update : β → ν → β}
    (hstep : ∀ s e k, view (step s e) k = if k = e.1 then update (view s k) e.2 else view s k)
    (m : OrderedMap κ ν) (s : σ) (k : κ) :
    view (m.entries.foldl step s) k = (m.find k).elim (view s k) (update (view s k)) := by
  obtain ⟨es, hsorted⟩ := m
  change view (es.foldl step s) k = (findEntry k es).elim _ _
  induction es generalizing s with
  | nil => rfl
  | cons e es ih =>
    have hp := List.pairwise_cons.mp hsorted
    rw [List.foldl_cons, ih _ hp.2, hstep]
    by_cases hk : k = e.1
    · have hnone : findEntry k es = none := by
        cases hf : findEntry k es with
        | none => rfl
        | some v =>
          have hmem := (findEntry_eq_some hp.2).mp hf
          exact absurd (hp.1 _ hmem) (by simp [hk])
      simp [findEntry, hk ▸ hnone, hk]
    · simp [findEntry, hk]

section AddAt

variable {μ : Type*} [AddMonoid μ]

def addAt (m : OrderedMap κ μ) (k : κ) (h : μ) : OrderedMap κ μ :=
  m.insert k ((m.find k).getD 0 + h)

theorem find_addAt (m : OrderedMap κ μ) (k k' : κ) (h : μ) :
    (m.addAt k h).find k' = if k' = k then some ((m.find k).getD 0 + h) else m.find k' :=
  find_insert m k k' _

theorem addAt_addAt (m : OrderedMap κ μ) (k : κ) (h h' : μ) :
    (m.addAt k h).addAt k h' = m.addAt k (h + h') := by
  apply ext_find
  intro k'
  simp only [find_addAt, if_true, Option.getD_some, add_assoc]
  split <;> rfl

theorem addAt_zero {m : OrderedMap κ μ} {k : κ} (hk : (m.find k).isSome) :
    m.addAt k 0 = m := by
  apply ext_find
  intro k'
  obtain ⟨v, hv⟩ := Option.isSome_iff_exists.mp hk
  rw [find_addAt, hv]
  split
  · rename_i he
    simp [he, hv]
  · rfl

/-- The sum of the values added at a key, in the order of the additions. -/
def sumAt (xs : List (κ × μ)) (k : κ) : μ :=
  ((xs.filter fun x => x.1 = k).map Prod.snd).sum

theorem sumAt_map_key {κ' : Type*} [LinearOrder κ'] {f : κ → κ'} {xs : List (κ × μ)} {k : κ}
    (h : ∀ x ∈ xs, f x.1 = f k → x.1 = k) :
    sumAt (xs.map fun x => (f x.1, x.2)) (f k) = sumAt xs k := by
  rw [sumAt, sumAt, List.filter_map, List.map_map]
  have hfilter : xs.filter ((fun y => decide (y.1 = f k)) ∘ fun x => (f x.1, x.2)) =
      xs.filter fun x => x.1 = k := by
    apply List.filter_congr
    intro x hx
    by_cases hk : x.1 = k
    · simp [hk]
    · have hne : f x.1 ≠ f k := fun hf => hk (h x hx hf)
      simp [hk, hne]
  rw [hfilter]
  rfl

/-- Whatever a key has is kept, and more may be added to it. -/
def Grows (m m' : OrderedMap κ μ) : Prop :=
  ∀ k v, m.find k = some v → ∃ more, m'.find k = some (v + more)

theorem Grows.refl (m : OrderedMap κ μ) : Grows m m :=
  fun _ v hv => ⟨0, by rw [hv, add_zero]⟩

theorem Grows.trans {m m' m'' : OrderedMap κ μ} (h : Grows m m') (h' : Grows m' m'') :
    Grows m m'' := by
  intro k v hv
  obtain ⟨more, hmore⟩ := h k v hv
  obtain ⟨more', hmore'⟩ := h' k _ hmore
  exact ⟨more + more', by rw [hmore', add_assoc]⟩

theorem grows_addAt (m : OrderedMap κ μ) (k : κ) (h : μ) : Grows m (m.addAt k h) := by
  intro k' v hv
  rw [find_addAt]
  by_cases hk : k' = k
  · subst hk
    exact ⟨h, by rw [if_pos rfl, hv, Option.getD_some]⟩
  · exact ⟨0, by rw [if_neg hk, hv, add_zero]⟩

theorem find_foldl_addAt (xs : List (κ × μ)) (k : κ) :
    (xs.foldl (fun m x => m.addAt x.1 x.2) ∅ : OrderedMap κ μ).find k =
      if k ∈ xs.map Prod.fst then some (sumAt xs k) else none := by
  induction xs using List.reverseRecOn with
  | nil => simp
  | append_singleton xs x ih =>
    rw [List.foldl_append, List.foldl_cons, List.foldl_nil, find_addAt]
    by_cases hk : k = x.1
    · subst hk
      by_cases hmem : x.1 ∈ xs.map Prod.fst
      · simp [ih, hmem, sumAt]
      · have hnil : xs.filter (fun y => y.1 = x.1) = [] := by
          refine List.filter_eq_nil_iff.mpr fun y hy he => hmem ?_
          exact List.mem_map.mpr ⟨y, hy, by simpa using he⟩
        simp [ih, hmem, sumAt, hnil]
    · have hone : ¬ x.1 = k := fun he => hk he.symm
      have hmem : k ∈ (xs ++ [x]).map Prod.fst ↔ k ∈ xs.map Prod.fst := by simp [hk]
      have hsum : sumAt (xs ++ [x]) k = sumAt xs k := by simp [sumAt, hone]
      simp only [ih, hk, if_false, hmem, hsum]

end AddAt

section Push

variable {α : Type*}

/-- The list at the key, with one more value. -/
def push (m : OrderedMap κ (List α)) (k : κ) (x : α) : OrderedMap κ (List α) :=
  m.insert k ((m.find k).getD [] ++ [x])

theorem find_push (m : OrderedMap κ (List α)) (k k' : κ) (x : α) :
    (m.push k x).find k' = if k' = k then some ((m.find k).getD [] ++ [x]) else m.find k' :=
  find_insert m k k' _

/-- Pushing values at their keys groups them, in the order of the list. -/
theorem find_foldl_push (key : α → κ) (xs : List α) (k : κ) :
    (xs.foldl (fun m x => m.push (key x) x) ∅ : OrderedMap κ (List α)).find k =
      if k ∈ xs.map key then some (xs.filter fun x => key x = k) else none := by
  induction xs using List.reverseRecOn with
  | nil => simp
  | append_singleton xs x ih =>
    rw [List.foldl_append, List.foldl_cons, List.foldl_nil, find_push]
    by_cases hk : k = key x
    · subst hk
      by_cases hmem : key x ∈ xs.map key
      · simp [ih, hmem]
      · have hnil : xs.filter (fun y => key y = key x) = [] := by
          refine List.filter_eq_nil_iff.mpr fun y hy he => hmem ?_
          exact List.mem_map.mpr ⟨y, hy, by simpa using he⟩
        simp [ih, hmem, hnil]
    · have hone : ¬ key x = k := fun he => hk he.symm
      simp [ih, hk, hone]

end Push

end OrderedMap
