import Mathlib.Data.List.Forall2
import Mathlib.Data.List.Induction

/-! Calls that may fail, and loops over a list that end at the first failing step. -/

namespace Failing

variable {ε α β σ : Type*}

@[simp]
theorem bind_ok {α β : Type _} (a : α) (f : α → Except ε β) :
    (Except.ok a >>= f) = f a := rfl

@[simp]
theorem bind_error {α β : Type _} (e : ε) (f : α → Except ε β) :
    (Except.error e >>= f) = .error e := rfl

theorem bind_eq_ok {α β : Type _} {x : Except ε α} {f : α → Except ε β} {b : β} :
    (x >>= f) = .ok b ↔ ∃ a, x = .ok a ∧ f a = .ok b := by
  cases x <;> simp

theorem map_eq_ok {x : Except ε α} {f : α → β} {b : β} :
    x.map f = .ok b ↔ ∃ a, x = .ok a ∧ f a = b := by
  cases x <;> simp [Except.map]

theorem ite_error_bind {α β : Type _} (c : Prop) [Decidable c] (e : ε) (a : α)
    (f : α → Except ε β) :
    ((if c then Except.error e else Except.ok a) >>= f) = if c then .error e else f a := by
  split <;> rfl

theorem ite_error_eq_ok {c : Prop} [Decidable c] {e : ε} {x : Except ε α} {a : α} :
    (if c then Except.error e else x) = .ok a ↔ ¬ c ∧ x = .ok a := by
  split <;> simp_all

section Loops

theorem exists_mem_concat {p : α → Prop} {xs : List α} {x : α} :
    (∃ y ∈ xs ++ [x], p y) ↔ (∃ y ∈ xs, p y) ∨ p x := by
  simp [or_and_right, exists_or]

theorem forall_mem_concat {p : α → Prop} {xs : List α} {x : α} :
    (∀ y ∈ xs ++ [x], p y) ↔ (∀ y ∈ xs, p y) ∧ p x := by
  rw [List.forall_mem_append, List.forall_mem_singleton]

variable {f : σ → α → Except ε σ}

theorem foldlM_append_ok {xs ys : List α} {s s'' : σ} :
    (xs ++ ys).foldlM f s = .ok s'' ↔
      ∃ s', xs.foldlM f s = .ok s' ∧ ys.foldlM f s' = .ok s'' := by
  rw [List.foldlM_append, bind_eq_ok]

theorem foldlM_cons_ok {x : α} {xs : List α} {s s'' : σ} :
    (x :: xs).foldlM f s = .ok s'' ↔ ∃ s', f s x = .ok s' ∧ xs.foldlM f s' = .ok s'' := by
  rw [List.foldlM_cons, bind_eq_ok]

theorem foldlM_singleton_ok {x : α} {s s' : σ} :
    [x].foldlM f s = .ok s' ↔ f s x = .ok s' := by
  rw [foldlM_cons_ok]
  constructor
  · intro hh
    obtain ⟨t, ht, hs⟩ := hh
    obtain rfl := Except.ok.inj hs
    exact ht
  · exact fun h => ⟨s', h, rfl⟩

theorem foldlM_congr {g : σ → α → Except ε σ} {xs : List α} {s : σ}
    (h : ∀ t, ∀ x ∈ xs, f t x = g t x) : xs.foldlM f s = xs.foldlM g s := by
  induction xs generalizing s with
  | nil => rfl
  | cons x xs ih =>
    rw [List.foldlM_cons, List.foldlM_cons, h s x List.mem_cons_self]
    exact congrArg _ (funext fun t => ih fun t y hy => h t y (List.mem_cons_of_mem x hy))

/-- The induction rule for completed loops: a relation between the items passed so far
and the state, kept by each successful step, holds at the end. -/
theorem foldlM_invariant {I : List α → σ → Prop} {xs : List α} {s s' : σ} (h0 : I [] s)
    (hstep : ∀ pre x post t t', xs = pre ++ x :: post → I pre t → f t x = .ok t' →
      I (pre ++ [x]) t')
    (h : xs.foldlM f s = .ok s') : I xs s' := by
  have hprefix : ∀ pre post, xs = pre ++ post → ∀ t, pre.foldlM f s = .ok t → I pre t := by
    intro pre
    induction pre using List.reverseRecOn with
    | nil =>
      intro post hpost t ht
      obtain rfl := Except.ok.inj ht
      exact h0
    | append_singleton pre x ih =>
      intro post hpost t ht
      obtain ⟨t', ht', hx⟩ := foldlM_append_ok.mp ht
      have hsplit : xs = pre ++ x :: post := by rw [hpost, List.append_assoc, List.singleton_append]
      exact hstep pre x post t' t hsplit (ih _ hsplit t' ht') (foldlM_singleton_ok.mp hx)
  exact hprefix xs [] (List.append_nil xs).symm s' h

/-- The rule for loops that complete: where each step from a state of the relation succeeds
and keeps it, so does the loop. -/
theorem foldlM_total {I : List α → σ → Prop} {xs : List α} {s : σ} (h0 : I [] s)
    (hstep : ∀ pre x post t, xs = pre ++ x :: post → I pre t →
      ∃ t', f t x = .ok t' ∧ I (pre ++ [x]) t') :
    ∃ s', xs.foldlM f s = .ok s' ∧ I xs s' := by
  have hprefix : ∀ pre post, xs = pre ++ post → ∃ t, pre.foldlM f s = .ok t ∧ I pre t := by
    intro pre
    induction pre using List.reverseRecOn with
    | nil =>
      intro post _
      exact ⟨s, rfl, h0⟩
    | append_singleton pre x ih =>
      intro post hpost
      have hsplit : xs = pre ++ x :: post := by rw [hpost, List.append_assoc, List.singleton_append]
      obtain ⟨t, ht, hI⟩ := ih _ hsplit
      obtain ⟨t', hx, hI'⟩ := hstep pre x post t hsplit hI
      exact ⟨t', foldlM_append_ok.mpr ⟨t, ht, foldlM_singleton_ok.mpr hx⟩, hI'⟩
  exact hprefix xs [] (List.append_nil xs).symm

theorem exists_step_of_ok {I : σ → Prop} {xs : List α} {s s' : σ} (h : xs.foldlM f s = .ok s')
    (h0 : I s) (hstep : ∀ x ∈ xs, ∀ t t', I t → f t x = .ok t' → I t') :
    I s' ∧ ∀ x ∈ xs, ∃ t t', I t ∧ f t x = .ok t' := by
  induction xs generalizing s with
  | nil =>
    obtain rfl := Except.ok.inj h
    exact ⟨h0, by simp⟩
  | cons x xs ih =>
    obtain ⟨t, ht, hrest⟩ := foldlM_cons_ok.mp h
    have hI := hstep x (by simp) s t h0 ht
    obtain ⟨hI', hxs⟩ := ih hrest hI fun y hy => hstep y (by simp [hy])
    refine ⟨hI', ?_⟩
    intro y hy
    rcases List.mem_cons.mp hy with rfl | hy
    · exact ⟨s, t, h0, ht⟩
    · exact hxs y hy

theorem exists_step_of_error {I : σ → Prop} {xs : List α} {s : σ} {e : ε}
    (h : xs.foldlM f s = .error e) (h0 : I s)
    (hstep : ∀ x ∈ xs, ∀ t t', I t → f t x = .ok t' → I t') :
    ∃ x ∈ xs, ∃ t, I t ∧ f t x = .error e := by
  induction xs generalizing s with
  | nil => exact absurd h (by simp [pure, Except.pure])
  | cons x xs ih =>
    rw [List.foldlM_cons] at h
    cases hx : f s x with
    | error e' =>
      rw [hx] at h
      obtain rfl := Except.error.inj h
      exact ⟨x, by simp, s, h0, hx⟩
    | ok t =>
      rw [hx, bind_ok] at h
      obtain ⟨y, hy, hfail⟩ := ih h (hstep x (by simp) s t h0 hx) fun y hy => hstep y (by simp [hy])
      exact ⟨y, by simp [hy], hfail⟩

/-- A loop simulates another one, seen through a view of its state, when each step does the
steps of the other loop on the items that belong to it. -/
theorem foldlM_simulates {τ β : Type*} {g : τ → β → Except ε τ} {view : σ → τ} {I : σ → Prop}
    {items : α → List β} {xs : List α} {s : σ} (h0 : I s)
    (hstep : ∀ x ∈ xs, ∀ t, I t → (f t x).map view = (items x).foldlM g (view t) ∧
      ∀ t', f t x = .ok t' → I t') :
    (xs.foldlM f s).map view = (xs.flatMap items).foldlM g (view s) := by
  induction xs generalizing s with
  | nil => rfl
  | cons x xs ih =>
    obtain ⟨hsim, hI⟩ := hstep x (by simp) s h0
    rw [List.foldlM_cons, List.flatMap_cons, List.foldlM_append, ← hsim]
    cases hx : f s x with
    | error e => rfl
    | ok t => exact ih (hI t hx) fun y hy => hstep y (by simp [hy])

/-- A loop whose steps fail for some items only, whatever the state, is a loop that never
fails when it gets to its end. -/
theorem foldlM_checked_iff {P : α → Prop} {g : σ → α → σ} {xs : List α} {s s' : σ}
    (hstep : ∀ x ∈ xs, ∀ t t', f t x = .ok t' ↔ P x ∧ t' = g t x) :
    xs.foldlM f s = .ok s' ↔ (∀ x ∈ xs, P x) ∧ s' = xs.foldl g s := by
  induction xs generalizing s with
  | nil => simp [pure, Except.pure, eq_comm]
  | cons x xs ih =>
    have hx := hstep x (by simp)
    rw [foldlM_cons_ok, List.forall_mem_cons, List.foldl_cons]
    simp only [hx, ih fun y hy => hstep y (by simp [hy])]
    constructor
    · intro hh
      obtain ⟨t, ⟨hP, rfl⟩, hrest, rfl⟩ := hh
      exact ⟨⟨hP, hrest⟩, rfl⟩
    · intro hh
      obtain ⟨⟨hP, hrest⟩, rfl⟩ := hh
      exact ⟨_, ⟨hP, rfl⟩, hrest, rfl⟩

theorem mapM_eq_ok {g : α → Except ε β} {xs : List α} {ys : List β} :
    xs.mapM g = .ok ys ↔ List.Forall₂ (fun x y => g x = .ok y) xs ys := by
  induction xs generalizing ys with
  | nil =>
    rw [List.mapM_nil, List.forall₂_nil_left_iff]
    exact ⟨fun h => (Except.ok.inj h).symm, fun h => h ▸ rfl⟩
  | cons x xs ih =>
    rw [List.mapM_cons, bind_eq_ok]
    constructor
    · intro hh
      obtain ⟨y, hy, hrest⟩ := hh
      obtain ⟨zs, hzs, hcons⟩ := bind_eq_ok.mp hrest
      obtain rfl := Except.ok.inj hcons
      exact .cons hy (ih.mp hzs)
    · intro h
      cases h with
      | cons hy hrest => exact ⟨_, hy, bind_eq_ok.mpr ⟨_, ih.mpr hrest, rfl⟩⟩

theorem mapM_of_ok {g : α → Except ε β} {xs : List α} {h : α → β}
    (hg : ∀ x ∈ xs, g x = .ok (h x)) : xs.mapM g = .ok (xs.map h) := by
  rw [mapM_eq_ok, List.forall₂_map_right_iff, List.forall₂_same]
  exact hg

/-- A loop that adds something for each item, which must be fresh, completes if all that it
adds is fresh at the start, and nothing spoils what comes after it. -/
theorem foldlM_collect_iff {R : α → β → Prop} {P : σ → β → Prop} {g : σ → β → σ}
    {Q : β → β → Prop} {I : σ → Prop} {xs : List α} {s s' : σ} (h0 : I s)
    (hstep : ∀ x ∈ xs, ∀ t t', I t → (f t x = .ok t' ↔ ∃ y, R x y ∧ P t y ∧ t' = g t y))
    (hadd : ∀ t y, I t → I (g t y) ∧ ∀ z, P (g t y) z ↔ P t z ∧ Q y z) :
    xs.foldlM f s = .ok s' ↔ ∃ ys, List.Forall₂ R xs ys ∧ (∀ y ∈ ys, P s y) ∧
      ys.Pairwise Q ∧ s' = ys.foldl g s := by
  induction xs generalizing s with
  | nil =>
    simp only [List.forall₂_nil_left_iff, exists_eq_left, List.foldl_nil, List.foldlM_nil]
    constructor
    · intro h
      exact ⟨by simp, .nil, (Except.ok.inj h).symm⟩
    · intro hh
      rw [hh.2.2]
      rfl
  | cons x xs ih =>
    have hrest (t : σ) (ht : I t) := ih ht fun y hy => hstep y (by simp [hy])
    rw [foldlM_cons_ok]
    constructor
    · intro hh
      obtain ⟨t, hx, h⟩ := hh
      obtain ⟨y, hR, hfresh, rfl⟩ := (hstep x (by simp) s t h0).mp hx
      obtain ⟨hI, hiff⟩ := hadd s y h0
      obtain ⟨ys, hys, hfreshes, hfits, rfl⟩ := (hrest _ hI).mp h
      refine ⟨y :: ys, .cons hR hys, ?_, List.pairwise_cons.mpr ⟨?_, hfits⟩, rfl⟩
      · rintro z (_ | ⟨_, hz⟩)
        · exact hfresh
        · exact ((hiff z).mp (hfreshes z hz)).1
      · intro z hz
        exact ((hiff z).mp (hfreshes z hz)).2
    · intro hh
      obtain ⟨_, hys, hfreshes, hfits, rfl⟩ := hh
      obtain ⟨y, ys, hR, hrest', rfl⟩ := List.forall₂_cons_left_iff.mp hys
      obtain ⟨hy, hfits⟩ := List.pairwise_cons.mp hfits
      obtain ⟨hI, hiff⟩ := hadd s y h0
      have hfresh := hfreshes y (by simp)
      refine ⟨g s y, (hstep x (by simp) s _ h0).mpr ⟨y, hR, hfresh, rfl⟩, (hrest _ hI).mpr ?_⟩
      exact ⟨ys, hrest', fun z hz => (hiff z).mpr ⟨hfreshes z (by simp [hz]), hy z hz⟩, hfits, rfl⟩

/-- What is done with the result of a call, if it has one. -/
def ifOk {ω : Type*} (x : Except ε α) (does : α → List ω) : List ω :=
  match x with
  | .ok a => does a
  | .error _ => []

theorem mem_ifOk {ω : Type*} {x : Except ε α} {does : α → List ω} {o : ω} :
    o ∈ ifOk x does ↔ ∃ a, x = .ok a ∧ o ∈ does a := by
  cases x <;> simp [ifOk]

/-- What the steps of a loop do on their way, that of the failing one included. -/
def trail {ω : Type*} (f : σ → α → Except ε σ) (does : σ → α → List ω) : σ → List α → List ω
  | _, [] => []
  | s, x :: xs => does s x ++ ifOk (f s x) fun s' => trail f does s' xs

section Trail

variable {ω : Type*} {does : σ → α → List ω}

theorem mem_trail {xs : List α} {s : σ} {o : ω} :
    o ∈ trail f does s xs ↔
      ∃ pre x post t, xs = pre ++ x :: post ∧ pre.foldlM f s = .ok t ∧ o ∈ does t x := by
  induction xs generalizing s with
  | nil => simp [trail]
  | cons x xs ih =>
    rw [trail, List.mem_append, mem_ifOk]
    constructor
    · intro hh
      rcases hh with h | ⟨t, ht, h⟩
      · exact ⟨[], x, xs, s, rfl, rfl, h⟩
      · obtain ⟨pre, y, post, t', rfl, ht', ho⟩ := ih.mp h
        exact ⟨x :: pre, y, post, t', rfl, foldlM_cons_ok.mpr ⟨t, ht, ht'⟩, ho⟩
    · intro hh
      obtain ⟨pre, y, post, t', hsplit, ht', ho⟩ := hh
      cases pre with
      | nil =>
        obtain ⟨rfl, rfl⟩ := List.cons.inj hsplit
        obtain rfl := Except.ok.inj ht'
        exact .inl ho
      | cons z pre =>
        obtain ⟨rfl, rfl⟩ := List.cons.inj hsplit
        obtain ⟨t, ht, hrest⟩ := foldlM_cons_ok.mp ht'
        exact .inr ⟨t, ht, ih.mpr ⟨pre, y, post, t', rfl, hrest, ho⟩⟩

/-- A loop depends on nothing but what its steps do on their way. -/
theorem foldlM_eq_of_trail {g : σ → α → Except ε σ} {P : ω → Prop}
    (hstep : ∀ t x, (∀ o ∈ does t x, P o) → g t x = f t x) {xs : List α} {s : σ}
    (h : ∀ o ∈ trail f does s xs, P o) : xs.foldlM g s = xs.foldlM f s := by
  induction xs generalizing s with
  | nil => rfl
  | cons x xs ih =>
    have hx : g s x = f s x := hstep s x fun o ho => h o (List.mem_append_left _ ho)
    rw [List.foldlM_cons, List.foldlM_cons, hx]
    cases hfx : f s x with
    | error e => rfl
    | ok t =>
      refine ih fun o ho => h o (List.mem_append_right _ ?_)
      exact mem_ifOk.mpr ⟨t, hfx, ho⟩

end Trail

end Loops

end Failing
