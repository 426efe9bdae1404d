import Mathlib.Data.List.Induction

/-! A loop over a word sequence whose body may consume words after the current
one. The body answers how many following words it consumed, and the loop goes
on behind them. -/

namespace WordLoop

variable {W σ ε ι : Type*}

/-- The loop, with the number of words still to be passed over. -/
def run (body : W → List W → σ → Except ε (Nat × σ)) : Nat → List W → σ → Except ε σ
  | _, [], s => .ok s
  | skip + 1, _ :: ws, s => run body skip ws s
  | 0, w :: ws, s =>
    match body w ws s with
    | .error e => .error e
    | .ok (used, s') => run body used ws s'

section Segments

variable {body : W → List W → σ → Except ε (Nat × σ)}

theorem run_nil (skip : Nat) (s : σ) : run body skip [] s = .ok s := by
  cases skip <;> rfl

theorem run_of_body {w : W} {ws : List W} {s s' : σ} {used : Nat}
    (h : body w ws s = .ok (used, s')) : run body 0 (w :: ws) s = run body used ws s' := by
  simp [run, h]

theorem run_of_error {w : W} {ws : List W} {s : σ} {e : ε} (h : body w ws s = .error e) :
    run body 0 (w :: ws) s = .error e := by
  simp [run, h]

theorem run_skip (skip : Nat) (ws : List W) (s : σ) :
    run body skip ws s = run body 0 (ws.drop skip) s := by
  induction ws generalizing skip with
  | nil => rw [run_nil, List.drop_nil, run_nil]
  | cons w ws ih =>
    cases skip with
    | zero => rfl
    | succ skip => exact ih skip

theorem run_skip_append (seg post : List W) (s : σ) :
    run body seg.length (seg ++ post) s = run body 0 post s := by
  rw [run_skip, List.drop_left]

/-- The words are exhausted, or the next one satisfies `P`. -/
def Starts (P : W → Prop) (ws : List W) : Prop := ∀ w ∈ ws.head?, P w

theorem Starts.nil (P : W → Prop) : Starts P [] := by
  intro w hw
  simp at hw

theorem Starts.cons {P : W → Prop} {w : W} (h : P w) (ws : List W) : Starts P (w :: ws) := by
  intro x hx
  simp only [List.head?_cons, Option.mem_some_iff] at hx
  exact hx ▸ h

theorem Starts.append {P : W → Prop} {seg post : List W} (hs : Starts P seg)
    (hp : Starts P post) : Starts P (seg ++ post) := by
  cases seg with
  | nil => exact hp
  | cons w ws => exact Starts.cons (hs w (by simp)) (ws ++ post)

theorem Starts.map {P : W → Prop} {enc : ι → W} (h : ∀ x, P (enc x)) (xs : List ι) :
    Starts P (xs.map enc) := by
  cases xs with
  | nil => exact Starts.nil P
  | cons x xs => exact Starts.cons (h x) _

/-- Whatever follows a segment according to `Q`, the loop reads the segment completely and
goes from state `s` to state `s'`. -/
def ReadsBefore (body : W → List W → σ → Except ε (Nat × σ)) (Q : List W → Prop)
    (seg : List W) (s s' : σ) : Prop :=
  ∀ post, Q post → run body 0 (seg ++ post) s = run body 0 post s'

variable {Q Q' : List W → Prop}

theorem ReadsBefore.mono {seg : List W} {s s' : σ} (h : ReadsBefore body Q seg s s')
    (hQ : ∀ post, Q' post → Q post) : ReadsBefore body Q' seg s s' :=
  fun post hpost => h post (hQ post hpost)

theorem ReadsBefore.nil (s : σ) : ReadsBefore body Q [] s s := fun _ _ => rfl

theorem ReadsBefore.append {seg seg' : List W} {s s' s'' : σ} (h : ReadsBefore body Q seg s s')
    (hs : ∀ post, Q' post → Q (seg' ++ post)) (h' : ReadsBefore body Q' seg' s' s'') :
    ReadsBefore body Q' (seg ++ seg') s s'' := by
  intro post hpost
  rw [List.append_assoc, h _ (hs post hpost), h' post hpost]

theorem ReadsBefore.of_body {w : W} {seg : List W} {s s' : σ}
    (h : ∀ post, Q post → body w (seg ++ post) s = .ok (seg.length, s')) :
    ReadsBefore body Q (w :: seg) s s' := by
  intro post hpost
  rw [List.cons_append, run_of_body (h post hpost), run_skip_append]

theorem ReadsBefore.run_eq {ws : List W} {s s' : σ} (h : ReadsBefore body Q ws s s')
    (hQ : Q []) : run body 0 ws s = .ok s' := by
  simpa only [List.append_nil, run_nil] using h [] hQ

/-- As `ReadsBefore`, if the following words start with a word satisfying `P`. -/
def Reads (body : W → List W → σ → Except ε (Nat × σ)) (P : W → Prop)
    (seg : List W) (s s' : σ) : Prop :=
  ∀ post, Starts P post → run body 0 (seg ++ post) s = run body 0 post s'

variable {P : W → Prop}

theorem Reads.nil (s : σ) : Reads body P [] s s := ReadsBefore.nil s

theorem Reads.append {seg seg' : List W} {s s' s'' : σ} (h : Reads body P seg s s')
    (hs : Starts P seg') (h' : Reads body P seg' s' s'') :
    Reads body P (seg ++ seg') s s'' :=
  ReadsBefore.append h (fun _ hpost => hs.append hpost) h'

theorem Reads.cons {w : W} {seg : List W} {s s' s'' : σ} (h : Reads body P [w] s s')
    (hs : Starts P seg) (h' : Reads body P seg s' s'') : Reads body P (w :: seg) s s'' :=
  h.append hs h'

theorem Reads.of_body {w : W} {seg : List W} {s s' : σ}
    (h : ∀ post, Starts P post → body w (seg ++ post) s = .ok (seg.length, s')) :
    Reads body P (w :: seg) s s' :=
  ReadsBefore.of_body h

theorem Reads.map {enc : ι → W} {s : σ} (hP : ∀ x, P (enc x))
    (h : ∀ x, Reads body P [enc x] s s) (xs : List ι) : Reads body P (xs.map enc) s s := by
  induction xs with
  | nil => exact Reads.nil s
  | cons x xs ih => exact (h x).cons (Starts.map hP xs) ih

/-- Whatever follows them, the words are read without a change of state. -/
def Skips (body : W → List W → σ → Except ε (Nat × σ)) (ws : List W) : Prop :=
  ∀ s, ReadsBefore body (fun _ => True) ws s s

theorem skips_map {enc : ι → W} (h : ∀ x, Skips body [enc x]) (xs : List ι) :
    Skips body (xs.map enc) := by
  induction xs with
  | nil => exact fun s => ReadsBefore.nil s
  | cons x xs ih => exact fun s => (h x s).append (fun _ _ => trivial) (ih s)

end Segments

/-- The words at which the loop body runs, each with the words after it, when
the body at a word consumes as many following words as `advance` says. -/
def interpreted (advance : W → List W → Nat) : Nat → List W → List (W × List W)
  | _, [] => []
  | skip + 1, _ :: ws => interpreted advance skip ws
  | 0, w :: ws => (w, ws) :: interpreted advance (advance w ws) ws

def fold (body : W → List W → σ → Except ε (Nat × σ)) : List (W × List W) → σ → Except ε σ
  | [], s => .ok s
  | m :: ms, s =>
    match body m.1 m.2 s with
    | .error e => .error e
    | .ok r => fold body ms r.2

/-- The loop comes to the word, with those after it, in this state. -/
inductive Visits (body : W → List W → σ → Except ε (Nat × σ)) :
    List W → σ → W → List W → σ → Prop
  | here (w : W) (ws : List W) (s : σ) : Visits body (w :: ws) s w ws s
  | later {w x : W} {ws post : List W} {s s' t : σ} {used : Nat}
      (hbody : body w ws s = .ok (used, s')) (hrest : Visits body (ws.drop used) s' x post t) :
      Visits body (w :: ws) s x post t

section Interpreted

variable {body : W → List W → σ → Except ε (Nat × σ)} {advance : W → List W → Nat}

/-- When in the states of an invariant the consumed words depend on the words alone,
the loop is the fold of its body over the interpreted words. -/
theorem run_eq_fold {I : σ → Prop}
    (hadv : ∀ w ws s used s', I s → body w ws s = .ok (used, s') → used = advance w ws ∧ I s')
    (skip : Nat) (ws : List W) {s : σ} (hs : I s) :
    run body skip ws s = fold body (interpreted advance skip ws) s := by
  induction ws generalizing skip s with
  | nil => cases skip <;> rfl
  | cons w ws ih =>
    cases skip with
    | succ skip => simpa [run, interpreted] using ih skip hs
    | zero =>
      cases hb : body w ws s with
      | error e => simp [run, interpreted, fold, hb]
      | ok r =>
        obtain ⟨used, s'⟩ := r
        obtain ⟨rfl, hs'⟩ := hadv w ws s used s' hs hb
        simp [run, interpreted, fold, hb, ih _ hs']

theorem interpreted_skip (skip : Nat) (ws : List W) :
    interpreted advance skip ws = interpreted advance 0 (ws.drop skip) := by
  induction ws generalizing skip with
  | nil => cases skip <;> rfl
  | cons w ws ih =>
    cases skip with
    | zero => rfl
    | succ skip => exact ih skip

theorem Visits.interpreted {I : σ → Prop}
    (hadv : ∀ w ws s used s', I s → body w ws s = .ok (used, s') → used = advance w ws ∧ I s')
    {ws post : List W} {s t : σ} {x : W} (h : Visits body ws s x post t) (hs : I s) :
    (x, post) ∈ interpreted advance 0 ws ∧ I t := by
  induction h with
  | here w ws s => exact ⟨List.mem_cons_self .., hs⟩
  | later hbody _ ih =>
    obtain ⟨rfl, hs'⟩ := hadv _ _ _ _ _ hs hbody
    obtain ⟨hmem, ht⟩ := ih hs'
    refine ⟨List.mem_cons_of_mem _ ?_, ht⟩
    rw [interpreted_skip]
    exact hmem

/-- A loop that ends comes to every word that is interpreted, and reads it. -/
theorem exists_visits_of_interpreted {I : σ → Prop}
    (hadv : ∀ w ws s used s', I s → body w ws s = .ok (used, s') → used = advance w ws ∧ I s')
    {skip : Nat} {ws : List W} {s s' : σ} (hs : I s) (h : run body skip ws s = .ok s')
    {m : W × List W} (hm : m ∈ interpreted advance skip ws) :
    ∃ t used t', Visits body (ws.drop skip) s m.1 m.2 t ∧
      body m.1 m.2 t = .ok (used, t') ∧ used = advance m.1 m.2 := by
  induction ws generalizing skip s with
  | nil => cases skip <;> cases hm
  | cons w ws ih =>
    cases skip with
    | succ skip => exact ih hs h hm
    | zero =>
      cases hb : body w ws s with
      | error e => simp [run, hb] at h
      | ok r =>
        obtain ⟨used, u⟩ := r
        obtain ⟨hused, hu⟩ := hadv w ws s used u hs hb
        rw [run_of_body hb, hused] at h
        rcases List.mem_cons.mp hm with rfl | hm
        · exact ⟨s, used, u, .here w ws s, hb, hused⟩
        · obtain ⟨t, used', t', hvisits, hread⟩ := ih hu h hm
          rw [← hused] at hvisits
          exact ⟨t, used', t', .later hb hvisits, hread⟩

theorem exists_append_of_interpreted {skip : Nat} {ws : List W} {m : W × List W}
    (h : m ∈ interpreted advance skip ws) : ∃ pre, ws = pre ++ m.1 :: m.2 := by
  induction ws generalizing skip with
  | nil => cases skip <;> cases h
  | cons w ws ih =>
    cases skip with
    | succ skip =>
      obtain ⟨pre, rfl⟩ := ih h
      exact ⟨w :: pre, rfl⟩
    | zero =>
      rcases List.mem_cons.mp h with rfl | h
      · exact ⟨[], rfl⟩
      · obtain ⟨pre, rfl⟩ := ih h
        exact ⟨w :: pre, rfl⟩

/-- Every word is interpreted, or is one of those that an interpreted word takes with it. -/
theorem interpreted_or_consumed (skip : Nat) {ws pre post : List W} {w : W}
    (h : ws = pre ++ w :: post) :
    (w, post) ∈ interpreted advance skip ws ∨ w ∈ ws.take skip ∨
      ∃ m ∈ interpreted advance skip ws, w ∈ m.2.take (advance m.1 m.2) := by
  induction pre generalizing skip ws with
  | nil =>
    subst h
    cases skip with
    | zero => exact Or.inl (List.mem_cons_self ..)
    | succ skip => exact Or.inr (Or.inl (List.mem_cons_self ..))
  | cons x pre ih =>
    subst h
    cases skip with
    | succ skip =>
      rcases ih skip rfl with hmem | hskip | hconsumed
      · exact Or.inl hmem
      · exact Or.inr (Or.inl (List.mem_cons_of_mem x hskip))
      · exact Or.inr (Or.inr hconsumed)
    | zero =>
      rcases ih (advance x (pre ++ w :: post)) rfl with hmem | hskip | ⟨m, hm, hw⟩
      · exact Or.inl (List.mem_cons_of_mem _ hmem)
      · exact Or.inr (Or.inr ⟨(x, pre ++ w :: post), List.mem_cons_self .., hskip⟩)
      · exact Or.inr (Or.inr ⟨m, List.mem_cons_of_mem _ hm, hw⟩)

theorem following_ne_nil {skip : Nat} {ws : List W} {pre post : List (W × List W)} {m : W × List W}
    (h : interpreted advance skip ws = pre ++ m :: post) (hpost : post ≠ []) : m.2 ≠ [] := by
  induction ws generalizing skip pre with
  | nil => cases skip <;> simp [interpreted] at h
  | cons w ws ih =>
    cases skip with
    | succ skip => exact ih (by simpa [interpreted] using h)
    | zero =>
      cases pre with
      | cons m' pre => exact ih (List.cons_eq_cons.mp h).2
      | nil =>
        obtain ⟨rfl, hrest⟩ := List.cons_eq_cons.mp h
        rintro rfl
        refine hpost (hrest.symm.trans ?_)
        cases advance w [] <;> rfl

theorem fold_append_ok {ms ms' : List (W × List W)} {s s'' : σ} :
    fold body (ms ++ ms') s = .ok s'' ↔
      ∃ s', fold body ms s = .ok s' ∧ fold body ms' s' = .ok s'' := by
  induction ms generalizing s with
  | nil => simp [fold]
  | cons m ms ih =>
    cases hb : body m.1 m.2 s with
    | error e => simp [fold, hb]
    | ok r => simp [fold, hb, ih]

theorem fold_cons_ok {m : W × List W} {ms : List (W × List W)} {s s'' : σ} :
    fold body (m :: ms) s = .ok s'' ↔
      ∃ used s', body m.1 m.2 s = .ok (used, s') ∧ fold body ms s' = .ok s'' := by
  cases hb : body m.1 m.2 s with
  | error e => simp [fold, hb]
  | ok r =>
    obtain ⟨used, t⟩ := r
    simp [fold, hb]

theorem fold_singleton_ok {m : W × List W} {s s' : σ} :
    fold body [m] s = .ok s' ↔ ∃ used, body m.1 m.2 s = .ok (used, s') := by
  rw [fold_cons_ok]
  simp [fold]

theorem fold_invariant {I : σ → Prop} {ms : List (W × List W)}
    (hstep : ∀ m ∈ ms, ∀ t used t', body m.1 m.2 t = .ok (used, t') → I t → I t') {s s' : σ}
    (h : fold body ms s = .ok s') (hs : I s) : I s' := by
  induction ms generalizing s with
  | nil =>
    obtain rfl := Except.ok.inj h
    exact hs
  | cons m ms ih =>
    obtain ⟨used, t, hbody, hrest⟩ := fold_cons_ok.mp h
    have ht : I t := hstep m (by simp) s used t hbody hs
    exact ih (fun x hx => hstep x (by simp [hx])) hrest ht

theorem fold_preserves {α : Type*} (observe : σ → α) {ms : List (W × List W)}
    (hstep : ∀ m ∈ ms, ∀ t used t', body m.1 m.2 t = .ok (used, t') → observe t' = observe t)
    {s s' : σ} (h : fold body ms s = .ok s') : observe s' = observe s :=
  fold_invariant (I := fun t => observe t = observe s)
    (fun m hm t used t' hbody ht => (hstep m hm t used t' hbody).trans ht) h rfl

end Interpreted

section Occurrences

variable {p : W → Bool}

theorem exists_first {ws : List W} (h : ∃ w ∈ ws, p w = true) :
    ∃ before w after, ws = before ++ w :: after ∧ p w = true ∧ ∀ x ∈ before, p x = false := by
  have hfound : (ws.find? p).isSome := List.find?_isSome.mpr h
  obtain ⟨w, hw⟩ := Option.isSome_iff_exists.mp hfound
  obtain ⟨hp, before, after, hsplit, hbefore⟩ := List.find?_eq_some_iff_append.mp hw
  exact ⟨before, w, after, hsplit, hp, fun x hx => by simpa using hbefore x hx⟩

theorem exists_last {ws : List W} (h : ∃ w ∈ ws, p w = true) :
    ∃ before w after, ws = before ++ w :: after ∧ p w = true ∧ ∀ x ∈ after, p x = false := by
  have hrev : ∃ w ∈ ws.reverse, p w = true := by simpa only [List.mem_reverse] using h
  obtain ⟨after, w, before, hsplit, hp, hafter⟩ := exists_first hrev
  refine ⟨before.reverse, w, after.reverse, ?_, hp, ?_⟩
  · rw [← List.reverse_reverse ws, hsplit, List.reverse_append, List.reverse_cons,
      List.append_assoc, List.singleton_append]
  · intro x hx
    exact hafter x (List.mem_reverse.mp hx)

end Occurrences

end WordLoop
