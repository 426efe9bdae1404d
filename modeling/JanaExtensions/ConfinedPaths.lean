import JanaExtensions.PathNames

/-! Paths that are resolved against the directory that owns them: whatever is accepted lies in
that directory, name by name. -/

namespace JanaExtensions

open Failing

namespace Path

/-- The path is the directory, or somewhere below it. -/
def Inside (p directory : Path) : Prop := directory.names <+: p.names

theorem Inside.trans {p q r : Path} (hpq : p.Inside q) (hqr : q.Inside r) : p.Inside r :=
  List.IsPrefix.trans hqr hpq

theorem Inside.parentPath {p directory : Path} (h : p.Inside directory)
    (hne : p.names ≠ directory.names) : p.parentPath.Inside directory := by
  obtain ⟨post, hpost⟩ := h
  have hpostne : post ≠ [] := by
    rintro rfl
    rw [List.append_nil] at hpost
    exact hne hpost.symm
  rw [Inside]
  rcases p.names_parentPath with hnames | hnames
  · rw [hnames, ← hpost]
    exact List.prefix_append _ _
  · rw [hnames, ← hpost, List.dropLast_append_of_ne_nil hpostne]
    exact List.prefix_append _ _

/-- The elements behind the root. -/
def rest (p : Path) : List String :=
  p.names ++ (if p.names ≠ [] ∧ p.string.toList.getLast? = some '/' then [""] else [])

theorem elements_of_isAbsolute {p : Path} (h : p.isAbsolute = true) :
    p.elements = "/" :: p.rest := by
  rw [elements_eq, h]
  simp [rest]

theorem filter_rest (p : Path) : p.rest.filter (· ≠ "") = p.names := by
  have hnames : p.names.filter (· ≠ "") = p.names :=
    List.filter_eq_self.mpr fun name hname => by simpa using (of_mem_names hname).1
  rw [rest, List.filter_append, hnames]
  split <;> simp

theorem mem_rest {p : Path} {name : String} (h : name ∈ p.rest) : name ∈ p.names ∨ name = "" := by
  rcases List.mem_append.mp h with h | h
  · exact .inl h
  · right
    split at h
    · simpa using h
    · cases h

theorem exists_common (xs ys : List String) : ∃ pre, xs = pre ++ (mismatch xs ys).1 ∧
    ys = pre ++ (mismatch xs ys).2 := by
  fun_induction mismatch xs ys with
  | case1 xs y ys ih =>
    obtain ⟨pre, hxs, hys⟩ := ih
    exact ⟨y :: pre, congrArg (y :: ·) hxs, congrArg (y :: ·) hys⟩
  | case2 x xs y ys hne => exact ⟨[], rfl, rfl⟩
  | case3 xs ys hnot => exact ⟨[], rfl, rfl⟩

/-- The path leads out of the directory that it is relative to. -/
def LeadsUp (p : Path) : Prop :=
  p.string.toList = ['.', '.'] ∨ ∃ chars, p.string.toList = '.' :: '.' :: '/' :: chars

theorem LeadsUp.head_elements {p : Path} (h : p.LeadsUp) : p.elements.head? = some ".." := by
  have hsplit : ∃ more, splitNames p.string.toList = ['.', '.'] :: more := by
    rcases h with h | ⟨chars, h⟩
    · exact ⟨[], by rw [h]; decide⟩
    · refine ⟨splitNames chars, ?_⟩
      rw [h]
      exact splitNames_append_slash ['.', '.'] chars
  have hroot : p.isAbsolute = false := by
    rcases h with h | ⟨chars, h⟩ <;> simp [isAbsolute, h]
  obtain ⟨more, hsplit⟩ := hsplit
  rw [elements_eq, hroot, names, hsplit]
  rfl

theorem LeadsUp.append {p : Path} (h : p.LeadsUp) {name : String}
    (hname : (⟨name⟩ : Path).isAbsolute = false) : (p / ⟨name⟩ : Path).LeadsUp := by
  change (Path.append p ⟨name⟩).LeadsUp
  rw [Path.append, hname, if_neg (by simp)]
  rcases h with h | ⟨chars, h⟩
  · have hne : p.string ≠ "" := by
      intro hempty
      simp [hempty] at h
    rw [if_neg (by simp [h, hne])]
    exact .inr ⟨name.toList, by simp [h]⟩
  · split
    · exact .inr ⟨chars ++ name.toList, by simp [h]⟩
    · exact .inr ⟨chars ++ '/' :: name.toList, by simp [h]⟩

theorem leadsUp_foldl {names : List String} (hnames : ∀ name ∈ names,
    (⟨name⟩ : Path).isAbsolute = false) {p : Path} (h : p.LeadsUp) :
    (names.foldl (fun path name => path / ⟨name⟩) p).LeadsUp := by
  induction names generalizing p with
  | nil => exact h
  | cons name names ih =>
    obtain ⟨hname, hrest⟩ := List.forall_mem_cons.mp hnames
    exact ih hrest (h.append hname)

/-- How far a name leads up or down, as `lexicallyRelative` counts it. -/
theorem sum_of_plain {names : List String}
    (hplain : ∀ name ∈ names, name ≠ "." ∧ name ≠ "..") :
    (names.map fun name =>
      if name = ".." then (-1 : Int) else if name = "" ∨ name = "." then 0 else 1).sum =
        (names.filter (· ≠ "")).length := by
  induction names with
  | nil => rfl
  | cons name names ih =>
    obtain ⟨⟨hdot, hdots⟩, hrest⟩ := List.forall_mem_cons.mp hplain
    rw [List.map_cons, List.sum_cons, ih hrest, if_neg hdots]
    by_cases hempty : name = ""
    · simp [hempty]
    · rw [if_neg (by simp [hempty, hdot]), List.filter_cons_of_pos (by simpa using hempty),
        List.length_cons, Nat.cast_add, Nat.cast_one, add_comm]

theorem isAbsolute_of_mem_rest {p : Path} {name : String} (h : name ∈ p.rest) :
    (⟨name⟩ : Path).isAbsolute = false := by
  rcases mem_rest h with h | rfl
  · have hslash := (of_mem_names h).2
    cases hchars : name.toList with
    | nil => simp [isAbsolute, hchars]
    | cons c chars =>
      have hne : c ≠ '/' := by
        rintro rfl
        exact hslash (by simp [hchars])
      simp [isAbsolute, hchars, hne]
  · rfl

/-- A path is inside the directory unless it leads up from there. -/
theorem inside_or_leadsUp {p directory : Path} (hp : p.isAbsolute = true)
    (hdirectory : directory.isAbsolute = true)
    (hplain : ∀ name ∈ directory.names, name ≠ "." ∧ name ≠ "..") :
    p.Inside directory ∨ (p.lexicallyRelative directory).LeadsUp := by
  obtain ⟨pre, ha, hb⟩ := exists_common p.rest directory.rest
  have hmismatch : mismatch p.elements directory.elements = mismatch p.rest directory.rest := by
    rw [elements_of_isAbsolute hp, elements_of_isAbsolute hdirectory, mismatch, if_pos rfl]
  generalize mismatch p.rest directory.rest = m at ha hb hmismatch
  obtain ⟨a, b⟩ := m
  have hbplain : ∀ name ∈ b, name ≠ "." ∧ name ≠ ".." := by
    intro name hname
    have hmem : name ∈ directory.rest := by
      rw [hb]
      exact List.mem_append_right _ hname
    rcases mem_rest hmem with hmem | rfl
    · exact hplain name hmem
    · decide
  have hsum := sum_of_plain hbplain
  by_cases hempty : b.filter (· ≠ "") = []
  · left
    have hpnames : p.names = pre.filter (· ≠ "") ++ a.filter (· ≠ "") := by
      rw [← filter_rest, ha, List.filter_append]
    have hdnames : directory.names = pre.filter (· ≠ "") := by
      rw [← filter_rest, hb, List.filter_append, hempty, List.append_nil]
    rw [Inside, hpnames, hdnames]
    exact List.prefix_append _ _
  · right
    obtain ⟨n, hn⟩ : ∃ n, (b.filter (· ≠ "")).length = n + 1 :=
      Nat.exists_eq_succ_of_ne_zero (by simpa using hempty)
    have hbne : b ≠ [] := by
      rintro rfl
      exact hempty rfl
    have hup : ∀ name ∈ List.replicate n ".." ++ a, (⟨name⟩ : Path).isAbsolute = false := by
      intro name hname
      rcases List.mem_append.mp hname with hname | hname
      · rw [List.eq_of_mem_replicate hname]
        decide
      · refine isAbsolute_of_mem_rest (p := p) ?_
        rw [ha]
        exact List.mem_append_right _ hname
    have hfirst : (⟨""⟩ / ⟨".."⟩ : Path) = ⟨".."⟩ := by decide
    rw [lexicallyRelative, if_neg (by simp [hp, hdirectory]), hmismatch]
    dsimp only
    rw [hsum, hn, if_neg (by simp [hbne]), if_neg (by omega), if_pos (by omega),
      Int.toNat_natCast, List.replicate_succ, List.cons_append, List.foldl_cons, hfirst]
    exact leadsUp_foldl hup (.inl (by decide))

end Path

/-- What the operating system promises of canonical paths: they are absolute, without `.` and
`..`, and without links, so that the parent of a canonical path is canonical too. And a path
under which a file can be read is a directory, which cannot be read as a file itself. -/
structure CanonicalPaths (fs : FileSystem) : Prop where
  isAbsolute : ∀ p q, fs.weaklyCanonical p = .ok q → q.isAbsolute = true
  plain : ∀ p q, fs.weaklyCanonical p = .ok q → ∀ name ∈ q.names, name ≠ "." ∧ name ≠ ".."
  parent : ∀ p q parent, fs.weaklyCanonical p = .ok q →
    fs.weaklyCanonical q.parentPath = .ok parent → parent.names = q.parentPath.names
  directory : ∀ directory owner name content, name ≠ "" → '/' ∉ name.toList →
    fs.weaklyCanonical directory = .ok owner →
    fs.read (directory / ⟨name⟩ : Path).string = some content → ∀ p : Path, p.isAbsolute = true →
      p.names = owner.names → ∀ content, fs.read p.string = some content → content.eof = false

theorem resolveOwnedPath_eq_ok {fs : FileSystem} {directory referencedPath resolved : Path}
    {description : String}
    (h : resolveOwnedPath fs directory referencedPath description = .ok resolved) :
    referencedPath.isAbsolute = false ∧ ".." ∉ referencedPath.elements ∧
      ∃ owner, fs.weaklyCanonical directory = .ok owner ∧
        fs.weaklyCanonical (owner / referencedPath) = .ok resolved ∧
        (resolved.lexicallyRelative owner).elements.head? ≠ some ".." := by
  obtain ⟨habsolute, h⟩ := ite_error_eq_ok.mp h
  obtain ⟨hup, h⟩ := ite_error_eq_ok.mp h
  obtain ⟨owner, howner, h⟩ := bind_eq_ok.mp h
  obtain ⟨resolved', hresolved, h⟩ := bind_eq_ok.mp h
  obtain ⟨hinside, h⟩ := ite_error_eq_ok.mp h
  obtain rfl := Except.ok.inj h
  simp only [not_or] at hinside
  exact ⟨by simpa using habsolute, hup, owner, howner, hresolved, hinside.2.2⟩

/-- A reference that is resolved stays in the directory that owns it. -/
theorem CanonicalPaths.inside {fs : FileSystem} (hfs : CanonicalPaths fs)
    {directory referencedPath resolved : Path} {description : String}
    (h : resolveOwnedPath fs directory referencedPath description = .ok resolved) :
    ∃ owner, fs.weaklyCanonical directory = .ok owner ∧ resolved.Inside owner := by
  obtain ⟨-, -, owner, howner, hresolved, hhead⟩ := resolveOwnedPath_eq_ok h
  refine ⟨owner, howner, ?_⟩
  rcases Path.inside_or_leadsUp (hfs.isAbsolute _ _ hresolved) (hfs.isAbsolute _ _ howner)
    (hfs.plain _ _ howner) with hinside | hup
  · exact hinside
  · exact absurd hup.head_elements hhead

/-- The file is in the directory, both as canonical paths. -/
def Confined (fs : FileSystem) (directory : Path) (path : String) : Prop :=
  ∃ owner p resolved, fs.weaklyCanonical directory = .ok owner ∧
    fs.weaklyCanonical p = .ok resolved ∧ resolved.string = path ∧ resolved.Inside owner

theorem CanonicalPaths.confined {fs : FileSystem} (hfs : CanonicalPaths fs)
    {directory referencedPath resolved : Path} {description : String}
    (h : resolveOwnedPath fs directory referencedPath description = .ok resolved) :
    Confined fs directory resolved.string := by
  obtain ⟨owner, howner, hinside⟩ := hfs.inside h
  obtain ⟨-, -, owner', howner', hresolved, -⟩ := resolveOwnedPath_eq_ok h
  obtain rfl := Except.ok.inj (howner.symm.trans howner')
  exact ⟨owner, owner / referencedPath, resolved, howner, hresolved, rfl, hinside⟩

/-- The reference is absolute, goes up, or leads out of its directory by the links on its way. -/
def Escapes (fs : FileSystem) (directory referencedPath : Path) : Prop :=
  referencedPath.isAbsolute = true ∨ ".." ∈ referencedPath.elements ∨
    ∃ owner resolved, fs.weaklyCanonical directory = .ok owner ∧
      fs.weaklyCanonical (owner / referencedPath) = .ok resolved ∧ ¬ resolved.Inside owner

theorem CanonicalPaths.not_escapes {fs : FileSystem} (hfs : CanonicalPaths fs)
    {directory referencedPath resolved : Path} {description : String}
    (h : resolveOwnedPath fs directory referencedPath description = .ok resolved) :
    ¬ Escapes fs directory referencedPath := by
  obtain ⟨owner, howner, hinside⟩ := hfs.inside h
  obtain ⟨habsolute, hup, owner', howner', hresolved, -⟩ := resolveOwnedPath_eq_ok h
  rintro (hescapes | hescapes | ⟨owner₂, resolved₂, howner₂, hresolved₂, hescapes⟩)
  · simp [habsolute] at hescapes
  · exact hup hescapes
  · obtain rfl := Except.ok.inj (howner.symm.trans howner')
    obtain rfl := Except.ok.inj (howner.symm.trans howner₂)
    obtain rfl := Except.ok.inj (hresolved.symm.trans hresolved₂)
    exact hescapes hinside

/-- What is resolved against the directory of a canonical path is inside each directory that
this path is below. -/
theorem CanonicalPaths.inside_of_parent {fs : FileSystem} (hfs : CanonicalPaths fs)
    {p q owner referencedPath resolved : Path} {description : String}
    (hq : fs.weaklyCanonical p = .ok q) (hinside : q.Inside owner) (hne : q.names ≠ owner.names)
    (h : resolveOwnedPath fs q.parentPath referencedPath description = .ok resolved) :
    resolved.Inside owner := by
  obtain ⟨parent, hparent, hresolved⟩ := hfs.inside h
  have hnames : parent.names = q.parentPath.names := hfs.parent p q parent hq hparent
  have hup : q.parentPath.Inside owner := hinside.parentPath hne
  have hparentInside : parent.Inside owner := by
    rw [Path.Inside, hnames]
    exact hup
  exact hresolved.trans hparentInside

end JanaExtensions
