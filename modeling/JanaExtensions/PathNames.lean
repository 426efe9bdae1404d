import JanaExtensions.Filesystem
import Mathlib.Data.List.TakeWhile

/-! The names that a path goes through, from which separators and their repetitions are left
out, and how the operations on paths act on them. -/

namespace JanaExtensions

namespace Path

def splitNames (chars : List Char) : List (List Char) :=
  (chars.splitOnP (· == '/')).filter (· ≠ [])

/-- The elements of the path but the root and the empty one behind a trailing separator. -/
def names (p : Path) : List String := (splitNames p.string.toList).map String.ofList

theorem elements_eq (p : Path) : p.elements = (if p.isAbsolute then ["/"] else []) ++ p.names ++
    (if p.names ≠ [] ∧ p.string.toList.getLast? = some '/' then [""] else []) := rfl

section Split

variable {chars name : List Char}

@[simp]
theorem splitNames_nil : splitNames [] = [] := by decide

theorem splitNames_append_slash (xs ys : List Char) :
    splitNames (xs ++ '/' :: ys) = splitNames xs ++ splitNames ys := by
  rw [splitNames, List.splitOnP_append_cons xs ys (by decide), List.filter_append]
  rfl

theorem splitNames_name (hslash : '/' ∉ name) (hne : name ≠ []) : splitNames name = [name] := by
  have hsplit : name.splitOnP (· == '/') = [name] :=
    List.splitOnP_eq_singleton fun c hc => by
      rw [beq_eq_false_iff_ne]
      rintro rfl
      exact hslash hc
  simp [splitNames, hsplit, hne]

theorem splitNames_slashes (chars : List Char) {slashes : List Char} (h : ∀ c ∈ slashes, c = '/') :
    splitNames (chars ++ slashes) = splitNames chars := by
  induction slashes generalizing chars with
  | nil => rw [List.append_nil]
  | cons c slashes ih =>
    obtain ⟨rfl, hrest⟩ := List.forall_mem_cons.mp h
    have hnone : splitNames slashes = [] := ih [] hrest
    rw [splitNames_append_slash, hnone, List.append_nil]

theorem slash_notMem_of_mem_splitOnP (chars : List Char) :
    ∀ name ∈ chars.splitOnP (· == '/'), '/' ∉ name := by
  induction chars with
  | nil => simp
  | cons c chars ih =>
    rw [List.splitOnP_cons_eq_if_modifyHead]
    split
    · simpa using ih
    next hc =>
      obtain ⟨first, rest, hsplit⟩ :=
        List.exists_cons_of_ne_nil (List.splitOnP_ne_nil (· == '/') chars)
      rw [hsplit] at ih ⊢
      obtain ⟨hfirst, hrest⟩ := List.forall_mem_cons.mp ih
      refine List.forall_mem_cons.mpr ⟨?_, hrest⟩
      rw [List.mem_cons, not_or]
      exact ⟨fun heq => hc (by simp [← heq]), hfirst⟩

theorem of_mem_splitNames (h : name ∈ splitNames chars) : name ≠ [] ∧ '/' ∉ name := by
  obtain ⟨hmem, hne⟩ := List.mem_filter.mp h
  exact ⟨by simpa using hne, slash_notMem_of_mem_splitOnP chars name hmem⟩

end Split

theorem of_mem_names {p : Path} {name : String} (h : name ∈ p.names) :
    name ≠ "" ∧ '/' ∉ name.toList := by
  obtain ⟨chars, hchars, rfl⟩ := List.mem_map.mp h
  obtain ⟨hne, hslash⟩ := of_mem_splitNames hchars
  refine ⟨fun hempty => hne ?_, by rwa [String.toList_ofList]⟩
  simpa using congrArg String.toList hempty

theorem names_append (p : Path) {name : String} (hslash : '/' ∉ name.toList) (hne : name ≠ "") :
    (p / ⟨name⟩ : Path).names = p.names ++ [name] := by
  have hname : splitNames name.toList = [name.toList] := splitNames_name hslash (by simpa using hne)
  have hrelative : (⟨name⟩ : Path).isAbsolute = false := by
    rw [isAbsolute, beq_eq_false_iff_ne]
    intro hhead
    exact hslash (List.mem_of_mem_head? hhead)
  change (Path.append p ⟨name⟩).names = p.names ++ [name]
  rw [Path.append, hrelative, if_neg (by simp)]
  by_cases hempty : p.string = ""
  · simp [names, hempty, hname]
  · by_cases hlast : p.string.toList.getLast? = some '/'
    · obtain ⟨front, hfront⟩ := List.getLast?_eq_some_iff.mp hlast
      have hp : splitNames p.string.toList = splitNames front := by
        rw [hfront, splitNames_append_slash, splitNames_nil, List.append_nil]
      rw [if_pos (.inr hlast), names, names, hp]
      simp [hfront, splitNames_append_slash, hname]
    · rw [if_neg (by simp [hempty, hlast])]
      simp [names, splitNames_append_slash, hname]

theorem splitNames_last (last : List Char) (h : '/' ∉ last) :
    splitNames last = [] ∨ splitNames last = [last] := by
  by_cases hempty : last = []
  · exact .inl (by rw [hempty, splitNames_nil])
  · exact .inr (splitNames_name h hempty)

/-- Leaving out the last name, and the separators in front of it, from the end of a path. -/
theorem splitNames_front (chars : List Char) :
    let front := (chars.reverse.dropWhile (· ≠ '/')).dropWhile (· = '/')
    splitNames front.reverse = splitNames chars ∨
      splitNames front.reverse = (splitNames chars).dropLast := by
  by_cases hslash : '/' ∈ chars.reverse
  · obtain ⟨last, before, hchars, hlast⟩ := List.eq_append_cons_of_mem hslash
    have hdrop : chars.reverse.dropWhile (· ≠ '/') = '/' :: before := by
      rw [hchars, List.dropWhile_append_of_pos, List.dropWhile_cons_of_neg (by simp)]
      intro c hc
      rw [decide_eq_true_eq]
      rintro rfl
      exact hlast hc
    have hfront : before.reverse = (before.dropWhile (· = '/')).reverse ++
        (before.takeWhile (· = '/')).reverse := by
      rw [← List.reverse_append, List.takeWhile_append_dropWhile]
    have hbefore : splitNames before.reverse = splitNames (before.dropWhile (· = '/')).reverse := by
      rw [hfront, splitNames_slashes]
      intro c hc
      simpa using List.mem_takeWhile_imp (List.mem_reverse.mp hc)
    have hnames : splitNames chars = splitNames (before.dropWhile (· = '/')).reverse ++
        splitNames last.reverse := by
      rw [← List.reverse_reverse chars, hchars, List.reverse_append, List.reverse_cons,
        List.append_assoc, List.singleton_append, splitNames_append_slash, hbefore]
    rw [hdrop, List.dropWhile_cons_of_pos (by simp), hnames]
    rcases splitNames_last last.reverse (by simpa using hlast) with hnone | hone
    · exact .inl (by rw [hnone, List.append_nil])
    · exact .inr (by rw [hone, List.dropLast_concat])
  · have hdrop : chars.reverse.dropWhile (· ≠ '/') = [] := by
      rw [List.dropWhile_eq_nil_iff]
      intro c hc
      rw [decide_eq_true_eq]
      rintro rfl
      exact hslash hc
    rw [hdrop]
    rcases splitNames_last chars (by simpa using hslash) with hnone | hone
    · exact .inl hnone.symm
    · exact .inr (by rw [hone]; rfl)

/-- The parent has the same names, or all but the last one. -/
theorem names_parentPath (p : Path) :
    p.parentPath.names = p.names ∨ p.parentPath.names = p.names.dropLast := by
  have hfront := splitNames_front p.string.toList
  rw [parentPath]
  dsimp only at hfront ⊢
  split
  · exact .inl rfl
  · split
    next hnil =>
      have hslashes : ∀ c ∈ (p.string.toList.reverse.dropWhile (· ≠ '/')).take 1, c = '/' := by
        intro c hc
        simpa using List.dropWhile_eq_nil_iff.mp hnil c (List.mem_of_mem_take hc)
      have hroot : splitNames ((p.string.toList.reverse.dropWhile (· ≠ '/')).take 1) = [] :=
        splitNames_slashes [] hslashes
      simp only [names, String.toList_ofList, hroot, ← List.map_dropLast]
      rw [hnil, List.reverse_nil, splitNames_nil] at hfront
      exact hfront.imp (congrArg _) (congrArg _)
    · simp only [names, String.toList_ofList, ← List.map_dropLast]
      exact hfront.imp (congrArg _) (congrArg _)

end Path

end JanaExtensions
