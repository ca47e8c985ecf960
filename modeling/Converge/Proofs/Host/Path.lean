import Converge.Host.Path

/-!
# Where paths lead

A file of a directory lies one part further than the directory, however the path of the directory is
written.

Main statement: `Path.resolve_join`.
-/

namespace Converge.Path

/-- Whether a text is the name of a file: one part, which counts and does not lead back. -/
structure IsFileName (name : String) : Prop where
  noStroke : '/' ∉ name.toList
  not_empty : name ≠ ""
  not_point : name ≠ "."
  not_back : name ≠ ".."

variable {name : String}

theorem isAbsolute_iff {path : String} : isAbsolute path = true ↔ ['/'] <+: path.toList := by
  simp [isAbsolute]

theorem IsFileName.isAbsolute (h : IsFileName name) : isAbsolute name = false := by
  refine Bool.eq_false_iff.2 fun habsolute => h.noStroke ?_
  exact (isAbsolute_iff.1 habsolute).subset (List.mem_singleton_self _)

theorem isAbsolute_append {path : String} (rest : String) (h : path.isEmpty = false) :
    isAbsolute (path ++ rest) = isAbsolute path := by
  rw [Bool.eq_iff_iff, isAbsolute_iff, isAbsolute_iff, String.toList_append]
  cases htext : path.toList with
  | nil => simp [String.toList_eq_nil_iff.1 htext] at h
  | cons c cs => simp

theorem exists_of_endsWith_stroke {path : String} (h : path.endsWith "/" = true) :
    ∃ front, path = front ++ "/" := by
  obtain ⟨front, hfront⟩ : ['/'] <:+ path.toList := by
    rw [← String.endsWith_toSlice, String.Slice.endsWith_string_iff, String.copy_toSlice] at h
    exact h
  exact ⟨String.ofList front, String.toList_inj.1 (by simp [← hfront])⟩

/-- The parts of a path that ends in a stroke and then a name. -/
theorem split_stroke (path : String) (h : IsFileName name) :
    split (path ++ "/" ++ name) = split path ++ [name] := by
  have htext : (path ++ "/" ++ name).toList = path.toList ++ '/' :: name.toList := by simp
  rw [split, htext, List.splitOn_append_cons_self, List.splitOn_eq_singleton h.noStroke, split]
  simp

theorem step_name (parts : List String) (h : IsFileName name) :
    step parts name = parts ++ [name] := by
  simp [step, h.not_empty, h.not_point, h.not_back]

/-- A stroke at the end of a path does not count. -/
theorem foldl_step_stroke (parts : List String) (path : String) :
    (split (path ++ "/")).foldl step parts = (split path).foldl step parts := by
  have htext : (path ++ "/").toList = path.toList ++ '/' :: [] := by simp
  rw [split, htext, List.splitOn_append_cons_self, List.splitOn_nil, List.map_append,
    List.foldl_append, split]
  rfl

/-- A file lies one part further than its directory. -/
theorem resolve_join (start : List String) (directory : String) (h : IsFileName name) :
    resolve start (join directory name) = resolve start directory ++ [name] := by
  rw [join, h.isAbsolute, Bool.false_or]
  split
  · next hempty =>
    obtain rfl : directory = "" := String.isEmpty_iff.1 hempty
    have hname : split name = [name] := by simp [split, List.splitOn_eq_singleton h.noStroke]
    rw [resolve, hname, h.isAbsolute]
    exact step_name _ h
  · next hnonempty =>
    have hsome : directory.isEmpty = false := Bool.eq_false_iff.2 hnonempty
    split
    · next hstroke =>
      obtain ⟨front, rfl⟩ := exists_of_endsWith_stroke hstroke
      rw [resolve, resolve, isAbsolute_append name hsome, split_stroke front h,
        List.foldl_append, foldl_step_stroke]
      exact step_name _ h
    · rw [resolve, resolve, String.append_assoc, isAbsolute_append _ hsome, ← String.append_assoc,
        split_stroke directory h, List.foldl_append]
      exact step_name _ h

end Converge.Path
