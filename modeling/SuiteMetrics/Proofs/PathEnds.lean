import SuiteMetrics.Proofs.PlainTrees
import SuiteMetrics.Proofs.TextParts

/-!
The name that a path ends with.

What stands behind the last slash of a path is its last name, if it is a name at all
(`EndsWithName`). The path from the root ends with the same name, behind a slash
(`absolute_endsWithName`), and this is its file name (`fileName?_of_endsWithName`).
-/

namespace SuiteMetrics

namespace Text

variable {p : Char → Bool} {s : List Char}

theorem afterLast_append {front back : List Char} {c : Char} (hc : p c = true)
    (plain : ∀ d ∈ back, p d = false) : afterLast p (front ++ c :: back) = back := by
  have behind : ∀ d ∈ back.reverse, (!p d) = true := fun d hd => by
    rw [plain d (List.mem_reverse.1 hd)]
    rfl
  rw [afterLast, List.reverse_append, List.reverse_cons, List.append_assoc, List.singleton_append,
    List.takeWhile_append_of_pos behind, List.takeWhile_cons_of_neg (by simp [hc]), List.append_nil,
    List.reverse_reverse]

/-- Before what stands behind the last character of a class, if it is not the whole text, stands
such a character. -/
theorem afterLast_split (p : Char → Bool) (s : List Char) :
    s = afterLast p s ∨ ∃ front c, p c = true ∧ s = front ++ c :: afterLast p s := by
  have split : s = (s.reverse.dropWhile fun c => !p c).reverse ++ afterLast p s := by
    rw [afterLast, ← List.reverse_append, List.takeWhile_append_dropWhile, List.reverse_reverse]
  cases rest : s.reverse.dropWhile fun c => !p c with
  | nil =>
      rw [rest] at split
      exact .inl split
  | cons c r =>
      have hc := List.head?_dropWhile_not (fun c => !p c) s.reverse
      rw [rest] at hc split
      refine .inr ⟨r.reverse, c, by simpa using hc, ?_⟩
      rwa [List.reverse_cons, List.append_assoc, List.singleton_append] at split

end Text

namespace Files

/-- A path ends with a name: it is the name, or the name stands behind a slash. -/
def EndsWithName (path name : String) : Prop :=
  IsName name ∧ (path = name ∨ ∃ front, path.toList = front ++ '/' :: name.toList)

/-- What stands behind the last slash of a path. -/
def lastPart (path : String) : String := String.ofList (Text.afterLast (· == '/') path.toList)

section

variable {path name : String}

theorem endsWithName_lastPart (named : IsName (lastPart path)) :
    EndsWithName path (lastPart path) := by
  refine ⟨named, ?_⟩
  rcases Text.afterLast_split (· == '/') path.toList with whole | ⟨front, c, hc, split⟩
  · exact .inl (String.toList_inj.1 (by rw [lastPart, String.toList_ofList, ← whole]))
  · rw [beq_iff_eq.1 hc] at split
    exact .inr ⟨front, by rw [lastPart, String.toList_ofList]; exact split⟩

theorem steps_of_isName (named : IsName name) : steps name = [name] := by
  obtain ⟨full, -, -, apart⟩ := named
  have nonempty : name.toList ≠ [] := fun h => full (String.toList_eq_nil_iff.1 h)
  rw [steps, Text.splitAt_eq_splitOn, List.splitOn_eq_singleton apart]
  simp [nonempty]

theorem EndsWithName.names (h : EndsWithName path name) :
    ∃ before, Files.names path = before ++ [name] := by
  obtain ⟨named, rfl | ⟨front, split⟩⟩ := h
  · refine ⟨[], ?_⟩
    rw [Files.names, steps_of_isName named]
    simp [named.2.1]
  · refine ⟨Files.names (String.ofList front), ?_⟩
    have parts : steps path = steps (String.ofList front) ++ steps name := by
      simp only [steps, Text.splitAt_eq_splitOn, split, String.toList_ofList,
        List.splitOn_append_cons_self, List.filter_append, List.map_append]
    rw [Files.names, parts, steps_of_isName named, List.filter_append, Files.names]
    simp [named.2.1]

/-- The name that a path ends with is its file name. -/
theorem fileName?_of_endsWithName (h : EndsWithName path name) : fileName? path = some name := by
  obtain ⟨before, parts⟩ := h.names
  rw [fileName?, parts, List.getLast?_concat]
  split
  · rename_i up
    exact absurd (Option.some.inj up) h.1.2.2.1
  · rfl

theorem EndsWithName.endsWithSlash (h : EndsWithName path name) :
    Files.endsWithSlash path = false := by
  obtain ⟨⟨full, -, -, apart⟩, shape⟩ := h
  have nonempty : name.toList ≠ [] := fun h => full (String.toList_eq_nil_iff.1 h)
  have last : path.toList.getLast? = some (name.toList.getLast nonempty) := by
    rcases shape with rfl | ⟨front, split⟩
    · exact List.getLast?_eq_some_getLast nonempty
    · rw [split, List.getLast?_append, List.getLast?_cons,
        List.getLast?_eq_some_getLast nonempty]
      rfl
  rw [Files.endsWithSlash, last]
  simp only [beq_eq_false_iff_ne, ne_eq, Option.some.injEq]
  rintro same
  exact apart (same ▸ List.getLast_mem nonempty)

/-- Names with slashes between them, behind a slash, end with the last of them behind a slash. -/
theorem endsWith_join (root : String) (before : List String) (name : String) :
    ∃ front, (root ++ "/" ++ join (before ++ [name])).toList = front ++ '/' :: name.toList := by
  by_cases alone : before = []
  · subst alone
    exact ⟨root.toList, by simp [join]⟩
  · refine ⟨root.toList ++ '/' :: (join before).toList, ?_⟩
    rw [join, String.intercalate_append_of_ne_nil alone (List.cons_ne_nil _ _)]
    simp [join]

/-- The path from the root ends with the same name, behind a slash. -/
theorem absolute_endsWithName (h : EndsWithName path name) (directory : String) :
    ∃ front, (absolute directory path).toList = front ++ '/' :: name.toList := by
  obtain ⟨before, parts⟩ := h.names
  have full : (before ++ [name]).isEmpty = false := by simp
  rw [absolute, parts, h.endsWithSlash, full, Bool.false_and, if_neg Bool.false_ne_true,
    Bool.false_or]
  split
  · exact endsWith_join "/" before name
  · split
    · exact endsWith_join "" before name
    · split
      case isTrue slash =>
        obtain ⟨root, split⟩ := List.getLast?_eq_some_iff.1 (beq_iff_eq.1 slash)
        have same : directory = String.ofList root ++ "/" := by
          rw [← String.toList_inj, split]
          simp
        rw [same]
        exact endsWith_join (String.ofList root) before name
      case isFalse => exact endsWith_join directory before name

theorem isAbsolute_append {front : String} (root : isAbsolute front = true) (back : String) :
    isAbsolute (front ++ back) = true := by
  rw [isAbsolute, String.toList_append, List.head?_append, beq_iff_eq.1 root]
  rfl

/-- A path from the root is absolute. -/
theorem isAbsolute_absolute {directory : String} (root : isAbsolute directory = true)
    (path : String) : isAbsolute (absolute directory path) = true := by
  have closed {text : String} (h : isAbsolute text = true) (slash : Bool) :
      isAbsolute (if slash then text ++ "/" else text) = true := by
    cases slash with
    | true => exact isAbsolute_append h "/"
    | false => exact h
  rw [absolute]
  refine closed (isAbsolute_append ?_ _) _
  split
  · decide
  · split
    · decide
    · split
      · exact root
      · exact isAbsolute_append root "/"

end

end Files

end SuiteMetrics
