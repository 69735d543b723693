import Mathlib.Data.List.Basic
import ShellDocs.Proofs.Text.Lines
import ShellDocs.Render.Page

/-!
# Documentation that stands elsewhere in the code

A page shows the lines without the indentation they share and without the blank lines at their end
(`page_congr`). So it is the same wherever the documentation stands in the code: all lines but the
first may be moved by the same white space, and blank lines may follow. The main statement is
`page_moved`.
-/

namespace ShellDocs.Render

variable {lines blank rest : List Text} {line p : Text} {n : Nat}

/-! ## The indentation that lines share -/

theorem indentation_append (hp : ∀ c ∈ p, Text.isSpace c = true) (line : Text) :
    indentation (p ++ line) = p.length + indentation line := by
  rw [indentation, List.takeWhile_append_of_pos hp, List.length_append, indentation]

theorem isVoid_append (hp : ∀ c ∈ p, Text.isSpace c = true) (line : Text) :
    Text.isVoid (p ++ line) = Text.isVoid line := by
  have hvoid : p.all Text.isSpace = true := List.all_eq_true.2 hp
  rw [Text.isVoid, List.all_append, hvoid, Bool.true_and, Text.isVoid]

theorem isVoid_drop (h : Text.isVoid line = true) (n : Nat) : Text.isVoid (line.drop n) = true :=
  List.all_eq_true.2 fun _ hc => Text.isSpace_of_isVoid h (List.mem_of_mem_drop hc)

/-- Lines share no indentation just if all of them are blank. -/
theorem commonIndent?_eq_none :
    commonIndent? lines = none ↔ ∀ line ∈ lines, Text.isVoid line = true := by
  simp [commonIndent?]

/-- The indentation that lines share is the least of those that are not blank. -/
theorem commonIndent?_eq_some :
    commonIndent? lines = some n ↔
      (∃ line ∈ lines, Text.isVoid line = false ∧ indentation line = n) ∧
        ∀ line ∈ lines, Text.isVoid line = false → n ≤ indentation line := by
  simp only [commonIndent?, List.min?_eq_some_iff, List.mem_map, List.mem_filter,
    Bool.not_eq_true', forall_exists_index, and_imp, and_assoc]
  refine and_congr_right fun _ => ⟨fun h line hline hvoid => h _ line hline hvoid rfl, ?_⟩
  rintro h _ line hline hvoid rfl
  exact h line hline hvoid

/-- Lines that are moved share more indentation. -/
theorem commonIndent?_map_append (hp : ∀ c ∈ p, Text.isSpace c = true) (lines : List Text) :
    commonIndent? (lines.map (p ++ ·)) = (commonIndent? lines).map (p.length + ·) := by
  cases h : commonIndent? lines with
  | none =>
      rw [commonIndent?_eq_none] at h
      simpa [commonIndent?_eq_none, isVoid_append hp] using h
  | some n =>
      rw [commonIndent?_eq_some] at h
      simpa [commonIndent?_eq_some, isVoid_append hp, indentation_append hp] using h

/-- Blank lines do not count for it. -/
theorem commonIndent?_append_void (h : ∀ line ∈ blank, Text.isVoid line = true)
    (lines : List Text) : commonIndent? (lines ++ blank) = commonIndent? lines := by
  have hnone : blank.filter (!Text.isVoid ·) = [] := by simpa using h
  rw [commonIndent?, List.filter_append, hnone, List.append_nil, commonIndent?]

/-! ## The lines of a page -/

/-- Blank lines at the end are dropped. -/
theorem dropTailVoid_append (h : ∀ line ∈ blank, Text.isVoid line = true) (lines : List Text) :
    dropTailVoid (lines ++ blank) = dropTailVoid lines := by
  rw [dropTailVoid, List.reverse_append,
    List.dropWhile_append_of_pos fun line hline => h line (List.mem_reverse.1 hline), dropTailVoid]

/-- A page shows nothing of the lines but what is left without their common indentation and without
the blank lines at the end. -/
theorem page_congr {lines' : List Text}
    (h : dropTailVoid (dropCommonIndent lines) = dropTailVoid (dropCommonIndent lines'))
    (o : Options) : page o lines = page o lines' := by
  simp only [page, h]

/-- White space in front of all lines but the first is removed with the indentation they share. If
they are all blank they share none, and then they are dropped. -/
theorem dropTailVoid_dropCommonIndent_map (hp : ∀ c ∈ p, Text.isSpace c = true) (first : Text)
    (rest : List Text) :
    dropTailVoid (dropCommonIndent (first :: rest.map (p ++ ·))) =
      dropTailVoid (dropCommonIndent (first :: rest)) := by
  rw [dropCommonIndent, dropCommonIndent, commonIndent?_map_append hp]
  cases h : commonIndent? rest with
  | none =>
      have hvoid := commonIndent?_eq_none.1 h
      have hmoved : ∀ line ∈ rest.map (p ++ ·), Text.isVoid line = true := by
        simpa [isVoid_append hp] using hvoid
      exact (dropTailVoid_append hmoved [first]).trans (dropTailVoid_append hvoid [first]).symm
  | some n =>
      have hdrop : ((·.drop (p.length + n)) ∘ (p ++ ·) : Text → Text) = (·.drop n) := by
        funext line
        simp
      simp only [Option.map_some, List.map_map, hdrop]

/-- Blank lines are dropped at the end, with or without the indentation that the others share. -/
theorem dropTailVoid_dropCommonIndent_append (h : ∀ line ∈ blank, Text.isVoid line = true)
    (lines : List Text) :
    dropTailVoid (dropCommonIndent (lines ++ blank)) = dropTailVoid (dropCommonIndent lines) := by
  cases lines with
  | nil =>
      have hnone : dropCommonIndent blank = blank := by
        cases blank with
        | nil => rfl
        | cons first rest =>
            have hrest := commonIndent?_eq_none.2 (List.forall_mem_cons.1 h).2
            rw [dropCommonIndent, hrest]
      rw [List.nil_append, hnone]
      exact dropTailVoid_append h []
  | cons first rest =>
      rw [List.cons_append, dropCommonIndent, dropCommonIndent, commonIndent?_append_void h]
      cases commonIndent? rest with
      | none => exact dropTailVoid_append h (first :: rest)
      | some n =>
          have hshort : ∀ line ∈ blank.map (·.drop n), Text.isVoid line = true :=
            List.forall_mem_map.2 fun line hline => isVoid_drop (h line hline) n
          simp only [List.map_append, ← List.cons_append]
          exact dropTailVoid_append hshort _

/-- A page is the same when white space stands in front of all lines but the first, and when blank
lines follow. -/
theorem page_moved (o : Options) (hp : ∀ c ∈ p, Text.isSpace c = true)
    (hblank : ∀ line ∈ blank, Text.isVoid line = true) :
    (∀ first rest, page o (first :: rest.map (p ++ ·)) = page o (first :: rest)) ∧
      ∀ lines, page o (lines ++ blank) = page o lines :=
  ⟨fun first rest => page_congr (dropTailVoid_dropCommonIndent_map hp first rest) o,
    fun lines => page_congr (dropTailVoid_dropCommonIndent_append hblank lines) o⟩

/-- A page with a title and a description, which the first line gives. -/
def titled : Options where
  title := some "greet"
  describeFromBody := true
  headingWords := defaultHeadingWords

/-- A blank line in the middle, one that is shorter than the indentation, keeps its place. -/
theorem page_moved_greet :
    (∀ c ∈ "\t ".toList, Text.isSpace c = true) ∧
    (∀ line ∈ [" ".toList, []], Text.isVoid line = true) ∧
    page titled ["Say hello", "\t   Usage: greet", "\t ", "\t     greet you"] =
      page titled ["Say hello", "  Usage: greet", "", "    greet you"] ∧
    page titled ["Say hello", "  Usage: greet", " ", ""] =
      page titled ["Say hello", "  Usage: greet"] ∧
    page titled ["Say hello", "  Usage: greet", "", "    greet you"] =
      ("\n  \x1b[1m\x1b[4mgreet\x1b[0m : Say hello" : Text) ++
        "\n  \x1b[1mUsage\x1b[0m: greet" ++ "\n  \n    greet you\n" := by
  have hp : ∀ c ∈ "\t ".toList, Text.isSpace c = true := List.all_eq_true.1 rfl
  have hblank : ∀ line ∈ [" ".toList, []], Text.isVoid line = true := by decide
  obtain ⟨hmoved, hfollowed⟩ := page_moved titled hp hblank
  exact ⟨hp, hblank, hmoved "Say hello" ["  Usage: greet", "", "    greet you"],
    hfollowed ["Say hello", "  Usage: greet"], by decide +kernel⟩

end ShellDocs.Render
