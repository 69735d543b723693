import ShellDocs.Docstring
import ShellDocs.Proofs.Text.Lines

/-!
# Documentation and its text

A text is documentation with the lines that newlines cut it into, and joining them gives the text
back. The one list of lines that is not found again in its text is a single empty line
(`ofText_joinNewlines`): an empty text is no documentation.
-/

namespace ShellDocs.Docstring

variable {docs : Docstring} {t : Text} {lines : List Text}

/-! ## Empty documentation -/

theorem found_eq_true : docs.found = true ↔ docs ≠ .empty := by
  obtain ⟨lines⟩ := docs
  simp [found, empty]

theorem ofText_eq_empty : ofText t = .empty ↔ t = [] := by
  have hpieces := Text.fields_ne_nil '\n' t
  cases t with
  | nil => simp [ofText]
  | cons c rest => simpa [ofText, empty, Text.splitNewlines] using hpieces

/-- A file holds no documentation just if there is nothing in it but newlines. -/
theorem ofFile_eq_empty : ofFile t = .empty ↔ ∀ c ∈ t, c = '\n' := by
  rw [ofFile, ofText_eq_empty, Text.dropTail, List.reverse_eq_nil_iff, List.dropWhile_eq_nil_iff]
  simp

/-! ## Lines and text -/

theorem ofText_of_ne_nil (h : t ≠ []) : ofText t = ⟨Text.splitNewlines t⟩ := by
  simp [ofText, h]

/-- The text of documentation that is made of a text is this text. -/
theorem text_ofText (t : Text) : (ofText t).text = t := by
  by_cases h : t = []
  · subst h
    rfl
  · rw [ofText_of_ne_nil h]
    exact Text.join_fields '\n' t

/-- Texts that are joined by newlines are documentation with the lines of each, unless there is
nothing but one empty text. -/
theorem ofText_joinNewlines_eq_flatMap (hne : lines ≠ []) :
    ofText (Text.joinNewlines lines) = ⟨lines.flatMap Text.splitNewlines⟩ ↔ lines ≠ [[]] := by
  constructor
  · rintro h rfl
    contradiction
  · intro hblank
    have htext : Text.joinNewlines lines ≠ [] := by
      rw [Ne, Text.joinNewlines_eq_nil]
      exact not_or.2 ⟨hne, hblank⟩
    rw [ofText_of_ne_nil htext]
    exact congrArg Docstring.mk (Text.fields_join_eq_flatMap hne)

/-- Lines are found again in the text that they are joined to just if they are lines, and not a
single empty one. -/
theorem ofText_joinNewlines :
    ofText (Text.joinNewlines lines) = ⟨lines⟩ ↔ (∀ line ∈ lines, '\n' ∉ line) ∧ lines ≠ [[]] := by
  by_cases hne : lines = []
  · subst hne
    simp [Text.joinNewlines, Text.join, ofText, empty]
  · by_cases hblank : lines = [[]]
    · subst hblank
      decide
    · rw [(ofText_joinNewlines_eq_flatMap hne).2 hblank, Docstring.mk.injEq,
        ← Text.flatMap_fields_eq_self]
      exact (and_iff_left hblank).symm

end ShellDocs.Docstring
