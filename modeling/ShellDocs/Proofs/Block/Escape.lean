import Mathlib.Data.List.Induction
import ShellDocs.Proofs.Block.DocLines

/-!
# Escapes

`escape` puts a backslash before every character that one protects, and `unescape` reads the text
back. Between double quotes a text is written escaped, and then it closes the string on no line
where it would not close it unescaped.
-/

namespace ShellDocs.Block

/-- The text with a backslash before each character that one protects. -/
def escape (t : Text) : Text := t.flatMap fun c => if isProtected c then ['\x5c', c] else [c]

/-- What is written between quotes for a line: only double quotes know escapes. -/
def enquote : Quote → Text → Text
  | .double, t => escape t
  | .single, t => t

theorem escape_append (t u : Text) : escape (t ++ u) = escape t ++ escape u := by
  simp [escape]

/-- A character other than a backslash stands for itself. -/
theorem unescape_cons {c : Char} (h : c ≠ '\x5c') (t : Text) :
    unescape (c :: t) = c :: unescape t := by
  cases t with
  | nil => rfl
  | cons d rest => simp [unescape, h]

/-- Reading undoes escaping. -/
theorem unescape_escape (t : Text) : unescape (escape t) = t := by
  induction t with
  | nil => rfl
  | cons c t ih =>
      by_cases hc : isProtected c = true
      · have hesc : escape (c :: t) = '\x5c' :: c :: escape t := by simp [escape, hc]
        rw [hesc, unescape, if_pos ⟨rfl, hc⟩, ih]
      · have hesc : escape (c :: t) = c :: escape t := by simp [escape, hc]
        have hslash : c ≠ '\x5c' := by
          rintro rfl
          exact hc (by decide)
        rw [hesc, unescape_cons hslash, ih]

theorem unquote_enquote (quote : Quote) (t : Text) : unquote quote (enquote quote t) = t := by
  cases quote with
  | single => rfl
  | double => exact unescape_escape t

/-! ## What escaping adds -/

theorem enquote_newline_free {t : Text} (h : '\n' ∉ t) (quote : Quote) :
    '\n' ∉ enquote quote t := by
  cases quote with
  | single => exact h
  | double =>
      intro hmem
      obtain ⟨c, hc, hmem⟩ := List.mem_flatMap.1 hmem
      split at hmem
      · rcases List.mem_cons.1 hmem with hslash | hmem
        · exact absurd hslash (by decide)
        · exact h (List.mem_singleton.1 hmem ▸ hc)
      · exact h (List.mem_singleton.1 hmem ▸ hc)

/-- Escaping keeps the last character. -/
theorem escape_concat (t : Text) (c : Char) : ∃ u, escape (t ++ [c]) = u ++ [c] := by
  rw [escape_append]
  by_cases hc : isProtected c = true
  · exact ⟨escape t ++ ['\x5c'], by simp [escape, hc]⟩
  · exact ⟨escape t, by simp [escape, hc]⟩

theorem dropTailBlanks_concat_blank {c : Char} (h : Text.isBlank c = true) (t : Text) :
    Text.dropTailBlanks (t ++ [c]) = Text.dropTailBlanks t := by
  simp [Text.dropTailBlanks, Text.dropTail, h]

/-- A blank is not protected. -/
theorem isProtected_of_isBlank {c : Char} (h : Text.isBlank c = true) : isProtected c = false := by
  simp only [Text.isBlank, Bool.or_eq_true, beq_iff_eq] at h
  rcases h with rfl | rfl <;> decide

/-- Trailing blanks are the same before and after escaping. -/
theorem dropTailBlanks_escape (t : Text) :
    Text.dropTailBlanks (escape t) = escape (Text.dropTailBlanks t) := by
  induction t using List.reverseRecOn with
  | nil => rfl
  | append_singleton t c ih =>
      cases hc : Text.isBlank c with
      | true =>
          have hesc : escape (t ++ [c]) = escape t ++ [c] := by
            simp [escape, isProtected_of_isBlank hc]
          rw [hesc, dropTailBlanks_concat_blank hc, dropTailBlanks_concat_blank hc, ih]
      | false =>
          obtain ⟨u, hu⟩ := escape_concat t c
          rw [Text.dropTailBlanks_concat hc, hu, Text.dropTailBlanks_concat hc]

/-- Escaping does not make a text end in a quote and a semicolon. -/
theorem suffix_of_suffix_escape {quote : Char} {t : Text} (h : [quote, ';'] <:+ escape t) :
    [quote, ';'] <:+ t := by
  obtain ⟨u, hu⟩ := h
  cases t using List.reverseRecOn with
  | nil => simp [escape] at hu
  | append_singleton t c =>
      obtain ⟨v, hv⟩ := escape_concat t c
      have hlast := congrArg List.getLast? (hu.trans hv)
      obtain rfl : ';' = c := by simpa using hlast
      -- The semicolon is written as it is, so the quote ends what stands before it.
      have hquote : u ++ [quote] = escape t := by
        have hsemi : escape [';'] = [';'] := rfl
        rw [escape_append, hsemi] at hu
        have hcut : (u ++ [quote]) ++ [';'] = escape t ++ [';'] := by simpa using hu
        exact List.append_cancel_right hcut
      cases t using List.reverseRecOn with
      | nil => simp [escape] at hquote
      | append_singleton t d =>
          obtain ⟨w, hw⟩ := escape_concat t d
          have hlast := congrArg List.getLast? (hquote.trans hw)
          obtain rfl : quote = d := by simpa using hlast
          exact ⟨t, by simp⟩

/-- A line closes a string when written between quotes only if it does so by itself. -/
theorem closes_enquote {quote : Quote} {t : Text} (h : closes quote false t = false) :
    closes quote false (enquote quote t) = false := by
  cases quote with
  | single => exact h
  | double =>
      cases henquote : closes .double false (enquote .double t) with
      | false => rfl
      | true =>
          simp only [closes, enquote, Bool.false_and, Bool.or_false, Text.endsIn_iff,
            dropTailBlanks_escape] at henquote
          have hsuffix := Text.endsIn_iff.2 (suffix_of_suffix_escape henquote)
          simp [closes, hsuffix] at h

end ShellDocs.Block
