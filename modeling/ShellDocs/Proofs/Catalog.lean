import ShellDocs.Catalog
import ShellDocs.Proofs.Text.Lines

/-!
# Cutting a text into definitions

`cut_append_closing` says what comes of the lines of an open definition: they are taken up to the
first closing line, and the lines after it are cut on their own. With `signature?_printed` this
gives the catalog of a text that holds one function (`find?_ofText`).
-/

namespace ShellDocs.Catalog

/-! ## Signatures -/

/-- What follows a printed name in its signature. -/
def signatureEnd : Text := " () "

/-- The longest beginning of name characters of a printed signature is the name. -/
theorem takeWhile_printed {name : Text} (h : ∀ c ∈ name, isNameChar c = true) :
    (name ++ signatureEnd).takeWhile isNameChar = name := by
  rw [List.takeWhile_append_of_pos h]
  exact List.append_nil name

theorem dropWhile_printed {name : Text} (h : ∀ c ∈ name, isNameChar c = true) :
    (name ++ signatureEnd).dropWhile isNameChar = signatureEnd := by
  rw [List.dropWhile_append_of_pos h]
  rfl

theorem bareSignature?_printed {name : Text} (hne : name ≠ [])
    (h : ∀ c ∈ name, isNameChar c = true) :
    bareSignature? (name ++ signatureEnd) = some name := by
  have htail : isSignatureTail signatureEnd = true := by decide
  simp [bareSignature?, takeWhile_printed h, dropWhile_printed h, htail, hne]

/-- A blank ends a name. -/
theorem isNameChar_eq_false_of_isBlank {c : Char} (h : Text.isBlank c = true) :
    isNameChar c = false := by
  simp [isNameChar, Text.isSpace_of_isBlank h]

/-- A printed signature with the keyword at its start has the keyword for its name. -/
theorem afterKeyword?_printed {name rest : Text} (h : ∀ c ∈ name, isNameChar c = true)
    (hrest : afterKeyword? (name ++ signatureEnd) = some rest) : rest = "() ".toList := by
  unfold afterKeyword? at hrest
  split at hrest
  · next c after hafter =>
      by_cases hblank : Text.isBlank c = true
      · rw [if_pos hblank] at hrest
        have hsplit : "function".toList ++ c :: after = name ++ signatureEnd :=
          Text.after?_eq_some_iff.1 hafter
        -- Both sides have the same characters before the first that ends a name.
        have hkeyword : ∀ d ∈ "function".toList, isNameChar d = true :=
          List.all_eq_true.1 rfl
        have hends : (c :: after).dropWhile isNameChar = c :: after := by
          simp [isNameChar_eq_false_of_isBlank hblank]
        have hdrop := congrArg (List.dropWhile isNameChar) hsplit
        rw [dropWhile_printed h, List.dropWhile_append_of_pos hkeyword, hends] at hdrop
        cases hdrop
        cases hrest
        rfl
      · rw [if_neg hblank] at hrest
        cases hrest
  · cases hrest

/-- A printed signature gives its name. -/
theorem signature?_printed {name : Text} (hne : name ≠ [])
    (h : ∀ c ∈ name, isNameChar c = true) : signature? (name ++ signatureEnd) = some name := by
  have hkeyword : (afterKeyword? (name ++ signatureEnd)).bind bareSignature? = none := by
    cases hafter : afterKeyword? (name ++ signatureEnd) with
    | none => rfl
    | some rest =>
        rw [afterKeyword?_printed h hafter]
        decide
  rw [signature?, hkeyword]
  exact bareSignature?_printed hne h

/-- A printed signature stands on a line of its own. -/
theorem openingLines_printed (name : Text) :
    openingLines (name ++ signatureEnd) = [name ++ signatureEnd] := by
  have hstrip : Text.stripEnd (name ++ signatureEnd) = (name ++ [' ', '(']) ++ [')'] := by
    have hsplit : name ++ signatureEnd = (name ++ [' ', '(']) ++ [')', ' '] := by
      simp [signatureEnd]
    have hspace : Text.isSpace ' ' = true := by decide
    have hparen : Text.isSpace ')' = false := by decide
    rw [hsplit]
    simp [Text.stripEnd, Text.dropTail, hspace, hparen]
  have hlast : ((name ++ [' ', '(']) ++ [')']).getLast? ≠ some '\x7b' := by
    rw [List.getLast?_concat]
    decide
  simp only [openingLines, hstrip, if_neg hlast]

theorem opened?_printed {name : Text} (hne : name ≠ []) (h : ∀ c ∈ name, isNameChar c = true) :
    opened? (name ++ signatureEnd) = some ⟨name, [name ++ signatureEnd]⟩ := by
  rw [opened?, signature?_printed hne h, openingLines_printed]
  rfl

/-! ## Definitions in a text -/

/-- An open definition takes the lines up to the first closing line. -/
theorem cut_append_closing {body : List Text} {closing : Text}
    (hbody : ∀ line ∈ body, Definition.isClosing line = false)
    (hclosing : Definition.isClosing closing = true) (d : Definition) (rest : List Text) :
    cut (some d) (body ++ closing :: rest) =
      (⟨d.name, d.lines ++ (body ++ [closing])⟩ :: (cut none rest).1, (cut none rest).2) := by
  induction body generalizing d with
  | nil => simp [cut, hclosing]
  | cons line body ih =>
      have hline : Definition.isClosing line = false := hbody line (by simp)
      have htail := ih (fun l hl => hbody l (List.mem_cons_of_mem line hl))
        ⟨d.name, d.lines ++ [line]⟩
      simp [cut, hline, htail]

/-- The only definition in a text is found under its name. -/
theorem find?_ofText {text : Text} {d : Definition}
    (h : cut none (Text.lines text) = ([d], none)) : (ofText text).find? d.name = some d := by
  simp [ofText, h, insert, find?, empty]

end ShellDocs.Catalog
