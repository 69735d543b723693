import ShellDocs.Proofs.Block.Opening

/-!
# Reading one block

`Reads renderer last taken block` says which lines are read as which block, without a cursor: the
lines are split into a first line, content and an end, and later lines count only through
`last`, which tells that there are none. `Reads.exists_of_opening` finds such lines at the head of
any body whose first line opens a block, and `Reads.of_false` says that a block with its own end
is read alike wherever it stands.
-/

namespace ShellDocs.Block

/-! ## Here-documents -/

/-- No line is the marker with blanks before it. -/
def Unmarked (marker : Text) (lines : List Text) : Prop :=
  ∀ line ∈ lines, Text.skipBlanks line ≠ marker

instance (marker : Text) (lines : List Text) : Decidable (Unmarked marker lines) :=
  inferInstanceAs (Decidable (∀ line ∈ lines, Text.skipBlanks line ≠ marker))

theorem Unmarked.of_subset {marker : Text} {lines fewer : List Text} (h : Unmarked marker lines)
    (hsub : fewer ⊆ lines) : Unmarked marker fewer :=
  fun line hline => h line (hsub hline)

/-- Lines hold a first marker line, or none at all. -/
theorem exists_mark_or_unmarked (marker : Text) (lines : List Text) :
    (∃ body mark rest, lines = body ++ mark :: rest ∧ Unmarked marker body ∧
      Text.skipBlanks mark = marker) ∨ Unmarked marker lines := by
  cases hfind : lines.find? (fun line => decide (Text.skipBlanks line = marker)) with
  | none =>
      refine .inr fun line hline => ?_
      simpa using List.find?_eq_none.1 hfind line hline
  | some mark =>
      obtain ⟨hmark, body, rest, hlines, hbody⟩ := List.find?_eq_some_iff_append.1 hfind
      refine .inl ⟨body, mark, rest, hlines, fun line hline => ?_, by simpa using hmark⟩
      simpa using hbody line hline

theorem takeHereDoc_append {marker mark : Text} {body : List Text} (hbody : Unmarked marker body)
    (hmark : Text.skipBlanks mark = marker) (rest : List Text) :
    takeHereDoc marker (body ++ mark :: rest) = (body, rest, true) := by
  induction body with
  | nil => simp [takeHereDoc, hmark]
  | cons line body ih =>
      have hline : Text.skipBlanks line ≠ marker := hbody line (by simp)
      have htail := ih (hbody.of_subset (List.subset_cons_self line body))
      simp [takeHereDoc, hline, htail]

theorem takeHereDoc_unmarked {marker : Text} {body : List Text} (hbody : Unmarked marker body) :
    takeHereDoc marker body = (body, [], false) := by
  induction body with
  | nil => rfl
  | cons line body ih =>
      have hline : Text.skipBlanks line ≠ marker := hbody line (by simp)
      have htail := ih (hbody.of_subset (List.subset_cons_self line body))
      simp [takeHereDoc, hline, htail]

/-! ## Quoted strings -/

/-- No line ends in the quote and a semicolon. -/
def Unclosed (quote : Quote) (lines : List Text) : Prop :=
  ∀ line ∈ lines, closes quote false line = false

instance (quote : Quote) (lines : List Text) : Decidable (Unclosed quote lines) :=
  inferInstanceAs (Decidable (∀ line ∈ lines, closes quote false line = false))

theorem Unclosed.of_subset {quote : Quote} {lines fewer : List Text} (h : Unclosed quote lines)
    (hsub : fewer ⊆ lines) : Unclosed quote fewer :=
  fun line hline => h line (hsub hline)

/-- A line that closes a string in the middle of a body closes it at the end too. -/
theorem closes_of_false {quote : Quote} {line : Text} (h : closes quote false line = true)
    (last : Bool) : closes quote last line = true := by
  simp only [closes, Bool.false_and, Bool.or_false] at h
  simp [closes, h]

/-- A line that does not even close a string at the end of a body closes none elsewhere. -/
theorem closes_false_of_eq_false {quote : Quote} {line : Text} {last : Bool}
    (h : closes quote last line = false) : closes quote false line = false := by
  cases hfalse : closes quote false line with
  | false => rfl
  | true => rw [closes_of_false hfalse last] at h; cases h

/-- Lines hold a first one that closes a string, where the last line needs no semicolon, or none
of them does. -/
theorem exists_closing_or_unclosed (quote : Quote) (lines : List Text) :
    (∃ body final rest, lines = body ++ final :: rest ∧ Unclosed quote body ∧
      closes quote rest.isEmpty final = true) ∨
    (Unclosed quote lines ∧
      ∀ line, lines.getLast? = some line → closes quote true line = false) := by
  induction lines with
  | nil => exact .inr ⟨by simp [Unclosed], by simp⟩
  | cons line rest ih =>
      cases hline : closes quote rest.isEmpty line with
      | true => exact .inl ⟨[], line, rest, rfl, by simp [Unclosed], hline⟩
      | false =>
          have hopen := closes_false_of_eq_false hline
          rcases ih with ⟨body, final, after, rfl, hbody, hfinal⟩ | ⟨hrest, hlast⟩
          · refine .inl ⟨line :: body, final, after, rfl, ?_, hfinal⟩
            exact List.forall_mem_cons.2 ⟨hopen, hbody⟩
          · refine .inr ⟨List.forall_mem_cons.2 ⟨hopen, hrest⟩, fun final hfinal => ?_⟩
            cases rest with
            | nil =>
                cases hfinal
                exact hline
            | cons next rest => exact hlast final (by simpa using hfinal)

theorem takeQuoted_append {quote : Quote} {body : List Text} {final : Text} {rest : List Text}
    (hbody : Unclosed quote body) (hfinal : closes quote rest.isEmpty final = true) :
    takeQuoted quote (body ++ final :: rest) = (body ++ [cutClosing quote final], rest, true) := by
  induction body with
  | nil => simp [takeQuoted, hfinal]
  | cons line body ih =>
      have hmore : (body ++ final :: rest).isEmpty = false := by simp
      have hline : closes quote (body ++ final :: rest).isEmpty line = false := by
        rw [hmore]
        exact hbody line (by simp)
      have htail := ih (hbody.of_subset (List.subset_cons_self line body))
      simp [takeQuoted, hline, htail]

theorem takeQuoted_unclosed {quote : Quote} {lines : List Text} (h : Unclosed quote lines)
    (hlast : ∀ line, lines.getLast? = some line → closes quote true line = false) :
    takeQuoted quote lines = (lines, [], false) := by
  induction lines with
  | nil => rfl
  | cons line rest ih =>
      have hline : closes quote rest.isEmpty line = false := by
        cases rest with
        | nil => exact hlast line rfl
        | cons next rest => exact h line (by simp)
      have htail := ih (h.of_subset (List.subset_cons_self line rest)) (fun final hfinal =>
        hlast final (by simp [List.getLast?_cons, hfinal]))
      simp [takeQuoted, hline, htail]

/-! ## Blocks -/

/-- `Reads renderer last taken block` says that the lines `taken` are read as `block`, where
`last` tells that no line of the body follows them. Only then may a block lack its end. -/
inductive Reads (renderer : Text) (last : Bool) : List Text → Block → Prop where
  | plain (line text) :
      Opening.of? renderer last line = some (.plain text) →
      Reads renderer last [line] (.plain text)
  | hereDoc (line marker body mark) :
      Opening.of? renderer false line = some (.hereDoc marker) →
      Unmarked marker body → Text.skipBlanks mark = marker →
      Reads renderer last (line :: (body ++ [mark])) (.hereDoc marker body)
  | hereDocOpen (line marker body) :
      Opening.of? renderer false line = some (.hereDoc marker) →
      Unmarked marker body → last = true →
      Reads renderer last (line :: body) (.hereDoc marker body)
  | quotedLine (line quote first) :
      Opening.of? renderer false line = some (.quoted quote first) →
      closes quote last first = true →
      Reads renderer last [line] (.quoted quote (unquote quote (cutClosing quote first)) false)
  | quoted (line quote first body final) :
      Opening.of? renderer false line = some (.quoted quote first) →
      Unclosed quote (first :: body) → closes quote last final = true →
      Reads renderer last (line :: (body ++ [final]))
        (.quoted quote (Text.joinNewlines
          ((first :: (body ++ [cutClosing quote final])).map (unquote quote))) true)
  | quotedOpen (line quote first body) :
      Opening.of? renderer false line = some (.quoted quote first) →
      Unclosed quote (first :: body) →
      (∀ final, (first :: body).getLast? = some final → closes quote true final = false) →
      last = true →
      Reads renderer last (line :: body)
        (.quoted quote (Text.joinNewlines ((first :: body).map (unquote quote))) true)

variable {renderer : Text} {last : Bool} {taken : List Text} {block : Block}

/-- A block is read from at least one line, and the first of its lines opens it. -/
theorem Reads.exists_opening (h : Reads renderer last taken block) :
    ∃ line rest opening, taken = line :: rest ∧
      Opening.of? renderer last line = some opening ∧ opening ≠ .malformed := by
  cases h with
  | plain line text ho => exact ⟨line, [], _, rfl, ho, by simp⟩
  | hereDoc line marker body mark ho =>
      exact ⟨line, _, _, rfl, Opening.of?_of_false ho last, by simp⟩
  | hereDocOpen line marker body ho =>
      exact ⟨line, _, _, rfl, Opening.of?_of_false ho last, by simp⟩
  | quotedLine line quote first ho =>
      exact ⟨line, _, _, rfl, Opening.of?_of_false ho last, by simp⟩
  | quoted line quote first body final ho =>
      exact ⟨line, _, _, rfl, Opening.of?_of_false ho last, by simp⟩
  | quotedOpen line quote first body ho =>
      exact ⟨line, _, _, rfl, Opening.of?_of_false ho last, by simp⟩

theorem Reads.ne_nil (h : Reads renderer last taken block) : taken ≠ [] := by
  obtain ⟨line, rest, opening, rfl, -⟩ := h.exists_opening
  exact List.cons_ne_nil line rest

/-- A block that has its own end is read alike wherever it stands. -/
theorem Reads.of_false (h : Reads renderer false taken block) (last : Bool) :
    Reads renderer last taken block := by
  cases h with
  | plain line text ho => exact .plain _ _ (Opening.of?_of_false ho last)
  | hereDoc line marker body mark ho hbody hmark => exact .hereDoc _ _ _ _ ho hbody hmark
  | hereDocOpen line marker body ho hbody hend => cases hend
  | quotedLine line quote first ho hfirst =>
      exact .quotedLine _ _ _ ho (closes_of_false hfirst last)
  | quoted line quote first body final ho hbody hfinal =>
      exact .quoted _ _ _ _ _ ho hbody (closes_of_false hfinal last)
  | quotedOpen line quote first body ho hbody hfinal hend => cases hend

/-- A block is read alike at the end of a body and elsewhere, unless it needs the end. -/
theorem Reads.of_imp {other : Bool} (h : Reads renderer last taken block)
    (himp : last = true → other = true) : Reads renderer other taken block := by
  cases last with
  | false => exact h.of_false other
  | true => rwa [himp rfl]

/-- Whenever the first line opens a block, one is read from some of the first lines. -/
theorem Reads.exists_of_opening {line : Text} {rest : List Text} {opening : Opening}
    (ho : Opening.of? renderer rest.isEmpty line = some opening) (hne : opening ≠ .malformed) :
    ∃ taken after block, line :: rest = taken ++ after ∧
      Reads renderer after.isEmpty taken block := by
  cases opening with
  | malformed => exact absurd rfl hne
  | plain text => exact ⟨[line], rest, _, rfl, .plain _ _ ho⟩
  | hereDoc marker =>
      replace ho := Opening.of?_eq_of_ne_plain ho (by simp) false
      rcases exists_mark_or_unmarked marker rest with
        ⟨body, mark, after, rfl, hbody, hmark⟩ | hbody
      · exact ⟨line :: (body ++ [mark]), after, _, by simp, .hereDoc _ _ _ _ ho hbody hmark⟩
      · exact ⟨line :: rest, [], _, by simp, .hereDocOpen _ _ _ ho hbody rfl⟩
  | quoted quote first =>
      replace ho := Opening.of?_eq_of_ne_plain ho (by simp) false
      -- The text after the opening quote counts as the first line of the string.
      rcases exists_closing_or_unclosed quote (first :: rest) with
        ⟨body, final, after, hlines, hbody, hfinal⟩ | ⟨hrest, hlast⟩
      · cases body with
        | nil =>
            cases hlines
            exact ⟨[line], rest, _, rfl, .quotedLine _ _ _ ho hfinal⟩
        | cons first body =>
            cases hlines
            exact ⟨line :: (body ++ [final]), after, _, by simp, .quoted _ _ _ _ _ ho hbody hfinal⟩
      · exact ⟨line :: rest, [], _, by simp, .quotedOpen _ _ _ _ ho hrest hlast rfl⟩

end ShellDocs.Block
