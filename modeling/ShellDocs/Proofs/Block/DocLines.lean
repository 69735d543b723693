import ShellDocs.Proofs.Block.Reads

/-!
# How many lines a block documents

Reading keeps account of lines: plain text is one line and documents one, a quoted string
documents as many lines as it takes, and a here-document documents the lines between its first
line and its marker as they are. `Reads.accounts` states this for every reading, closed or cut
off by the end of the body. It needs lines without newlines, since a quoted string is cut at them.
-/

namespace ShellDocs.Block

/-! ## Characters between quotes -/

theorem mem_of_mem_unescape {c : Char} {t : Text} (h : c ∈ unescape t) : c ∈ t := by
  fun_induction unescape t with
  | case1 => exact h
  | case2 => exact h
  | case3 d e rest hprotected ih =>
      rcases List.mem_cons.1 h with rfl | hrest
      · simp
      · exact List.mem_cons_of_mem _ (List.mem_cons_of_mem _ (ih hrest))
  | case4 d e rest hprotected ih =>
      rcases List.mem_cons.1 h with rfl | hrest
      · simp
      · exact List.mem_cons_of_mem _ (ih hrest)

/-- Reading between quotes adds no characters. -/
theorem mem_of_mem_unquote {c : Char} {quote : Quote} {t : Text} (h : c ∈ unquote quote t) :
    c ∈ t := by
  cases quote with
  | single => exact h
  | double => exact mem_of_mem_unescape h

/-- Cutting off a closing quote adds no characters. -/
theorem mem_of_mem_cutClosing {c : Char} {quote : Quote} {t : Text} (h : c ∈ cutClosing quote t) :
    c ∈ t := by
  apply Text.mem_of_mem_dropTailBlanks
  simp only [cutClosing] at h
  split at h
  · exact List.dropLast_subset _ (List.dropLast_subset _ h)
  · exact List.dropLast_subset _ h

/-- No newline comes of reading between quotes. -/
theorem unquote_newline_free {t : Text} (h : '\n' ∉ t) (quote : Quote) :
    '\n' ∉ unquote quote t :=
  fun hmem => h (mem_of_mem_unquote hmem)

/-- No newline comes of cutting off a closing quote. -/
theorem cutClosing_newline_free {t : Text} (h : '\n' ∉ t) (quote : Quote) :
    '\n' ∉ cutClosing quote t :=
  fun hmem => h (mem_of_mem_cutClosing hmem)

/-- A quoted block documents its lines, each with its escapes read. -/
theorem docLines_quoted {lines : List Text} (hne : lines ≠ []) (h : ∀ line ∈ lines, '\n' ∉ line)
    (quote : Quote) (multiline : Bool) :
    docLines (.quoted quote (Text.joinNewlines (lines.map (unquote quote))) multiline) =
      lines.map (unquote quote) := by
  refine Text.splitNewlines_joinNewlines (by simpa using hne) fun line hline => ?_
  obtain ⟨source, hsource, rfl⟩ := List.mem_map.1 hline
  exact unquote_newline_free (h source hsource) quote

/-- A string on one line documents one line. -/
theorem docLines_quotedLine {t : Text} (h : '\n' ∉ t) (quote : Quote) (multiline : Bool) :
    docLines (.quoted quote (unquote quote t) multiline) = [unquote quote t] :=
  Text.fields_eq_singleton (unquote_newline_free h quote)

/-- What a string documents that is closed on a later line than its first. -/
theorem docLines_closed {renderer line first final : Text} {quote : Quote} {body : List Text}
    (ho : Opening.of? renderer false line = some (.quoted quote first))
    (hlines : ∀ l ∈ body ++ [final], '\n' ∉ l) :
    docLines (.quoted quote (Text.joinNewlines
        ((first :: (body ++ [cutClosing quote final])).map (unquote quote))) true) =
      (first :: (body ++ [cutClosing quote final])).map (unquote quote) := by
  refine docLines_quoted (List.cons_ne_nil first _) (fun l hl => ?_) quote true
  simp only [List.mem_cons, List.mem_append, List.not_mem_nil, or_false] at hl
  rcases hl with rfl | hl | rfl
  · exact Opening.quoted_newline_free ho
  · exact hlines l (by simp [hl])
  · exact cutClosing_newline_free (hlines final (by simp)) quote

/-- What a string documents that is not closed. -/
theorem docLines_open {renderer line first : Text} {quote : Quote} {body : List Text}
    (ho : Opening.of? renderer false line = some (.quoted quote first))
    (hlines : ∀ l ∈ body, '\n' ∉ l) :
    docLines (.quoted quote (Text.joinNewlines ((first :: body).map (unquote quote))) true) =
      (first :: body).map (unquote quote) := by
  refine docLines_quoted (List.cons_ne_nil first body) (fun l hl => ?_) quote true
  rcases List.mem_cons.1 hl with rfl | hl
  · exact Opening.quoted_newline_free ho
  · exact hlines l hl

/-! ## Accounts -/

/-- What a block that takes the lines `taken` holds of them; `cut` is what is known when a
here-document has no marker line. -/
def Accounts (taken : List Text) (cut : Prop) : Block → Prop
  | .plain text => taken.length = 1 ∧ (Block.plain text).docLines.length = 1
  | .quoted quote text multiline =>
      (Block.quoted quote text multiline).docLines.length = taken.length
  | .hereDoc marker lines =>
      let docs := (Block.hereDoc marker lines).docLines
      Unmarked marker docs ∧
        ((∃ line mark, taken = line :: (docs ++ [mark]) ∧ Text.skipBlanks mark = marker) ∨
          cut ∧ ∃ line, taken = line :: docs)

variable {renderer : Text} {last : Bool} {taken : List Text} {block : Block}

/-- What is known of a here-document without its marker can be replaced by what follows from it. -/
theorem Accounts.mono {cut other : Prop} (h : block.Accounts taken cut) (himp : cut → other) :
    block.Accounts taken other := by
  cases block with
  | plain text => exact h
  | quoted quote text multiline => exact h
  | hereDoc marker body =>
      obtain ⟨hbody, hmark | ⟨hcut, hline⟩⟩ := h
      · exact ⟨hbody, .inl hmark⟩
      · exact ⟨hbody, .inr ⟨himp hcut, hline⟩⟩

/-- The lines of a reading are all accounted for, and a here-document without a marker line is
at the end of the body. -/
theorem Reads.accounts (h : Reads renderer last taken block)
    (hlines : ∀ line ∈ taken, '\n' ∉ line) : block.Accounts taken (last = true) := by
  cases h with
  | plain line text ho => exact ⟨rfl, rfl⟩
  | hereDoc line marker body mark ho hbody hmark =>
      exact ⟨hbody, .inl ⟨line, mark, rfl, hmark⟩⟩
  | hereDocOpen line marker body ho hbody hend =>
      exact ⟨hbody, .inr ⟨hend, line, rfl⟩⟩
  | quotedLine line quote first ho hfirst =>
      have hfree := cutClosing_newline_free (Opening.quoted_newline_free ho) quote
      simp only [Accounts]
      rw [docLines_quotedLine hfree]
      rfl
  | quoted line quote first body final ho hbody hfinal =>
      simp only [Accounts]
      rw [docLines_closed ho fun l hl => hlines l (List.mem_cons_of_mem line hl)]
      simp
  | quotedOpen line quote first body ho hbody hfinal hend =>
      simp only [Accounts]
      rw [docLines_open ho fun l hl => hlines l (List.mem_cons_of_mem line hl)]
      simp

/-- A string whose lines run to the end of a body is read from all of them. Only its last line
depends on whether the string is closed there. -/
theorem Reads.exists_quoted_last {line first : Text} {quote : Quote} {body : List Text}
    (ho : Opening.of? renderer false line = some (.quoted quote first))
    (hbody : Unclosed quote (first :: body).dropLast) (hlines : ∀ l ∈ body, '\n' ∉ l) :
    ∃ block, Reads renderer true (line :: body) block ∧
      block.docLines.length = body.length + 1 ∧
      block.docLines.dropLast = ((first :: body).dropLast).map (unquote quote) := by
  obtain ⟨init, final, hsplit⟩ : ∃ init final, first :: body = init ++ [final] :=
    ⟨_, _, (List.dropLast_concat_getLast (List.cons_ne_nil first body)).symm⟩
  have hinit : Unclosed quote init := by simpa [hsplit] using hbody
  -- The last line closes the string or not, and is one line of documentation in both cases.
  cases hfinal : closes quote true final with
  | false =>
      have hunclosed : Unclosed quote (first :: body) := by
        intro l hl
        rw [hsplit] at hl
        rcases List.mem_append.1 hl with hl | hl
        · exact hinit l hl
        · rw [List.mem_singleton.1 hl]
          exact closes_false_of_eq_false hfinal
      have hlast : ∀ l, (first :: body).getLast? = some l → closes quote true l = false := by
        intro l hl
        rw [hsplit, List.getLast?_concat] at hl
        cases hl
        exact hfinal
      refine ⟨_, .quotedOpen _ _ _ _ ho hunclosed hlast rfl, ?_⟩
      rw [docLines_open ho hlines, List.map_dropLast]
      exact ⟨by simp, rfl⟩
  | true =>
      cases init with
      | nil =>
          cases hsplit
          refine ⟨_, .quotedLine _ _ _ ho hfinal, ?_⟩
          have hfirst := cutClosing_newline_free (Opening.quoted_newline_free ho) quote
          rw [docLines_quotedLine hfirst]
          exact ⟨rfl, rfl⟩
      | cons head mid =>
          rw [List.cons_append] at hsplit
          obtain ⟨rfl, rfl⟩ := List.cons.inj hsplit
          refine ⟨_, .quoted _ _ _ _ _ ho hinit hfinal, ?_⟩
          rw [docLines_closed ho hlines, ← List.map_dropLast]
          rw [← List.cons_append, ← List.cons_append, List.dropLast_concat, List.dropLast_concat]
          exact ⟨by simp, rfl⟩

end ShellDocs.Block
