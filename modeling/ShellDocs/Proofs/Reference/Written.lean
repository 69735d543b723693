import ShellDocs.Proofs.Block.RoundTrip
import ShellDocs.Proofs.Block.Semicolon
import ShellDocs.Reference

/-!
# References as they are written

`Written` is a reference from the writer's side: a command, a path, and quotes around it or none.
The path is found again in the text of the reference (`Written.path?_text`), and the text in the
documentation of a body whose only block is the reference (`Site.documentation`), with a semicolon
behind it or, at the end of the body, without one.
-/

namespace ShellDocs

namespace Block

/-! ## Lines without a newline -/

theorem newline_free_of_blanks {t : Text} (h : ∀ c ∈ t, Text.isBlank c = true) : '\n' ∉ t :=
  fun hmem => absurd (h _ hmem) (by decide)

theorem Lead.newline_free (lead : Lead) : '\n' ∉ lead.text := by
  have hblanks (blanks : Blanks) : '\n' ∉ blanks.1 := newline_free_of_blanks blanks.2
  cases lead with
  | bare indent => exact hblanks indent
  | paren indent gap => simp [Lead.text, hblanks]
  | never indent gap after => simp [Lead.text, hblanks]

end Block

namespace Reference

open Block (Blanks Gap Lead PlainText Silent Opening Scanned Span guardLines newline_free_of_blanks)

/-- A command that shows a file and the path of the file, perhaps between two equal quotes. -/
structure Written where
  command : Text
  known : command ∈ commands
  gap : Gap
  quote : Option Quote
  path : Text
  ne_nil : path ≠ []
  newline_free : '\n' ∉ path
  head_unquoted : ∀ c, path.head? = some c → isQuote c = false
  last_unquoted : ∀ c, path.getLast? = some c → isQuote c = false
  /-- Without quotes a path starts with no white space and ends in no blank. -/
  bare : quote = none → (∀ c, path.head? = some c → Text.isSpace c = false) ∧
    ∀ c, path.getLast? = some c → Text.isBlank c = false

namespace Written

variable (w : Written)

/-- The quote before the path, if there is one. -/
def around : Text := (w.quote.map Quote.char).toList

/-- What stands behind the command. -/
def argument : Text := w.around ++ (w.path ++ w.around)

/-- The text of a reference. -/
def text : Text := w.command ++ (w.gap.1 ++ w.argument)

theorem command_cases : w.command = "docsh" ∨ w.command = "cat" := by
  simpa [commands] using w.known

/-! ## What stands behind the command -/

theorem isQuote_around {c : Char} (h : c ∈ w.around) : isQuote c = true := by
  cases hquote : w.quote with
  | none => simp [around, hquote] at h
  | some quote =>
      have hc : c = quote.char := by simpa [around, hquote] using h
      rw [hc, isQuote, Block.Quote.ofChar?_char]
      rfl

/-- The argument starts with a quote or with the path, and not with white space. -/
theorem argument_head : ∃ c rest, w.argument = c :: rest ∧ Text.isSpace c = false := by
  cases hquote : w.quote with
  | none =>
      obtain ⟨c, rest, hpath⟩ := List.exists_cons_of_ne_nil w.ne_nil
      refine ⟨c, rest, ?_, (w.bare hquote).1 c (by simp [hpath])⟩
      simp [argument, around, hquote, hpath]
  | some quote =>
      refine ⟨quote.char, w.path ++ [quote.char], ?_, ?_⟩
      · simp [argument, around, hquote]
      · cases quote <;> decide

/-- The argument ends in a quote or in the path, and not in a blank. -/
theorem argument_last : ∃ init c, w.argument = init ++ [c] ∧ Text.isBlank c = false := by
  cases hquote : w.quote with
  | none =>
      obtain ⟨init, c, hpath⟩ := (List.eq_nil_or_concat w.path).resolve_left w.ne_nil
      rw [List.concat_eq_append] at hpath
      refine ⟨init, c, ?_, (w.bare hquote).2 c (by simp [hpath])⟩
      simp [argument, around, hquote, hpath]
  | some quote =>
      refine ⟨quote.char :: w.path, quote.char, ?_, Block.Quote.isBlank_char quote⟩
      simp [argument, around, hquote]

theorem newline_free_argument : '\n' ∉ w.argument := by
  have haround : '\n' ∉ w.around := fun h => by
    have := w.isQuote_around h
    contradiction
  simp [argument, haround, w.newline_free]

/-! ## Reading a reference -/

/-- A reference starts with one of two letters. -/
theorem text_head : ∃ c rest, w.text = c :: rest ∧ (c = 'd' ∨ c = 'c') := by
  rcases w.command_cases with hdocsh | hcat
  · exact ⟨'d', _, by rw [text, hdocsh]; rfl, .inl rfl⟩
  · exact ⟨'c', _, by rw [text, hcat]; rfl, .inr rfl⟩

theorem newline_free_text : '\n' ∉ w.text := by
  have hcommand : '\n' ∉ w.command := by
    rcases w.command_cases with hdocsh | hcat
    · rw [hdocsh]
      decide
    · rw [hcat]
      decide
  have hgap : '\n' ∉ w.gap.1 := newline_free_of_blanks w.gap.2.2
  simp [text, hcommand, hgap, w.newline_free_argument]

/-- The command is found, and what stands behind it. -/
theorem afterCommand?_text : afterCommand? w.text = some w.argument := by
  obtain ⟨c, rest, hargument, hspace⟩ := w.argument_head
  have hc : Text.isBlank c = false := by
    cases hblank : Text.isBlank c with
    | false => rfl
    | true =>
        rw [Text.isSpace_of_isBlank hblank] at hspace
        cases hspace
  obtain ⟨b, blanks, hgap⟩ := List.exists_cons_of_ne_nil w.gap.2.1
  have hblank := w.gap.2.2
  rw [hgap] at hblank
  obtain ⟨hb, hblanks⟩ := List.forall_mem_cons.1 hblank
  have hskip : Text.skipBlanks (blanks ++ w.argument) = w.argument := by
    rw [Text.skipBlanks_append hblanks, hargument, Text.skipBlanks_cons hc]
  have hafter : Text.after? w.command w.text = some (b :: (blanks ++ w.argument)) := by
    rw [Text.after?_eq_some_iff, text, hgap, List.cons_append]
  rcases w.command_cases with hdocsh | hcat
  · rw [hdocsh] at hafter
    simp only [afterCommand?, commands, List.findSome?_cons, hafter, hb, hskip, if_true]
  · -- The other command is tried first and does not stand there.
    have hother : Text.after? "docsh" w.text = none := by
      rw [text, hcat]
      simp [Text.after?, List.isPrefixOf?]
    rw [hcat] at hafter
    simp only [afterCommand?, commands, List.findSome?_cons, hother, hafter, hb, hskip, if_true]

/-- The path of a reference is found in its text. -/
theorem path?_text : path? w.text = some w.path := by
  obtain ⟨c, rest, htext, hletter⟩ := w.text_head
  have hskip : skipColon (Text.skipBlanks w.text) = w.text := by
    rw [htext]
    rcases hletter with rfl | rfl
    · rw [Text.skipBlanks_cons (by decide)]
      rfl
    · rw [Text.skipBlanks_cons (by decide)]
      rfl
  obtain ⟨first, more, hargument, hspace⟩ := w.argument_head
  obtain ⟨init, last, hends, hlast⟩ := w.argument_last
  have hhead : w.argument.head? = some first := by rw [hargument, List.head?_cons]
  have hblanks : Text.dropTailBlanks w.argument = w.argument := by
    rw [hends, Text.dropTailBlanks_concat hlast]
  have htrim : Text.trim isQuote w.argument = w.path :=
    Text.trim_append (fun _ => w.isQuote_around) (fun _ => w.isQuote_around) w.ne_nil
      w.head_unquoted w.last_unquoted
  simp [path?, hskip, w.afterCommand?_text, hhead, hspace,
    Text.lineContent?_eq_some w.newline_free_argument, hblanks, htrim]

/-! ## References as plain text -/

/-- A reference as unquoted text. -/
def plain : PlainText where
  text := w.text
  newline_free := w.newline_free_text
  head := by
    obtain ⟨c, rest, htext, rfl | rfl⟩ := w.text_head
    · exact ⟨'d', rest, htext, by decide, by decide⟩
    · exact ⟨'c', rest, htext, by decide, by decide⟩
  not_hereDoc := by
    obtain ⟨c, rest, htext, rfl | rfl⟩ := w.text_head <;> simp [htext, List.cons_prefix_cons]

end Written

/-! ## Bodies -/

/-- A body whose only block is a reference, with the choices that are left open around it. -/
structure Site where
  guard : Option {line : Text // Block.isGuard line = true}
  blanks : List Text
  void : ∀ line ∈ blanks, Text.isVoid line = true
  lead : Lead
  gap : Gap
  reference : Written
  /-- Whether a semicolon ends the line of the reference. -/
  semicolon : Bool
  tail : List Text
  silent : Silent "docsh" tail
  /-- Only at the end of a body, and not behind another one, the semicolon may be missing. -/
  ended : semicolon = false → tail = [] ∧ reference.text.getLast? ≠ some ';'

namespace Site

variable (site : Site)

/-- The line of the reference. -/
def line : Text :=
  site.lead.text ++ ':' ::
    (site.gap.1 ++ (site.reference.text ++ if site.semicolon then [';'] else []))

/-- The lines of the body. -/
def body : List Text :=
  (site.guard.map Subtype.val).toList ++ (site.blanks ++ site.line :: site.tail)

theorem newline_free_line : '\n' ∉ site.line := by
  have hgap : '\n' ∉ site.gap.1 := newline_free_of_blanks site.gap.2.2
  cases hsemicolon : site.semicolon <;>
    simp [line, hsemicolon, site.lead.newline_free, hgap, site.reference.newline_free_text]

/-- The line of a reference is plain text, with its semicolon or without. -/
theorem of?_line : Opening.of? "docsh" site.tail.isEmpty site.line =
    some (.plain site.reference.text) := by
  cases hsemicolon : site.semicolon with
  | true =>
      have hline : site.line =
          site.lead.text ++ ':' :: (site.gap.1 ++ (site.reference.plain.text ++ [';'])) := by
        rw [line, hsemicolon]
        rfl
      rw [hline, Block.of?_plain]
      rfl
  | false =>
      obtain ⟨htail, hlast⟩ := site.ended hsemicolon
      have hline : site.line ++ [';'] =
          site.lead.text ++ ':' :: (site.gap.1 ++ (site.reference.plain.text ++ [';'])) := by
        simp [line, hsemicolon, Written.plain]
      obtain ⟨init, last, hargument, hblank⟩ := site.reference.argument_last
      rw [Written.text, hargument, ← List.append_assoc, ← List.append_assoc,
        List.getLast?_concat] at hlast
      have hends : site.line = site.lead.text ++ ':' :: (site.gap.1 ++
          (site.reference.command ++ (site.reference.gap.1 ++ init))) ++ [last] := by
        simp [line, hsemicolon, Written.text, hargument]
      rw [htail]
      refine Opening.of?_plain_semicolon site.newline_free_line (fun c hc => ?_) ?_
      · rw [hends, List.getLast?_concat] at hc
        obtain rfl := Option.some.inj hc
        exact ⟨fun heq => hlast (congrArg some heq), hblank⟩
      · rw [hline, Block.of?_plain]
        rfl

/-- The documentation of the body is the text of the reference. -/
theorem documentation {d : Definition} (hbody : d.body = site.body) :
    (d.documentation "docsh").result = .ok ⟨[site.reference.text]⟩ := by
  have ho := site.of?_line
  have hguard : guardLines d.body = (site.guard.map Subtype.val).toList.length := by
    rw [hbody]
    exact Block.guardLines_blanks site.guard site.void (Block.isGuard_of_opening ho) site.tail
  have hrest : d.body.drop (guardLines d.body) = site.blanks ++ ([site.line] ++ site.tail) := by
    rw [hguard, hbody, body, List.drop_left]
    rfl
  obtain ⟨stop, htail⟩ := site.silent.scanned (2 + guardLines d.body + site.blanks.length + 1)
  have hscan := Scanned.blanks site.void
    (.block _ [site.line] site.tail _ _ _ _ (.plain _ _ ho) htail)
  rw [← hrest] at hscan
  rw [Definition.documentation_of_scanned hscan]
  rfl

end Site

end Reference

end ShellDocs
