import ShellDocs.Proofs.Block.Recognition

/-!
# A semicolon behind a line

What a line opens with a semicolon behind it. Every recogniser but the one of plain text passes
the semicolon on to what it finds: to the rest of a here-document's first line, and to the text
after an opening quote (`Opening.semicolon_cases`). Plain text loses it, so plain text with a
semicolon and the last line of a body without one are read alike
(`Opening.of?_plain_semicolon`), and so are strings that end in a quote and a semicolon and in
the quote alone (`closes_semicolon`).
-/

namespace ShellDocs.Block

variable {renderer line first : Text} {quote : Quote}

/-! ## Beginnings -/

theorem skipBlanks_semicolon (t : Text) :
    Text.skipBlanks (t ++ [';']) = Text.skipBlanks t ++ [';'] :=
  Text.dropWhile_concat (by decide) t

theorem skipLead_semicolon (line : Text) : skipLead (line ++ [';']) = skipLead line ++ [';'] := by
  simp only [skipLead, skipBlanks_semicolon]
  generalize Text.skipBlanks line = t
  split
  · next rest heq =>
      obtain ⟨more, rfl, rfl⟩ := Text.exists_of_concat_eq_append ['('] (by decide) heq
      exact skipBlanks_semicolon more
  · next rest heq =>
      obtain ⟨more, rfl, rfl⟩ :=
        Text.exists_of_concat_eq_append ['f', 'a', 'l', 's', 'e'] (by decide) heq
      simp only [List.cons_append, List.nil_append, skipBlanks_semicolon]
      split
      · next rest heq =>
          obtain ⟨tail, hmore, rfl⟩ :=
            Text.exists_of_concat_eq_append ['&', '&'] (by decide) heq
          rw [hmore]
          exact skipBlanks_semicolon tail
      · next hnot =>
          split
          · next tail heq => exact (hnot (tail ++ [';']) (by rw [heq]; rfl)).elim
          · simp
  · next hparen hfalse =>
      split
      · next rest => exact (hparen (rest ++ [';']) rfl).elim
      · next rest => exact (hfalse (rest ++ [';']) rfl).elim
      · rfl

/-- A colon is found alike with a semicolon behind the line. -/
theorem afterColon?_semicolon (line : Text) :
    afterColon? (line ++ [';']) = (afterColon? line).map (· ++ [';']) := by
  simp only [afterColon?, skipLead_semicolon]
  rcases skipLead line with _ | ⟨c, _ | ⟨d, rest⟩⟩
  · rfl
  · by_cases hc : c = ':'
    · subst hc
      rfl
    · simp [hc]
  · by_cases hc : c = ':'
    · subst hc
      simp only [List.cons_append, skipBlanks_semicolon]
      split <;> rfl
    · simp [hc]

theorem hereDocRest?_semicolon (t : Text) :
    hereDocRest? (t ++ [';']) = (hereDocRest? t).map (· ++ [';']) := by
  simp only [hereDocRest?]
  split
  · next rest heq =>
      obtain ⟨more, rfl, rfl⟩ :=
        Text.exists_of_concat_eq_append ['<', '<'] (by decide) heq
      have hhead : (more ++ [';']).head? = some '<' ↔ more.head? = some '<' := by
        cases more <;> simp
      simp only [hhead, List.cons_append, List.nil_append]
      split <;> rfl
  · next hnot =>
      split
      · next rest => exact (hnot (rest ++ [';']) rfl).elim
      · rfl

/-! ## Opening quotes -/

/-- A quote and what follows it, with a semicolon behind that. -/
def withSemicolon (found : Quote × Text) : Quote × Text := (found.1, found.2 ++ [';'])

theorem quotedRest?_semicolon {t : Text} (h : '\n' ∉ t) :
    quotedRest? (t ++ [';']) = (quotedRest? t).map withSemicolon := by
  cases t with
  | nil => rfl
  | cons c rest =>
      have hrest : '\n' ∉ rest := fun hmem => h (List.mem_cons_of_mem c hmem)
      have hmore : '\n' ∉ rest ++ [';'] := by simp [hrest]
      simp only [List.cons_append, quotedRest?, Text.lineContent?_eq_some hrest,
        Text.lineContent?_eq_some hmore]
      cases Quote.ofChar? c <;> rfl

/-- Flags need no more fuel than there are characters. -/
theorem afterFlags?_eq_of_length_lt {fuel fuel' : Nat} {t : Text} (h : t.length < fuel)
    (h' : t.length < fuel') : afterFlags? fuel t = afterFlags? fuel' t := by
  induction fuel generalizing fuel' t with
  | zero => exact absurd h (Nat.not_lt_zero _)
  | succ fuel ih =>
      obtain ⟨fuel', rfl⟩ : ∃ n, fuel' = n + 1 := ⟨fuel' - 1, by omega⟩
      cases t with
      | nil => rfl
      | cons c cs =>
          simp only [afterFlags?]
          have hskip := (List.dropWhile_suffix Text.isBlank (l := c :: cs)).length_le
          split
          · rfl
          · split
            · next rest heq =>
                have hdrop := (List.dropWhile_suffix Char.isAlphanum (l := rest)).length_le
                have hlength : rest.length + 1 ≤ cs.length + 1 := by
                  have hrest := congrArg List.length heq
                  simp only [Text.skipBlanks, List.length_cons] at hrest hskip
                  omega
                simp only [List.length_cons] at h h'
                have hrest : afterFlags? fuel (rest.dropWhile Char.isAlphanum) =
                    afterFlags? fuel' (rest.dropWhile Char.isAlphanum) :=
                  ih (by omega) (by omega)
                rw [hrest]
            · rfl

/-- Flags are passed over alike with a semicolon behind the text. -/
theorem afterFlags?_semicolon (fuel : Nat) (t : Text) :
    afterFlags? fuel (t ++ [';']) = (afterFlags? fuel t).map (· ++ [';']) := by
  induction fuel generalizing t with
  | zero => rfl
  | succ fuel ih =>
      cases t with
      | nil => rfl
      | cons c cs =>
          have hskip := skipBlanks_semicolon (c :: cs)
          rw [List.cons_append] at hskip
          simp only [List.cons_append, afterFlags?, hskip]
          split
          · rfl
          · generalize Text.skipBlanks (c :: cs) = u
            split
            · next rest heq =>
                obtain ⟨more, rfl, rfl⟩ :=
                  Text.exists_of_concat_eq_append ['-'] (by decide) heq
                have htake := Text.takeWhile_concat (p := Char.isAlphanum) (c := ';') (by decide)
                have hdrop := Text.dropWhile_concat (p := Char.isAlphanum) (c := ';') (by decide)
                simp only [htake, hdrop, ih, List.cons_append, List.nil_append]
                split <;> rfl
            · next hnot =>
                split
                · next rest => exact (hnot (rest ++ [';']) rfl).elim
                · rfl

/-- The string of a render command is found alike with a semicolon behind the text. -/
theorem renderRest?_semicolon {t : Text} (h : '\n' ∉ t) (renderer : Text) :
    renderRest? renderer (t ++ [';']) = (renderRest? renderer t).map withSemicolon := by
  cases hafter : Text.after? renderer t with
  | some rest =>
      obtain rfl := Text.after?_eq_some_iff.1 hafter
      have hmore : Text.after? renderer (renderer ++ rest ++ [';']) = some (rest ++ [';']) :=
        Text.after?_eq_some_iff.2 (by rw [List.append_assoc])
      have hfuel : afterFlags? ((rest ++ [';']).length + 1) (rest ++ [';']) =
          (afterFlags? (rest.length + 1) rest).map (· ++ [';']) := by
        have hmuch : rest.length < (rest ++ [';']).length + 1 := by
          rw [List.length_append]
          omega
        rw [afterFlags?_semicolon, afterFlags?_eq_of_length_lt hmuch (Nat.lt_succ_self _)]
      simp only [renderRest?, hmore, hafter, bind, Option.bind_some]
      rw [hfuel]
      cases hflags : afterFlags? (rest.length + 1) rest with
      | none => rfl
      | some found =>
          have hfound : '\n' ∉ found := fun hmem =>
            h (List.mem_append_right _ ((afterFlags?_isSuffix hflags).subset hmem))
          exact quotedRest?_semicolon hfound
  | none =>
      simp only [renderRest?, hafter, bind, Option.bind_none, Option.map_none]
      cases hmore : Text.after? renderer (t ++ [';']) with
      | none => rfl
      | some rest =>
          -- The command would take the semicolon, and then no quote could follow it.
          have heq := Text.after?_eq_some_iff.1 hmore
          rcases List.append_eq_append_iff.1 heq with ⟨more, ht, -⟩ | ⟨beyond, hlead, hbeyond⟩
          · rw [Text.after?_eq_some_iff.2 ht.symm] at hafter
            cases hafter
          · cases beyond with
            | nil =>
                have hnone : Text.after? renderer t = some [] :=
                  Text.after?_eq_some_iff.2 (by simpa using hlead)
                rw [hnone] at hafter
                cases hafter
            | cons c beyond =>
                obtain ⟨-, hnil⟩ := List.cons.inj hbeyond
                obtain rfl := (List.append_eq_nil_iff.1 hnil.symm).2
                rfl

theorem renderOpening?_semicolon {t : Text} (h : '\n' ∉ t) (renderer : Text) :
    renderOpening? renderer (t ++ [';']) = (renderOpening? renderer t).map withSemicolon := by
  induction t with
  | nil =>
      have hrest := renderRest?_semicolon h renderer
      simp only [List.nil_append] at hrest
      simp only [List.nil_append, renderOpening?, hrest]
      cases renderRest? renderer [] <;> rfl
  | cons c t ih =>
      have hrest := renderRest?_semicolon h renderer
      have hlater := ih fun hmem => h (List.mem_cons_of_mem c hmem)
      simp only [List.cons_append] at hrest
      simp only [List.cons_append, renderOpening?, hrest, hlater]
      cases renderRest? renderer (c :: t) with
      | some found => rfl
      | none =>
          simp only [Option.map_none]
          split <;> rfl

/-! ## Openings -/

/-- What a line opens with a semicolon behind it and without one: a here-document with the
semicolon, a string alike but for the semicolon in it, or plain text. -/
theorem Opening.semicolon_cases (hline : '\n' ∉ line) (renderer : Text) :
    (∀ last, Opening.of? renderer last (line ++ [';']) = some .malformed ∨
      ∃ marker, Opening.of? renderer last (line ++ [';']) = some (.hereDoc marker)) ∨
    (∃ quote rest, ∀ last,
      Opening.of? renderer last (line ++ [';']) = some (.quoted quote (rest ++ [';'])) ∧
      Opening.of? renderer last line = some (.quoted quote rest)) ∨
    ∀ last, Opening.of? renderer last (line ++ [';']) =
        ((afterColon? line).bind fun t => plainText? last (t ++ [';'])).map .plain ∧
      Opening.of? renderer last line = ((afterColon? line).bind (plainText? last)).map .plain := by
  have hdoc : (afterColon? (line ++ [';'])).bind hereDocRest? =
      ((afterColon? line).bind hereDocRest?).map (· ++ [';']) := by
    rw [afterColon?_semicolon]
    cases afterColon? line with
    | none => rfl
    | some t => simp [hereDocRest?_semicolon]
  have hquote : ((afterColon? (line ++ [';'])).bind quotedRest? <|>
        renderOpening? renderer (line ++ [';'])) =
      ((afterColon? line).bind quotedRest? <|> renderOpening? renderer line).map
        withSemicolon := by
    rw [afterColon?_semicolon, renderOpening?_semicolon hline]
    cases hcolon : afterColon? line with
    | none => simp
    | some t =>
        have ht : '\n' ∉ t := fun hmem => hline ((afterColon?_isSuffix hcolon).subset hmem)
        simp only [Option.map_some, Option.bind_some, quotedRest?_semicolon ht]
        cases quotedRest? t <;> simp
  simp only [Opening.of?, hdoc, hquote]
  cases (afterColon? line).bind hereDocRest? with
  | some rest =>
      refine .inl fun last => ?_
      simp only [Option.map_some]
      cases marker? (rest ++ [';']) <;> simp
  | none =>
      cases ((afterColon? line).bind quotedRest? <|> renderOpening? renderer line) with
      | some found => exact .inr (.inl ⟨found.1, found.2, fun last => ⟨rfl, rfl⟩⟩)
      | none =>
          refine .inr (.inr fun last => ⟨?_, rfl⟩)
          simp only [Option.map_none, afterColon?_semicolon]
          cases afterColon? line <;> rfl

/-- A quoted string opens alike with a semicolon behind the line, which then belongs to the
string. -/
theorem Opening.of?_quoted_semicolon {last : Bool} (hline : '\n' ∉ line)
    (h : Opening.of? renderer last (line ++ [';']) = some (.quoted quote first)) :
    ∃ rest, first = rest ++ [';'] ∧
      Opening.of? renderer last line = some (.quoted quote rest) := by
  rcases Opening.semicolon_cases hline renderer with hdoc | ⟨quote, rest, hquoted⟩ | hplain
  · rcases hdoc last with hof | ⟨marker, hof⟩ <;> cases hof.symm.trans h
  · obtain ⟨hmore, hof⟩ := hquoted last
    cases hmore.symm.trans h
    exact ⟨rest, rfl, hof⟩
  · rw [(hplain last).1] at h
    obtain ⟨_, -, hnone⟩ := Option.map_eq_some_iff.1 h
    cases hnone

/-- Plain text is read alike with its semicolon and without it at the end of a body. -/
theorem plainText?_semicolon {t text : Text} (ht : '\n' ∉ t)
    (hlast : ∀ c, t.getLast? = some c → c ≠ ';' ∧ Text.isBlank c = false)
    (h : plainText? false (t ++ [';']) = some text) : plainText? true t = some text := by
  have hmore : '\n' ∉ t ++ [';'] := by simp [ht]
  rcases List.eq_nil_or_concat t with rfl | ⟨init, c, rfl⟩
  · cases h
  · obtain ⟨hsemicolon, hblank⟩ := hlast c (by simp)
    rw [List.concat_eq_append] at *
    have hhead : ((init ++ [c]) ++ [';']).head? = (init ++ [c]).head? := by
      cases init <;> rfl
    simp only [plainText?, hhead, Text.lineContent?_eq_some hmore, bind, Option.bind_some,
      Text.dropTailBlanks_concat (c := ';') (by decide)] at h
    simp only [plainText?, Text.lineContent?_eq_some ht, bind, Option.bind_some,
      Text.dropTailBlanks_concat hblank]
    obtain ⟨d, hd, h⟩ := Option.bind_eq_some_iff.1 h
    refine Option.bind_eq_some_iff.2 ⟨d, hd, ?_⟩
    split at h
    · cases h
    · next hstart =>
        rw [if_neg hstart]
        simp only [List.dropLast_concat, Bool.false_eq_true, if_false] at h
        split at h
        · cases h
          simp [hsemicolon]
        · cases h

/-- Plain text with its semicolon is the same text without it on the last line. -/
theorem Opening.of?_plain_semicolon {text : Text} (hline : '\n' ∉ line)
    (hlast : ∀ c, line.getLast? = some c → c ≠ ';' ∧ Text.isBlank c = false)
    (h : Opening.of? renderer false (line ++ [';']) = some (.plain text)) :
    Opening.of? renderer true line = some (.plain text) := by
  rcases Opening.semicolon_cases hline renderer with hdoc | ⟨quote, rest, hquoted⟩ | hplain
  · rcases hdoc false with hof | ⟨marker, hof⟩ <;> cases hof.symm.trans h
  · cases (hquoted false).1.symm.trans h
  · rw [(hplain false).1] at h
    rw [(hplain true).2]
    obtain ⟨_, hbind, hsome⟩ := Option.map_eq_some_iff.1 h
    cases hsome
    obtain ⟨t, hcolon, htext⟩ := Option.bind_eq_some_iff.1 hbind
    obtain ⟨lead, rfl⟩ := afterColon?_isSuffix hcolon
    have ht : '\n' ∉ t := fun hmem => hline (List.mem_append_right lead hmem)
    have htail : ∀ c, t.getLast? = some c → c ≠ ';' ∧ Text.isBlank c = false := fun c hc =>
      hlast c (by simp [List.getLast?_append, hc])
    rw [hcolon, Option.bind_some, plainText?_semicolon ht htail htext]
    rfl

/-! ## Ends -/

/-- A line that closes a string with its semicolon closes it at the end of a body without it, and
the same text is left of it. -/
theorem closes_semicolon (h : closes quote false (line ++ [';']) = true) :
    closes quote true line = true ∧
      cutClosing quote line = cutClosing quote (line ++ [';']) := by
  obtain ⟨t, rfl⟩ : ∃ t, line = t ++ [quote.char] := by
    simp only [closes, Bool.false_and, Bool.or_false,
      Text.dropTailBlanks_concat (c := ';') (by decide), Text.endsIn_iff] at h
    obtain ⟨t, ht⟩ := h
    have hcancel : line ++ [';'] = (t ++ [quote.char]) ++ [';'] := by
      rw [← ht, List.append_assoc]
      rfl
    exact ⟨t, List.append_cancel_right hcancel⟩
  have hdrop := Text.dropTailBlanks_concat (Quote.isBlank_char quote) t
  have hopen : Text.endsIn [quote.char, ';'] (t ++ [quote.char]) = false := by
    rw [Bool.eq_false_iff, ne_eq, Text.endsIn_iff]
    rintro ⟨u, hu⟩
    have hlast := congrArg List.getLast? hu
    simp only [List.getLast?_append, List.getLast?_cons_cons, List.getLast?_singleton,
      Option.some_or, Option.some.injEq] at hlast
    cases quote <;> exact absurd hlast (by decide)
  refine ⟨?_, ?_⟩
  · simp [closes, hdrop, Text.endsIn_iff]
  · rw [List.append_assoc, List.singleton_append, cutClosing_append]
    simp [cutClosing, hdrop, hopen]

/-- No marker of a here-document ends in a semicolon. -/
theorem skipBlanks_semicolon_ne {marker : Text} {last : Bool}
    (ho : Opening.of? renderer last first = some (.hereDoc marker)) :
    Text.skipBlanks (line ++ [';']) ≠ marker := by
  obtain ⟨-, hchars⟩ := Opening.marker_spec ho
  rintro rfl
  rw [skipBlanks_semicolon] at hchars
  exact absurd (hchars ';' (by simp)) (by decide)

/-- A guard is one with a semicolon behind it too. -/
theorem isGuard_semicolon (h : isGuard line = true) : isGuard (line ++ [';']) = true := by
  simp only [isGuard, skipBlanks_semicolon] at h ⊢
  split at h
  · next c rest heq => simpa [heq] using h
  · next rest heq => simp [heq]
  · next c rest heq => simpa [heq] using h
  · next c rest heq => simpa [heq] using h
  · cases h

end ShellDocs.Block
