import ShellDocs.Proofs.Block.Written

/-!
# Recognising what is written

Every line that `Written.lines` starts a block with is recognised as what it is: the lead and the
colon are passed over, plain text is found before its semicolon, a string after the flags of a
render command, and a marker in whichever form it is announced. `Written.reads` puts these
together: what is written is read as the block that was meant.
-/

namespace ShellDocs.Block

/-! ## Leads -/

/-- The lead of a documentation line is skipped. -/
theorem skipLead_text (lead : Lead) (t : Text) : skipLead (lead.text ++ ':' :: t) = ':' :: t := by
  have hcolon : ∀ u : Text, Text.skipBlanks (':' :: u) = ':' :: u :=
    Text.skipBlanks_cons (by decide)
  cases lead with
  | bare indent =>
      have hskip : Text.skipBlanks (indent.1 ++ ':' :: t) = ':' :: t := by
        rw [Text.skipBlanks_append indent.2, hcolon]
      exact skipLead_eq_cons hskip (by decide) (by decide)
  | paren indent gap =>
      have hskip : Text.skipBlanks (indent.1 ++ '(' :: gap.1 ++ ':' :: t) =
          '(' :: (gap.1 ++ ':' :: t) := by
        rw [List.append_assoc, Text.skipBlanks_append indent.2, List.cons_append,
          Text.skipBlanks_cons (by decide)]
      simp only [skipLead, Lead.text, hskip]
      rw [Text.skipBlanks_append gap.2, hcolon]
  | never indent gap after =>
      have hskip : Text.skipBlanks (Lead.text (.never indent gap after) ++ ':' :: t) =
          'f' :: 'a' :: 'l' :: 's' :: 'e' :: (gap.1 ++ '&' :: '&' :: (after.1 ++ ':' :: t)) := by
        simp only [Lead.text, List.append_assoc, List.cons_append]
        rw [Text.skipBlanks_append indent.2, Text.skipBlanks_cons (by decide)]
      have hand : Text.skipBlanks (gap.1 ++ '&' :: '&' :: (after.1 ++ ':' :: t)) =
          '&' :: '&' :: (after.1 ++ ':' :: t) := by
        rw [Text.skipBlanks_append gap.2, Text.skipBlanks_cons (by decide)]
      simp only [skipLead, hskip, hand]
      rw [Text.skipBlanks_append after.2, hcolon]

/-- After the lead and the colon, a documentation line says what follows their blanks. -/
theorem afterColon?_text (lead : Lead) (gap : Gap) {c : Char} (hc : Text.isBlank c = false)
    (t : Text) : afterColon? (lead.text ++ ':' :: (gap.1 ++ c :: t)) = some (c :: t) := by
  obtain ⟨gap, hne, hblank⟩ := gap
  cases gap with
  | nil => exact absurd rfl hne
  | cons b blanks =>
      have hb : Text.isBlank b = true := hblank b (by simp)
      have hskip : Text.skipBlanks (blanks ++ c :: t) = c :: t := by
        rw [Text.skipBlanks_append (fun d hd => hblank d (by simp [hd])), Text.skipBlanks_cons hc]
      simp only [afterColon?, skipLead_text, List.cons_append, hb, if_true, hskip]

/-- The name of the render command starts with a `d`. -/
theorem renderRest?_eq_none {c : Char} (h : c ≠ 'd') (t : Text) :
    renderRest? "docsh" (c :: t) = none := by
  simp [renderRest?, Text.after?, List.isPrefixOf?, Ne.symm h]

/-- A line whose first character after its blanks is no `d` is no render command. -/
theorem renderOpening?_eq_none {line : Text} (h : (Text.skipBlanks line).head? ≠ some 'd') :
    renderOpening? "docsh" line = none := by
  induction line with
  | nil => rfl
  | cons c rest ih =>
      cases hc : Text.isBlank c with
      | true =>
          have hskip : Text.skipBlanks (c :: rest) = Text.skipBlanks rest := by
            simp [Text.skipBlanks, hc]
          have hd : c ≠ 'd' := by
            rintro rfl
            exact absurd hc (by decide)
          rw [renderOpening?, renderRest?_eq_none hd]
          simp only [hc, if_true]
          exact ih (hskip ▸ h)
      | false =>
          rw [Text.skipBlanks_cons hc] at h
          have hd : c ≠ 'd' := fun heq => h (by simp [heq])
          rw [renderOpening?, renderRest?_eq_none hd]
          simp [hc]

/-- A documentation line is no render command. -/
theorem renderOpening?_text (lead : Lead) (t : Text) :
    renderOpening? "docsh" (lead.text ++ ':' :: t) = none := by
  apply renderOpening?_eq_none
  cases lead with
  | bare indent =>
      simp only [Lead.text]
      rw [Text.skipBlanks_append indent.2, Text.skipBlanks_cons (by decide)]
      simp
  | paren indent gap =>
      simp only [Lead.text, List.append_assoc, List.cons_append]
      rw [Text.skipBlanks_append indent.2, Text.skipBlanks_cons (by decide)]
      simp
  | never indent gap after =>
      simp only [Lead.text, List.append_assoc, List.cons_append]
      rw [Text.skipBlanks_append indent.2, Text.skipBlanks_cons (by decide)]
      simp

/-! ## Plain text -/

theorem hereDocRest?_eq_none {t : Text} (h : ¬ ['<', '<'] <+: t) : hereDocRest? t = none := by
  unfold hereDocRest?
  split
  · next rest => exact absurd ⟨rest, rfl⟩ h
  · rfl

theorem PlainText.hereDocRest?_semicolon (content : PlainText) :
    hereDocRest? (content.text ++ [';']) = none := by
  apply hereDocRest?_eq_none
  intro hpre
  apply content.not_hereDoc
  obtain ⟨c, rest, htext, -⟩ := content.head
  rw [htext] at hpre ⊢
  cases rest with
  | nil => simp [List.cons_prefix_cons] at hpre
  | cons d rest => simpa [List.cons_prefix_cons] using hpre

theorem PlainText.plainText?_semicolon (content : PlainText) (last : Bool) :
    plainText? last (content.text ++ [';']) = some content.text := by
  obtain ⟨c, rest, htext, hspace, hquote⟩ := content.head
  have hfree : '\n' ∉ content.text ++ [';'] := by
    simpa using content.newline_free
  have hhead : (content.text ++ [';']).head? = some c := by simp [htext]
  have hne : content.text ≠ [] := by simp [htext]
  simp only [plainText?, bind, hhead, Option.bind_some, hquote, hspace,
    Text.lineContent?_eq_some hfree, Text.dropTailBlanks_concat (c := ';') (by decide)]
  simp [hne]

/-! ## Quoted text -/

theorem Quote.ofChar?_char (quote : Quote) : Quote.ofChar? quote.char = some quote := by
  cases quote <;> rfl

theorem Quote.isBlank_char (quote : Quote) : Text.isBlank quote.char = false := by
  cases quote <;> rfl

/-- A line that ends in the quote and a semicolon has no trailing blanks, and ends in them. -/
theorem endsIn_closing (quote : Quote) (t : Text) :
    Text.dropTailBlanks (t ++ [quote.char, ';']) = t ++ [quote.char, ';'] ∧
      Text.endsIn [quote.char, ';'] (t ++ [quote.char, ';']) = true := by
  refine ⟨?_, Text.endsIn_iff.2 (List.suffix_append _ _)⟩
  simpa using Text.dropTailBlanks_concat (c := ';') (by decide) (t ++ [quote.char])

/-- A written end closes a string wherever it stands. -/
theorem closes_append (quote : Quote) (last : Bool) (t : Text) :
    closes quote last (t ++ [quote.char, ';']) = true := by
  obtain ⟨hdrop, hends⟩ := endsIn_closing quote t
  simp [closes, hdrop, hends]

theorem cutClosing_append (quote : Quote) (t : Text) :
    cutClosing quote (t ++ [quote.char, ';']) = t := by
  obtain ⟨hdrop, hends⟩ := endsIn_closing quote t
  simp only [cutClosing, hdrop, hends, if_true]
  rw [show t ++ [quote.char, ';'] = (t ++ [quote.char]) ++ [';'] by simp, List.dropLast_concat,
    List.dropLast_concat]

theorem quotedRest?_char (quote : Quote) {first : Text} (h : '\n' ∉ first) :
    quotedRest? (quote.char :: first) = some (quote, first) := by
  simp [quotedRest?, Quote.ofChar?_char, Text.lineContent?_eq_some h]

/-- What follows a flag starts with a blank. -/
theorem flagsText_head (flags : List (Gap × Flag)) (gap : Gap) (t : Text) :
    ∃ b u, flagsText flags ++ (gap.1 ++ t) = b :: u ∧ Text.isBlank b = true := by
  have hgap : ∀ (g : Gap) (v : Text), ∃ b u, g.1 ++ v = b :: u ∧ Text.isBlank b = true := by
    rintro ⟨g, hne, hblank⟩ v
    cases g with
    | nil => exact absurd rfl hne
    | cons b g => exact ⟨b, g ++ v, rfl, hblank b (by simp)⟩
  cases flags with
  | nil => exact hgap gap t
  | cons f flags =>
      obtain ⟨b, u, hu, hb⟩ := hgap f.1 ('-' :: f.2.1 ++ (flagsText flags ++ (gap.1 ++ t)))
      refine ⟨b, u, ?_, hb⟩
      rw [← hu]
      simp [flagsText]

theorem isAlphanum_eq_false_of_isBlank {c : Char} (h : Text.isBlank c = true) :
    c.isAlphanum = false := by
  simp only [Text.isBlank, Bool.or_eq_true, beq_iff_eq] at h
  rcases h with rfl | rfl <;> decide

/-- The flags of a render command are passed over, whatever their number. -/
theorem afterFlags?_flagsText (flags : List (Gap × Flag)) (gap : Gap) (quote : Quote) (t : Text)
    {fuel : Nat} (hfuel : flags.length < fuel) :
    afterFlags? fuel (flagsText flags ++ (gap.1 ++ quote.char :: t)) = some (quote.char :: t) := by
  induction flags generalizing fuel with
  | nil =>
      obtain ⟨fuel, rfl⟩ : ∃ n, fuel = n + 1 := ⟨fuel - 1, by simp at hfuel; omega⟩
      obtain ⟨b, u, hu, hb⟩ := flagsText_head [] gap (quote.char :: t)
      have hskip : Text.skipBlanks (b :: u) = quote.char :: t := by
        rw [← hu]
        simp only [flagsText, List.flatMap_nil, List.nil_append]
        rw [Text.skipBlanks_append gap.2.2, Text.skipBlanks_cons (Quote.isBlank_char quote)]
      rw [hu]
      simp only [afterFlags?, hb, hskip]
      cases quote <;> simp [Quote.char]
  | cons f flags ih =>
      obtain ⟨fuel, rfl⟩ : ∃ n, fuel = n + 1 := ⟨fuel - 1, by simp at hfuel; omega⟩
      -- One unit of fuel passes one flag: what follows it starts with a blank, where it ends.
      obtain ⟨b, u, hu, hb⟩ := flagsText_head (f :: flags) gap (quote.char :: t)
      obtain ⟨d, v, hv, hd⟩ := flagsText_head flags gap (quote.char :: t)
      have hskip : Text.skipBlanks (b :: u) = '-' :: (f.2.1 ++ d :: v) := by
        rw [← hu, ← hv]
        simp only [flagsText, List.flatMap_cons, List.append_assoc]
        rw [Text.skipBlanks_append f.1.2.2, List.cons_append, Text.skipBlanks_cons (by decide)]
      have hstop := isAlphanum_eq_false_of_isBlank hd
      have htake : (f.2.1 ++ d :: v).takeWhile Char.isAlphanum = f.2.1 := by
        rw [List.takeWhile_append_of_pos f.2.2.2]
        simp [hstop]
      have hdrop : (f.2.1 ++ d :: v).dropWhile Char.isAlphanum = d :: v := by
        rw [List.dropWhile_append_of_pos f.2.2.2]
        simp [hstop]
      rw [hu]
      simp only [afterFlags?, hb, hskip, htake, hdrop]
      simp only [List.isEmpty_eq_false_iff.2 f.2.2.1]
      rw [← hv]
      simpa using ih (by simp at hfuel; omega)

theorem length_le_flagsText (flags : List (Gap × Flag)) :
    flags.length ≤ (flagsText flags).length := by
  induction flags with
  | nil => simp
  | cons f flags ih =>
      have hcons : flagsText (f :: flags) = f.1.1 ++ '-' :: (f.2.1 ++ flagsText flags) := by
        simp [flagsText]
      rw [hcons]
      simp only [List.length_cons, List.length_append]
      omega

theorem renderOpening?_of_renderRest? {renderer t : Text} {found : Quote × Text}
    (h : renderRest? renderer t = some found) : renderOpening? renderer t = some found := by
  cases t with
  | nil => exact h
  | cons c t => rw [renderOpening?, h]

/-- A string after a render command is found. -/
theorem renderOpening?_render (indent : Blanks) (flags : List (Gap × Flag)) (gap : Gap)
    (quote : Quote) {first : Text} (h : '\n' ∉ first) :
    renderOpening? "docsh" (QuoteLead.text (.render indent flags gap) ++ quote.char :: first) =
      some (quote, first) := by
  obtain ⟨indent, hindent⟩ := indent
  -- The name is tried at every blank of the indent and fails there, since it starts with a `d`.
  induction indent with
  | nil =>
      have hafter := Text.after?_eq_some_iff.2
        (rfl : ("docsh" : Text) ++ (flagsText flags ++ (gap.1 ++ quote.char :: first)) = _)
      have hfuel : flags.length <
          (flagsText flags ++ (gap.1 ++ quote.char :: first)).length + 1 := by
        have hlength := length_le_flagsText flags
        rw [List.length_append]
        omega
      have hflags := afterFlags?_flagsText flags gap quote first hfuel
      have hrest : renderRest? "docsh"
          (("docsh" : Text) ++ (flagsText flags ++ (gap.1 ++ quote.char :: first))) =
          some (quote, first) := by
        simp only [renderRest?, bind, hafter, Option.bind_some, hflags, quotedRest?_char quote h]
      have htext : QuoteLead.text (.render ⟨[], hindent⟩ flags gap) ++ quote.char :: first =
          ("docsh" : Text) ++ (flagsText flags ++ (gap.1 ++ quote.char :: first)) := by
        simp [QuoteLead.text]
      rw [htext]
      exact renderOpening?_of_renderRest? hrest
  | cons b blanks ih =>
      have hb : Text.isBlank b = true := hindent b (by simp)
      have hd : b ≠ 'd' := by
        rintro rfl
        exact absurd hb (by decide)
      have hrest := ih (fun c hc => hindent c (by simp [hc]))
      simp only [QuoteLead.text, List.cons_append] at hrest ⊢
      rw [renderOpening?, renderRest?_eq_none hd]
      simp only [hb, if_true]
      exact hrest

/-- The first line of a quoted block is recognised. -/
theorem QuoteLead.of?_text (lead : QuoteLead) (quote : Quote) {first : Text} (h : '\n' ∉ first)
    (last : Bool) : Opening.of? "docsh" last (lead.text ++ quote.char :: first) =
      some (.quoted quote first) := by
  cases lead with
  | colon lead gap =>
      have hcolon : afterColon? (QuoteLead.text (.colon lead gap) ++ quote.char :: first) =
          some (quote.char :: first) := by
        simpa [QuoteLead.text] using afterColon?_text lead gap (Quote.isBlank_char quote) first
      have hdoc : hereDocRest? (quote.char :: first) = none := by
        cases quote <;> rfl
      simp [Opening.of?, hcolon, hdoc, quotedRest?_char quote h]
  | render indent flags gap =>
      have hrender := renderOpening?_render indent flags gap quote h
      have hcolon : afterColon? (QuoteLead.text (.render indent flags gap) ++ quote.char :: first) =
          none := by
        have hskip : Text.skipBlanks (QuoteLead.text (.render indent flags gap) ++
            quote.char :: first) = 'd' :: (['o', 'c', 's', 'h'] ++
              (flagsText flags ++ (gap.1 ++ quote.char :: first))) := by
          simp only [QuoteLead.text, List.append_assoc]
          rw [Text.skipBlanks_append indent.2]
          exact Text.skipBlanks_cons (by decide) _
        simp [afterColon?, skipLead_eq_cons hskip (by decide) (by decide)]
      simp only [Opening.of?, hcolon, Option.bind_none, hrender]
      rfl

/-! ## Here-documents -/

theorem isMarkerChar_ne {c d : Char} (hc : isMarkerChar c = true) (hd : isMarkerChar d = false) :
    c ≠ d := by
  rintro rfl
  rw [hc] at hd
  cases hd

theorem isBlank_eq_false_of_isMarkerChar {c : Char} (h : isMarkerChar c = true) :
    Text.isBlank c = false := by
  have hspace := isMarkerChar_ne h (d := ' ') (by decide)
  have htab := isMarkerChar_ne h (d := '\t') (by decide)
  simp [Text.isBlank, hspace, htab]

theorem ofChar?_eq_none_of_isMarkerChar {c : Char} (h : isMarkerChar c = true) :
    Quote.ofChar? c = none := by
  have hsingle := isMarkerChar_ne h (d := '\x27') (by decide)
  have hdouble := isMarkerChar_ne h (d := '\x22') (by decide)
  simp [Quote.ofChar?, hsingle, hdouble]

/-- A marker reaches up to a character that markers do not have. -/
theorem span_marker (marker : Marker) {rest : Text}
    (hrest : ∀ c, rest.head? = some c → isMarkerChar c = false) :
    (marker.1 ++ rest).takeWhile isMarkerChar = marker.1 ∧
      (marker.1 ++ rest).dropWhile isMarkerChar = rest := by
  rw [List.takeWhile_append_of_pos marker.2.2, List.dropWhile_append_of_pos marker.2.2]
  cases rest with
  | nil => simp
  | cons c rest => simp [hrest c rfl]

theorem isLineEnd_skipBlanks (after : Blanks) :
    Definition.isLineEnd (Text.skipBlanks after.1) = true := by
  rw [Text.skipBlanks_eq_nil.2 after.2]
  rfl

theorem bareMarker?_marker (marker : Marker) (after : Blanks) :
    bareMarker? (marker.1 ++ after.1) = some marker.1 := by
  have hafter : ∀ c, after.1.head? = some c → isMarkerChar c = false := by
    intro c hc
    cases hmarker : isMarkerChar c with
    | false => rfl
    | true =>
        have hblank := after.2 c (List.mem_of_mem_head? hc)
        rw [isBlank_eq_false_of_isMarkerChar hmarker] at hblank
        cases hblank
  obtain ⟨htake, hdrop⟩ := span_marker marker hafter
  simp [bareMarker?, htake, hdrop, marker.2.1, isLineEnd_skipBlanks]

theorem quotedMarker?_marker (marker : Marker) (quote : Quote) (after : Blanks) :
    quotedMarker? quote.char (marker.1 ++ quote.char :: after.1) = some marker.1 := by
  have hquote : ∀ c, (quote.char :: after.1).head? = some c → isMarkerChar c = false := by
    intro c hc
    obtain rfl := Option.some.inj hc
    cases quote <;> rfl
  obtain ⟨htake, hdrop⟩ := span_marker marker hquote
  simp [quotedMarker?, htake, hdrop, marker.2.1, isLineEnd_skipBlanks]

/-- Without dash and blank, an announced marker starts with a quote or a marker's character, and
it is found there. -/
theorem exists_marker_core (marker : Marker) (quote : Option Quote) (after : Blanks) :
    ∃ c t, (quote.map Quote.char).toList ++
        (marker.1 ++ ((quote.map Quote.char).toList ++ after.1)) = c :: t ∧
      c ≠ '-' ∧ Text.isBlank c = false ∧
      (if (Quote.ofChar? c).isSome then quotedMarker? c t else bareMarker? (c :: t)) =
        some marker.1 := by
  cases quote with
  | some quote =>
      have hdash : quote.char ≠ '-' := by
        cases quote <;> decide
      refine ⟨quote.char, marker.1 ++ quote.char :: after.1, rfl, hdash,
        Quote.isBlank_char quote, ?_⟩
      rw [Quote.ofChar?_char]
      exact quotedMarker?_marker marker quote after
  | none =>
      obtain ⟨c, t, hmarker⟩ := List.exists_cons_of_ne_nil marker.2.1
      have hc := marker.2.2 c (by simp [hmarker])
      have hdash : c ≠ '-' := isMarkerChar_ne hc (by decide)
      have hblank := isBlank_eq_false_of_isMarkerChar hc
      refine ⟨c, t ++ after.1, by simp [hmarker], hdash, hblank, ?_⟩
      rw [ofChar?_eq_none_of_isMarkerChar hc, ← List.cons_append, ← hmarker]
      exact bareMarker?_marker marker after

/-- An announced marker is found, in whichever form and with any blanks after it. -/
theorem marker?_text (form : MarkerForm) (marker : Marker) (after : Blanks) :
    marker? (form.text marker.1 ++ after.1) = some marker.1 := by
  obtain ⟨dash, blank, quote⟩ := form
  obtain ⟨c, t, hcore, hdash, hblank, hread⟩ := exists_marker_core marker quote after
  have htext : MarkerForm.text ⟨dash, blank, quote⟩ marker.1 ++ after.1 =
      (if dash then ['-'] else []) ++ (blank.map Subtype.val).toList ++ c :: t := by
    rw [← hcore]
    simp [MarkerForm.text]
  rw [htext]
  cases blank with
  | none => cases dash <;> simp [marker?, hdash, hblank, hread]
  | some b =>
      have hb : b.1 ≠ '-' := by
        intro heq
        have hblank := b.2
        rw [heq] at hblank
        exact absurd hblank (by decide)
      cases dash <;> simp [marker?, hb, b.2, hread]

/-- The first line of a here-document is recognised. -/
theorem of?_hereDoc (lead : Lead) (gap : Gap) (form : MarkerForm) (content : HereText)
    (last : Bool) : Opening.of? "docsh" last
      (lead.text ++ ':' :: (gap.1 ++ '<' :: '<' :: form.text content.marker)) =
        some (.hereDoc content.marker) := by
  have hcolon := afterColon?_text lead gap (c := '<') (by decide)
    ('<' :: form.text content.marker)
  have hmarker : marker? (form.text content.marker) = some content.marker := by
    have hblanks := marker?_text form content.name ⟨[], by simp⟩
    rwa [List.append_nil] at hblanks
  have hrest : hereDocRest? ('<' :: '<' :: form.text content.marker) =
      some (form.text content.marker) := by
    have hhead : (form.text content.marker).head? ≠ some '<' := by
      intro heq
      obtain ⟨t, ht⟩ := List.head?_eq_some_iff.1 heq
      rw [ht] at hmarker
      cases hmarker
    simp [hereDocRest?, hhead]
  simp [Opening.of?, hcolon, hrest, hmarker]

/-! ## Reading what is written -/

theorem endLast_concat (tail : Text) (lines : List Text) (final : Text) :
    endLast tail (lines ++ [final]) = lines ++ [final ++ tail] := by
  induction lines with
  | nil => rfl
  | cons line lines ih =>
      cases lines with
      | nil => rfl
      | cons next rest =>
          simp only [List.cons_append, endLast] at ih ⊢
          rw [ih]

/-- The lines of a quoted block are read as that block. -/
theorem reads_quoted (lead : QuoteLead) (content : QuotedText) (last : Bool) :
    Reads "docsh" last (Written.quoted lead content).lines (Written.quoted lead content).block := by
  obtain ⟨quote, lines, hne, hfree, hopen⟩ := content
  -- The last line has the closing quote; it may be the first one too.
  cases lines using List.reverseRecOn with
  | nil => exact absurd rfl hne
  | append_singleton body final =>
      have hbody : Unclosed quote body := by simpa using hopen
      have hfinal : '\n' ∉ enquote quote final := enquote_newline_free (hfree final (by simp)) quote
      cases body with
      | nil =>
          have hfirst : '\n' ∉ enquote quote final ++ [quote.char, ';'] := by
            have hchar : '\n' ≠ quote.char := by cases quote <;> decide
            simpa [hchar] using hfinal
          have hopening := lead.of?_text quote hfirst false
          have hread : Reads "docsh" last _ _ :=
            .quotedLine _ _ _ hopening (closes_append quote last _)
          rw [cutClosing_append, unquote_enquote] at hread
          simpa [Written.lines, Written.block, startFirst, endLast, Text.joinNewlines, Text.join]
            using hread
      | cons first body =>
          have hfirst : '\n' ∉ enquote quote first :=
            enquote_newline_free (hfree first (by simp)) quote
          have hopening := lead.of?_text quote hfirst false
          have hunclosed : Unclosed quote (enquote quote first :: body.map (enquote quote)) := by
            intro line hline
            rw [← List.map_cons] at hline
            obtain ⟨source, hsource, rfl⟩ := List.mem_map.1 hline
            exact closes_enquote (hbody source hsource)
          have hread : Reads "docsh" last _ _ := .quoted _ _ _ _ _ hopening hunclosed
            (closes_append quote last (enquote quote final))
          have hmap : (body.map (enquote quote)).map (unquote quote) = body := by
            simp [Function.comp_def, unquote_enquote]
          simp only [cutClosing_append, List.map_cons, List.map_append, unquote_enquote, hmap,
            List.map_nil] at hread
          have hlines : Written.lines
              (.quoted lead ⟨quote, first :: body ++ [final], hne, hfree, hopen⟩) =
              (lead.text ++ quote.char :: enquote quote first) ::
                (body.map (enquote quote) ++ [enquote quote final ++ [quote.char, ';']]) := by
            simp only [Written.lines, List.map_append, List.map_cons, List.map_nil]
            rw [endLast_concat]
            simp [startFirst]
          have hmultiline : decide (1 < (first :: body ++ [final]).length) = true := by simp
          rw [hlines, Written.block, hmultiline]
          exact hread

/-- A plain line is recognised with its semicolon. -/
theorem of?_plain (lead : Lead) (gap : Gap) (content : PlainText) (last : Bool) :
    Opening.of? "docsh" last (lead.text ++ ':' :: (gap.1 ++ (content.text ++ [';']))) =
      some (.plain content.text) := by
  obtain ⟨c, rest, htext, hspace, hquote⟩ := content.head
  have hc : Text.isBlank c = false := by
    cases hblank : Text.isBlank c with
    | false => rfl
    | true =>
        rw [Text.isSpace_of_isBlank hblank] at hspace
        cases hspace
  have hcolon : afterColon? (lead.text ++ ':' :: (gap.1 ++ (content.text ++ [';']))) =
      some (content.text ++ [';']) := by
    rw [htext, List.cons_append]
    exact afterColon?_text lead gap hc _
  have hquoted : quotedRest? (content.text ++ [';']) = none := by
    rw [htext]
    simp [quotedRest?, hquote]
  simp only [Opening.of?, hcolon, Option.bind_some, content.hereDocRest?_semicolon, hquoted,
    renderOpening?_text, content.plainText?_semicolon]
  rfl

/-- What is written is read as the block that was meant, whether or not lines follow it. -/
theorem Written.reads (w : Written) (last : Bool) : Reads "docsh" last w.lines w.block := by
  cases w with
  | plain lead gap content => exact .plain _ _ (of?_plain lead gap content last)
  | quoted lead content => exact reads_quoted lead content last
  | hereDoc lead gap form content indent =>
      obtain ⟨c, t, hmarker⟩ := List.exists_cons_of_ne_nil content.marker_ne_nil
      have hmark : Text.skipBlanks (indent.1 ++ content.marker) = content.marker := by
        have hc := content.marker_chars c (by simp [hmarker])
        rw [Text.skipBlanks_append indent.2, hmarker,
          Text.skipBlanks_cons (isBlank_eq_false_of_isMarkerChar hc)]
      exact .hereDoc _ _ _ _ (of?_hereDoc lead gap form content false) content.unmarked hmark

end ShellDocs.Block
