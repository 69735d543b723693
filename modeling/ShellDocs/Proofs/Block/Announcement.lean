import ShellDocs.Proofs.Block.Recognition

/-!
# Lines that announce a here-document

The recognisers of a here-document's first line accept exactly what can be written. Whatever is
found after a lead and a colon was written with one (`exists_of_afterColon?`), and whatever is
found as a marker was written in one of its forms (`exists_of_marker?`). A line is malformed when
it announces a here-document and no marker (`Opening.of?_eq_malformed_iff`).
-/

namespace ShellDocs.Block

/-- The line announces a here-document, with `rest` after the sign; a third `<` would make it a
here-string. -/
def Announces (line rest : Text) : Prop :=
  (∃ (lead : Lead) (gap : Gap), line = lead.text ++ ':' :: (gap.1 ++ '<' :: '<' :: rest)) ∧
    rest.head? ≠ some '<'

/-- The line announces a here-document together with its marker. -/
def AnnouncesMarker (line : Text) : Prop :=
  ∃ (form : MarkerForm) (marker : Marker) (after : Blanks),
    Announces line (form.text marker.1 ++ after.1)

/-- The line announces a here-document, but no form of a marker follows. -/
def AnnouncesNoMarker (line : Text) : Prop :=
  (∃ rest, Announces line rest) ∧ ¬ AnnouncesMarker line

variable {line rest t marker : Text}

/-! ## The colon -/

/-- Only blanks are skipped. -/
theorem exists_blanks {c : Char} (h : Text.skipBlanks line = c :: t) :
    ∃ blanks : Blanks, line = blanks.1 ++ c :: t := by
  obtain ⟨blanks, hblank, hline⟩ := Text.exists_blanks_append line
  rw [h] at hline
  exact ⟨⟨blanks, hblank⟩, hline⟩

/-- What is skipped before a colon is a lead. -/
theorem exists_lead_of_skipLead (h : skipLead line = ':' :: t) :
    ∃ lead : Lead, line = lead.text ++ ':' :: t := by
  unfold skipLead at h
  split at h
  · next rest hskip =>
      obtain ⟨indent, rfl⟩ := exists_blanks hskip
      obtain ⟨gap, rfl⟩ := exists_blanks h
      exact ⟨.paren indent gap, by simp [Lead.text]⟩
  · next rest hskip =>
      obtain ⟨indent, rfl⟩ := exists_blanks hskip
      split at h
      · next more hand =>
          obtain ⟨gap, rfl⟩ := exists_blanks hand
          obtain ⟨after, rfl⟩ := exists_blanks h
          exact ⟨.never indent gap after, by simp [Lead.text]⟩
      · cases h
  · obtain ⟨indent, rfl⟩ := exists_blanks h
    exact ⟨.bare indent, rfl⟩

/-- What is found after the colon stands after a lead, the colon and at least one blank. -/
theorem exists_of_afterColon? (h : afterColon? line = some t) :
    ∃ (lead : Lead) (gap : Gap), line = lead.text ++ ':' :: (gap.1 ++ t) := by
  unfold afterColon? at h
  split at h
  · next c rest hlead =>
      split at h
      · next hc =>
          obtain ⟨lead, rfl⟩ := exists_lead_of_skipLead hlead
          obtain ⟨blanks, hblank, hrest⟩ := Text.exists_blanks_append rest
          obtain rfl := Option.some.inj h
          have hgap : ∀ d ∈ c :: blanks, Text.isBlank d = true := by
            simpa using ⟨hc, hblank⟩
          refine ⟨lead, ⟨c :: blanks, List.cons_ne_nil c blanks, hgap⟩, ?_⟩
          rw [List.cons_append, ← hrest]
      · cases h
  · cases h

/-- A here-document is found announced exactly where one is. -/
theorem hereDocRest?_afterColon?_iff :
    (afterColon? line).bind hereDocRest? = some rest ↔ Announces line rest := by
  constructor
  · intro h
    obtain ⟨t, hcolon, hrest⟩ := Option.bind_eq_some_iff.1 h
    obtain ⟨lead, gap, rfl⟩ := exists_of_afterColon? hcolon
    unfold hereDocRest? at hrest
    split at hrest
    · split at hrest
      · cases hrest
      · next hhead =>
          obtain rfl := Option.some.inj hrest
          exact ⟨⟨lead, gap, rfl⟩, hhead⟩
    · cases hrest
  · rintro ⟨⟨lead, gap, rfl⟩, hhead⟩
    rw [afterColon?_text lead gap (by decide)]
    simp [hereDocRest?, hhead]

theorem Announces.rest_unique {other : Text} (h : Announces line rest)
    (hother : Announces line other) : other = rest := by
  rw [← hereDocRest?_afterColon?_iff] at h hother
  exact Option.some.inj (hother.symm.trans h)

/-! ## The marker -/

/-- Without a newline, a line ends after blanks only. -/
theorem blanks_of_isLineEnd (hfree : '\n' ∉ t)
    (h : Definition.isLineEnd (Text.skipBlanks t) = true) : ∀ c ∈ t, Text.isBlank c = true := by
  rw [← Text.skipBlanks_eq_nil]
  simp only [Definition.isLineEnd, Bool.or_eq_true, List.isEmpty_iff, beq_iff_eq] at h
  rcases h with hnil | hnewline
  · exact hnil
  · exact absurd (Text.mem_of_mem_skipBlanks (hnewline ▸ List.mem_singleton_self '\n')) hfree

theorem exists_of_bareMarker? (hfree : '\n' ∉ t) (h : bareMarker? t = some marker) :
    ∃ after : Blanks, t = marker ++ after.1 := by
  simp only [bareMarker?] at h
  split at h
  · next hcond =>
      obtain rfl := Option.some.inj h
      have hrest : '\n' ∉ t.dropWhile isMarkerChar :=
        fun hmem => hfree ((List.dropWhile_suffix _).subset hmem)
      rw [Bool.and_eq_true] at hcond
      exact ⟨⟨_, blanks_of_isLineEnd hrest hcond.2⟩, List.takeWhile_append_dropWhile.symm⟩
  · cases h

theorem exists_of_quotedMarker? {quote : Char} (hfree : '\n' ∉ t)
    (h : quotedMarker? quote t = some marker) :
    ∃ after : Blanks, t = marker ++ quote :: after.1 := by
  simp only [quotedMarker?] at h
  split at h
  · next c rest hdrop =>
      split at h
      · next hcond =>
          obtain ⟨rfl, -, hend⟩ := hcond
          obtain rfl := Option.some.inj h
          have hsuffix : c :: rest <:+ t := hdrop ▸ List.dropWhile_suffix _
          have hrest : '\n' ∉ rest :=
            fun hmem => hfree (hsuffix.subset (List.mem_cons_of_mem c hmem))
          refine ⟨⟨rest, blanks_of_isLineEnd hrest hend⟩, ?_⟩
          show t = t.takeWhile isMarkerChar ++ c :: rest
          rw [← hdrop, List.takeWhile_append_dropWhile]
      · cases h
  · cases h

/-- A quote character is one of the two quotes. -/
theorem Quote.char_of_ofChar? {c : Char} {quote : Quote} (h : Quote.ofChar? c = some quote) :
    quote.char = c := by
  simp only [Quote.ofChar?] at h
  split at h
  · next hc =>
      cases h
      exact hc.symm
  · split at h
    · next hc =>
        cases h
        exact hc.symm
    · cases h

/-- Behind dash and blank, a marker is found between two equal quotes or none. -/
theorem exists_of_core {c : Char} (hfree : '\n' ∉ c :: t)
    (h : (if (Quote.ofChar? c).isSome then quotedMarker? c t else bareMarker? (c :: t)) =
      some marker) :
    ∃ (quote : Option Quote) (after : Blanks), c :: t =
      (quote.map Quote.char).toList ++ (marker ++ (quote.map Quote.char).toList) ++ after.1 := by
  split at h
  · next hc =>
      obtain ⟨quote, hquote⟩ := Option.isSome_iff_exists.1 hc
      obtain ⟨after, rfl⟩ :=
        exists_of_quotedMarker? (fun hmem => hfree (List.mem_cons_of_mem c hmem)) h
      exact ⟨some quote, after, by simp [Quote.char_of_ofChar? hquote]⟩
  · obtain ⟨after, hafter⟩ := exists_of_bareMarker? hfree h
    exact ⟨none, after, by simp [hafter]⟩

/-- A dash at the head of a text is passed. -/
theorem exists_of_dash (t : Text) :
    ∃ (dash : Bool) (u : Text), t = (if dash then ['-'] else []) ++ u ∧
      (match t with | '-' :: rest => rest | _ => t) = u := by
  split
  · exact ⟨true, _, rfl, rfl⟩
  · exact ⟨false, _, rfl, rfl⟩

/-- A blank at the head of a text is passed. -/
theorem exists_of_blank (t : Text) :
    ∃ (blank : Option {c : Char // Text.isBlank c = true}) (u : Text),
      t = (blank.map Subtype.val).toList ++ u ∧
        (match t with | c :: rest => if Text.isBlank c then rest else t | [] => t) = u := by
  split
  · next c rest =>
      split
      · next hc => exact ⟨some ⟨c, hc⟩, _, rfl, rfl⟩
      · exact ⟨none, _, rfl, rfl⟩
  · exact ⟨none, _, rfl, rfl⟩

/-- A marker is read behind a dash and a blank, as far as they are there. -/
theorem marker?_cases (t : Text) :
    ∃ (dash : Bool) (blank : Option {c : Char // Text.isBlank c = true}) (u : Text),
      t = (if dash then ['-'] else []) ++ ((blank.map Subtype.val).toList ++ u) ∧
      marker? t = match u with
        | c :: rest => if (Quote.ofChar? c).isSome then quotedMarker? c rest else bareMarker? u
        | [] => none := by
  obtain ⟨dash, u, ht, hu⟩ := exists_of_dash t
  obtain ⟨blank, v, huv, hv⟩ := exists_of_blank u
  refine ⟨dash, blank, v, by rw [ht, huv], ?_⟩
  rw [← hv, ← hu]
  rfl

/-- A marker is found in a text only when it was announced in one of its forms. -/
theorem exists_of_marker? (hfree : '\n' ∉ t) (h : marker? t = some marker) :
    ∃ (form : MarkerForm) (name : Marker) (after : Blanks),
      name.1 = marker ∧ t = form.text name.1 ++ after.1 := by
  have hspec := marker?_spec h
  obtain ⟨dash, blank, u, ht, hread⟩ := marker?_cases t
  rw [hread] at h
  cases u with
  | nil => cases h
  | cons c u =>
      obtain ⟨quote, after, hcore⟩ := exists_of_core (fun hmem => hfree (by simp [ht, hmem])) h
      refine ⟨⟨dash, blank, quote⟩, ⟨marker, hspec⟩, after, rfl, ?_⟩
      rw [ht, hcore]
      simp [MarkerForm.text]

/-- A marker is found exactly when one of its forms was announced. -/
theorem marker?_eq_none_iff (hfree : '\n' ∉ line) (h : Announces line rest) :
    marker? rest = none ↔ ¬ AnnouncesMarker line := by
  have hrest : '\n' ∉ rest := by
    obtain ⟨⟨lead, gap, rfl⟩, -⟩ := h
    exact fun hmem => hfree (by simp [hmem])
  constructor
  · rintro hnone ⟨form, marker, after, hmarker⟩
    rw [← h.rest_unique hmarker, marker?_text] at hnone
    cases hnone
  · intro hno
    cases hmarker : marker? rest with
    | none => rfl
    | some marker =>
        obtain ⟨form, name, after, -, rfl⟩ := exists_of_marker? hrest hmarker
        exact absurd ⟨form, name, after, h⟩ hno

/-- A line is malformed exactly when it announces a here-document without a marker. -/
theorem Opening.of?_eq_malformed_iff (hfree : '\n' ∉ line) (renderer : Text) (last : Bool) :
    Opening.of? renderer last line = some .malformed ↔ AnnouncesNoMarker line := by
  constructor
  · intro h
    rcases Opening.of?_cases renderer line with
      ⟨_, _, -, -, hof⟩ | ⟨rest, hrest, hmarker, -⟩ | ⟨_, _, -, hof⟩ | hof
    · simp [hof] at h
    · have hannounces := hereDocRest?_afterColon?_iff.1 hrest
      exact ⟨⟨rest, hannounces⟩, (marker?_eq_none_iff hfree hannounces).1 hmarker⟩
    · simp [hof] at h
    · rw [hof] at h
      obtain ⟨_, -, hplain⟩ := Option.map_eq_some_iff.1 h
      cases hplain
  · rintro ⟨⟨rest, hannounces⟩, hno⟩
    have hmarker := (marker?_eq_none_iff hfree hannounces).2 hno
    simp [Opening.of?, hereDocRest?_afterColon?_iff.2 hannounces, hmarker]

end ShellDocs.Block
