import ShellDocs.Block.Scan
import ShellDocs.Proofs.Text.Lines

/-!
# What a first line can say

Facts about `Opening.of?` that hold of every line. `Opening.of?_cases` says once what a line can
open; only plain text depends on whether the line is the last of its body, and the statements
about the last line follow from that. White space opens nothing, a marker is never empty, and
what follows an opening quote has no newline.
-/

namespace ShellDocs.Block

/-- A line announces a here-document, with a readable marker or without one, or it has an opening
quote, or it is plain text, if anything. -/
theorem Opening.of?_cases (renderer line : Text) :
    (∃ rest marker, (afterColon? line).bind hereDocRest? = some rest ∧
      marker? rest = some marker ∧
      ∀ last, Opening.of? renderer last line = some (.hereDoc marker)) ∨
    (∃ rest, (afterColon? line).bind hereDocRest? = some rest ∧ marker? rest = none ∧
      ∀ last, Opening.of? renderer last line = some .malformed) ∨
    (∃ quote first, ((afterColon? line).bind quotedRest? = some (quote, first) ∨
        renderOpening? renderer line = some (quote, first)) ∧
      ∀ last, Opening.of? renderer last line = some (.quoted quote first)) ∨
    ∀ last, Opening.of? renderer last line =
      ((afterColon? line).bind (plainText? last)).map .plain := by
  cases hdoc : (afterColon? line).bind hereDocRest? with
  | some rest =>
      cases hmarker : marker? rest with
      | some marker =>
          exact .inl ⟨rest, marker, rfl, hmarker, fun last => by simp [Opening.of?, hdoc, hmarker]⟩
      | none =>
          exact .inr (.inl ⟨rest, rfl, hmarker, fun last => by simp [Opening.of?, hdoc, hmarker]⟩)
  | none =>
      cases hcolon : (afterColon? line).bind quotedRest? with
      | some found =>
          refine .inr (.inr (.inl ⟨found.1, found.2, .inl rfl, fun last => ?_⟩))
          simp [Opening.of?, hdoc, hcolon]
      | none =>
          cases hrender : renderOpening? renderer line with
          | some found =>
              refine .inr (.inr (.inl ⟨found.1, found.2, .inr rfl, fun last => ?_⟩))
              simp [Opening.of?, hdoc, hcolon, hrender]
          | none =>
              refine .inr (.inr (.inr fun last => ?_))
              simp only [Opening.of?, hdoc, hcolon, hrender]
              rfl

/-- A block starts after a colon or with a render command. -/
theorem Opening.colon_or_render {renderer line : Text} {last : Bool} {opening : Opening}
    (h : Opening.of? renderer last line = some opening) :
    (∃ t, afterColon? line = some t) ∨ ∃ found, renderOpening? renderer line = some found := by
  cases hcolon : afterColon? line with
  | some t => exact .inl ⟨t, rfl⟩
  | none =>
      cases hrender : renderOpening? renderer line with
      | some found => exact .inr ⟨found, rfl⟩
      | none => simp [Opening.of?, hcolon, hrender] at h

/-! ## The last line of a body -/

/-- Plain text with its semicolon is read alike on every line. -/
theorem plainText?_of_false {t text : Text} (h : plainText? false t = some text) (last : Bool) :
    plainText? last t = some text := by
  simp only [plainText?, bind, Option.bind_eq_some_iff] at h ⊢
  obtain ⟨c, hc, h⟩ := h
  refine ⟨c, hc, ?_⟩
  split at h
  · cases h
  · next hstart =>
      rw [if_neg hstart]
      obtain ⟨content, hcontent, h⟩ := Option.bind_eq_some_iff.1 h
      refine Option.bind_eq_some_iff.2 ⟨content, hcontent, ?_⟩
      split at h
      · next hsemi => rwa [if_pos hsemi]
      · simp at h

/-- A block of another kind than plain text is opened on every line alike. -/
theorem Opening.of?_eq_of_ne_plain {renderer line : Text} {opening : Opening} {last : Bool}
    (h : Opening.of? renderer last line = some opening) (hne : ∀ text, opening ≠ .plain text)
    (other : Bool) : Opening.of? renderer other line = some opening := by
  rcases Opening.of?_cases renderer line with
    ⟨_, _, -, -, hof⟩ | ⟨_, -, -, hof⟩ | ⟨_, _, -, hof⟩ | hof
  · rwa [hof] at h ⊢
  · rwa [hof] at h ⊢
  · rwa [hof] at h ⊢
  · rw [hof] at h
    obtain ⟨text, -, rfl⟩ := Option.map_eq_some_iff.1 h
    exact absurd rfl (hne text)

/-- A line that opens plain text opens nothing else anywhere. -/
theorem Opening.of?_eq_map_plain {renderer line text : Text} {last : Bool}
    (h : Opening.of? renderer last line = some (.plain text)) (other : Bool) :
    Opening.of? renderer other line =
      ((afterColon? line).bind (plainText? other)).map .plain := by
  rcases Opening.of?_cases renderer line with
    ⟨_, _, -, -, hof⟩ | ⟨_, -, -, hof⟩ | ⟨_, _, -, hof⟩ | hof
  · cases (hof last).symm.trans h
  · cases (hof last).symm.trans h
  · cases (hof last).symm.trans h
  · exact hof other

/-- A line that opens plain text has that text after its colon. -/
theorem Opening.plainText?_of_plain {renderer line text : Text} {last : Bool}
    (h : Opening.of? renderer last line = some (.plain text)) :
    (afterColon? line).bind (plainText? last) = some text := by
  rw [Opening.of?_eq_map_plain h] at h
  obtain ⟨_, htext, hplain⟩ := Option.map_eq_some_iff.1 h
  cases hplain
  exact htext

/-- Whatever a line opens in the middle of a body, it opens at its end too. -/
theorem Opening.of?_of_false {renderer line : Text} {opening : Opening}
    (h : Opening.of? renderer false line = some opening) (last : Bool) :
    Opening.of? renderer last line = some opening := by
  by_cases hplain : ∃ text, opening = .plain text
  · obtain ⟨text, rfl⟩ := hplain
    obtain ⟨t, ht, htext⟩ := Option.bind_eq_some_iff.1 (Opening.plainText?_of_plain h)
    rw [Opening.of?_eq_map_plain h, ht, Option.bind_some, plainText?_of_false htext]
    rfl
  · exact Opening.of?_eq_of_ne_plain h (fun text heq => hplain ⟨text, heq⟩) last

/-- A line that opens nothing at the end of a body opens nothing elsewhere. -/
theorem Opening.of?_false_eq_none {renderer line : Text} {last : Bool}
    (h : Opening.of? renderer last line = none) : Opening.of? renderer false line = none := by
  cases hfalse : Opening.of? renderer false line with
  | none => rfl
  | some opening => simp [Opening.of?_of_false hfalse last] at h

/-- A line that opens a block only at the end of a body is plain text. -/
theorem Opening.of?_true_eq_plain {renderer line : Text} {opening : Opening}
    (hfalse : Opening.of? renderer false line = none)
    (htrue : Opening.of? renderer true line = some opening) : ∃ text, opening = .plain text := by
  by_cases hplain : ∃ text, opening = .plain text
  · exact hplain
  · have hne : ∀ text, opening ≠ .plain text := fun text heq => hplain ⟨text, heq⟩
    simp [Opening.of?_eq_of_ne_plain htrue hne false] at hfalse

/-! ## Markers -/

theorem bareMarker?_spec {t marker : Text} (h : bareMarker? t = some marker) :
    marker ≠ [] ∧ ∀ c ∈ marker, isMarkerChar c = true := by
  simp only [bareMarker?] at h
  split at h
  · next hcond =>
      cases h
      simp only [Bool.and_eq_true, Bool.not_eq_true', List.isEmpty_eq_false_iff] at hcond
      exact ⟨hcond.1, fun c hc => List.mem_takeWhile_imp hc⟩
  · cases h

theorem quotedMarker?_spec {quote : Char} {t marker : Text}
    (h : quotedMarker? quote t = some marker) :
    marker ≠ [] ∧ ∀ c ∈ marker, isMarkerChar c = true := by
  simp only [quotedMarker?] at h
  split at h
  · split at h
    · next hcond =>
        cases h
        simp only [Bool.not_eq_true', List.isEmpty_eq_false_iff] at hcond
        exact ⟨hcond.2.1, fun c hc => List.mem_takeWhile_imp hc⟩
    · cases h
  · cases h

/-- A marker is not empty and has letters, digits and underscores only. -/
theorem marker?_spec {t marker : Text} (h : marker? t = some marker) :
    marker ≠ [] ∧ ∀ c ∈ marker, isMarkerChar c = true := by
  simp only [marker?] at h
  split at h
  · split at h
    · exact quotedMarker?_spec h
    · exact bareMarker?_spec h
  · cases h

theorem Opening.marker_spec {renderer line marker : Text} {last : Bool}
    (h : Opening.of? renderer last line = some (.hereDoc marker)) :
    marker ≠ [] ∧ ∀ c ∈ marker, isMarkerChar c = true := by
  rcases Opening.of?_cases renderer line with
    ⟨_, _, -, hmarker, hof⟩ | ⟨_, -, -, hof⟩ | ⟨_, _, -, hof⟩ | hof
  · rw [hof] at h
    cases h
    exact marker?_spec hmarker
  · simp [hof] at h
  · simp [hof] at h
  · rw [hof] at h
    obtain ⟨_, -, hplain⟩ := Option.map_eq_some_iff.1 h
    cases hplain

/-! ## Ends of a line -/

theorem skipLead_isSuffix (line : Text) : skipLead line <:+ line := by
  have hskip (t : Text) : Text.skipBlanks t <:+ t := List.dropWhile_suffix _
  have hline := hskip line
  simp only [skipLead]
  split
  · next rest heq =>
      rw [heq] at hline
      exact (hskip rest).trans ((List.suffix_cons _ _).trans hline)
  · next rest heq =>
      rw [heq] at hline
      split
      · next tail htail =>
          have hrest := hskip rest
          rw [htail] at hrest
          have hfalse : rest <:+ ("false" : Text) ++ rest := List.suffix_append _ _
          have hand : tail <:+ ("&&" : Text) ++ tail := List.suffix_append _ _
          exact (hskip tail).trans (hand.trans (hrest.trans (hfalse.trans hline)))
      · exact hline
  · exact hline

/-- What follows the colon is the end of the line. -/
theorem afterColon?_isSuffix {line t : Text} (h : afterColon? line = some t) : t <:+ line := by
  have hlead := skipLead_isSuffix line
  simp only [afterColon?] at h
  split at h
  · next c rest heq =>
      rw [heq] at hlead
      split at h
      · cases h
        have hrest : rest <:+ [':', c] ++ rest := List.suffix_append _ _
        exact (List.dropWhile_suffix _).trans (hrest.trans hlead)
      · cases h
  · cases h

/-- What follows the flags of a render command is the end of the line. -/
theorem afterFlags?_isSuffix {fuel : Nat} {t rest : Text} (h : afterFlags? fuel t = some rest) :
    rest <:+ t := by
  induction fuel generalizing t with
  | zero => simp [afterFlags?] at h
  | succ fuel ih =>
      cases t with
      | nil => simp [afterFlags?] at h
      | cons c cs =>
          rw [afterFlags?] at h
          split at h
          · cases h
          · have hskip : Text.skipBlanks (c :: cs) <:+ c :: cs := List.dropWhile_suffix _
            split at h
            · next flag heq =>
                split at h
                · cases h
                · have hflag := (ih h).trans (List.dropWhile_suffix _)
                  rw [heq] at hskip
                  exact hflag.trans ((List.suffix_cons '-' flag).trans hskip)
            · cases h
              exact hskip

/-! ## Quoted text -/

theorem quotedRest?_newline_free {t first : Text} {quote : Quote}
    (h : quotedRest? t = some (quote, first)) : '\n' ∉ first := by
  cases t with
  | nil => cases h
  | cons c rest =>
      simp only [quotedRest?, bind, Option.bind_eq_some_iff] at h
      obtain ⟨_, -, content, hcontent, heq⟩ := h
      cases heq
      exact Text.not_mem_of_lineContent? hcontent

/-- The quoted string of a render command is found after its name and its flags. -/
theorem renderOpening?_eq_some {renderer t first : Text} {quote : Quote}
    (h : renderOpening? renderer t = some (quote, first)) :
    ∃ u lead rest, u <:+ t ∧ Text.after? renderer u = some lead ∧
      afterFlags? (lead.length + 1) lead = some rest ∧ quotedRest? rest = some (quote, first) := by
  induction t with
  | nil =>
      simp only [renderOpening?, renderRest?, bind, Option.bind_eq_some_iff] at h
      obtain ⟨lead, hlead, rest, hrest, h⟩ := h
      exact ⟨[], lead, rest, List.suffix_rfl, hlead, hrest, h⟩
  | cons c cs ih =>
      rw [renderOpening?] at h
      split at h
      · next hfound =>
          cases h
          simp only [renderRest?, bind, Option.bind_eq_some_iff] at hfound
          obtain ⟨lead, hlead, rest, hrest, hfound⟩ := hfound
          exact ⟨c :: cs, lead, rest, List.suffix_rfl, hlead, hrest, hfound⟩
      · split at h
        · obtain ⟨u, lead, rest, hu, hlead⟩ := ih h
          exact ⟨u, lead, rest, hu.trans (List.suffix_cons c cs), hlead⟩
        · cases h

/-- The quoted string of a render command is an end of the line. -/
theorem exists_of_renderOpening? {renderer t first : Text} {quote : Quote}
    (h : renderOpening? renderer t = some (quote, first)) :
    ∃ rest, rest <:+ t ∧ quotedRest? rest = some (quote, first) := by
  obtain ⟨u, lead, rest, hu, hlead, hrest, hquoted⟩ := renderOpening?_eq_some h
  obtain rfl := Text.after?_eq_some_iff.1 hlead
  exact ⟨rest, (afterFlags?_isSuffix hrest).trans ((List.suffix_append renderer lead).trans hu),
    hquoted⟩

/-- A quoted string is an end of its line. -/
theorem Opening.exists_of_quoted {renderer line first : Text} {quote : Quote} {last : Bool}
    (h : Opening.of? renderer last line = some (.quoted quote first)) :
    ∃ rest, rest <:+ line ∧ quotedRest? rest = some (quote, first) := by
  rcases Opening.of?_cases renderer line with
    ⟨_, _, -, -, hof⟩ | ⟨_, -, -, hof⟩ | ⟨_, _, hquoted, hof⟩ | hof
  · simp [hof] at h
  · simp [hof] at h
  · rw [hof] at h
    cases h
    rcases hquoted with hcolon | hrender
    · obtain ⟨t, ht, hrest⟩ := Option.bind_eq_some_iff.1 hcolon
      exact ⟨t, afterColon?_isSuffix ht, hrest⟩
    · exact exists_of_renderOpening? hrender
  · rw [hof] at h
    obtain ⟨_, -, hplain⟩ := Option.map_eq_some_iff.1 h
    cases hplain

/-- What follows an opening quote on its line has no newline. -/
theorem Opening.quoted_newline_free {renderer line first : Text} {quote : Quote} {last : Bool}
    (h : Opening.of? renderer last line = some (.quoted quote first)) : '\n' ∉ first := by
  obtain ⟨rest, -, hrest⟩ := Opening.exists_of_quoted h
  exact quotedRest?_newline_free hrest

/-! ## White space -/

/-- Without an opening parenthesis or `false`, only blanks stand before the colon. -/
theorem skipLead_eq_cons {line t : Text} {c : Char} (h : Text.skipBlanks line = c :: t)
    (hparen : c ≠ '(') (hfalse : c ≠ 'f') : skipLead line = c :: t := by
  unfold skipLead
  rw [h]
  split
  · next heq => simp_all
  · next heq => simp_all
  · rfl

theorem afterColon?_of_isVoid {line : Text} (h : Text.isVoid line = true) :
    afterColon? line = none := by
  cases hskip : Text.skipBlanks line with
  | nil => simp [afterColon?, skipLead, hskip]
  | cons c t =>
      have hspace : Text.isSpace c = true :=
        Text.isSpace_of_isVoid h (Text.mem_of_mem_skipBlanks (by simp [hskip]))
      have hparen : c ≠ '(' := by
        rintro rfl
        exact absurd hspace (by decide)
      have hfalse : c ≠ 'f' := by
        rintro rfl
        exact absurd hspace (by decide)
      have hcolon : c ≠ ':' := by
        rintro rfl
        exact absurd hspace (by decide)
      unfold afterColon?
      rw [skipLead_eq_cons hskip hparen hfalse]
      split
      · next heq => simp_all
      · rfl

/-- A quote is not white space. -/
theorem isSpace_eq_false_of_ofChar? {c : Char} {quote : Quote} (h : Quote.ofChar? c = some quote) :
    Text.isSpace c = false := by
  simp only [Quote.ofChar?] at h
  split at h
  · next hc => subst hc; decide
  · split at h
    · next hc => subst hc; decide
    · cases h

/-- A line with a render command holds the quote that opens the string. -/
theorem exists_quote_of_renderOpening? {renderer t first : Text} {quote : Quote}
    (h : renderOpening? renderer t = some (quote, first)) :
    ∃ c ∈ t, Quote.ofChar? c = some quote := by
  obtain ⟨rest, hsuffix, hquoted⟩ := exists_of_renderOpening? h
  cases rest with
  | nil => cases hquoted
  | cons c cs =>
      simp only [quotedRest?, bind, Option.bind_eq_some_iff] at hquoted
      obtain ⟨_, hquote, _, -, hpair⟩ := hquoted
      cases hpair
      exact ⟨c, hsuffix.subset List.mem_cons_self, hquote⟩

/-- A line with no colon for documentation and no quote opens no block. -/
theorem Opening.of?_eq_none {line : Text} (hcolon : afterColon? line = none)
    (hquote : ∀ c ∈ line, Quote.ofChar? c = none) (renderer : Text) (last : Bool) :
    Opening.of? renderer last line = none := by
  cases ho : Opening.of? renderer last line with
  | none => rfl
  | some opening =>
      rcases Opening.colon_or_render ho with ⟨t, hsome⟩ | ⟨found, hrender⟩
      · rw [hcolon] at hsome
        cases hsome
      · obtain ⟨c, hc, hsome⟩ := exists_quote_of_renderOpening? hrender
        rw [hquote c hc] at hsome
        cases hsome

/-- White space opens no block. -/
theorem Opening.of?_of_isVoid {line : Text} (h : Text.isVoid line = true) (renderer : Text)
    (last : Bool) : Opening.of? renderer last line = none := by
  refine Opening.of?_eq_none (afterColon?_of_isVoid h) (fun c hc => ?_) renderer last
  cases hquote : Quote.ofChar? c with
  | none => rfl
  | some quote =>
      have hspace := Text.isSpace_of_isVoid h hc
      rw [isSpace_eq_false_of_ofChar? hquote] at hspace
      cases hspace

end ShellDocs.Block
