import ShellDocs.Proofs.Block.Escape

/-!
# Blocks as they are written

`Written` is the format of documentation from the writer's side: a block of one of the three kinds
together with the choices that the format leaves open, such as the lead before the colon, the
blanks around it, the flags of a render command and the quotes around a marker. `Written.lines` are
the lines to write, `Written.block` is the block that is meant and `Written.docs` what it documents.
-/

namespace ShellDocs.Block

/-! ## The parts of a first line -/

/-- A text of blanks only. -/
abbrev Blanks := {t : Text // ∀ c ∈ t, Text.isBlank c = true}

/-- A text as blanks, if it is checked to have no other character. -/
def Blanks.ofText (t : Text) (h : t.all Text.isBlank = true) : Blanks := ⟨t, List.all_eq_true.1 h⟩

/-- At least one blank. -/
abbrev Gap := {t : Text // t ≠ [] ∧ ∀ c ∈ t, Text.isBlank c = true}

/-- A text as a gap, if it is checked to be one. -/
def Gap.ofText (t : Text) (h : (!t.isEmpty && t.all Text.isBlank) = true) : Gap :=
  ⟨t, by simpa using h⟩

/-- What stands before the colon of a documentation line: nothing but an indent, an opening
parenthesis, or `false &&`. -/
inductive Lead where
  | bare (indent : Blanks)
  | paren (indent gap : Blanks)
  | never (indent gap after : Blanks)

/-- The text of a lead. -/
def Lead.text : Lead → Text
  | .bare indent => indent.1
  | .paren indent gap => indent.1 ++ '(' :: gap.1
  | .never indent gap after =>
      indent.1 ++ 'f' :: 'a' :: 'l' :: 's' :: 'e' :: (gap.1 ++ '&' :: '&' :: after.1)

/-- A flag of a render command, without its dash. -/
abbrev Flag := {t : Text // t ≠ [] ∧ ∀ c ∈ t, c.isAlphanum = true}

/-- What stands before the opening quote of a string: a colon, or a render command with flags. -/
inductive QuoteLead where
  | colon (lead : Lead) (gap : Gap)
  | render (indent : Blanks) (flags : List (Gap × Flag)) (gap : Gap)

/-- The flags of a render command, each with its dash and the blanks before it. -/
def flagsText (flags : List (Gap × Flag)) : Text := flags.flatMap fun f => f.1.1 ++ '-' :: f.2.1

/-- The text before an opening quote. -/
def QuoteLead.text : QuoteLead → Text
  | .colon lead gap => lead.text ++ ':' :: gap.1
  | .render indent flags gap => indent.1 ++ ("docsh" : Text) ++ flagsText flags ++ gap.1

/-- The marker of a here-document: letters, digits and underscores. -/
abbrev Marker := {t : Text // t ≠ [] ∧ ∀ c ∈ t, isMarkerChar c = true}

/-- How a marker is announced: with a dash or without, after one blank or none, and between two
equal quotes or none. -/
structure MarkerForm where
  dash : Bool
  blank : Option {c : Char // Text.isBlank c = true}
  quote : Option Quote

/-- A marker as it is announced. -/
def MarkerForm.text (form : MarkerForm) (marker : Text) : Text :=
  let around := (form.quote.map Quote.char).toList
  (if form.dash then ['-'] else []) ++ (form.blank.map Subtype.val).toList ++
    (around ++ (marker ++ around))

/-! ## The contents of a block -/

/-- Text that can stand unquoted: it starts with something else than white space, a quote or the
sign of a here-document. -/
structure PlainText where
  text : Text
  newline_free : '\n' ∉ text
  head : ∃ c rest, text = c :: rest ∧ Text.isSpace c = false ∧ Quote.ofChar? c = none
  not_hereDoc : ¬ ['<', '<'] <+: text

/-- Lines that can stand between quotes: none but the last ends in the quote and a semicolon. -/
structure QuotedText where
  quote : Quote
  lines : List Text
  ne_nil : lines ≠ []
  newline_free : ∀ line ∈ lines, '\n' ∉ line
  unclosed : Unclosed quote lines.dropLast

/-- Lines that can stand in a here-document: none is the marker. -/
structure HereText where
  marker : Text
  marker_ne_nil : marker ≠ []
  marker_chars : ∀ c ∈ marker, isMarkerChar c = true
  lines : List Text
  unmarked : Unmarked marker lines

/-- The marker that ends the lines of a here-document. -/
def HereText.name (content : HereText) : Marker :=
  ⟨content.marker, content.marker_ne_nil, content.marker_chars⟩

/-- The last of some lines with a text after it. -/
def endLast (tail : Text) : List Text → List Text
  | [] => []
  | [line] => [line ++ tail]
  | line :: next :: rest => line :: endLast tail (next :: rest)

/-- The first of some lines with a text before it. -/
def startFirst (lead : Text) : List Text → List Text
  | [] => []
  | line :: rest => (lead ++ line) :: rest

/-- A block with the choices that the format leaves open. -/
inductive Written where
  | plain (lead : Lead) (gap : Gap) (content : PlainText)
  | quoted (lead : QuoteLead) (content : QuotedText)
  | hereDoc (lead : Lead) (gap : Gap) (form : MarkerForm) (content : HereText) (indent : Blanks)

namespace Written

/-- The lines to write. -/
def lines : Written → List Text
  | .plain lead gap content => [lead.text ++ ':' :: (gap.1 ++ (content.text ++ [';']))]
  | .quoted lead content =>
      startFirst (lead.text ++ [content.quote.char])
        (endLast [content.quote.char, ';'] (content.lines.map (enquote content.quote)))
  | .hereDoc lead gap form content indent =>
      (lead.text ++ ':' :: (gap.1 ++ '<' :: '<' :: form.text content.marker)) ::
        (content.lines ++ [indent.1 ++ content.marker])

/-- The block that is meant. -/
def block : Written → Block
  | .plain _ _ content => .plain content.text
  | .quoted _ content =>
      .quoted content.quote (Text.joinNewlines content.lines) (decide (1 < content.lines.length))
  | .hereDoc _ _ _ content _ => .hereDoc content.marker content.lines

/-- The lines of documentation that are meant. -/
def docs : Written → List Text
  | .plain _ _ content => [content.text]
  | .quoted _ content => content.lines
  | .hereDoc _ _ _ content _ => content.lines

/-- The block that is meant documents the lines that are meant. -/
theorem docLines_block (w : Written) : w.block.docLines = w.docs := by
  cases w with
  | plain lead gap content => rfl
  | quoted lead content => exact Text.splitNewlines_joinNewlines content.ne_nil content.newline_free
  | hereDoc lead gap form content indent => rfl

end Written

end ShellDocs.Block
