import ShellDocs.Proofs.Block.DocLines
import ShellDocs.Proofs.Block.RoundTrip
import ShellDocs.Proofs.Block.Semicolon

/-!
# Here-documents from a printout to documentation

A printout is cut into lines before its here-documents are read, and the cut takes every line
break of Unicode for the end of a line. `documentation_hereDoc` says what that comes to: the lines
of a here-document are documented as the cut leaves them, so they are kept as they were written
exactly when none of them holds a line break. That nothing else can give them back is because
reading adds no characters (`Scanned.exists_of_mem_docs`), and line breaks are lost in the cut.
-/

namespace ShellDocs.Block

variable {renderer line first text : Text} {quote : Quote} {last : Bool} {c : Char}

/-! ## Reading adds no characters -/

theorem mem_of_mem_quotedRest? {t : Text} (h : quotedRest? t = some (quote, first))
    (hc : c ∈ first) : c ∈ t := by
  cases t with
  | nil => cases h
  | cons d rest =>
      simp only [quotedRest?, bind, Option.bind_eq_some_iff] at h
      obtain ⟨_, -, content, hcontent, heq⟩ := h
      cases heq
      exact List.mem_cons_of_mem d (Text.mem_of_mem_lineContent? hcontent hc)

theorem Opening.mem_of_mem_quoted
    (h : Opening.of? renderer last line = some (.quoted quote first)) (hc : c ∈ first) :
    c ∈ line := by
  obtain ⟨rest, hsuffix, hrest⟩ := Opening.exists_of_quoted h
  exact hsuffix.subset (mem_of_mem_quotedRest? hrest hc)

theorem Opening.mem_of_mem_plain (h : Opening.of? renderer last line = some (.plain text))
    (hc : c ∈ text) : c ∈ line := by
  obtain ⟨t, hcolon, htext⟩ := Option.bind_eq_some_iff.1 (Opening.plainText?_of_plain h)
  apply (afterColon?_isSuffix hcolon).subset
  simp only [plainText?, bind, Option.bind_eq_some_iff] at htext
  obtain ⟨_, -, htext⟩ := htext
  split at htext
  · cases htext
  · obtain ⟨content, hcontent, htext⟩ := Option.bind_eq_some_iff.1 htext
    apply Text.mem_of_mem_lineContent? hcontent
    apply Text.mem_of_mem_dropTailBlanks
    split at htext
    · obtain rfl := Option.some.inj htext
      exact List.dropLast_subset _ hc
    · split at htext
      · obtain rfl := Option.some.inj htext
        exact hc
      · cases htext

/-- A string documents no other characters than those of its lines. -/
theorem exists_of_mem_docLines_quoted {lines : List Text} {multiline : Bool} {l : Text}
    (hl : l ∈ docLines (.quoted quote (Text.joinNewlines (lines.map (unquote quote))) multiline))
    (hc : c ∈ l) : ∃ line ∈ lines, c ∈ line := by
  obtain ⟨u, hu, hc⟩ := Text.exists_of_mem_splitNewlines hl hc
  obtain ⟨v, hv, rfl⟩ := List.mem_map.1 hu
  exact ⟨v, hv, mem_of_mem_unquote hc⟩

/-- A block documents no other characters than those of its lines. -/
theorem Reads.exists_of_mem_docLines {taken : List Text} {block : Block} {l : Text}
    (h : Reads renderer last taken block) (hl : l ∈ block.docLines) (hc : c ∈ l) :
    ∃ line ∈ taken, c ∈ line := by
  cases h with
  | plain line text ho =>
      obtain rfl := List.mem_singleton.1 hl
      exact ⟨line, List.mem_singleton_self line, Opening.mem_of_mem_plain ho hc⟩
  | hereDoc line marker body mark ho hbody hmark =>
      exact ⟨l, List.mem_cons_of_mem line (List.mem_append_left [mark] hl), hc⟩
  | hereDocOpen line marker body ho hbody hend => exact ⟨l, List.mem_cons_of_mem line hl, hc⟩
  | quotedLine line quote first ho hfirst =>
      have hone : l ∈ docLines (.quoted quote
          (Text.joinNewlines ([cutClosing quote first].map (unquote quote))) false) := hl
      obtain ⟨v, hv, hmem⟩ := exists_of_mem_docLines_quoted hone hc
      obtain rfl := List.mem_singleton.1 hv
      have hfound := Opening.mem_of_mem_quoted ho (mem_of_mem_cutClosing hmem)
      exact ⟨line, List.mem_singleton_self line, hfound⟩
  | quoted line quote first body final ho hbody hfinal =>
      obtain ⟨v, hv, hmem⟩ := exists_of_mem_docLines_quoted hl hc
      rcases List.mem_cons.1 hv with rfl | hv
      · exact ⟨line, by simp, Opening.mem_of_mem_quoted ho hmem⟩
      · rcases List.mem_append.1 hv with hv | hv
        · exact ⟨v, by simp [hv], hmem⟩
        · obtain rfl := List.mem_singleton.1 hv
          exact ⟨final, by simp, mem_of_mem_cutClosing hmem⟩
  | quotedOpen line quote first body ho hbody hfinal hend =>
      obtain ⟨v, hv, hmem⟩ := exists_of_mem_docLines_quoted hl hc
      rcases List.mem_cons.1 hv with rfl | hv
      · exact ⟨line, by simp, Opening.mem_of_mem_quoted ho hmem⟩
      · exact ⟨v, by simp [hv], hmem⟩

/-- A scan documents no other characters than those of the lines it goes through. -/
theorem Scanned.exists_of_mem_docs {index stop : Nat} {lines : List Text} {spans : List Span}
    {fault : Option Malformed} {l : Text} (h : Scanned renderer index lines spans stop fault)
    (hl : l ∈ docs spans) (hc : c ∈ l) : ∃ line ∈ lines, c ∈ line := by
  induction h with
  | finished index => cases hl
  | blank index line rest spans stop fault hvoid _ ih =>
      obtain ⟨found, hfound, hc⟩ := ih hl
      exact ⟨found, List.mem_cons_of_mem line hfound, hc⟩
  | stopped index line rest => cases hl
  | malformed index line rest => cases hl
  | block index taken after block spans stop fault hreads _ ih =>
      rw [docs_cons] at hl
      rcases List.mem_append.1 hl with hl | hl
      · obtain ⟨found, hfound, hc⟩ := hreads.exists_of_mem_docLines hl hc
        exact ⟨found, List.mem_append_left after hfound, hc⟩
      · obtain ⟨found, hfound, hc⟩ := ih hl
        exact ⟨found, List.mem_append_right taken hfound, hc⟩

/-- A marker holds no line break. -/
theorem isLineBreak_of_isMarkerChar (h : isMarkerChar c = true) : Text.isLineBreak c = false := by
  have hcode : (48 ≤ c.toNat ∧ c.toNat ≤ 57) ∨ (65 ≤ c.toNat ∧ c.toNat ≤ 90) ∨
      (97 ≤ c.toNat ∧ c.toNat ≤ 122) ∨ c.toNat = 95 := by
    change (((decide (c.val ≥ 65 ∧ c.val ≤ 90) || decide (c.val ≥ 97) && decide (c.val ≤ 122)) ||
      decide (c.val ≥ 48) && decide (c.val ≤ 57)) || c == '_') = true at h
    simp only [Bool.or_eq_true, Bool.and_eq_true, decide_eq_true_eq, beq_iff_eq, ge_iff_le,
      UInt32.le_iff_toNat_le] at h
    rcases h with ((hupper | hlower) | hdigit) | rfl
    · exact .inr (.inl hupper)
    · exact .inr (.inr (.inl hlower))
    · exact .inl hdigit
    · exact .inr (.inr (.inr rfl))
  simp only [Text.isLineBreak, Bool.or_eq_false_iff, Bool.and_eq_false_iff, decide_eq_false_iff_not,
    beq_eq_false_iff_ne]
  omega

/-! ## Printouts -/

namespace HereText

/-- The line that announces a here-document with its marker between quotes. -/
def announcement (content : HereText) : Text :=
  [' ', ' ', ' ', ' ', ':', ' ', '<', '<', '\x27'] ++ (content.marker ++ ['\x27'])

/-- What stands before a here-document in the printout of a function that documents nothing
else. -/
def preamble (content : HereText) : List Text := ["f () ", "\x7b ", content.announcement]

/-- What stands behind the lines of the here-document. -/
def remainder (content : HereText) : List Text := [content.marker, "    return", "\x7d"]

/-- The printout of a function that is documented by a here-document. -/
def printout (content : HereText) : Text :=
  Text.unlines content.preamble ++ Text.unlines content.lines ++ Text.unlines content.remainder

/-- The lines of a here-document as they come out of the cut of a printout into lines. -/
def cutLines (content : HereText) : List Text := Text.lines (Text.unlines content.lines)

variable (content : HereText)

/-- The cut into lines leaves everything but the lines of the here-document alone. -/
theorem lines_printout : Text.lines content.printout =
    content.preamble ++ content.cutLines ++ content.remainder := by
  have hmarker : ∀ c ∈ content.marker, Text.isLineBreak c = false :=
    fun c hc => isLineBreak_of_isMarkerChar (content.marker_chars c hc)
  have hannouncement : ∀ c ∈ content.announcement, Text.isLineBreak c = false := by
    refine List.forall_mem_append.2 ⟨?_, List.forall_mem_append.2 ⟨hmarker, ?_⟩⟩
    · exact fun c hc => Text.eq_false_of_any rfl hc
    · exact fun c hc => Text.eq_false_of_any rfl hc
  have hpreamble : ∀ l ∈ content.preamble, ∀ c ∈ l, Text.isLineBreak c = false :=
    List.forall_mem_cons.2 ⟨fun c hc => Text.eq_false_of_any rfl hc,
      List.forall_mem_cons.2 ⟨fun c hc => Text.eq_false_of_any rfl hc,
        List.forall_mem_singleton.2 hannouncement⟩⟩
  have hremainder : ∀ l ∈ content.remainder, ∀ c ∈ l, Text.isLineBreak c = false :=
    List.forall_mem_cons.2 ⟨hmarker,
      List.forall_mem_cons.2 ⟨fun c hc => Text.eq_false_of_any rfl hc,
        List.forall_mem_singleton.2 fun c hc => Text.eq_false_of_any rfl hc⟩⟩
  rw [printout, List.append_assoc, Text.lines_unlines_append, Text.lines_unlines_append,
    Text.lines_unlines hpreamble, Text.lines_unlines hremainder, List.append_assoc]
  rfl

/-- The body of the printed function starts with the here-document. -/
theorem body_printout (name : Option Text) : (Definition.ofText content.printout name).body =
    content.announcement :: (content.cutLines ++ [content.marker, "    return"]) := by
  have hlines : (Definition.ofText content.printout name).lines =
      content.preamble ++ content.cutLines ++ [content.marker, "    return"] ++
        [("\x7d" : Text)] := by
    rw [List.append_assoc _ [content.marker, "    return"]]
    exact content.lines_printout
  have hclosing : Definition.isClosing "\x7d" = true := by decide
  have hend : (Definition.ofText content.printout name).bodyEnd =
      (content.preamble ++ content.cutLines ++ [content.marker, "    return"]).length := by
    rw [Definition.bodyEnd, hlines, List.getLast?_concat, Option.any_some, hclosing]
    simp [preamble]
  rw [Definition.body, hend, hlines, List.take_left]
  rfl

/-- The line that announces the here-document is recognised. -/
theorem of?_announcement (last : Bool) :
    Opening.of? "docsh" last content.announcement = some (.hereDoc content.marker) :=
  of?_hereDoc (.bare (.ofText [' ', ' ', ' ', ' '] rfl)) (.ofText [' '] rfl)
    ⟨false, none, some .single⟩ content last

/-- The documentation of the printed function is what a scan of its body finds. -/
theorem documentation_printout {spans : List Span} {stop : Nat} {fault : Option Malformed}
    (name : Option Text)
    (h : Scanned "docsh" 2
      (content.announcement :: (content.cutLines ++ [content.marker, "    return"]))
      spans stop fault) :
    ((Definition.ofText content.printout name).documentation "docsh").result =
      Definition.outcome spans fault := by
  have hguard : guardLines (Definition.ofText content.printout name).body = 0 := by
    rw [content.body_printout]
    simp [guardLines, isGuard_of_opening (content.of?_announcement false)]
  apply Definition.documentation_of_scanned
  rw [hguard, content.body_printout]
  exact h

/-- Lines of a here-document are documented as they come out of the cut, if none of them is the
marker then. -/
theorem documentation_unmarked (name : Option Text)
    (hmarker : Unmarked content.marker content.cutLines) :
    ((Definition.ofText content.printout name).documentation "docsh").result =
      .ok ⟨content.cutLines⟩ := by
  obtain ⟨c, t, hcons⟩ := List.exists_cons_of_ne_nil content.marker_ne_nil
  have hmark : Text.skipBlanks content.marker = content.marker := by
    have hc := content.marker_chars c (by simp [hcons])
    rw [hcons, Text.skipBlanks_cons (isBlank_eq_false_of_isMarkerChar hc)]
  have hreads : Reads "docsh" false _ _ :=
    .hereDoc _ _ _ _ (content.of?_announcement false) hmarker hmark
  have hstop (index : Nat) : Scanned "docsh" index ["    return"] [] index none :=
    .stopped _ _ _ (by decide) (by decide)
  have hscan := Scanned.block 2 _ ["    return"] _ [] _ none hreads (hstop _)
  rw [List.cons_append, List.append_assoc] at hscan
  rw [content.documentation_printout name hscan]
  simp [Definition.outcome, docLines]

end HereText

end ShellDocs.Block

namespace ShellDocs.Definition

open Block

/-- A here-document in a printout is documented as its lines come out of the cut, if the cut makes
no marker line. It is documented as it was written exactly when no line holds a line break. -/
theorem documentation_hereDoc (content : HereText) (name : Option Text) :
    (Unmarked content.marker content.cutLines →
      ((ofText content.printout name).documentation "docsh").result = .ok ⟨content.cutLines⟩) ∧
    (((ofText content.printout name).documentation "docsh").result = .ok ⟨content.lines⟩ ↔
      ∀ line ∈ content.lines, ∀ c ∈ line, Text.isLineBreak c = false) := by
  refine ⟨content.documentation_unmarked name, fun h line hline c hc => ?_, fun h => ?_⟩
  · -- The character is found in a line of the printout, and no such line holds a line break.
    obtain ⟨spans, stop, fault, hscan⟩ := exists_scanned "docsh" 2
      (content.announcement :: (content.cutLines ++ [content.marker, "    return"]))
    rw [content.documentation_printout name hscan] at h
    cases fault with
    | some fault => cases h
    | none =>
        have hdocs : docs spans = content.lines := congrArg Docstring.lines (Except.ok.inj h)
        obtain ⟨source, hsource, hc⟩ := hscan.exists_of_mem_docs (hdocs ▸ hline) hc
        have hprinted : source ∈ Text.lines content.printout := by
          rw [content.lines_printout]
          simp only [HereText.preamble, HereText.remainder, List.mem_append, List.mem_cons,
            List.not_mem_nil, or_false] at hsource ⊢
          tauto
        exact Text.isLineBreak_of_mem_lines hprinted hc
  · have hcut : content.cutLines = content.lines := Text.lines_unlines h
    rw [content.documentation_unmarked name (hcut ▸ content.unmarked), hcut]

/-- A here-document with a form feed inside its line. -/
def pageBreak : HereText where
  marker := ['m']
  marker_ne_nil := List.cons_ne_nil _ _
  marker_chars := List.forall_mem_singleton.2 rfl
  lines := ["a\x0cb"]
  unmarked := by decide

/-- The form feed ends a line in the cut, so the one line is documented as two. -/
theorem documentation_hereDoc_pageBreak :
    ((ofText pageBreak.printout none).documentation "docsh").result = .ok ⟨["a", "b"]⟩ ∧
      ((ofText pageBreak.printout none).documentation "docsh").result ≠ .ok ⟨["a\x0cb"]⟩ := by
  obtain ⟨hcut, hverbatim⟩ := documentation_hereDoc pageBreak none
  refine ⟨hcut (by decide), fun h => ?_⟩
  have hbreak := hverbatim.1 h "a\x0cb" (List.mem_singleton_self _) '\x0c' (by decide)
  exact absurd hbreak (by decide)

end ShellDocs.Definition
