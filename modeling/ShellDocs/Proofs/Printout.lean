import ShellDocs.Proofs.Block.Continuation
import ShellDocs.Proofs.Catalog
import ShellDocs.Proofs.Provider

/-!
# One function from two providers

A shell prints a function as its signature, the opening brace, the body and the closing brace; for
an exported function it prints one line more. A catalog of that text ends the definition at the
closing brace, while the lines of the whole reply are taken for the definition that the shell was
asked for. `Provider.documentation_eq_iff` says when the two give the same documentation: always
if the function is not exported, and else exactly if no block needs the end of the body.
-/

namespace ShellDocs

/-- A function that a shell prints. -/
structure Printout where
  name : Text
  body : List Text
  exported : Bool
  name_ne_nil : name ≠ []
  name_chars : ∀ c ∈ name, Catalog.isNameChar c = true
  unbroken : ∀ line ∈ body, ∀ c ∈ line, Text.isLineBreak c = false
  /-- No line of the body is a closing brace. -/
  enclosed : ∀ line ∈ body, Definition.isClosing line = false

namespace Printout

/-- The closing brace of a printed function. -/
def closing : Text := ['\x7d']

/-- The line that tells of a function that it is exported. -/
def exportLine (p : Printout) : Text := ("declare -fx " : Text) ++ p.name

/-- The definition in a printout. -/
def definition (p : Printout) : Definition :=
  ⟨p.name, (p.name ++ Catalog.signatureEnd) :: ['\x7b', ' '] :: (p.body ++ [closing])⟩

/-- The lines that the shell prints. -/
def lines (p : Printout) : List Text :=
  p.definition.lines ++ if p.exported then [p.exportLine] else []

/-- The text that the shell prints. -/
def text (p : Printout) : Text := Text.unlines p.lines

open Block

variable (p : Printout)

/-! ## The text and its lines -/

/-- A character of a name is not white space. -/
theorem isSpace_name {c : Char} (h : c ∈ p.name) : Text.isSpace c = false := by
  have hname := p.name_chars c h
  simp only [Catalog.isNameChar, Bool.not_eq_true', Bool.or_eq_false_iff] at hname
  exact hname.1.1.1

theorem isLineBreak_name {c : Char} (h : c ∈ p.name) : Text.isLineBreak c = false := by
  cases hbreak : Text.isLineBreak c with
  | false => rfl
  | true =>
      have hspace := Text.isSpace_of_isLineBreak hbreak
      rw [p.isSpace_name h] at hspace
      cases hspace

theorem isLineBreak_lines {line : Text} (hline : line ∈ p.lines) {c : Char} (hc : c ∈ line) :
    Text.isLineBreak c = false := by
  simp only [lines, definition, List.mem_append, List.mem_cons, List.not_mem_nil, or_false]
    at hline
  rcases hline with (rfl | rfl | hbody | rfl) | hline
  · rcases List.mem_append.1 hc with hc | hc
    · exact p.isLineBreak_name hc
    · exact Text.eq_false_of_any rfl hc
  · exact Text.eq_false_of_any rfl hc
  · exact p.unbroken line hbody c hc
  · exact Text.eq_false_of_any rfl hc
  · cases hexported : p.exported with
    | false => simp [hexported] at hline
    | true =>
        rw [hexported, if_pos rfl, List.mem_singleton] at hline
        subst hline
        rcases List.mem_append.1 hc with hc | hc
        · exact Text.eq_false_of_any rfl hc
        · exact p.isLineBreak_name hc

/-- No line of the body holds a newline. -/
theorem newline_not_mem {line : Text} (h : line ∈ p.body) : '\n' ∉ line := by
  intro hmem
  have hbreak := p.unbroken line h _ hmem
  revert hbreak
  decide

/-- The lines of a printout are found again in its text. -/
theorem lines_text : Text.lines p.text = p.lines :=
  Text.lines_unlines fun _ hline _ hc => p.isLineBreak_lines hline hc

/-- A printout is not empty. -/
theorem isVoid_text : Text.isVoid p.text = false := by
  have hmem : '(' ∈ p.text := by
    simp [text, lines, definition, Text.unlines, Catalog.signatureEnd]
  exact Text.isVoid_eq_false_of_mem hmem (by decide)

/-! ## What the providers find -/

/-- A catalog of a printout holds its definition alone. -/
theorem find?_ofText : (Catalog.ofText p.text).find? p.name = some p.definition := by
  refine Catalog.find?_ofText (d := p.definition) ?_
  have hafter : Catalog.cut none (if p.exported then [p.exportLine] else []) = ([], none) := by
    cases p.exported with
    | false => rfl
    | true => rfl
  have hclosing : Definition.isClosing closing = true := by decide
  have hopening : ∀ line ∈ ['\x7b', ' '] :: p.body, Definition.isClosing line = false :=
    List.forall_mem_cons.2 ⟨by decide, p.enclosed⟩
  have hcut := Catalog.cut_append_closing hopening hclosing
    ⟨p.name, [p.name ++ Catalog.signatureEnd]⟩ (if p.exported then [p.exportLine] else [])
  rw [p.lines_text, lines, definition]
  simp only [List.cons_append, List.append_assoc, List.nil_append, Catalog.cut,
    Catalog.opened?_printed p.name_ne_nil p.name_chars] at hcut ⊢
  rw [hcut, hafter]

/-- The shell's reply is taken for a definition with all its lines. -/
theorem definition_finished (i : Inquiry) :
    i.definition p.name (.finished 0 p.text) = .ok ⟨p.name, p.lines⟩ := by
  simp [Inquiry.definition, p.isVoid_text, Definition.ofText, p.lines_text]

/-! ## The bodies that are scanned -/

/-- The definition in a printout has the body that was printed. -/
theorem body_definition : p.definition.body = p.body := by
  have hlast : p.definition.lines.getLast? = some closing := by
    simp [definition, List.getLast?_cons]
  have hlength : p.definition.lines.length = p.body.length + 3 := by
    simp [definition]
  have hend : p.definition.bodyEnd = p.body.length + 2 := by
    have hclosing : Definition.isClosing closing = true := by decide
    simp [Definition.bodyEnd, hlast, hlength, hclosing]
  rw [Definition.body, hend]
  simp [definition]

/-- The closing brace and the line after it are taken for lines of the body if the function is
exported: the last line is no brace. -/
theorem body_exported (h : p.exported = true) :
    (⟨p.name, p.lines⟩ : Definition).body = p.body ++ [closing, p.exportLine] := by
  have hlast : p.lines.getLast? = some p.exportLine := by
    simp [lines, h]
  have hopen : Definition.isClosing p.exportLine = false := rfl
  have hend : (⟨p.name, p.lines⟩ : Definition).bodyEnd = p.lines.length := by
    simp [Definition.bodyEnd, hlast, hopen]
  rw [Definition.body, hend, List.take_length]
  simp [lines, definition, h]

/-- The lines after the body of an exported function end no block of it. -/
theorem runover : Block.Runover [closing, p.exportLine] where
  ne_nil := List.cons_ne_nil _ _
  newline_free := by
    intro line hline hmem
    rcases List.mem_pair.1 hline with rfl | rfl
    · revert hmem
      decide
    · rcases List.mem_append.1 hmem with hmem | hmem
      · revert hmem
        decide
      · have hbreak := p.isLineBreak_name hmem
        revert hbreak
        decide
  unclosed := by
    intro quote line hline
    obtain rfl := List.mem_singleton.1 hline
    cases quote <;> decide
  unmarked := by
    intro marker hne hchars line hline heq
    have hbrace : isMarkerChar '\x7d' = false := by decide
    have hblank : isMarkerChar ' ' = false := by decide
    rcases List.mem_pair.1 hline with rfl | rfl
    · have hmem : '\x7d' ∈ marker := by
        rw [← heq]
        decide
      rw [hchars _ hmem] at hbrace
      cases hbrace
    · have hskip : Text.skipBlanks p.exportLine = p.exportLine := rfl
      have hlead : ' ' ∈ ("declare -fx " : Text) := by decide
      have hmem : ' ' ∈ p.exportLine := List.mem_append_left p.name hlead
      rw [hskip] at heq
      rw [hchars _ (heq ▸ hmem)] at hblank
      cases hblank

/-- A closing brace opens no block. -/
theorem of?_closing (renderer : Text) (last : Bool) :
    Block.Opening.of? renderer last closing = none :=
  Block.Opening.of?_eq_none rfl (by simp [closing, Quote.ofChar?]) renderer last

/-- Documentation is the same with and without the lines after the body of an exported function
exactly if every block of the body has an end of its own. -/
theorem documentation_exported_iff (h : p.exported = true) (renderer : Text) :
    (Definition.documentation renderer ⟨p.name, p.lines⟩).result =
        (p.definition.documentation renderer).result ↔ SettledBody renderer p.body := by
  have hguard : guardLines [closing, p.exportLine] = 0 := rfl
  obtain ⟨hlines, hdrop⟩ := guardLines_append p.body hguard
  have hexported : ∀ {spans stop fault}, Scanned renderer (2 + guardLines p.body)
      (p.body.drop (guardLines p.body) ++ [closing, p.exportLine]) spans stop fault →
      (Definition.documentation renderer ⟨p.name, p.lines⟩).result =
        Definition.outcome spans fault := by
    intro spans stop fault hscan
    apply Definition.documentation_of_scanned
    rw [p.body_exported h, hlines, hdrop]
    exact hscan
  have hprinted : ∀ {spans stop fault}, Scanned renderer (2 + guardLines p.body)
      (p.body.drop (guardLines p.body)) spans stop fault →
      (p.definition.documentation renderer).result = Definition.outcome spans fault := by
    intro spans stop fault hscan
    apply Definition.documentation_of_scanned
    rw [p.body_definition]
    exact hscan
  constructor
  · intro heq
    obtain ⟨spans, stop, fault, hscan⟩ := exists_scanned renderer (2 + guardLines p.body)
      (p.body.drop (guardLines p.body))
    -- A block that needs the end of the body would document another number of lines.
    by_contra hunsettled
    obtain ⟨rfl, more, _, hmore, hlength⟩ := hscan.append_of_unsettled
      (fun hsettled => hunsettled ⟨spans, stop, fault, hscan, hsettled⟩)
      (fun line hline => p.newline_not_mem (List.mem_of_mem_drop hline)) p.runover
    rw [hexported hmore, hprinted hscan] at heq
    have hdocs : docs more = docs spans := by
      simpa [Definition.outcome] using heq
    exact hlength (congrArg List.length hdocs)
  · rintro ⟨spans, stop, fault, hscan, hsettled⟩
    have hvoid : Text.isVoid closing = false := by decide
    obtain ⟨_, hmore⟩ := hscan.append_of_settled hsettled hvoid (of?_closing renderer false)
    rw [hexported hmore, hprinted hscan]

end Printout

namespace Provider

open Block

/-- The documentation of a function that a provider finds. -/
def documentation (provider : Provider) (shell : Shell) (renderer name : Text) :
    Traced Docstring := do
  let d ← provider.lookup shell name
  d.documentation renderer

/-- A catalog gives the documentation of the definition it has. -/
theorem documentation_catalog {c : Catalog} {name : Text} {d : Definition}
    (h : c.find? name = some d) (shell : Shell) (renderer : Text) :
    (documentation (.catalog c) shell renderer name).result =
      (d.documentation renderer).result := by
  rw [documentation, lookup_catalog, h]
  exact Traced.result_bind_of_ok rfl

/-- A shell gives the documentation of the definition in its reply. -/
theorem documentation_shell {i : Inquiry} {shell : Shell} {name : Text} {reply : ShellReply}
    {d : Definition} (h : i.Answers shell name reply) (hd : i.definition name reply = .ok d)
    (renderer : Text) :
    (documentation (.shell i) shell renderer name).result =
      (d.documentation renderer).result := by
  rw [documentation, lookup_of_fit h.fit, h.reply, hd]
  exact Traced.result_bind_of_ok rfl

/-- A catalog of a printed function documents what was printed, and the shell that printed it
documents the same unless the function is exported: then the closing brace and a line after it are
read with the body, which makes no difference exactly if every block has an end of its own. -/
theorem documentation_eq_iff (i : Inquiry) (shell : Shell) (renderer : Text) (p : Printout)
    (h : i.Answers shell p.name (.finished 0 p.text)) :
    (documentation (.catalog (.ofText p.text)) shell renderer p.name).result =
      (p.definition.documentation renderer).result ∧
    ((documentation (.shell i) shell renderer p.name).result =
        (documentation (.catalog (.ofText p.text)) shell renderer p.name).result ↔
      (p.exported = true → SettledBody renderer p.body)) := by
  have hcatalog := documentation_catalog p.find?_ofText shell renderer
  have hshell : (documentation (.shell i) shell renderer p.name).result =
      (Definition.documentation renderer ⟨p.name, p.lines⟩).result :=
    documentation_shell h (p.definition_finished i) renderer
  refine ⟨hcatalog, ?_⟩
  rw [hcatalog, hshell]
  cases hexported : p.exported with
  | false =>
      have hlines : (⟨p.name, p.lines⟩ : Definition) = p.definition := by
        simp [Printout.lines, hexported, Printout.definition]
      simp [hlines]
  | true =>
      rw [← p.documentation_exported_iff hexported renderer]
      simp

/-- An exported function whose only block has no semicolon. -/
def unended : Printout where
  name := ['f']
  body := ["    : doc"]
  exported := true
  name_ne_nil := by decide
  name_chars := List.all_eq_true.1 rfl
  unbroken := List.forall_mem_singleton.2 fun _ hc => Text.eq_false_of_any rfl hc
  enclosed := by decide

/-- A shell that prints the function whatever it is asked for. -/
def unendedShell : Shell := fun _ => .finished 0 unended.text

def unendedInquiry : Inquiry := ⟨[], (.text "bash" : Toml.Value), .int 10⟩

/-- A block without an end of its own is lost when the function is exported. -/
theorem documentation_unended :
    unendedInquiry.Answers unendedShell unended.name (.finished 0 unended.text) ∧
    (documentation (.catalog (.ofText unended.text)) unendedShell "docsh" unended.name).result =
      .ok ⟨["doc"]⟩ ∧
    (documentation (.shell unendedInquiry) unendedShell "docsh" unended.name).result = .ok ⟨[]⟩ ∧
    ¬ SettledBody "docsh" unended.body := by
  have hanswers : unendedInquiry.Answers unendedShell unended.name (.finished 0 unended.text) :=
    ⟨by decide +kernel, rfl⟩
  obtain ⟨hcatalog, hiff⟩ :=
    documentation_eq_iff unendedInquiry unendedShell "docsh" unended hanswers
  have hprinted : (unended.definition.documentation "docsh").result = .ok ⟨["doc"]⟩ := by cbv
  have hshell : (documentation (.shell unendedInquiry) unendedShell "docsh" unended.name).result =
      .ok ⟨[]⟩ := by
    rw [documentation_shell hanswers (unended.definition_finished unendedInquiry)]
    have hstopped := Scanned.stopped 2 "    : doc" [Printout.closing, unended.exportLine]
      (by decide) (by decide : Opening.of? "docsh" false "    : doc" = none)
    exact Definition.documentation_of_scanned (d := ⟨unended.name, unended.lines⟩) hstopped
  rw [hprinted] at hcatalog
  refine ⟨hanswers, hcatalog, hshell, fun hsettled => ?_⟩
  have heq := hiff.2 fun _ => hsettled
  rw [hcatalog, hshell] at heq
  cases heq

end Provider

end ShellDocs
