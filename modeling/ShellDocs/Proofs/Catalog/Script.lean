import Mathlib.Data.List.Induction
import Mathlib.Data.List.Nodup
import ShellDocs.Proofs.Catalog

/-!
# Definitions put together in one text

A `Script` is a text as an author puts it together: definitions one after the other, with any
lines between them that start no definition, and perhaps a last definition that is never closed.
`ofText_script` says that the catalog of such a text gives the definitions back. The names stand
in the order in which they first appear, and under a name stands the last definition that has it.
-/

namespace ShellDocs.Catalog

open Text (isBlank skipBlanks exists_blanks_append)

/-! ## Signature lines -/

/-- An opening brace after some blanks, or nothing. -/
def braceText (gap : Option Text) : Text := gap.elim [] (· ++ ['\x7b'])

/-- What follows the name of a signature: parentheses, perhaps a brace, and blanks. -/
theorem exists_of_isSignatureTail {t : Text} (h : isSignatureTail t = true) :
    ∃ before inside gap tail, t = before ++ '(' :: (inside ++ ')' :: (braceText gap ++ tail)) ∧
      (∀ c ∈ before, isBlank c = true) ∧ (∀ c ∈ inside, isBlank c = true) ∧
      (∀ c ∈ gap.getD [], isBlank c = true) ∧ ∀ c ∈ tail, isBlank c = true := by
  obtain ⟨before, hbefore, ht⟩ := exists_blanks_append t
  unfold isSignatureTail at h
  split at h
  · next t₁ heq =>
      rw [heq] at ht
      obtain ⟨inside, hinside, ht₁⟩ := exists_blanks_append t₁
      split at h
      · next t₂ heq₁ =>
          rw [heq₁] at ht₁
          obtain ⟨gap, hgap, ht₂⟩ := exists_blanks_append t₂
          split at h
          · next t₃ heq₂ =>
              rw [heq₂] at ht₂
              obtain ⟨tail, htail, ht₃⟩ := exists_blanks_append t₃
              rw [List.isEmpty_iff.1 h, List.append_nil] at ht₃
              refine ⟨before, inside, some gap, tail, ?_, hbefore, hinside, hgap, htail⟩
              rw [ht, ht₁, ht₂, ht₃]
              simp [braceText]
          · rw [List.isEmpty_iff.1 h, List.append_nil] at ht₂
            refine ⟨before, inside, none, gap, ?_, hbefore, hinside, by simp, hgap⟩
            rw [ht, ht₁, ht₂]
            rfl
      · cases h
  · cases h

theorem bareSignature?_eq_some {t name : Text} (h : bareSignature? t = some name) :
    ∃ after, t = name ++ after ∧ (∀ c ∈ name, isNameChar c = true) ∧
      isSignatureTail after = true := by
  simp only [bareSignature?] at h
  split at h
  · next hcond =>
      cases h
      exact ⟨t.dropWhile isNameChar, List.takeWhile_append_dropWhile.symm,
        fun _ hc => List.mem_takeWhile_imp hc, (Bool.and_eq_true_iff.1 hcond).2⟩
  · cases h

theorem isLineBreak_of_isBlank {c : Char} (h : isBlank c = true) : Text.isLineBreak c = false := by
  simp only [isBlank, Bool.or_eq_true, beq_iff_eq] at h
  rcases h with rfl | rfl <;> decide

theorem isLineBreak_of_isNameChar {c : Char} (h : isNameChar c = true) :
    Text.isLineBreak c = false := by
  cases hbreak : Text.isLineBreak c with
  | false => rfl
  | true => simp [isNameChar, Text.isSpace_of_isLineBreak hbreak] at h

/-- What follows the keyword has the keyword and blanks before it. -/
theorem afterKeyword?_eq_some {line rest : Text} (h : afterKeyword? line = some rest) :
    ∃ lead, line = lead ++ rest ∧ ∀ c ∈ lead, Text.isLineBreak c = false := by
  unfold afterKeyword? at h
  split at h
  · next c after hafter =>
      split at h
      · next hblank =>
          cases h
          obtain ⟨blanks, hblanks, hrest⟩ := exists_blanks_append after
          refine ⟨"function".toList ++ c :: blanks, ?_, ?_⟩
          · have hline := Text.after?_eq_some_iff.1 hafter
            rw [← hline]
            conv_lhs => rw [hrest]
            simp
          · intro d hd
            rcases List.mem_append.1 hd with hd | hd
            · exact Text.eq_false_of_any rfl hd
            · rcases List.mem_cons.1 hd with rfl | hd
              · exact isLineBreak_of_isBlank hblank
              · exact isLineBreak_of_isBlank (hblanks d hd)
      · cases h
  · cases h

/-- A signature line is its name with something before it, the keyword if anything, and something
after it. -/
theorem signature?_eq_some {line name : Text} (h : signature? line = some name) :
    ∃ lead after, line = lead ++ (name ++ after) ∧ (∀ c ∈ lead, Text.isLineBreak c = false) ∧
      (∀ c ∈ name, isNameChar c = true) ∧ isSignatureTail after = true := by
  unfold signature? at h
  split at h
  · next found hfound =>
      cases h
      obtain ⟨rest, hrest, hname⟩ := Option.bind_eq_some_iff.1 hfound
      obtain ⟨after, rfl, hafter⟩ := bareSignature?_eq_some hname
      obtain ⟨lead, hline, hlead⟩ := afterKeyword?_eq_some hrest
      exact ⟨lead, after, hline, hlead, hafter⟩
  · obtain ⟨after, hline, hafter⟩ := bareSignature?_eq_some h
    exact ⟨[], after, hline, by simp, hafter⟩

/-- A line that starts a definition, in its parts. -/
structure Signature where
  name : Text
  /-- The line up to its closing parenthesis. -/
  start : Text
  /-- The blanks before the opening brace, if the brace stands on this line. -/
  gap : Option Text
  /-- The blanks at the end of the line. -/
  tail : Text
  start_end : start.getLast? = some ')'
  gap_blank : ∀ c ∈ gap.getD [], isBlank c = true
  tail_blank : ∀ c ∈ tail, isBlank c = true
  accepted : signature? (start ++ (braceText gap ++ tail)) = some name

namespace Signature

/-- The line as it is written. -/
def line (s : Signature) : Text := s.start ++ (braceText s.gap ++ s.tail)

/-- The lines that are kept of it: an opening brace gets a line of its own. -/
def lines (s : Signature) : List Text :=
  match s.gap with
  | none => [s.start ++ s.tail]
  | some _ => [s.start, ['\x7b']]

/-- Every line that is accepted as a signature has these parts. -/
theorem exists_of_signature? {line name : Text} (h : signature? line = some name) :
    ∃ s : Signature, s.line = line ∧ s.name = name := by
  obtain ⟨lead, after, rfl, -, -, hafter⟩ := signature?_eq_some h
  obtain ⟨before, inside, gap, tail, rfl, -, -, hgap, htail⟩ := exists_of_isSignatureTail hafter
  refine ⟨⟨name, (lead ++ (name ++ (before ++ '(' :: inside))) ++ [')'], gap, tail,
    List.getLast?_concat, hgap, htail, ?_⟩, ?_, rfl⟩
  · rw [← h]
    simp
  · simp [line]

/-- A signature is one line. -/
theorem unbroken (s : Signature) {c : Char} (hc : c ∈ s.line) : Text.isLineBreak c = false := by
  obtain ⟨lead, after, hline, hlead, hname, hafter⟩ := signature?_eq_some s.accepted
  obtain ⟨before, inside, gap, tail, rfl, hbefore, hinside, hgap, htail⟩ :=
    exists_of_isSignatureTail hafter
  rw [line, hline] at hc
  simp only [List.mem_append, List.mem_cons] at hc
  rcases hc with hc | hc | hc | rfl | hc | rfl | hc | hc
  · exact hlead c hc
  · exact isLineBreak_of_isNameChar (hname c hc)
  · exact isLineBreak_of_isBlank (hbefore c hc)
  · decide
  · exact isLineBreak_of_isBlank (hinside c hc)
  · decide
  · cases gap with
    | none => cases hc
    | some gap =>
        rcases List.mem_append.1 hc with hc | hc
        · exact isLineBreak_of_isBlank (hgap c hc)
        · cases List.mem_singleton.1 hc
          decide
  · exact isLineBreak_of_isBlank (htail c hc)

/-- White space after a text that ends in something else is stripped. -/
theorem stripEnd_append {t blanks : Text} {c : Char} (hlast : t.getLast? = some c)
    (hc : Text.isSpace c = false) (hblanks : ∀ d ∈ blanks, isBlank d = true) :
    Text.stripEnd (t ++ blanks) = t := by
  obtain ⟨u, rfl⟩ := List.getLast?_eq_some_iff.1 hlast
  have hspace : ∀ d ∈ blanks.reverse, Text.isSpace d = true := fun d hd =>
    Text.isSpace_of_isBlank (hblanks d (List.mem_reverse.1 hd))
  rw [Text.stripEnd, Text.dropTail, List.reverse_append, List.dropWhile_append_of_pos hspace]
  simp [hc]

/-- The catalog keeps the lines of a signature. -/
theorem openingLines_line (s : Signature) : openingLines s.line = s.lines := by
  have hparen : Text.isSpace ')' = false := by decide
  have hbrace : Text.isSpace '\x7b' = false := by decide
  cases hgap : s.gap with
  | none =>
      have hline : s.line = s.start ++ s.tail := by
        rw [line, hgap]
        rfl
      have hstrip := stripEnd_append s.start_end hparen s.tail_blank
      have hlast : s.start.getLast? ≠ some '\x7b' := by
        rw [s.start_end]
        decide
      rw [openingLines, hline, hstrip, if_neg hlast, lines, hgap]
  | some gap =>
      have hline : s.line = (s.start ++ gap ++ ['\x7b']) ++ s.tail := by
        simp [line, hgap, braceText]
      have hblank : ∀ c ∈ gap, isBlank c = true := by
        have hall := s.gap_blank
        rwa [hgap] at hall
      have hstrip :=
        stripEnd_append (List.getLast?_concat (l := s.start ++ gap)) hbrace s.tail_blank
      rw [openingLines, hline, hstrip, if_pos List.getLast?_concat, List.dropLast_concat,
        stripEnd_append s.start_end hparen hblank, lines, hgap]

/-- A signature starts a definition with its lines. -/
theorem opened?_line (s : Signature) : opened? s.line = some ⟨s.name, s.lines⟩ := by
  rw [opened?, line, s.accepted, ← line, s.openingLines_line]
  rfl

end Signature

/-! ## Scripts -/

/-- Lines that start no definition. -/
structure Aside where
  lines : List Text
  unbroken : ∀ line ∈ lines, ∀ c ∈ line, Text.isLineBreak c = false
  unsigned : ∀ line ∈ lines, signature? line = none

/-- A definition as it is written, up to its closing line. -/
structure Opened where
  signature : Signature
  /-- The lines after the signature, with the opening brace among them if it has not stood yet. -/
  body : List Text
  unbroken : ∀ line ∈ body, ∀ c ∈ line, Text.isLineBreak c = false
  enclosed : ∀ line ∈ body, Definition.isClosing line = false

/-- A closing line. -/
structure Closing where
  line : Text
  unbroken : ∀ c ∈ line, Text.isLineBreak c = false
  accepted : Definition.isClosing line = true

/-- A text with definitions and other lines between them. -/
inductive Script where
  | ended (aside : Aside)
  /-- The last definition is never closed. -/
  | unclosed (aside : Aside) (definition : Opened)
  | closed (aside : Aside) (definition : Opened) (closing : Closing) (rest : Script)

/-- The lines of a definition up to its closing line. -/
def Opened.lines (o : Opened) : List Text := o.signature.line :: o.body

namespace Script

/-- The lines of a script. -/
def lines : Script → List Text
  | .ended aside => aside.lines
  | .unclosed aside o => aside.lines ++ o.lines
  | .closed aside o closing rest => aside.lines ++ (o.lines ++ closing.line :: rest.lines)

/-- The text of a script, in which each line ends in a newline. -/
def text (s : Script) : Text := Text.unlines s.lines

/-- The definitions of a script in order, each with its own lines. -/
def definitions : Script → List Definition
  | .ended _ => []
  | .unclosed _ o => [⟨o.signature.name, o.signature.lines ++ o.body⟩]
  | .closed _ o closing rest =>
      ⟨o.signature.name, o.signature.lines ++ (o.body ++ [closing.line])⟩ :: rest.definitions

/-- The names of the definitions in order. -/
def names (s : Script) : List Text := s.definitions.map (·.name)

end Script

/-! ## Cutting a script -/

/-- Lines that start no definition are skipped. -/
theorem cut_unsigned {lines : List Text} (h : ∀ line ∈ lines, signature? line = none)
    (rest : List Text) : cut none (lines ++ rest) = cut none rest := by
  induction lines with
  | nil => rfl
  | cons line lines ih =>
      have hline : opened? line = none := by
        rw [opened?, h line (by simp)]
        rfl
      rw [List.cons_append, cut, hline]
      exact ih fun l hl => h l (List.mem_cons_of_mem line hl)

/-- A definition that is never closed takes all lines. -/
theorem cut_unclosed {body : List Text} (h : ∀ line ∈ body, Definition.isClosing line = false)
    (d : Definition) : cut (some d) body = ([], some ⟨d.name, d.lines ++ body⟩) := by
  induction body generalizing d with
  | nil => simp [cut]
  | cons line body ih =>
      have hline : Definition.isClosing line = false := h line (by simp)
      have hrest := ih (fun l hl => h l (List.mem_cons_of_mem line hl)) ⟨d.name, d.lines ++ [line]⟩
      simp [cut, hline, hrest]

/-- A script is cut into its definitions. -/
theorem cut_script (s : Script) :
    (cut none s.lines).1 ++ (cut none s.lines).2.toList = s.definitions := by
  induction s with
  | ended aside =>
      have hcut := cut_unsigned aside.unsigned []
      rw [List.append_nil] at hcut
      rw [Script.lines, hcut]
      rfl
  | unclosed aside o =>
      rw [Script.lines, cut_unsigned aside.unsigned, Opened.lines, cut, o.signature.opened?_line,
        cut_unclosed o.enclosed]
      rfl
  | closed aside o closing rest ih =>
      rw [Script.lines, cut_unsigned aside.unsigned, Opened.lines, List.cons_append, cut,
        o.signature.opened?_line, cut_append_closing o.enclosed closing.accepted,
        Script.definitions, ← ih]
      rfl

/-- No line of a script holds a line break. -/
theorem Script.unbroken (s : Script) :
    ∀ line ∈ s.lines, ∀ c ∈ line, Text.isLineBreak c = false := by
  have hopened : ∀ o : Opened, ∀ line ∈ o.lines, ∀ c ∈ line, Text.isLineBreak c = false :=
    fun o => List.forall_mem_cons.2 ⟨fun _ hc => o.signature.unbroken hc, o.unbroken⟩
  induction s with
  | ended aside => exact aside.unbroken
  | unclosed aside o => exact List.forall_mem_append.2 ⟨aside.unbroken, hopened o⟩
  | closed aside o closing rest ih =>
      refine List.forall_mem_append.2 ⟨aside.unbroken, List.forall_mem_append.2 ⟨hopened o, ?_⟩⟩
      exact List.forall_mem_cons.2 ⟨closing.unbroken, ih⟩

/-- The catalog of a script holds its definitions, put in one after the other. -/
theorem ofText_text (s : Script) : ofText s.text = s.definitions.foldl insert empty := by
  rw [ofText, Script.text, Text.lines_unlines s.unbroken, ← cut_script s]

/-! ## Definitions under their names -/

/-- A name is found in a catalog if it is one of its names. -/
theorem find?_isSome_iff (c : Catalog) (name : Text) : (c.find? name).isSome ↔ name ∈ c.names := by
  simp [find?, names]

/-- A new name goes to the end, and one that is there keeps its place. -/
theorem names_insert (c : Catalog) (d : Definition) :
    (c.insert d).names = if d.name ∈ c.names then c.names else c.names ++ [d.name] := by
  by_cases hmem : d.name ∈ c.names
  · rw [insert, if_pos ((c.find?_isSome_iff d.name).2 hmem), if_pos hmem]
    have hsame : ((fun e : Definition => e.name) ∘ fun e => if e.name = d.name then d else e) =
        fun e => e.name := by
      funext e
      by_cases he : e.name = d.name
      · simp [he]
      · simp [he]
    rw [names, List.map_map, hsame]
    rfl
  · rw [insert, if_neg (fun hsome => hmem ((c.find?_isSome_iff d.name).1 hsome)), if_neg hmem]
    simp [names]

/-- A definition is found under its name, and every other name has what it had. -/
theorem find?_insert (c : Catalog) (d : Definition) (name : Text) :
    (c.insert d).find? name = if d.name = name then some d else c.find? name := by
  by_cases hthere : (c.find? d.name).isSome = true
  · have hkeys : ((fun e : Definition => e.name == name) ∘ fun e =>
        if e.name = d.name then d else e) = fun e => e.name == name := by
      funext e
      by_cases he : e.name = d.name
      · simp [he]
      · simp [he]
    rw [insert, if_pos hthere, find?, List.find?_map, hkeys]
    cases hfound : c.find? name with
    | none =>
        have hne : d.name ≠ name := by
          rintro rfl
          rw [hfound] at hthere
          cases hthere
        rw [find?] at hfound
        rw [hfound, if_neg hne]
        rfl
    | some e =>
        have he : e.name = name := by simpa using List.find?_some hfound
        rw [find?] at hfound
        rw [hfound, Option.map_some, he]
        by_cases hname : d.name = name
        · simp [hname]
        · simp [hname, Ne.symm hname]
  · rw [insert, if_neg hthere, find?, List.find?_append]
    by_cases hname : d.name = name
    · have hnone : c.find? name = none := by
        rw [← hname]
        simpa using hthere
      rw [find?] at hnone
      rw [hnone, if_pos hname]
      simp [hname]
    · rw [if_neg hname]
      simp [hname, find?]

/-- A name at the end counts only if it is new. -/
theorem eraseDups_concat (names : List Text) (name : Text) :
    (names ++ [name]).eraseDups =
      if name ∈ names then names.eraseDups else names.eraseDups ++ [name] := by
  rw [List.eraseDups_append, List.cons_removeAll]
  by_cases hmem : name ∈ names
  · simp [hmem]
  · simp [hmem, List.eraseDups_cons]

/-- Names stand in the order in which they first appear. -/
theorem names_foldl_insert (ds : List Definition) :
    (ds.foldl insert empty).names = (ds.map (·.name)).eraseDups := by
  induction ds using List.reverseRecOn with
  | nil => rfl
  | append_singleton ds d ih =>
      rw [List.foldl_append, List.foldl_cons, List.foldl_nil, names_insert, ih, List.map_append,
        List.map_singleton, eraseDups_concat]
      simp only [List.mem_eraseDups]

/-- Under a name stands the last definition that has it. -/
theorem find?_foldl_insert (ds : List Definition) (name : Text) :
    (ds.foldl insert empty).find? name = ds.reverse.find? (·.name == name) := by
  induction ds using List.reverseRecOn with
  | nil => rfl
  | append_singleton ds d ih =>
      rw [List.foldl_append, List.foldl_cons, List.foldl_nil, find?_insert, ih,
        List.reverse_append, List.reverse_singleton, List.singleton_append]
      by_cases hname : d.name = name
      · simp [hname]
      · have hbeq : (d.name == name) = false := beq_eq_false_iff_ne.2 hname
        rw [if_neg hname, List.find?_cons_of_neg (by simp [hbeq])]

/-- Names that are all different are kept as they are. -/
theorem eraseDups_of_nodup {names : List Text} (h : names.Nodup) : names.eraseDups = names := by
  induction names using List.reverseRecOn with
  | nil => rfl
  | append_singleton names name ih =>
      obtain ⟨hnames, -, hdisjoint⟩ := List.nodup_append.1 h
      have hmem : name ∉ names := fun hmem => hdisjoint name hmem name (by simp) rfl
      rw [eraseDups_concat, if_neg hmem, ih hnames]

/-- A definition whose name no other has is the last one with that name. -/
theorem find?_reverse_of_nodup {ds : List Definition} (h : (ds.map (·.name)).Nodup)
    {d : Definition} (hd : d ∈ ds) : ds.reverse.find? (·.name == d.name) = some d := by
  cases hfind : ds.reverse.find? (·.name == d.name) with
  | none => simpa using List.find?_eq_none.1 hfind d (List.mem_reverse.2 hd)
  | some e =>
      have hname : e.name = d.name := by simpa using List.find?_some hfind
      have he : e ∈ ds := List.mem_reverse.1 (List.mem_of_find?_eq_some hfind)
      rw [List.inj_on_of_nodup_map h he hd hname]

/-! ## Catalogs of scripts -/

/-- The catalog of a script has the names of its definitions in the order in which they first
appear, and under each name the last definition that has it. If no name repeats, it has every
definition under its name with exactly its own lines. -/
theorem ofText_script (s : Script) :
    (ofText s.text).names = s.names.eraseDups ∧
    (∀ name, (ofText s.text).find? name = s.definitions.reverse.find? (·.name == name)) ∧
    (s.names.Nodup → (ofText s.text).names = s.names ∧
      ∀ d ∈ s.definitions, (ofText s.text).find? d.name = some d) := by
  have hnames : (ofText s.text).names = s.names.eraseDups := by
    rw [ofText_text, names_foldl_insert, Script.names]
  have hfind : ∀ name, (ofText s.text).find? name =
      s.definitions.reverse.find? (·.name == name) := fun name => by
    rw [ofText_text, find?_foldl_insert]
  refine ⟨hnames, hfind, fun hnodup => ⟨?_, fun d hd => ?_⟩⟩
  · rw [hnames, eraseDups_of_nodup hnodup]
  · rw [hfind, find?_reverse_of_nodup hnodup hd]

/-- The definition of a function with the brace on the line of its signature. -/
def hail : Opened where
  signature := ⟨"hail", "hail()", some " ", [], rfl, List.all_eq_true.1 rfl,
    List.all_eq_true.1 rfl, by decide⟩
  body := ["  : one;"]
  unbroken := List.forall_mem_singleton.2 fun _ hc => Text.eq_false_of_any rfl hc
  enclosed := by decide

/-- The definition of a function with the keyword and with the brace on the next line. -/
def leave : Opened where
  signature := ⟨"leave", "function leave ( )", none, " ", rfl, List.all_eq_true.1 rfl,
    List.all_eq_true.1 rfl, by decide⟩
  body := [['\x7b'], "  : two;"]
  unbroken := List.forall_mem_cons.2 ⟨fun _ hc => Text.eq_false_of_any rfl hc,
    List.forall_mem_singleton.2 fun _ hc => Text.eq_false_of_any rfl hc⟩
  enclosed := by decide

/-- A line with just the brace that closes a definition. -/
def brace : Closing := ⟨['\x7d'], fun _ hc => Text.eq_false_of_any rfl hc, by decide⟩

def remark : Aside where
  lines := ["# greetings"]
  unbroken := List.forall_mem_singleton.2 fun _ hc => Text.eq_false_of_any rfl hc
  unsigned := by decide

/-- A remark and two definitions, of which the second is never closed. -/
def greetings : Script := .closed remark hail brace (.unclosed ⟨[], by simp, by simp⟩ leave)

theorem ofText_greetings :
    greetings.names.Nodup ∧
    (ofText greetings.text).names = [("hail" : Text), ("leave" : Text)] ∧
    (ofText greetings.text).find? "hail" =
      some ⟨"hail", ["hail()", ['\x7b'], "  : one;", ['\x7d']]⟩ ∧
    (ofText greetings.text).find? "leave" =
      some ⟨"leave", ["function leave ( ) ", ['\x7b'], "  : two;"]⟩ := by
  have hnodup : greetings.names.Nodup := by decide
  obtain ⟨-, -, hdistinct⟩ := ofText_script greetings
  obtain ⟨hnames, hfind⟩ := hdistinct hnodup
  exact ⟨hnodup, hnames, hfind ⟨"hail", _⟩ (by decide), hfind ⟨"leave", _⟩ (by decide)⟩

end ShellDocs.Catalog
