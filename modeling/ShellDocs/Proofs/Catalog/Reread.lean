import ShellDocs.Proofs.Catalog.Script

/-!
# Definitions that are read again

A definition in a catalog may be written out and read again, by itself or as a catalog of its own.
Both readings give it back (`find?_reread`), although each of them takes the name from the
signature in its own way. The reason is that a signature line has one name: `Signs` says which in
the words of its author, and both ways agree with it.
-/

namespace ShellDocs.Catalog

open Text (isBlank skipBlanks)

/-! ## The name in a signature line -/

/-- The keyword and at least one blank, or nothing. -/
def IsKeyword (t : Text) : Prop :=
  t = [] ∨ ∃ c blanks, isBlank c = true ∧ (∀ d ∈ blanks, isBlank d = true) ∧
    t = "function".toList ++ c :: blanks

/-- A line is a signature with a name. -/
structure Signs (line name : Text) : Prop where
  ne_nil : name ≠ []
  chars : ∀ c ∈ name, isNameChar c = true
  parts : ∃ keyword after, IsKeyword keyword ∧ isSignatureTail after = true ∧
    line = keyword ++ (name ++ after)

variable {line name after : Text}

/-- What follows a name starts with blanks and an opening parenthesis. -/
theorem skipBlanks_of_isSignatureTail (h : isSignatureTail after = true) :
    ∃ rest, skipBlanks after = '(' :: rest := by
  unfold isSignatureTail at h
  split at h
  · next rest hrest => exact ⟨rest, hrest⟩
  · contradiction

/-- The first character after a name is a blank or a parenthesis. -/
theorem exists_cons_of_isSignatureTail (h : isSignatureTail after = true) :
    ∃ c rest, after = c :: rest ∧ (isBlank c = true ∨ c = '(') := by
  obtain ⟨rest, hrest⟩ := skipBlanks_of_isSignatureTail h
  cases after with
  | nil => contradiction
  | cons c tail =>
      cases hc : isBlank c with
      | true => exact ⟨c, tail, rfl, .inl hc⟩
      | false =>
          rw [Text.skipBlanks_cons hc] at hrest
          exact ⟨c, tail, rfl, .inr (List.cons.inj hrest).1⟩

/-- A name is the longest beginning of a text whose characters pass a test, if its own do and
neither a blank nor a parenthesis does. -/
theorem span_of_isSignatureTail {p : Char → Bool} (hname : ∀ c ∈ name, p c = true)
    (hp : ∀ c, isBlank c = true ∨ c = '(' → p c = false) (h : isSignatureTail after = true) :
    (name ++ after).takeWhile p = name ∧ (name ++ after).dropWhile p = after := by
  obtain ⟨c, rest, rfl, hc⟩ := exists_cons_of_isSignatureTail h
  have hstop : p c = false := hp c hc
  rw [List.takeWhile_append_of_pos hname, List.dropWhile_append_of_pos hname]
  simp [hstop]

theorem isNameChar_eq_false {c : Char} (h : isBlank c = true ∨ c = '(') :
    isNameChar c = false := by
  obtain hblank | rfl := h
  · exact isNameChar_eq_false_of_isBlank hblank
  · decide

theorem isSpace_of_isNameChar {c : Char} (h : isNameChar c = true) : Text.isSpace c = false := by
  cases hspace : Text.isSpace c with
  | false => rfl
  | true => simp [isNameChar, hspace] at h

/-- A name has a first character, and that is no blank. -/
theorem exists_cons_of_name (hne : name ≠ []) (hname : ∀ c ∈ name, isNameChar c = true) :
    ∃ c rest, name = c :: rest ∧ isBlank c = false ∧ Text.isSpace c = false := by
  obtain ⟨c, rest, rfl⟩ := List.exists_cons_of_ne_nil hne
  have hspace : Text.isSpace c = false := isSpace_of_isNameChar (hname c List.mem_cons_self)
  refine ⟨c, rest, rfl, ?_, hspace⟩
  cases hblank : isBlank c with
  | false => rfl
  | true =>
      rw [Text.isSpace_of_isBlank hblank] at hspace
      contradiction

theorem bareSignature?_name (hne : name ≠ []) (hname : ∀ c ∈ name, isNameChar c = true)
    (h : isSignatureTail after = true) : bareSignature? (name ++ after) = some name := by
  obtain ⟨htake, hdrop⟩ := span_of_isSignatureTail hname (fun _ => isNameChar_eq_false) h
  simp [bareSignature?, htake, hdrop, h, hne]

/-- What follows the keyword follows the name, if the name is the keyword. -/
theorem eq_of_keyword_append {c : Char} {rest : Text} (hname : ∀ c ∈ name, isNameChar c = true)
    (h : isSignatureTail after = true) (hc : isNameChar c = false)
    (hline : "function".toList ++ c :: rest = name ++ after) : after = c :: rest := by
  have hkeyword : ∀ d ∈ "function".toList, isNameChar d = true := List.all_eq_true.1 rfl
  obtain ⟨-, hdrop⟩ := span_of_isSignatureTail hname (fun _ => isNameChar_eq_false) h
  rw [← hdrop, ← hline, List.dropWhile_append_of_pos hkeyword,
    List.dropWhile_cons_of_neg (by simp [hc])]

/-- No other name follows a name that is the keyword. -/
theorem bind_afterKeyword?_name (hname : ∀ c ∈ name, isNameChar c = true)
    (h : isSignatureTail after = true) :
    (afterKeyword? (name ++ after)).bind bareSignature? = none := by
  unfold afterKeyword?
  split
  · next c rest hkeyword =>
      split_ifs with hblank
      · have hafter := eq_of_keyword_append hname h (isNameChar_eq_false_of_isBlank hblank)
          (Text.after?_eq_some_iff.1 hkeyword)
        obtain ⟨paren, hparen⟩ := skipBlanks_of_isSignatureTail h
        have hrest : skipBlanks rest = '(' :: paren := by
          rw [← hparen, hafter]
          simp [skipBlanks, hblank]
        rw [Option.bind_some, hrest]
        rfl
      · rfl
  · rfl

theorem afterKeyword?_keyword {c : Char} {blanks : Text} (hc : isBlank c = true)
    (hblanks : ∀ d ∈ blanks, isBlank d = true) (hne : name ≠ [])
    (hname : ∀ c ∈ name, isNameChar c = true) :
    afterKeyword? (("function".toList ++ c :: blanks) ++ (name ++ after)) =
      some (name ++ after) := by
  have hafter : Text.after? "function".toList
      (("function".toList ++ c :: blanks) ++ (name ++ after)) =
      some (c :: (blanks ++ (name ++ after))) := Text.after?_eq_some_iff.2 (by simp)
  obtain ⟨d, rest, hcons, hd, -⟩ := exists_cons_of_name hne hname
  have hskip : skipBlanks (blanks ++ (name ++ after)) = name ++ after := by
    rw [Text.skipBlanks_append hblanks, hcons]
    exact Text.skipBlanks_cons hd _
  simp only [afterKeyword?, hafter, if_pos hc, hskip]

/-- A name that is found behind the keyword, or without it, makes a signature. -/
theorem signs_of_bareSignature? {keyword t : Text} (hkeyword : IsKeyword keyword)
    (h : bareSignature? t = some name) : Signs (keyword ++ t) name := by
  obtain ⟨after, rfl, hchars, hafter⟩ := bareSignature?_eq_some h
  refine ⟨?_, hchars, keyword, after, hkeyword, hafter, rfl⟩
  rintro rfl
  obtain ⟨c, rest, rfl, hc⟩ := exists_cons_of_isSignatureTail hafter
  simp [bareSignature?, isNameChar_eq_false hc] at h

/-- What is read behind the keyword stands behind it and blanks. -/
theorem exists_of_afterKeyword? {t : Text} (h : afterKeyword? line = some t) :
    ∃ keyword, IsKeyword keyword ∧ line = keyword ++ t := by
  unfold afterKeyword? at h
  split at h
  · next c tail hafter =>
      split_ifs at h with hblank
      obtain rfl := Option.some.inj h
      obtain ⟨blanks, hblanks, htail⟩ := Text.exists_blanks_append tail
      refine ⟨"function".toList ++ c :: blanks, .inr ⟨c, blanks, hblank, hblanks, rfl⟩, ?_⟩
      rw [← Text.after?_eq_some_iff.1 hafter, List.append_assoc, List.cons_append, ← htail]
  · contradiction

/-- The catalog takes a line for a signature just if it is one, with the name that it has. -/
theorem signature?_eq_some_iff : signature? line = some name ↔ Signs line name := by
  constructor
  · intro h
    unfold signature? at h
    split at h
    · next found hfound =>
        obtain rfl := Option.some.inj h
        obtain ⟨t, ht, hname⟩ := Option.bind_eq_some_iff.1 hfound
        obtain ⟨keyword, hkeyword, rfl⟩ := exists_of_afterKeyword? ht
        exact signs_of_bareSignature? hkeyword hname
    · exact signs_of_bareSignature? (.inl rfl) h
  · rintro ⟨hne, hname, keyword, after, rfl | ⟨c, blanks, hc, hblanks, rfl⟩, hafter, rfl⟩
    · rw [List.nil_append, signature?, bind_afterKeyword?_name hname hafter]
      exact bareSignature?_name hne hname hafter
    · rw [signature?, afterKeyword?_keyword hc hblanks hne hname, Option.bind_some,
        bareSignature?_name hne hname hafter]

/-- The longest beginning that may be a name is the name. -/
theorem leadingName_name (hname : ∀ c ∈ name, isNameChar c = true)
    (h : isSignatureTail after = true) : Definition.leadingName (name ++ after) = name := by
  refine (span_of_isSignatureTail (fun c hc => ?_) (fun c hc => ?_) h).1
  · have hchar := hname c hc
    simp only [isNameChar, Bool.not_eq_true', Bool.or_eq_false_iff] at hchar ⊢
    exact hchar.1
  · obtain hblank | rfl := hc
    · simp [Text.isSpace_of_isBlank hblank]
    · decide

theorem stripStart_cons {c : Char} (h : Text.isSpace c = false) (t : Text) :
    Text.stripStart (c :: t) = c :: t := by
  simp [Text.stripStart, h]

/-- What follows a name is stripped up to its opening parenthesis. -/
theorem stripStart_of_isSignatureTail (h : isSignatureTail after = true) :
    ∃ rest, Text.stripStart after = '(' :: rest := by
  obtain ⟨rest, hrest⟩ := skipBlanks_of_isSignatureTail h
  obtain ⟨blanks, hblanks, hafter⟩ := Text.exists_blanks_append after
  refine ⟨rest, ?_⟩
  rw [hafter, hrest, Text.stripStart,
    List.dropWhile_append_of_pos fun c hc => Text.isSpace_of_isBlank (hblanks c hc)]
  exact stripStart_cons (by decide) rest

theorem stripStart_name (hne : name ≠ []) (hname : ∀ c ∈ name, isNameChar c = true) :
    Text.stripStart (name ++ after) = name ++ after := by
  obtain ⟨c, rest, rfl, -, hspace⟩ := exists_cons_of_name hne hname
  exact stripStart_cons hspace _

/-- A definition that is read by itself has the name that starts its signature line, also if that
is the keyword. -/
theorem signatureName_name (hne : name ≠ []) (hname : ∀ c ∈ name, isNameChar c = true)
    (h : isSignatureTail after = true) : Definition.signatureName (name ++ after) = name := by
  have hleading := leadingName_name hname h
  rw [Definition.signatureName, stripStart_name hne hname]
  split
  · next tail htail =>
      dsimp only
      split_ifs with hfollowed
      · -- White space after the keyword makes it the name, and then no other name follows.
        exfalso
        obtain ⟨hhead, hother⟩ := Bool.and_eq_true_iff.1 hfollowed
        obtain ⟨e, he, hspace⟩ := (Option.any_eq_true _ _).1 hhead
        obtain ⟨more, rfl⟩ := List.head?_eq_some_iff.1 he
        have hend : isNameChar e = false := by simp [isNameChar, hspace]
        have hafter := eq_of_keyword_append hname h hend (Text.after?_eq_some_iff.1 htail)
        obtain ⟨paren, hparen⟩ := stripStart_of_isSignatureTail h
        rw [← hafter, hparen] at hother
        contradiction
      · exact hleading
  · exact hleading

/-- A definition that is read by itself has the name behind the keyword and blanks. -/
theorem signatureName_keyword {c : Char} {blanks : Text} (hc : isBlank c = true)
    (hblanks : ∀ d ∈ blanks, isBlank d = true) (hne : name ≠ [])
    (hname : ∀ c ∈ name, isNameChar c = true) (h : isSignatureTail after = true) :
    Definition.signatureName (("function".toList ++ c :: blanks) ++ (name ++ after)) = name := by
  have hafterKeyword : Text.after? "function".toList
      (("function".toList ++ c :: blanks) ++ (name ++ after)) =
      some (c :: (blanks ++ (name ++ after))) := Text.after?_eq_some_iff.2 (by simp)
  have hgap : ∀ d ∈ c :: blanks, Text.isSpace d = true :=
    List.forall_mem_cons.2 ⟨Text.isSpace_of_isBlank hc, fun d hd =>
      Text.isSpace_of_isBlank (hblanks d hd)⟩
  have hrest : Text.stripStart (c :: (blanks ++ (name ++ after))) = name ++ after := by
    rw [← List.cons_append, Text.stripStart, List.dropWhile_append_of_pos hgap]
    exact stripStart_name hne hname
  have hline : Text.stripStart (("function".toList ++ c :: blanks) ++ (name ++ after)) =
      ("function".toList ++ c :: blanks) ++ (name ++ after) := stripStart_cons (by decide) _
  rw [Definition.signatureName, hline]
  simp only [hafterKeyword, hrest, leadingName_name hname h]
  simp [hgap c, hne]

/-- A definition that is read by itself has the name in its signature line. -/
theorem signatureName_of_signs (h : Signs line name) : Definition.signatureName line = name := by
  obtain ⟨hne, hname, keyword, after, rfl | ⟨c, blanks, hc, hblanks, rfl⟩, hafter, rfl⟩ := h
  · exact signatureName_name hne hname hafter
  · exact signatureName_keyword hc hblanks hne hname hafter

/-! ## Signature lines without their brace -/

/-- The last closing parenthesis cuts a text in one way. -/
theorem append_inj_of_paren {t u v w : Text} (h : t ++ v = u ++ w) (ht : t.getLast? = some ')')
    (hu : u.getLast? = some ')') (hv : ')' ∉ v) (hw : ')' ∉ w) : t = u ∧ v = w := by
  have hlast {a b c : Text} (hb : (a ++ b).getLast? = some ')') (hc : ')' ∉ b ++ c) : b = [] := by
    by_contra hne
    rw [List.getLast?_append_of_ne_nil _ hne] at hb
    exact hc (List.mem_append_left c (List.mem_of_getLast? hb))
  obtain ⟨b, rfl, rfl⟩ | ⟨b, rfl, rfl⟩ := List.append_eq_append_iff.1 h
  · obtain rfl := hlast hu hv
    simp
  · obtain rfl := hlast ht hw
    simp

theorem paren_not_mem_tail {gap : Option Text} {tail : Text}
    (hgap : ∀ c ∈ gap.getD [], isBlank c = true) (htail : ∀ c ∈ tail, isBlank c = true) :
    ')' ∉ braceText gap ++ tail := by
  have hblank {t : Text} (h : ∀ c ∈ t, isBlank c = true) : ')' ∉ t := fun hmem => by
    have := h _ hmem
    contradiction
  rw [List.mem_append, not_or]
  refine ⟨?_, hblank htail⟩
  cases gap with
  | none => exact List.not_mem_nil
  | some gap =>
      rw [braceText, Option.elim_some, List.mem_append, not_or]
      exact ⟨hblank hgap, by decide⟩

theorem isSignatureTail_parens {before inside : Text} (hbefore : ∀ c ∈ before, isBlank c = true)
    (hinside : ∀ c ∈ inside, isBlank c = true) :
    isSignatureTail (before ++ '(' :: (inside ++ [')'])) = true := by
  have hopen (t : Text) : skipBlanks ('(' :: t) = '(' :: t := Text.skipBlanks_cons (by decide) t
  have hclose : skipBlanks [')'] = [')'] := Text.skipBlanks_cons (by decide) []
  have hend : skipBlanks [] = [] := rfl
  simp only [isSignatureTail, Text.skipBlanks_append hbefore, hopen,
    Text.skipBlanks_append hinside, hclose, hend, List.isEmpty_nil]

/-- What stands behind the parentheses of a signature does not matter for its name. -/
theorem Signature.signs_start (s : Signature) : Signs s.start s.name := by
  obtain ⟨hne, hname, keyword, after, hkeyword, hafter, hline⟩ :=
    signature?_eq_some_iff.1 s.accepted
  obtain ⟨before, inside, gap, tail, rfl, hbefore, hinside, hgap, htail⟩ :=
    exists_of_isSignatureTail hafter
  have hcut : s.start ++ (braceText s.gap ++ s.tail) =
      (keyword ++ (s.name ++ (before ++ '(' :: (inside ++ [')'])))) ++ (braceText gap ++ tail) := by
    rw [hline]
    simp
  have hlast : (keyword ++ (s.name ++ (before ++ '(' :: (inside ++ [')'])))).getLast? =
      some ')' := by
    have hconcat : keyword ++ (s.name ++ (before ++ '(' :: (inside ++ [')']))) =
        (keyword ++ (s.name ++ (before ++ '(' :: inside))) ++ [')'] := by simp
    rw [hconcat, List.getLast?_concat]
  obtain ⟨hstart, -⟩ := append_inj_of_paren hcut s.start_end hlast
    (paren_not_mem_tail s.gap_blank s.tail_blank) (paren_not_mem_tail hgap htail)
  exact ⟨hne, hname, keyword, _, hkeyword, isSignatureTail_parens hbefore hinside, hstart⟩

/-- A definition as the catalog keeps it: an opening brace stands on a line of its own. -/
theorem Opened.exists_kept (o : Opened) :
    ∃ kept : Opened, kept.signature.name = o.signature.name ∧
      kept.lines = o.signature.lines ++ o.body ∧
      kept.signature.lines ++ kept.body = o.signature.lines ++ o.body := by
  cases hgap : o.signature.gap with
  | none =>
      refine ⟨o, rfl, ?_, rfl⟩
      simp [Opened.lines, Signature.line, Signature.lines, hgap, braceText]
  | some gap =>
      have haccepted : signature? (o.signature.start ++ (braceText none ++ [])) =
          some o.signature.name := by
        rw [braceText, Option.elim_none, List.append_nil, List.append_nil]
        exact signature?_eq_some_iff.2 o.signature.signs_start
      let kept : Opened :=
        { signature := ⟨o.signature.name, o.signature.start, none, [], o.signature.start_end,
            by simp, by simp, haccepted⟩
          body := ['\x7b'] :: o.body
          unbroken := List.forall_mem_cons.2 ⟨fun _ hc => Text.eq_false_of_any rfl hc, o.unbroken⟩
          enclosed := List.forall_mem_cons.2 ⟨by decide, o.enclosed⟩ }
      refine ⟨kept, rfl, ?_, ?_⟩
      · simp [kept, Opened.lines, Signature.line, Signature.lines, hgap, braceText]
      · simp [kept, Signature.lines, hgap]

/-! ## Every text is a script -/

/-- A line that starts no definition may stand before a script. -/
theorem Script.exists_cons {line : Text} (hline : ∀ c ∈ line, Text.isLineBreak c = false)
    (hsigned : signature? line = none) (s : Script) :
    ∃ s' : Script, s'.lines = line :: s.lines := by
  have hskip (aside : Aside) : ∃ more : Aside, more.lines = line :: aside.lines :=
    ⟨⟨line :: aside.lines, List.forall_mem_cons.2 ⟨hline, aside.unbroken⟩,
      List.forall_mem_cons.2 ⟨hsigned, aside.unsigned⟩⟩, rfl⟩
  cases s with
  | ended aside =>
      obtain ⟨more, hmore⟩ := hskip aside
      exact ⟨.ended more, hmore⟩
  | unclosed aside o =>
      obtain ⟨more, hmore⟩ := hskip aside
      exact ⟨.unclosed more o, by simp [Script.lines, hmore]⟩
  | closed aside o closing rest =>
      obtain ⟨more, hmore⟩ := hskip aside
      exact ⟨.closed more o closing rest, by simp [Script.lines, hmore]⟩

/-- Whatever stands on some lines, they are those of a script, also when they follow an open
definition. -/
theorem exists_script_lines {lines : List Text}
    (h : ∀ line ∈ lines, ∀ c ∈ line, Text.isLineBreak c = false) :
    (∃ s : Script, s.lines = lines) ∧
      ∀ o : Opened, ∃ s : Script, s.lines = o.lines ++ lines := by
  induction lines with
  | nil =>
      refine ⟨⟨.ended ⟨[], by simp, by simp⟩, rfl⟩, fun o => ?_⟩
      exact ⟨.unclosed ⟨[], by simp, by simp⟩ o, by simp [Script.lines]⟩
  | cons line rest ih =>
      obtain ⟨hline, hrest⟩ := List.forall_mem_cons.1 h
      obtain ⟨⟨s, hs⟩, hopen⟩ := ih hrest
      constructor
      · cases hsigned : signature? line with
        | none =>
            rw [← hs]
            exact s.exists_cons hline hsigned
        | some name =>
            obtain ⟨signature, hsignature, -⟩ := Signature.exists_of_signature? hsigned
            obtain ⟨s', hs'⟩ := hopen ⟨signature, [], by simp, by simp⟩
            exact ⟨s', by simp [hs', Opened.lines, hsignature]⟩
      · intro o
        cases hclosing : Definition.isClosing line with
        | true =>
            refine ⟨.closed ⟨[], by simp, by simp⟩ o ⟨line, hline, hclosing⟩ s, ?_⟩
            simp [Script.lines, hs]
        | false =>
            obtain ⟨s', hs'⟩ := hopen ⟨o.signature, o.body ++ [line],
              List.forall_mem_append.2 ⟨o.unbroken, List.forall_mem_singleton.2 hline⟩,
              List.forall_mem_append.2 ⟨o.enclosed, List.forall_mem_singleton.2 hclosing⟩⟩
            exact ⟨s', by simp [hs', Opened.lines]⟩

/-- The catalog of a text holds the definitions of its script, put in one after the other. -/
theorem ofText_of_lines {t : Text} {s : Script} (h : Text.lines t = s.lines) :
    ofText t = s.definitions.foldl insert empty := by
  rw [ofText, h, ← cut_script s]

/-! ## Definitions alone -/

/-- A definition of a script, as it is kept, makes a script of its own. -/
theorem Script.exists_alone {s : Script} {d : Definition} (h : d ∈ s.definitions) :
    ∃ (o : Opened) (alone : Script), alone.lines = d.lines ∧ alone.definitions = [d] ∧
      o.signature.name = d.name ∧ d.lines.head? = some o.signature.line := by
  induction s with
  | ended aside => contradiction
  | unclosed aside o =>
      obtain rfl := List.mem_singleton.1 h
      obtain ⟨kept, hname, hlines, hkept⟩ := o.exists_kept
      refine ⟨kept, .unclosed ⟨[], by simp, by simp⟩ kept, ?_, ?_, hname, ?_⟩
      · simp [Script.lines, hlines]
      · simp [Script.definitions, hname, hkept]
      · simp [← hlines, Opened.lines]
  | closed aside o closing rest ih =>
      obtain rfl | h := List.mem_cons.1 h
      · obtain ⟨kept, hname, hlines, hkept⟩ := o.exists_kept
        refine ⟨kept, .closed ⟨[], by simp, by simp⟩ kept closing (.ended ⟨[], by simp, by simp⟩),
          ?_, ?_, hname, ?_⟩
        · simp [Script.lines, hlines]
        · simp [Script.definitions, hname, ← List.append_assoc, hkept]
        · simp [← List.append_assoc, ← hlines, Opened.lines]
      · exact ih h

/-- A definition that a catalog has under a name has this name. Written out, it is read as itself,
whether the name is taken from its signature or the text is cut into definitions; and it is the
only one then. -/
theorem find?_reread {t name : Text} {d : Definition} (h : (ofText t).find? name = some d) :
    d.name = name ∧
      Definition.ofText (Text.joinNewlines d.lines ++ ['\n']) none = d ∧
      ofText (Text.joinNewlines d.lines ++ ['\n']) = ⟨[d]⟩ := by
  have hname : d.name = name := by simpa using List.find?_some h
  have hunbroken : ∀ line ∈ Text.lines t, ∀ c ∈ line, Text.isLineBreak c = false :=
    fun _ hline _ hc => Text.isLineBreak_of_mem_lines hline hc
  obtain ⟨⟨s, hs⟩, -⟩ := exists_script_lines hunbroken
  rw [ofText_of_lines hs.symm, find?_foldl_insert] at h
  have hd : d ∈ s.definitions := List.mem_reverse.1 (List.mem_of_find?_eq_some h)
  obtain ⟨o, alone, hlines, hdefinitions, hsignature, hhead⟩ := s.exists_alone hd
  have hne : d.lines ≠ [] := by
    intro hnil
    simp [hnil] at hhead
  have hread : Text.lines (Text.joinNewlines d.lines ++ ['\n']) = d.lines := by
    rw [Text.joinNewlines_concat hne, ← hlines]
    exact Text.lines_unlines alone.unbroken
  refine ⟨hname, ?_, ?_⟩
  · have hsigns : Definition.signatureName o.signature.line = d.name := by
      rw [← hsignature]
      exact signatureName_of_signs (signature?_eq_some_iff.1 o.signature.accepted)
    simp [Definition.ofText, hread, hhead, hsigns]
  · rw [ofText_of_lines (hread.trans hlines.symm), hdefinitions]
    rfl

/-- A text with a function whose name is the keyword, and whose brace is on the line of its
signature. -/
def keywordScript : Text := "function function ( ) \x7b \n    : doc\n\x7d ;\n# end\n"

/-- The function as the catalog keeps it. -/
def keywordDefinition : Definition :=
  ⟨"function", ["function function ( )", ['\x7b'], "    : doc", "\x7d ;"]⟩

theorem find?_reread_keyword :
    (ofText keywordScript).find? "function" = some keywordDefinition ∧
    Definition.ofText "function function ( )\n\x7b\n    : doc\n\x7d ;\n" none =
      keywordDefinition ∧
    ofText "function function ( )\n\x7b\n    : doc\n\x7d ;\n" = ⟨[keywordDefinition]⟩ := by
  have hfind : (ofText keywordScript).find? "function" = some keywordDefinition := by decide
  exact ⟨hfind, (find?_reread hfind).2⟩

end ShellDocs.Catalog
