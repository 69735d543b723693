import Mathlib.Data.List.Basic
import Mathlib.Data.List.TakeWhile
import ShellDocs.Text.Space

/-!
# Lines, blanks and their inverses

Facts about cutting and joining that every later proof about lines rests on. Joining lines by
newlines is undone by `splitNewlines` when no line holds a newline, and `unlines` is undone by
`lines` when no line holds a line break. Blanks before a text and after it are dropped by
`skipBlanks` and `dropTailBlanks`, which leave everything else alone.
-/

namespace ShellDocs.Text

/-! ## Blanks -/

/-- A blank is white space. -/
theorem isSpace_of_isBlank {c : Char} (h : isBlank c = true) : isSpace c = true := by
  simp only [isBlank, Bool.or_eq_true, beq_iff_eq] at h
  rcases h with rfl | rfl <;> decide

/-- Blanks in front of a text are skipped. -/
theorem skipBlanks_append {blanks : Text} (h : ∀ c ∈ blanks, isBlank c = true) (t : Text) :
    skipBlanks (blanks ++ t) = skipBlanks t :=
  List.dropWhile_append_of_pos h

/-- Nothing is skipped of a text that starts with another character. -/
theorem skipBlanks_cons {c : Char} (h : isBlank c = false) (t : Text) :
    skipBlanks (c :: t) = c :: t := by
  simp [skipBlanks, h]

/-- The text starts with blanks, and the rest is what is left when they are skipped. -/
theorem exists_blanks_append (t : Text) :
    ∃ blanks, (∀ c ∈ blanks, isBlank c = true) ∧ t = blanks ++ skipBlanks t :=
  ⟨t.takeWhile isBlank, fun _ hc => List.mem_takeWhile_imp hc,
    List.takeWhile_append_dropWhile.symm⟩

/-- Nothing is left of blanks when they are skipped. -/
theorem skipBlanks_eq_nil {t : Text} : skipBlanks t = [] ↔ ∀ c ∈ t, isBlank c = true :=
  List.dropWhile_eq_nil_iff

theorem mem_of_mem_skipBlanks {c : Char} {t : Text} (h : c ∈ skipBlanks t) : c ∈ t :=
  (List.dropWhile_suffix isBlank).subset h

/-- A text that ends in another character has no trailing blanks. -/
theorem dropTailBlanks_concat {c : Char} (h : isBlank c = false) (t : Text) :
    dropTailBlanks (t ++ [c]) = t ++ [c] := by
  simp [dropTailBlanks, dropTail, h]

/-- Dropping trailing characters leaves a beginning of the text. -/
theorem dropTail_isPrefix (p : Char → Bool) (t : Text) : dropTail p t <+: t := by
  have h := List.reverse_prefix.2 (List.dropWhile_suffix p (l := t.reverse))
  simpa [dropTail] using h

theorem mem_of_mem_dropTailBlanks {c : Char} {t : Text} (h : c ∈ dropTailBlanks t) : c ∈ t :=
  (dropTail_isPrefix isBlank t).subset h

/-- Trailing characters that satisfy the test are dropped. -/
theorem dropTail_append {p : Char → Bool} {tail : Text} (h : ∀ c ∈ tail, p c = true) (t : Text) :
    dropTail p (t ++ tail) = dropTail p t := by
  simp only [dropTail, List.reverse_append]
  rw [List.dropWhile_append_of_pos (by simpa using h)]

/-- Nothing is dropped of a text that ends in another character. -/
theorem dropTail_eq_self {p : Char → Bool} {t : Text}
    (h : ∀ c, t.getLast? = some c → p c = false) : dropTail p t = t := by
  rcases List.eq_nil_or_concat t with rfl | ⟨init, last, rfl⟩
  · rfl
  · rw [List.concat_eq_append] at h ⊢
    simp [dropTail, h last (by simp)]

/-- A text is what dropping its tail leaves and the tail. -/
theorem exists_dropTail_append (p : Char → Bool) (t : Text) :
    ∃ tail, t = dropTail p t ++ tail ∧ (∀ c ∈ tail, p c = true) ∧
      ∀ c, (dropTail p t).getLast? = some c → p c = false := by
  refine ⟨(t.reverse.takeWhile p).reverse, ?_, fun c hc => ?_, fun c hc => ?_⟩
  · rw [dropTail, ← List.reverse_append, List.takeWhile_append_dropWhile, List.reverse_reverse]
  · exact List.mem_takeWhile_imp (List.mem_reverse.1 hc)
  · rw [dropTail, List.getLast?_reverse] at hc
    have h := List.head?_dropWhile_not p t.reverse
    rw [hc] at h
    simpa using h

/-- Trimming takes characters that satisfy the test off a text that starts and ends in others. -/
theorem trim_append {p : Char → Bool} {lead t tail : Text} (hlead : ∀ c ∈ lead, p c = true)
    (htail : ∀ c ∈ tail, p c = true) (hne : t ≠ []) (hhead : ∀ c, t.head? = some c → p c = false)
    (hlast : ∀ c, t.getLast? = some c → p c = false) : trim p (lead ++ (t ++ tail)) = t := by
  obtain ⟨c, rest, rfl⟩ := List.exists_cons_of_ne_nil hne
  have hc : p c = false := hhead c rfl
  rw [trim, List.dropWhile_append_of_pos hlead, List.cons_append,
    List.dropWhile_cons_of_neg (by simp [hc]), ← List.cons_append, dropTail_append htail,
    dropTail_eq_self hlast]

/-- A last character that fails a test is not in the head of a text that passes it. -/
theorem takeWhile_concat {p : Char → Bool} {c : Char} (h : p c = false) (t : Text) :
    (t ++ [c]).takeWhile p = t.takeWhile p := by
  induction t with
  | nil => simp [h]
  | cons d t ih =>
      cases hd : p d with
      | true => simp [hd, ih]
      | false => simp [hd]

theorem dropWhile_concat {p : Char → Bool} {c : Char} (h : p c = false) (t : Text) :
    (t ++ [c]).dropWhile p = t.dropWhile p ++ [c] := by
  induction t with
  | nil => simp [h]
  | cons d t ih =>
      cases hd : p d with
      | true => simp [hd, ih]
      | false => simp [hd]

/-- A beginning that lacks the last character is one of the text before it. -/
theorem exists_of_concat_eq_append {c : Char} {t rest : Text} (lead : Text) (hc : c ∉ lead)
    (h : t ++ [c] = lead ++ rest) : ∃ more, t = lead ++ more ∧ rest = more ++ [c] := by
  rcases List.append_eq_append_iff.1 h with ⟨beyond, hlead, hbeyond⟩ | ⟨more, ht, hrest⟩
  · cases beyond with
    | nil => exact ⟨[], by simpa using hlead.symm, by simpa using hbeyond.symm⟩
    | cons d beyond =>
        obtain ⟨rfl, -⟩ := List.cons.inj hbeyond
        exact absurd (by simp [hlead]) hc
  · exact ⟨more, ht, hrest⟩

/-- `endsIn` is the suffix relation. -/
theorem endsIn_iff {tail t : Text} : endsIn tail t = true ↔ tail <:+ t :=
  List.isSuffixOf_iff_suffix

/-- `after?` takes a beginning off a text. -/
theorem after?_eq_some_iff {lead t rest : Text} : after? lead t = some rest ↔ lead ++ rest = t :=
  List.isPrefixOf?_eq_some_iff_append_eq

/-- No character of a text satisfies a test that none passes. -/
theorem eq_false_of_any {p : Char → Bool} {t : Text} (h : t.any p = false) {c : Char}
    (hc : c ∈ t) : p c = false := by
  simpa using List.any_eq_false.1 h c hc

/-! ## White space -/

theorem isVoid_eq_false_of_mem {c : Char} {t : Text} (hmem : c ∈ t)
    (hspace : isSpace c = false) : isVoid t = false := by
  simp only [isVoid, List.all_eq_false]
  exact ⟨c, hmem, by simp [hspace]⟩

theorem isSpace_of_isVoid {c : Char} {t : Text} (h : isVoid t = true) (hmem : c ∈ t) :
    isSpace c = true :=
  List.all_eq_true.1 h c hmem

/-- A line break is white space. -/
theorem isSpace_of_isLineBreak {c : Char} (h : isLineBreak c = true) : isSpace c = true := by
  simp only [isLineBreak, isSpace, Bool.or_eq_true, Bool.and_eq_true, decide_eq_true_eq,
    beq_iff_eq] at h ⊢
  omega

/-! ## Cutting at newlines -/

/-- A text without separators belongs to the first piece. -/
theorem fields_append_of_not_mem {sep : Char} {t u piece : Text} {rest : List Text} (h : sep ∉ t)
    (hu : fields sep u = piece :: rest) : fields sep (t ++ u) = (t ++ piece) :: rest := by
  induction t with
  | nil => exact hu
  | cons c cs ih =>
      simp only [List.mem_cons, not_or] at h
      have hc : c ≠ sep := fun heq => h.1 heq.symm
      simp [fields, hc, ih h.2]

/-- A text without the separator is its own only piece. -/
theorem fields_eq_singleton {sep : Char} {t : Text} (h : sep ∉ t) : fields sep t = [t] := by
  simpa using fields_append_of_not_mem (u := []) h rfl

/-- The first piece ends at the first separator. -/
theorem fields_append_sep {sep : Char} {t : Text} (h : sep ∉ t) (u : Text) :
    fields sep (t ++ sep :: u) = t :: fields sep u := by
  have hsep : fields sep (sep :: u) = [] :: fields sep u := by rw [fields, if_pos rfl]
  simpa using fields_append_of_not_mem h hsep

theorem fields_ne_nil (sep : Char) (t : Text) : fields sep t ≠ [] := by
  cases t with
  | nil => simp [fields]
  | cons c cs =>
      simp only [fields]
      split_ifs
      · simp
      · split <;> simp

/-- A character that is no separator belongs to the first piece. -/
theorem fields_cons_of_ne {sep c : Char} (h : c ≠ sep) (t : Text) :
    ∃ piece rest, fields sep t = piece :: rest ∧ fields sep (c :: t) = (c :: piece) :: rest := by
  cases hfields : fields sep t with
  | nil => exact absurd hfields (fields_ne_nil sep t)
  | cons piece rest => exact ⟨piece, rest, rfl, by simp only [fields, if_neg h, hfields]⟩

/-- The first of several pieces is not empty if the text starts with another character. -/
theorem ne_nil_of_fields {sep : Char} {t piece : Text} {rest : List Text}
    (ht : fields sep t = piece :: rest) (hrest : rest ≠ []) (hhead : t.head? ≠ some sep) :
    piece ≠ [] := by
  cases t with
  | nil => exact absurd (List.cons.inj ht).2.symm hrest
  | cons c cs =>
      obtain ⟨first, more, -, hcons⟩ := fields_cons_of_ne (show c ≠ sep by simpa using hhead) cs
      obtain ⟨rfl, -⟩ := List.cons.inj (ht.symm.trans hcons)
      exact List.cons_ne_nil c first

/-- The pieces hold everything but the separators. -/
theorem flatten_fields (sep : Char) (t : Text) : (fields sep t).flatten = t.filter (· != sep) := by
  induction t with
  | nil => rfl
  | cons c cs ih =>
      by_cases hc : c = sep
      · simp [fields, hc, ih]
      · obtain ⟨first, more, hcs, hcons⟩ := fields_cons_of_ne hc cs
        rw [hcs] at ih
        simp [hcons, hc, ← ih]

/-- Cutting at a separator takes the text before it and the text after it apart. -/
theorem fields_append (sep : Char) (t u : Text) :
    fields sep (t ++ sep :: u) = fields sep t ++ fields sep u := by
  induction t with
  | nil => simp [fields]
  | cons c cs ih =>
      by_cases hc : c = sep
      · simp [fields, hc, ih]
      · obtain ⟨piece, rest, hcs, hcons⟩ := fields_cons_of_ne hc cs
        obtain ⟨piece', rest', hall, hcons'⟩ := fields_cons_of_ne hc (cs ++ sep :: u)
        rw [ih, hcs, List.cons_append] at hall
        obtain ⟨rfl, rfl⟩ := List.cons.inj hall
        rw [List.cons_append, hcons', hcons, List.cons_append]

/-- No piece holds the separator. -/
theorem not_mem_of_mem_fields {sep : Char} {t piece : Text} (h : piece ∈ fields sep t) :
    sep ∉ piece := by
  induction t generalizing piece with
  | nil =>
      obtain rfl := List.mem_singleton.1 h
      simp
  | cons c cs ih =>
      by_cases hc : c = sep
      · simp only [fields, if_pos hc] at h
        obtain rfl | h := List.mem_cons.1 h
        · simp
        · exact ih h
      · obtain ⟨first, rest, hcs, hcons⟩ := fields_cons_of_ne hc cs
        rw [hcons] at h
        rw [hcs] at ih
        obtain rfl | h := List.mem_cons.1 h
        · have hfirst := ih (List.mem_cons_self)
          simp [Ne.symm hc, hfirst]
        · exact ih (List.mem_cons_of_mem _ h)

theorem join_cons {sep : Char} {ts : List Text} (h : ts ≠ []) (t : Text) :
    join [sep] (t :: ts) = t ++ sep :: join [sep] ts := by
  obtain ⟨u, rest, rfl⟩ := List.exists_cons_of_ne_nil h
  simp [join]

/-- The pieces of a text make the text again. -/
theorem join_fields (sep : Char) (t : Text) : join [sep] (fields sep t) = t := by
  induction t with
  | nil => rfl
  | cons c t ih =>
      by_cases hc : c = sep
      · rw [fields, if_pos hc, join_cons (fields_ne_nil sep t), ih, hc]
        rfl
      · obtain ⟨piece, rest, ht, hcons⟩ := fields_cons_of_ne hc t
        rw [ht] at ih
        rw [hcons, ← ih]
        cases rest with
        | nil => rfl
        | cons _ _ => simp [join]

/-- Joined texts are cut into the pieces of each. There must be one at least, since the empty text
is one empty piece. -/
theorem fields_join_eq_flatMap {sep : Char} {ts : List Text} (hne : ts ≠ []) :
    fields sep (join [sep] ts) = ts.flatMap (fields sep) := by
  induction ts with
  | nil => contradiction
  | cons t rest ih =>
      by_cases hrest : rest = []
      · subst hrest
        simp [join]
      · rw [join_cons hrest, fields_append, ih hrest, List.flatMap_cons]

/-- Texts are their own pieces just if none holds the separator. -/
theorem flatMap_fields_eq_self {sep : Char} {ts : List Text} :
    ts.flatMap (fields sep) = ts ↔ ∀ t ∈ ts, sep ∉ t := by
  constructor
  · intro h t ht
    rw [← h] at ht
    obtain ⟨u, -, hpiece⟩ := List.mem_flatMap.1 ht
    exact not_mem_of_mem_fields hpiece
  · intro h
    rw [List.flatMap_congr fun t ht => fields_eq_singleton (h t ht), List.flatMap_singleton']

/-- Pieces without the separator are found again in the text that they are joined to. -/
theorem fields_join {sep : Char} {ts : List Text} (hne : ts ≠ []) (h : ∀ t ∈ ts, sep ∉ t) :
    fields sep (join [sep] ts) = ts := by
  rw [fields_join_eq_flatMap hne, flatMap_fields_eq_self.2 h]

theorem joinNewlines_cons {ls : List Text} (h : ls ≠ []) (l : Text) :
    joinNewlines (l :: ls) = l ++ '\n' :: joinNewlines ls :=
  join_cons h l

/-- Lines without newlines are found again in the text that they are joined to. The list must
not be empty, since the empty text is one empty line. -/
theorem splitNewlines_joinNewlines {ls : List Text} (hne : ls ≠ [])
    (h : ∀ l ∈ ls, '\n' ∉ l) : splitNewlines (joinNewlines ls) = ls :=
  fields_join hne h

/-- Joined lines are an empty text just if there are none, or a single empty one. -/
theorem joinNewlines_eq_nil {ls : List Text} : joinNewlines ls = [] ↔ ls = [] ∨ ls = [[]] := by
  cases ls with
  | nil => simp [joinNewlines, join]
  | cons l rest =>
      cases rest with
      | nil => simp [joinNewlines, join]
      | cons next more => simp [joinNewlines_cons (List.cons_ne_nil next more)]

/-- Joined texts hold no other characters than the texts and the separator. -/
theorem exists_of_mem_join {sep c : Char} {ts : List Text} (h : c ∈ join [sep] ts)
    (hne : c ≠ sep) : ∃ t ∈ ts, c ∈ t := by
  induction ts with
  | nil => cases h
  | cons t rest ih =>
      cases rest with
      | nil => exact ⟨t, List.mem_singleton_self t, h⟩
      | cons u rest =>
          have hjoin : c ∈ t ∨ c ∈ join [sep] (u :: rest) := by
            simpa [join, hne] using h
          rcases hjoin with ht | hrest
          · exact ⟨t, List.mem_cons_self, ht⟩
          · obtain ⟨v, hv, hc⟩ := ih hrest
            exact ⟨v, List.mem_cons_of_mem t hv, hc⟩

/-- The lines of joined texts hold no other characters than the texts. -/
theorem exists_of_mem_splitNewlines {c : Char} {t : Text} {ts : List Text}
    (ht : t ∈ splitNewlines (joinNewlines ts)) (hc : c ∈ t) : ∃ u ∈ ts, c ∈ u := by
  have hflat := List.mem_flatten_of_mem ht hc
  rw [splitNewlines, flatten_fields, List.mem_filter] at hflat
  exact exists_of_mem_join hflat.1 (by simpa using hflat.2)

/-- The content of a line without newlines is the line. -/
theorem lineContent?_eq_some {t : Text} (h : '\n' ∉ t) : lineContent? t = some t := by
  have hlast : t.getLast? ≠ some '\n' := fun heq => h (List.mem_of_getLast? heq)
  simp [lineContent?, hlast, h]

/-- The content of a line holds no other characters. -/
theorem mem_of_mem_lineContent? {c : Char} {t content : Text} (h : lineContent? t = some content)
    (hc : c ∈ content) : c ∈ t := by
  have hsub : (if t.getLast? = some '\n' then t.dropLast else t) ⊆ t := by
    split
    · exact List.dropLast_subset t
    · exact List.Subset.refl t
  simp only [lineContent?] at h
  generalize (if t.getLast? = some '\n' then t.dropLast else t) = u at h hsub
  split at h
  · cases h
  · obtain rfl := Option.some.inj h
    exact hsub hc

/-- The content of a line has no newline. -/
theorem not_mem_of_lineContent? {t content : Text} (h : lineContent? t = some content) :
    '\n' ∉ content := by
  simp only [lineContent?] at h
  generalize (if t.getLast? = some '\n' then t.dropLast else t) = u at h
  by_cases hu : u.contains '\n' = true
  · rw [if_pos hu] at h
    cases h
  · rw [if_neg hu] at h
    cases h
    simpa using hu

/-! ## Cutting at line breaks -/

/-- Each line followed by a newline. -/
def unlines (ls : List Text) : Text := ls.flatMap (· ++ ['\n'])

theorem unlines_cons (l : Text) (ls : List Text) : unlines (l :: ls) = l ++ '\n' :: unlines ls := by
  simp [unlines]

/-- Lines that are joined by newlines, with one more at the end, all end in one. -/
theorem joinNewlines_concat {ls : List Text} (h : ls ≠ []) :
    joinNewlines ls ++ ['\n'] = unlines ls := by
  induction ls with
  | nil => contradiction
  | cons l rest ih =>
      by_cases hrest : rest = []
      · subst hrest
        simp [joinNewlines, join, unlines]
      · rw [joinNewlines_cons hrest, List.append_assoc, List.cons_append, ih hrest, unlines_cons]

/-- The first line of a text ends at the first newline, if no line break stands before it. -/
theorem lines_append_newline {l : Text} (h : ∀ c ∈ l, isLineBreak c = false) (t : Text) :
    lines (l ++ '\n' :: t) = l :: lines t := by
  induction l with
  | nil => simp [lines, isLineBreak]
  | cons c cs ih =>
      have hc : isLineBreak c = false := h c (by simp)
      have hcs := ih (fun d hd => h d (List.mem_cons_of_mem _ hd))
      have hr : c ≠ '\r' := by
        rintro rfl
        exact absurd hc (by decide)
      rw [List.cons_append, lines.eq_3]
      · simp [hc, hcs]
      · intro rest heq
        exact absurd heq hr

/-- Lines without line breaks are found again in a text that ends each of them by a newline. -/
theorem lines_unlines {ls : List Text} (h : ∀ l ∈ ls, ∀ c ∈ l, isLineBreak c = false) :
    lines (unlines ls) = ls := by
  induction ls with
  | nil => rfl
  | cons l rest ih =>
      have hl := lines_append_newline (h l (by simp)) (unlines rest)
      have hrest := ih (fun k hk => h k (List.mem_cons_of_mem _ hk))
      rw [unlines_cons, hl, hrest]

/-- No line holds a line break. -/
theorem isLineBreak_of_mem_lines {t l : Text} (hl : l ∈ lines t) {c : Char} (hc : c ∈ l) :
    isLineBreak c = false := by
  fun_induction lines t generalizing l c with
  | case1 => cases hl
  | case2 cs ih =>
      rcases List.mem_cons.1 hl with rfl | hl
      · cases hc
      · exact ih hl hc
  | case3 d cs hpair hbreak ih =>
      rcases List.mem_cons.1 hl with rfl | hl
      · cases hc
      · exact ih hl hc
  | case4 d cs hpair hbreak hlines ih =>
      obtain rfl := List.mem_singleton.1 hl
      obtain rfl := List.mem_singleton.1 hc
      simpa using hbreak
  | case5 d cs hpair hbreak first rest hlines ih =>
      rw [hlines] at ih
      rcases List.mem_cons.1 hl with rfl | hl
      · rcases List.mem_cons.1 hc with rfl | hc
        · simpa using hbreak
        · exact ih List.mem_cons_self hc
      · exact ih (List.mem_cons_of_mem first hl) hc

theorem lines_ne_nil {t : Text} (h : t ≠ []) : lines t ≠ [] := by
  fun_cases lines t <;> simp_all

/-- If a text is cut at a newline, so is the text with one more character in front. -/
theorem lines_cons_append {c : Char} {t u : Text}
    (hpair : ∀ rest, c = '\r' → t = '\n' :: rest → False)
    (h : lines (t ++ '\n' :: u) = lines (t ++ ['\n']) ++ lines u) :
    lines (c :: (t ++ '\n' :: u)) = lines (c :: (t ++ ['\n'])) ++ lines u := by
  by_cases hreturn : c = '\r' ∧ t = []
  · -- The carriage return and the newline are one break.
    obtain ⟨rfl, rfl⟩ := hreturn
    simp [lines]
  · have hsingle (v rest : Text) (hc : c = '\r') (ht : t ++ '\n' :: v = '\n' :: rest) : False := by
      cases t with
      | nil => exact hreturn ⟨hc, rfl⟩
      | cons d t =>
          obtain ⟨rfl, -⟩ := List.cons.inj ht
          exact hpair t hc rfl
    rw [lines.eq_3 c _ (hsingle u), lines.eq_3 c _ (hsingle []), h]
    split
    · rfl
    · obtain ⟨first, rest, hlines⟩ :=
        List.exists_cons_of_ne_nil (lines_ne_nil (t := t ++ ['\n']) (by simp))
      rw [hlines]
      rfl

/-- Lines are cut at a newline, whatever stands before it and behind it. -/
theorem lines_append (t u : Text) : lines (t ++ '\n' :: u) = lines (t ++ ['\n']) ++ lines u := by
  induction t using lines.induct with
  | case1 => simp [lines, isLineBreak]
  | case2 cs ih => simpa [lines] using ih
  | case3 c cs hpair hbreak ih => exact lines_cons_append hpair ih
  | case4 c cs hpair hbreak hlines ih => exact lines_cons_append hpair ih
  | case5 c cs hpair hbreak first rest hlines ih => exact lines_cons_append hpair ih

/-- What follows lines that are ended by newlines is cut apart from them. -/
theorem lines_unlines_append (ls : List Text) (t : Text) :
    lines (unlines ls ++ t) = lines (unlines ls) ++ lines t := by
  induction ls with
  | nil => rfl
  | cons l rest ih =>
      have hcons (u : Text) : unlines (l :: rest) ++ u = l ++ '\n' :: (unlines rest ++ u) := by
        simp [unlines_cons]
      have hall := lines_append l (unlines rest ++ [])
      rw [← hcons, List.append_nil, List.append_nil] at hall
      rw [hcons, lines_append, ih, hall, List.append_assoc]

end ShellDocs.Text
