import ShellDocs.Proofs.Render.Adorned
import ShellDocs.Render.Page

/-!
# Styled lines

A line is styled in three steps, each on the text with the codes of those before it. For words
without colons, two questions are settled about the outcome.

* Is the text still there? `stripStyles_styleLine`: without its styles a line is what it was, with
  its inline code out of the backticks, unless `LinkBehindHeading`. The heading ends before the
  colon of `://`, and of the code at its end the last two characters are then taken for the scheme
  of a link; the dim style goes between them and the rest of that code.
* What is bold? `bold_isInfix_styleLine_iff`: the lines that start with one of the words, up to
  their first colon, and every line if there are no words.
-/

namespace ShellDocs.Render

variable {allowed : Char → Prop} {fresh : Bool} {words : List Text} {line t u : Text}

/-! ## Links -/

theorem ne_of_isLinkChar {c : Char} (h : isLinkChar c = true) : c ≠ '\x1b' ∧ c ≠ '\x60' := by
  constructor <;> rintro rfl <;> contradiction

/-- A link is a beginning of the text that is not empty and holds neither escape characters nor
backticks. -/
theorem link?_eq_some {l : Text} (h : link? t = some l) :
    (∃ rest, t = l ++ rest) ∧ l ≠ [] ∧ '\x1b' ∉ l ∧ '\x60' ∉ l := by
  simp only [link?] at h
  split at h
  · next rest hdrop =>
      split at h
      · contradiction
      · next hne =>
          obtain rfl := Option.some.inj h
          have hchars : ∀ c ∈ t.takeWhile Char.isAlphanum ++
              ':' :: '/' :: '/' :: rest.takeWhile isLinkChar, isLinkChar c = true ∨ c = ':' := by
            intro c hc
            simp only [List.mem_append, List.mem_cons] at hc
            obtain hc | rfl | rfl | rfl | hc := hc
            · have hscheme := List.mem_takeWhile_imp hc
              exact .inl (by simp [isLinkChar, hscheme])
            · exact .inr rfl
            · exact .inl rfl
            · exact .inl rfl
            · exact .inl (List.mem_takeWhile_imp hc)
          refine ⟨⟨rest.dropWhile isLinkChar, ?_⟩, by simp, ?_, ?_⟩
          · calc t = t.takeWhile Char.isAlphanum ++ t.dropWhile Char.isAlphanum :=
                  List.takeWhile_append_dropWhile.symm
              _ = _ := by simp [hdrop]
          · intro hmem
            obtain hlink | heq := hchars _ hmem
            · exact (ne_of_isLinkChar hlink).1 rfl
            · contradiction
          · intro hmem
            obtain hlink | heq := hchars _ hmem
            · exact (ne_of_isLinkChar hlink).2 rfl
            · contradiction
  · contradiction

theorem link?_eq_none (h : (t.dropWhile Char.isAlphanum).head? ≠ some ':') : link? t = none := by
  simp only [link?]
  split
  · next hdrop => simp [hdrop] at h
  · rfl

/-- Characters that are written already are dropped. -/
theorem styleLinksFrom_eq (skip : Nat) (t : Text) :
    styleLinksFrom skip t = styleLinks (t.drop skip) := by
  induction t generalizing skip with
  | nil => simp [styleLinksFrom, styleLinks]
  | cons c rest ih =>
      cases skip with
      | zero => rfl
      | succ skip => simp only [styleLinksFrom, List.drop_succ_cons, ih skip]

theorem styleLinks_of_none {c : Char} (h : link? (c :: t) = none) :
    styleLinks (c :: t) = c :: styleLinks t := by
  simp only [styleLinks, styleLinksFrom, h]

theorem styleLinks_of_some {l : Text} (h : link? (l ++ t) = some l) :
    styleLinks (l ++ t) = styled [.dim] l ++ styleLinks t := by
  obtain ⟨-, hne, -⟩ := link?_eq_some h
  cases l with
  | nil => exact absurd rfl hne
  | cons c l =>
      rw [List.cons_append] at h ⊢
      rw [styleLinks, styleLinksFrom, h]
      simp only [styleLinksFrom_eq, List.length_cons, Nat.add_sub_cancel, List.drop_left]

/-- A dim text without backticks makes what follows it fresh. -/
theorem Aligned.dim (hdim : allowed '2') (hreset : allowed '0') {l : Text} (hescape : '\x1b' ∉ l)
    (hcode : '\x60' ∉ l) (hne : l ≠ []) (h : Aligned allowed true t u) :
    Aligned allowed fresh (styled [.dim] l ++ t) (l ++ u) := by
  have hend : Aligned allowed true (reset ++ t) u := .code rfl hreset (.inl rfl) h
  have hinner : Aligned allowed fresh (l ++ (reset ++ t)) (l ++ u) :=
    .append_left_of_not_mem hescape hcode hne hend
  have hstart : (l ++ u).head? ≠ some '\x60' := by
    intro hhead
    rw [List.head?_append_of_ne_nil l hne] at hhead
    exact hcode (List.mem_of_head? hhead)
  have htext : styled [.dim] l ++ t = '\x1b' :: '[' :: '2' :: 'm' :: (l ++ (reset ++ t)) := by
    simp [styled, Style.start, Style.code]
  rw [htext]
  exact .code rfl hdim (.inr hstart) hinner

/-- Dim links are links with escape codes put in. -/
theorem aligned_styleLinks (hdim : allowed '2') (hreset : allowed '0') (ht : '\x1b' ∉ t) :
    Aligned allowed fresh (styleLinks t) t := by
  induction hlength : t.length using Nat.strong_induction_on generalizing t fresh with
  | _ n ih =>
    subst hlength
    match t with
    | [] => exact .nil
    | c :: rest =>
        cases hlink : link? (c :: rest) with
        | none =>
            simp only [List.mem_cons, not_or] at ht
            have hrest {fresh} : Aligned allowed fresh (styleLinks rest) rest :=
              ih rest.length (by simp) ht.2 rfl
            rw [styleLinks_of_none hlink]
            by_cases hc : c = '\x60'
            · subst hc
              exact .backtick hrest
            · exact .char hc (Ne.symm ht.1) hrest
        | some l =>
            obtain ⟨⟨more, htext⟩, hne, hescape, hcode⟩ := link?_eq_some hlink
            have hlt : more.length < (c :: rest).length := by
              have hpos := List.length_pos_of_ne_nil hne
              rw [htext, List.length_append]
              omega
            rw [htext] at hlink ht ⊢
            have hmore : Aligned allowed true (styleLinks more) more :=
              ih more.length hlt (fun h => ht (List.mem_append_right l h)) rfl
            rw [styleLinks_of_some hlink]
            exact .dim hdim hreset hescape hcode hne hmore

/-- Nothing is a link that would have to start before a character that is in no link. -/
theorem styleLinks_append_cons {w : Text} (hcolon : ':' ∉ w) {c : Char}
    (hc : c.isAlphanum = false) (hne : c ≠ ':') :
    styleLinks (w ++ c :: t) = w ++ c :: styleLinks t := by
  have hnone (w : Text) (hcolon : ':' ∉ w) : link? (w ++ c :: t) = none := by
    apply link?_eq_none
    induction w with
    | nil => simp [hc, hne]
    | cons d w ih =>
        simp only [List.mem_cons, not_or] at hcolon
        by_cases hd : d.isAlphanum = true
        · simpa [hd] using ih hcolon.2
        · simp [hd, Ne.symm hcolon.1]
  induction w with
  | nil => exact styleLinks_of_none (hnone [] hcolon)
  | cons d w ih =>
      have hlink : link? (d :: (w ++ c :: t)) = none := hnone (d :: w) hcolon
      rw [List.cons_append, styleLinks_of_none hlink, ih (List.not_mem_of_not_mem_cons hcolon),
        List.cons_append]

/-! ## Headings -/

/-- Whether a line counts as a heading: it starts with one of the words, or there are none. -/
def IsHeading (words : List Text) (line : Text) : Prop :=
  words = [] ∨ ∃ w ∈ words, w <+: line

/-- Whether a text goes on like a link after its scheme. -/
def ContinuesLink (t : Text) : Prop :=
  ∃ c rest, t = ':' :: '/' :: '/' :: c :: rest ∧ isLinkChar c = true

/-- A heading ends before the first colon. Which of the words it starts with does not matter. -/
theorem heading?_eq_some (hwords : ∀ w ∈ words, ':' ∉ w) (h : IsHeading words line) :
    heading? words line = some (line.takeWhile (· != ':'), line.dropWhile (· != ':')) := by
  obtain ⟨w, hfind⟩ : ∃ w,
      (if words.isEmpty then [[]] else words).find? (·.isPrefixOf line) = some w := by
    rw [← Option.isSome_iff_exists, List.find?_isSome]
    obtain rfl | ⟨w, hw, hprefix⟩ := h
    · exact ⟨[], by simp⟩
    · rw [if_neg (by simpa using List.ne_nil_of_mem hw)]
      exact ⟨w, hw, List.isPrefixOf_iff_prefix.2 hprefix⟩
  have hcolon : ':' ∉ w := by
    have hmem := List.mem_of_find?_eq_some hfind
    split at hmem
    · simp_all
    · exact hwords w hmem
  have hprefix := List.find?_some hfind
  obtain ⟨rest, rfl⟩ := List.isPrefixOf_iff_prefix.1 hprefix
  have hall : ∀ c ∈ w, (c != ':') = true :=
    fun c hc => bne_iff_ne.2 (ne_of_mem_of_not_mem hc hcolon)
  rw [heading?, hfind, List.takeWhile_append_of_pos hall, List.dropWhile_append_of_pos hall]
  simp

theorem heading?_eq_none (h : ¬ IsHeading words line) : heading? words line = none := by
  simp only [IsHeading, not_or, not_exists, not_and] at h
  have hfind : (if words.isEmpty then [[]] else words).find? (·.isPrefixOf line) = none := by
    rw [if_neg (by simpa using h.1), List.find?_eq_none]
    intro w hw hprefix
    exact h.2 w hw (List.isPrefixOf_iff_prefix.1 hprefix)
  rw [heading?, hfind]
  rfl

theorem styleHeading_of_isHeading (hwords : ∀ w ∈ words, ':' ∉ w) (h : IsHeading words line) :
    styleHeading words line =
      styled [.bold] (line.takeWhile (· != ':')) ++ line.dropWhile (· != ':') := by
  rw [styleHeading, heading?_eq_some hwords h]

theorem styleHeading_of_not_isHeading (h : ¬ IsHeading words line) :
    styleHeading words line = line := by
  rw [styleHeading, heading?_eq_none h]

theorem colon_not_mem_takeWhile : ':' ∉ line.takeWhile (· != ':') := by
  intro h
  simpa using List.mem_takeWhile_imp h

/-- Behind a heading in bold only the last characters of its end can be taken for a scheme. -/
theorem styleLinks_heading {h r : Text} (hcolon : ':' ∉ h) :
    styleLinks (styled [.bold] h ++ r) =
      Style.bold.start ++ (h ++ '\x1b' :: '[' :: styleLinks ('0' :: 'm' :: r)) := by
  have hlead : ':' ∉ Style.bold.start ++ h ++ ['\x1b'] := by
    simp [Style.start, Style.code, hcolon]
  have hsplit : styled [.bold] h ++ r =
      Style.bold.start ++ h ++ ['\x1b'] ++ '[' :: '0' :: 'm' :: r := by
    simp [styled, reset]
  rw [hsplit, styleLinks_append_cons hlead (by decide) (by decide)]
  simp

/-- The characters of the end are a scheme if the text goes on like a link. -/
theorem exists_styleLinks_of_continuesLink {r : Text} (h : ContinuesLink r) :
    ∃ t, styleLinks ('0' :: 'm' :: r) = '\x1b' :: t := by
  obtain ⟨c, rest, rfl, hc⟩ := h
  have hlink : link? ('0' :: 'm' :: ':' :: '/' :: '/' :: c :: rest) =
      some ('0' :: 'm' :: ':' :: '/' :: '/' :: c :: rest.takeWhile isLinkChar) := by
    simp [link?, hc, show Char.isAlphanum '0' = true from rfl,
      show Char.isAlphanum 'm' = true from rfl, show Char.isAlphanum ':' = false from rfl]
  obtain ⟨⟨more, htext⟩, -⟩ := link?_eq_some hlink
  rw [htext] at hlink ⊢
  rw [styleLinks_of_some hlink]
  exact ⟨_, rfl⟩

/-- Otherwise they are not. -/
theorem styleLinks_of_not_continuesLink {r : Text} (hr : ∀ c, r.head? = some c → c = ':')
    (h : ¬ ContinuesLink r) : styleLinks ('0' :: 'm' :: r) = '0' :: 'm' :: styleLinks r := by
  have hnone (scheme : Text) (hscheme : ∀ c ∈ scheme, c.isAlphanum = true) :
      link? (scheme ++ r) = none := by
    have hdrop : (scheme ++ r).dropWhile Char.isAlphanum = r := by
      rw [List.dropWhile_append_of_pos hscheme]
      cases r with
      | nil => rfl
      | cons c r =>
          obtain rfl := hr c rfl
          rfl
    rw [link?, hdrop]
    split
    · next rest =>
        have htail : rest.takeWhile isLinkChar = [] := by
          cases rest with
          | nil => rfl
          | cons c rest =>
              have hc : ¬ isLinkChar c = true := fun hc => h ⟨c, rest, rfl, hc⟩
              simp [hc]
        simp [htail]
    · rfl
  have hm : ∀ c ∈ ['m'], c.isAlphanum = true := List.forall_mem_singleton.2 rfl
  have hlink : link? ('0' :: 'm' :: r) = none :=
    hnone ['0', 'm'] (List.forall_mem_cons.2 ⟨rfl, hm⟩)
  have hlink' : link? ('m' :: r) = none := hnone ['m'] hm
  rw [styleLinks_of_none hlink, styleLinks_of_none hlink']

/-- A styled heading is aligned with the line, except that the end of its style stays in the text
if a link seems to follow. -/
theorem aligned_heading (hbold : allowed '1') (hdim : allowed '2') (hreset : allowed '0')
    {h r : Text} (hescape : '\x1b' ∉ h) (hcolon : ':' ∉ h) (hr : '\x1b' ∉ r)
    (hhead : ∀ c, r.head? = some c → c = ':') :
    (ContinuesLink r →
      Aligned allowed true (styleLinks (styled [.bold] h ++ r)) (h ++ reset ++ r)) ∧
    (¬ ContinuesLink r → Aligned allowed true (styleLinks (styled [.bold] h ++ r)) (h ++ r)) := by
  rw [styleLinks_heading hcolon]
  constructor
  · intro hcontinues
    obtain ⟨t, ht⟩ := exists_styleLinks_of_continuesLink hcontinues
    have hend : '\x1b' ∉ '0' :: 'm' :: r := by simpa using hr
    have hlinks : Aligned allowed true ('\x1b' :: t) ('0' :: 'm' :: r) :=
      ht ▸ aligned_styleLinks hdim hreset hend
    have hinner : Aligned allowed true (h ++ '\x1b' :: '[' :: '\x1b' :: t) (h ++ (reset ++ r)) :=
      .append_left hescape fun _ => .cut hlinks
    rw [ht, List.append_assoc]
    exact .code rfl hbold (.inl rfl) hinner
  · intro hcontinues
    have hplace : r.head? ≠ some '\x60' := fun h => by simpa using hhead _ h
    rw [styleLinks_of_not_continuesLink hhead hcontinues]
    have hinner : Aligned allowed true (h ++ (reset ++ styleLinks r)) (h ++ r) :=
      .append_left hescape fun _ =>
        .code rfl hreset (.inr hplace) (aligned_styleLinks hdim hreset hr)
    exact .code rfl hbold (.inl rfl) hinner

/-! ## Lines -/

/-- Italics are escape codes put around code. -/
theorem Aligned.adorned_styleCode (hitalic : allowed '3') (hreset : allowed '0')
    (h : Aligned allowed true t u) : Adorned allowed (styleCode t) (markCode id u) := by
  rw [styleCode_eq_markCode]
  exact h.adorned fun p q hpq => hpq.styled hitalic hreset

/-- Whether a link follows the heading of a line, without a scheme of its own. -/
def LinkBehindHeading (words : List Text) (line : Text) : Prop :=
  IsHeading words line ∧ ContinuesLink (line.dropWhile (· != ':'))

/-- A line is the same text as its styled form, up to escape codes, unless a link seems to follow
its heading. -/
theorem adorned_styleLine (hbold : IsHeading words line → allowed '1') (hdim : allowed '2')
    (hitalic : allowed '3') (hreset : allowed '0') (hwords : ∀ w ∈ words, ':' ∉ w)
    (hline : '\x1b' ∉ line) :
    (LinkBehindHeading words line → Adorned allowed (styleLine words line)
      (markCode id (line.takeWhile (· != ':') ++ reset ++ line.dropWhile (· != ':')))) ∧
    (¬ LinkBehindHeading words line →
      Adorned allowed (styleLine words line) (markCode id line)) := by
  rw [styleLine]
  by_cases hheading : IsHeading words line
  · have hescape : '\x1b' ∉ line.takeWhile (· != ':') :=
      fun h => hline ((List.takeWhile_prefix _).subset h)
    have hescape' : '\x1b' ∉ line.dropWhile (· != ':') :=
      fun h => hline ((List.dropWhile_suffix _).subset h)
    have hhead (c : Char) (h : (line.dropWhile (· != ':')).head? = some c) : c = ':' := by
      have hnot := List.head?_dropWhile_not (· != ':') line
      rw [h] at hnot
      simpa using hnot
    obtain ⟨hlink, hplain⟩ :=
      aligned_heading (hbold hheading) hdim hreset hescape colon_not_mem_takeWhile hescape'
        hhead
    rw [styleHeading_of_isHeading hwords hheading]
    constructor
    · intro hbehind
      exact (hlink hbehind.2).adorned_styleCode hitalic hreset
    · intro hbehind
      rw [List.takeWhile_append_dropWhile] at hplain
      exact (hplain fun h => hbehind ⟨hheading, h⟩).adorned_styleCode hitalic hreset
  · rw [styleHeading_of_not_isHeading hheading]
    exact ⟨fun hbehind => absurd hbehind.1 hheading, fun _ =>
      (aligned_styleLinks hdim hreset hline).adorned_styleCode hitalic hreset⟩

/-- Styling does no damage to a line unless a link seems to follow its heading: without its styles
it is the line with its inline code out of the backticks. Otherwise the end of the bold style
stays in it. -/
theorem stripStyles_styleLine (hwords : ∀ w ∈ words, ':' ∉ w) (hline : '\x1b' ∉ line) :
    (stripStyles (styleLine words line) = markCode id line ↔ ¬ LinkBehindHeading words line) ∧
    ('\x1b' ∈ stripStyles (styleLine words line) ↔ LinkBehindHeading words line) ∧
    (LinkBehindHeading words line → stripStyles (styleLine words line) =
      markCode id (line.takeWhile (· != ':') ++ reset ++ line.dropWhile (· != ':'))) := by
  obtain ⟨hlink, hplain⟩ := @adorned_styleLine (fun _ => True) words line (fun _ => trivial)
    trivial trivial trivial hwords hline
  have hescape : '\x1b' ∉ markCode id line := mt (mem_markCode_id (by decide)).1 hline
  by_cases hbehind : LinkBehindHeading words line
  · have hstrip := (hlink hbehind).stripStyles_eq
    have hmem : '\x1b' ∈ stripStyles (styleLine words line) := by
      rw [hstrip, mem_markCode_id (by decide)]
      simp [reset]
    have hne : stripStyles (styleLine words line) ≠ markCode id line :=
      fun h => hescape (h ▸ hmem)
    exact ⟨iff_of_false hne (not_not_intro hbehind), iff_of_true hmem hbehind, fun _ => hstrip⟩
  · have hstrip := (hplain hbehind).stripStyles_eq
    exact ⟨iff_of_true hstrip hbehind, iff_of_false (hstrip ▸ hescape) hbehind,
      fun h => absurd h hbehind⟩

/-- A line with a heading, a link and code keeps its text. If the link comes right behind the
heading, an escape character stays. -/
theorem stripStyles_styleLine_usage :
    stripStyles (styleLine defaultHeadingWords "Usage: http://x, \x60cmd\x60") =
        "Usage: http://x, cmd" ∧
      '\x1b' ∈ stripStyles (styleLine defaultHeadingWords "Usage http://x") := by
  have hwords : ∀ w ∈ defaultHeadingWords, ':' ∉ w := by decide
  have hword : ("Usage" : Text) ∈ defaultHeadingWords := List.mem_cons_self
  obtain ⟨hkept, -, -⟩ := stripStyles_styleLine hwords
    (show '\x1b' ∉ ("Usage: http://x, \x60cmd\x60" : Text) by decide)
  obtain ⟨-, hdamaged, -⟩ := stripStyles_styleLine hwords
    (show '\x1b' ∉ ("Usage http://x" : Text) by decide)
  constructor
  · refine hkept.2 ?_
    rintro ⟨-, c, rest, hcontinues, -⟩
    have hsecond : some ' ' = some '/' := congrArg (·[1]?) hcontinues
    contradiction
  · exact hdamaged.2 ⟨.inr ⟨"Usage", hword, by decide⟩, 'x', [], by decide, by decide⟩

/-- Bold marks the lines that start with one of the words, or all lines if there are none. It ends
before the first colon, and neither the order of the words nor their number of times matters. -/
theorem bold_isInfix_styleLine_iff (hwords : ∀ w ∈ words, ':' ∉ w) (hline : '\x1b' ∉ line) :
    (Style.bold.start <:+: styleLine words line ↔ words = [] ∨ ∃ w ∈ words, w <+: line) ∧
    (IsHeading words line → styleHeading words line =
      styled [.bold] (line.takeWhile (· != ':')) ++ line.dropWhile (· != ':')) ∧
    (¬ IsHeading words line → styleHeading words line = line) ∧
    ∀ others, (∀ w, w ∈ others ↔ w ∈ words) → styleLine others line = styleLine words line := by
  refine ⟨⟨?_, ?_⟩, styleHeading_of_isHeading hwords, styleHeading_of_not_isHeading, ?_⟩
  · intro hinfix
    by_contra hheading
    obtain ⟨-, hplain⟩ := @adorned_styleLine (· ≠ '1') words line (fun h => absurd h hheading)
      (by decide) (by decide) (by decide) hwords hline
    have hadorned := hplain fun h => hheading h.1
    have hescape : '\x1b' ∉ markCode id line := mt (mem_markCode_id (by decide)).1 hline
    exact hadorned.not_start_isInfix hescape (s := .bold) (fun h => h rfl) hinfix
  · intro hheading
    rw [styleLine, styleHeading_of_isHeading hwords hheading,
      styleLinks_heading colon_not_mem_takeWhile, styleCode_eq_markCode]
    exact (isPrefix_markCode (by decide) _).isInfix
  · intro others hothers
    have hwords' : ∀ w ∈ others, ':' ∉ w := fun w hw => hwords w ((hothers w).1 hw)
    have hsame : IsHeading others line ↔ IsHeading words line := by
      simp only [IsHeading, hothers, List.eq_nil_iff_forall_not_mem]
    rw [styleLine, styleLine]
    by_cases hheading : IsHeading words line
    · rw [styleHeading_of_isHeading hwords hheading,
        styleHeading_of_isHeading hwords' (hsame.2 hheading)]
    · rw [styleHeading_of_not_isHeading hheading,
        styleHeading_of_not_isHeading (mt hsame.1 hheading)]

/-- Two words of which one begins with the other mark a line, in either order, and no words mark
any line. -/
theorem bold_isInfix_styleLine_notable :
    Style.bold.start <:+: styleLine ["Note", "Notable"] "Notable: x" ∧
      styleLine ["Notable", "Note"] "Notable: x" = styleLine ["Note", "Notable"] "Notable: x" ∧
      Style.bold.start <:+: styleLine [] "plain" := by
  obtain ⟨hbold, -, -, hsame⟩ := bold_isInfix_styleLine_iff
    (show ∀ w ∈ (["Note", "Notable"] : List Text), ':' ∉ w by decide)
    (show '\x1b' ∉ ("Notable: x" : Text) by decide)
  obtain ⟨hplain, -⟩ := bold_isInfix_styleLine_iff
    (show ∀ w ∈ ([] : List Text), ':' ∉ w by decide) (show '\x1b' ∉ ("plain" : Text) by decide)
  refine ⟨hbold.2 (.inr ⟨"Notable", by decide, by decide⟩), hsame _ ?_, hplain.2 (.inl rfl)⟩
  intro w
  simp [or_comm]

end ShellDocs.Render
