import Mathlib.Data.List.Basic
import ShellDocs.Proofs.Text.Lines
import ShellDocs.Render.Style

/-!
# Inline code between backticks

Which parts of a line are inline code can be read off its pieces between backticks: a piece that is
not empty, that another backtick follows, and that does not come right after two of them.
`markCode` puts the pieces together again with every code marked in some way, and the program marks
it by italics (`styleCode_eq_markCode`). Marked in no way at all, code loses its backticks and the
line keeps all other characters in order (`filter_markCode_id`).
-/

namespace ShellDocs.Render

open Text (fields)

/-- The pieces between backticks put together again, with code marked. The first piece comes right
before a code if it is not empty or if it is `fresh`, which it is at the start of a line. -/
def joinMarked (mark : Text → Text) (fresh : Bool) : List Text → Text
  | [] => []
  | [p] => p
  | [p, q] => p ++ '\x60' :: q
  | p :: q :: r :: rest =>
      if (fresh || !p.isEmpty) && !q.isEmpty then
        p ++ mark q ++ joinMarked mark false (r :: rest)
      else p ++ '\x60' :: joinMarked mark false (q :: r :: rest)

/-- The line with its inline code marked instead of put between backticks. -/
def markCode (mark : Text → Text) (line : Text) : Text :=
  joinMarked mark true (fields '\x60' line)

variable {mark : Text → Text} {fresh : Bool} {p : Text}

/-! ## Pieces -/

/-- A text without backticks holds no code. -/
theorem codeBefore?_eq_none {t : Text} (h : '\x60' ∉ t) : codeBefore? t = none := by
  have hall : t.dropWhile (· != '\x60') = [] :=
    List.dropWhile_eq_nil_iff.2 fun c hc => bne_iff_ne.2 (ne_of_mem_of_not_mem hc h)
  simp only [codeBefore?, hall]

/-- The text up to a backtick is code unless it is empty. -/
theorem codeBefore?_append {t : Text} (h : '\x60' ∉ t) (u : Text) :
    codeBefore? (t ++ '\x60' :: u) = if t.isEmpty then none else some t := by
  have hall : ∀ c ∈ t, (c != '\x60') = true := fun c hc => bne_iff_ne.2 (ne_of_mem_of_not_mem hc h)
  have htake : (t ++ '\x60' :: u).takeWhile (· != '\x60') = t := by
    rw [List.takeWhile_append_of_pos hall]
    simp
  have hdrop : (t ++ '\x60' :: u).dropWhile (· != '\x60') = '\x60' :: u := by
    rw [List.dropWhile_append_of_pos hall]
    simp
  simp only [codeBefore?, htake, hdrop]

/-- An empty piece that is not fresh is followed by no code. -/
theorem joinMarked_nil_cons {ps : List Text} (h : ps ≠ []) :
    joinMarked mark false ([] :: ps) = '\x60' :: joinMarked mark false ps := by
  match ps with
  | [q] => rfl
  | q :: r :: rest => rfl

/-- What a piece that is not empty starts with does not matter. -/
theorem joinMarked_cons_cons (c : Char) (hp : p ≠ []) (ps : List Text) :
    joinMarked mark fresh ((c :: p) :: ps) = c :: joinMarked mark fresh (p :: ps) := by
  match ps with
  | [] => rfl
  | [q] => rfl
  | q :: r :: rest =>
      simp only [joinMarked, List.isEmpty_cons, List.isEmpty_eq_false_iff.2 hp]
      split <;> rfl

/-- Being fresh adds nothing to a piece that is not empty. -/
theorem joinMarked_fresh (hp : p ≠ []) (fresh fresh' : Bool) (ps : List Text) :
    joinMarked mark fresh (p :: ps) = joinMarked mark fresh' (p :: ps) := by
  match ps with
  | [] => rfl
  | [q] => rfl
  | q :: r :: rest =>
      simp only [joinMarked, List.isEmpty_eq_false_iff.2 hp, Bool.not_false, Bool.or_true]

/-- The text after a backtick decides whether it is followed by code. -/
theorem joinMarked_cons_fields (h : fresh = true ∨ p ≠ []) (t : Text) :
    joinMarked mark fresh (p :: fields '\x60' t) =
      match codeBefore? t with
      | some code =>
          p ++ mark code ++ joinMarked mark false (fields '\x60' (t.drop (code.length + 1)))
      | none => p ++ '\x60' :: joinMarked mark false (fields '\x60' t) := by
  by_cases hmem : '\x60' ∈ t
  · obtain ⟨q, u, rfl, hq⟩ := List.eq_append_cons_of_mem hmem
    obtain ⟨r, rest, hu⟩ := List.exists_cons_of_ne_nil (Text.fields_ne_nil '\x60' u)
    have hbefore : (fresh || !p.isEmpty) = true := by
      simpa [List.isEmpty_iff] using h
    rw [codeBefore?_append hq, Text.fields_append_sep hq, hu, joinMarked, hbefore]
    cases q with
    | nil => rfl
    | cons c q => simp [hu]
  · rw [codeBefore?_eq_none hmem, Text.fields_eq_singleton hmem]
    rfl

/-- Marking code changes nothing before the first backtick. -/
theorem isPrefix_joinMarked (p : Text) (ps : List Text) :
    p <+: joinMarked mark fresh (p :: ps) := by
  match ps with
  | [] => exact List.prefix_rfl
  | [q] => exact List.prefix_append p _
  | q :: r :: rest =>
      simp only [joinMarked]
      split
      · rw [List.append_assoc]
        exact List.prefix_append p _
      · exact List.prefix_append p _

theorem isPrefix_markCode {w : Text} (hw : '\x60' ∉ w) (t : Text) :
    w <+: markCode mark (w ++ t) := by
  obtain ⟨p, ps, ht⟩ := List.exists_cons_of_ne_nil (Text.fields_ne_nil '\x60' t)
  rw [markCode, Text.fields_append_of_not_mem hw ht]
  exact (List.prefix_append w p).trans (isPrefix_joinMarked (w ++ p) ps)

/-! ## The style of code -/

/-- Characters that are written already are dropped. -/
theorem styleCodeFrom_eq (skip : Nat) (t : Text) :
    styleCodeFrom skip t = styleCodeFrom 0 (t.drop skip) := by
  induction t generalizing skip with
  | nil => simp [styleCodeFrom]
  | cons c rest ih =>
      cases skip with
      | zero => rfl
      | succ skip => simp only [styleCodeFrom, List.drop_succ_cons, ih skip]

theorem inlineCode?_of_head?_ne {t : Text} (h : t.head? ≠ some '\x60') : inlineCode? t = none := by
  simp only [inlineCode?]
  split
  · simp at h
  · rfl

/-- Code is styled piece by piece. -/
theorem styleCodeFrom_zero (t : Text) :
    styleCodeFrom 0 t = joinMarked (styled [.italic]) false (fields '\x60' t) := by
  induction h : t.length using Nat.strong_induction_on generalizing t with
  | _ n ih =>
    subst h
    cases t with
    | nil => rfl
    | cons c rest =>
        have hrest := ih rest.length (by simp) rest rfl
        by_cases hc : c = '\x60'
        · subst hc
          simp only [styleCodeFrom, fields, if_true, hrest]
          rw [joinMarked_nil_cons (Text.fields_ne_nil _ _)]
        · cases rest with
          | nil => simp [styleCodeFrom, inlineCode?, fields, hc, joinMarked]
          | cons d u =>
              by_cases hd : d = '\x60'
              · subst hd
                have hfields : fields '\x60' (c :: '\x60' :: u) = [c] :: fields '\x60' u := by
                  simp [fields, hc]
                rw [hfields, joinMarked_cons_fields (.inr (List.cons_ne_nil c [])), styleCodeFrom]
                simp only [if_neg hc, inlineCode?]
                cases codeBefore? u with
                | some code =>
                    have hdrop := ih (u.drop (code.length + 1)).length
                      (by simp only [List.length_drop, List.length_cons]; omega) _ rfl
                    simp [styleCodeFrom_eq (code.length + 2), hdrop]
                | none =>
                    have hu := ih u.length (by simp only [List.length_cons]; omega) u rfl
                    simp [styleCodeFrom, hu]
              · obtain ⟨piece, more, hu, hcons⟩ := Text.fields_cons_of_ne hd u
                have hfields : fields '\x60' (c :: d :: u) = (c :: d :: piece) :: more := by
                  simp [fields, hc, hd, hu]
                have hnone : inlineCode? (d :: u) = none := inlineCode?_of_head?_ne (by simpa)
                rw [hfields, joinMarked_cons_cons c (List.cons_ne_nil d piece), ← hcons, ← hrest,
                  styleCodeFrom]
                simp only [if_neg hc, hnone]

/-- The program marks inline code by italics. -/
theorem styleCode_eq_markCode (line : Text) :
    styleCode line = markCode (styled [.italic]) line := by
  cases line with
  | nil => rfl
  | cons c u =>
      by_cases hc : c = '\x60'
      · subst hc
        have hfields : fields '\x60' ('\x60' :: u) = [] :: fields '\x60' u := by simp [fields]
        simp only [styleCode, inlineCode?, markCode]
        rw [hfields, joinMarked_cons_fields (.inl rfl)]
        cases codeBefore? u with
        | some code => simp [styleCodeFrom_eq (code.length + 2), styleCodeFrom_zero]
        | none => simp [styleCodeFrom, styleCodeFrom_zero]
      · obtain ⟨piece, more, -, hcons⟩ := Text.fields_cons_of_ne hc u
        have hnone : inlineCode? (c :: u) = none := inlineCode?_of_head?_ne (by simpa)
        simp only [styleCode, hnone, markCode, styleCodeFrom_zero, hcons]
        exact joinMarked_fresh (List.cons_ne_nil c piece) false true more

/-! ## Code without a mark -/

theorem filter_joinMarked_id (fresh : Bool) (ps : List Text) :
    (joinMarked id fresh ps).filter (· != '\x60') = ps.flatten.filter (· != '\x60') := by
  fun_induction joinMarked id fresh ps with
  | case1 => rfl
  | case2 => simp
  | case3 => simp
  | case4 _ p q r rest _ ih => simp [ih]
  | case5 _ p q r rest _ ih => simp [ih]

/-- Without a mark code loses its backticks, and all other characters stay in order. -/
theorem filter_markCode_id (line : Text) :
    (markCode id line).filter (· != '\x60') = line.filter (· != '\x60') := by
  rw [markCode, filter_joinMarked_id, Text.flatten_fields, List.filter_filter]
  simp

theorem mem_markCode_id {c : Char} (hc : c ≠ '\x60') {line : Text} :
    c ∈ markCode id line ↔ c ∈ line := by
  have h : c ∈ (markCode id line).filter (· != '\x60') ↔ c ∈ line.filter (· != '\x60') := by
    rw [filter_markCode_id]
  simpa [List.mem_filter, hc] using h

end ShellDocs.Render
