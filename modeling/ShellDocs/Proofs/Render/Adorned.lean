import ShellDocs.Proofs.Render.InlineCode

/-!
# Texts with escape codes put in

`Adorned allowed t u` says that `t` is the text `u` with escape codes put in, and that they are of
allowed numbers only. Then `u` is what is left of `t` without its styles
(`Adorned.stripStyles_eq`). To find the same inline code in both texts more is needed: the codes
must not make a piece between backticks count as empty in one of them only. `Aligned` says so, and
`Aligned.adorned` is what it is for.
-/

namespace ShellDocs.Render

open Text (fields)

/-- The text with escape codes put in. Where a code is put into another one, the start that is cut
off is text, and so is the rest of it. -/
inductive Adorned (allowed : Char → Prop) : Text → Text → Prop where
  | nil : Adorned allowed [] []
  | char {c : Char} {t u : Text} : c ≠ '\x1b' → Adorned allowed t u →
      Adorned allowed (c :: t) (c :: u)
  | code {n : Char} {t u : Text} : n.isDigit = true → allowed n → Adorned allowed t u →
      Adorned allowed ('\x1b' :: '[' :: n :: 'm' :: t) u
  | cut {t u : Text} : Adorned allowed ('\x1b' :: t) u →
      Adorned allowed ('\x1b' :: '[' :: '\x1b' :: t) ('\x1b' :: '[' :: u)

/-- Pieces with escape codes put in. Those that are empty stay so, apart from a fresh one at the
beginning and from the last one. -/
inductive PiecesAdorned (allowed : Char → Prop) : Bool → List Text → List Text → Prop where
  | last {fresh : Bool} {p q : Text} : Adorned allowed p q → PiecesAdorned allowed fresh [p] [q]
  | cons {fresh : Bool} {p q : Text} {ps qs : List Text} : Adorned allowed p q →
      (fresh = false → p.isEmpty = q.isEmpty) → PiecesAdorned allowed false ps qs →
      PiecesAdorned allowed fresh (p :: ps) (q :: qs)

/-- A text with escape codes put in that do not change what is inline code. It is fresh at the
start of a line and after a character that is no backtick. -/
def Aligned (allowed : Char → Prop) (fresh : Bool) (t u : Text) : Prop :=
  PiecesAdorned allowed fresh (fields '\x60' t) (fields '\x60' u)

variable {allowed : Char → Prop} {fresh : Bool} {t u t' u' p q : Text} {ps qs : List Text}

/-! ## Texts -/

theorem Adorned.append (h : Adorned allowed t u) (h' : Adorned allowed t' u') :
    Adorned allowed (t ++ t') (u ++ u') := by
  induction h with
  | nil => exact h'
  | char hc _ ih => exact .char hc ih
  | code hn hallowed _ ih => exact .code hn hallowed ih
  | cut _ ih => exact .cut ih

theorem Style.isDigit_code (s : Style) : s.code.isDigit = true := by cases s <;> rfl

/-- A style is put around a text by escape codes. -/
theorem Adorned.styled (h : Adorned allowed t u) {s : Style} (hs : allowed s.code)
    (hreset : allowed '0') : Adorned allowed (styled [s] t) u := by
  have hend : Adorned allowed reset [] := .code rfl hreset .nil
  have hinner := (h.append hend)
  rw [List.append_nil] at hinner
  exact .code s.isDigit_code hs hinner

/-- Other characters than the escape character start no code. -/
theorem stripFrom_cons {c : Char} (hc : c ≠ '\x1b') (t : Text) :
    stripFrom 0 (c :: t) = c :: stripFrom 0 t := by
  have hnone : codeLength? (c :: t) = none := by
    simp only [codeLength?]
    split
    · next heq => exact absurd (List.cons.inj heq).1 hc
    · rfl
  simp only [stripFrom, hnone]

/-- Without its styles the text is the one that escape codes were put in. -/
theorem Adorned.stripStyles_eq (h : Adorned allowed t u) : stripStyles t = u := by
  show stripFrom 0 t = u
  induction h with
  | nil => rfl
  | char hc _ ih => rw [stripFrom_cons hc, ih]
  | @code n t u hn _ _ ih =>
      have hlength : codeLength? ('\x1b' :: '[' :: n :: 'm' :: t) = some 4 := by
        have hparameter : isCodeParameter n = true := by simp [isCodeParameter, hn]
        simp [codeLength?, hparameter, show isCodeParameter 'm' = false from rfl,
          show Char.isAlpha 'm' = true from rfl]
      simp only [stripFrom, hlength]
      exact ih
  | @cut t u _ ih =>
      have hnone : codeLength? ('\x1b' :: '[' :: '\x1b' :: t) = none := rfl
      rw [stripFrom]
      simp only [hnone]
      rw [stripFrom_cons (by decide), ih]

/-- A code that is not allowed is not put in. -/
theorem Adorned.not_start_isInfix (h : Adorned allowed t u) (hu : '\x1b' ∉ u) {s : Style}
    (hs : ¬ allowed s.code) : ¬ s.start <:+: t := by
  -- Elsewhere than at an escape character no code starts.
  have hskip {c : Char} (hc : c ≠ '\x1b') {t : Text} :
      s.start <:+: c :: t ↔ s.start <:+: t := by
    simp [List.infix_cons_iff, Style.start, Ne.symm hc]
  induction h with
  | nil => simp [Style.start]
  | char hc _ ih =>
      rw [hskip hc]
      exact ih (List.not_mem_of_not_mem_cons hu)
  | @code n t u hn hallowed _ ih =>
      have hdigit : n ≠ '\x1b' := by
        rintro rfl
        contradiction
      have hhere : ¬ s.start <+: '\x1b' :: '[' :: n :: 'm' :: t := by
        intro hprefix
        have hcode : s.code = n := by simpa [Style.start] using hprefix
        exact hs (hcode ▸ hallowed)
      rw [List.infix_cons_iff, hskip (by decide), hskip hdigit, hskip (by decide)]
      exact fun h => h.elim hhere (ih hu)
  | cut _ ih => exact (hu List.mem_cons_self).elim

/-! ## Pieces -/

theorem PiecesAdorned.exists_cons (h : PiecesAdorned allowed fresh ps qs) :
    ∃ q qs', qs = q :: qs' := by
  cases h with
  | last => exact ⟨_, _, rfl⟩
  | cons => exact ⟨_, _, rfl⟩

/-- Whether the second of three or more pieces is code is the same for both texts. -/
theorem PiecesAdorned.exists_cons_cons {r : Text} {rest : List Text}
    (h : PiecesAdorned allowed fresh (p :: q :: r :: rest) qs) :
    ∃ p' q' qs', qs = p' :: q' :: qs' ∧ Adorned allowed p p' ∧ Adorned allowed q q' ∧
      ((fresh || !p.isEmpty) && !q.isEmpty) = ((fresh || !p'.isEmpty) && !q'.isEmpty) ∧
      PiecesAdorned allowed false (q :: r :: rest) (q' :: qs') ∧
      PiecesAdorned allowed false (r :: rest) qs' := by
  cases h with
  | cons hp hpempty h =>
      cases h with
      | cons hq hqempty hrest =>
          refine ⟨_, _, _, rfl, hp, hq, ?_, .cons hq hqempty hrest, hrest⟩
          rw [hqempty rfl]
          cases fresh with
          | true => rfl
          | false => rw [hpempty rfl]

/-- Marked code is the same code with escape codes put in. -/
theorem PiecesAdorned.adorned {mark : Text → Text}
    (hmark : ∀ p q, Adorned allowed p q → Adorned allowed (mark p) q)
    (h : PiecesAdorned allowed fresh ps qs) :
    Adorned allowed (joinMarked mark fresh ps) (joinMarked id fresh qs) := by
  fun_induction joinMarked mark fresh ps generalizing qs with
  | case1 => cases h
  | case2 fresh p =>
      cases h with
      | last hp => exact hp
      | cons _ _ hrest => cases hrest
  | case3 fresh p q =>
      cases h with
      | cons hp _ hrest =>
          cases hrest with
          | last hq => exact hp.append (.char (by decide) hq)
          | cons _ _ hnone => cases hnone
  | case4 fresh p q r rest hcode ih =>
      obtain ⟨p', q', qs, rfl, hp, hq, hcode', -, hrest⟩ := h.exists_cons_cons
      obtain ⟨r', rest', rfl⟩ := hrest.exists_cons
      rw [joinMarked, if_pos (hcode' ▸ hcode)]
      exact (hp.append (hmark q q' hq)).append (ih hrest)
  | case5 fresh p q r rest hcode ih =>
      obtain ⟨p', q', qs, rfl, hp, hq, hcode', hmore, hrest⟩ := h.exists_cons_cons
      obtain ⟨r', rest', rfl⟩ := hrest.exists_cons
      rw [joinMarked, if_neg (hcode' ▸ hcode)]
      exact hp.append (.char (by decide) (ih hmore))

/-- The first pieces may change in any way that keeps the first of several empty or not. -/
theorem PiecesAdorned.change_first {fresh' : Bool} {p' q' : Text}
    (h : PiecesAdorned allowed fresh (p :: ps) (q :: qs))
    (hfirst : Adorned allowed p q → Adorned allowed p' q')
    (hempty : qs ≠ [] → fresh' = false → p'.isEmpty = q'.isEmpty) :
    PiecesAdorned allowed fresh' (p' :: ps) (q' :: qs) := by
  cases h with
  | last hp => exact .last (hfirst hp)
  | cons hp _ hrest =>
      obtain ⟨r, rest, rfl⟩ := hrest.exists_cons
      exact .cons (hfirst hp) (hempty (List.cons_ne_nil r rest)) hrest

/-! ## Lines -/

theorem Aligned.adorned {mark : Text → Text}
    (hmark : ∀ p q, Adorned allowed p q → Adorned allowed (mark p) q)
    (h : Aligned allowed true t u) : Adorned allowed (markCode mark t) (markCode id u) :=
  PiecesAdorned.adorned hmark h

theorem Aligned.nil : Aligned allowed fresh [] [] := .last .nil

/-- A backtick ends a piece. -/
theorem Aligned.backtick (h : Aligned allowed false t u) :
    Aligned allowed fresh ('\x60' :: t) ('\x60' :: u) := by
  simp only [Aligned, fields, if_true]
  exact .cons .nil (fun _ => rfl) h

/-- Any other character makes its piece one that is not empty. -/
theorem Aligned.char {c : Char} (hc : c ≠ '\x60') (hescape : c ≠ '\x1b')
    (h : Aligned allowed true t u) : Aligned allowed fresh (c :: t) (c :: u) := by
  obtain ⟨p, ps, ht, hct⟩ := Text.fields_cons_of_ne hc t
  obtain ⟨q, qs, hu, hcu⟩ := Text.fields_cons_of_ne hc u
  simp only [Aligned, ht, hu, hct, hcu] at h ⊢
  exact h.change_first (.char hescape) (fun _ _ => rfl)

/-- A code may be put in at the start, after a character that is no backtick, before one, and at
the end. -/
theorem Aligned.code {n : Char} (hn : n.isDigit = true) (hallowed : allowed n)
    (hplace : fresh = true ∨ u.head? ≠ some '\x60') (h : Aligned allowed fresh t u) :
    Aligned allowed fresh ('\x1b' :: '[' :: n :: 'm' :: t) u := by
  obtain ⟨p, ps, ht⟩ := List.exists_cons_of_ne_nil (Text.fields_ne_nil '\x60' t)
  obtain ⟨q, qs, hu⟩ := List.exists_cons_of_ne_nil (Text.fields_ne_nil '\x60' u)
  have hcode : '\x60' ∉ ['\x1b', '[', n, 'm'] := by
    have hdigit : '\x60' ≠ n := by
      rintro rfl
      contradiction
    simp [hdigit]
  have hct := Text.fields_append_of_not_mem hcode ht
  simp only [List.cons_append, List.nil_append] at hct
  simp only [Aligned, ht, hu, hct] at h ⊢
  refine h.change_first (.code hn hallowed) fun hqs hfresh => ?_
  have hq : q ≠ [] := Text.ne_nil_of_fields hu hqs (hplace.resolve_left (by simp [hfresh]))
  rw [List.isEmpty_eq_false_iff.2 hq, List.isEmpty_cons]

/-- A code may be cut off by another one. -/
theorem Aligned.cut (h : Aligned allowed true ('\x1b' :: t) u) :
    Aligned allowed fresh ('\x1b' :: '[' :: '\x1b' :: t) ('\x1b' :: '[' :: u) := by
  obtain ⟨p, ps, ht, hct⟩ := Text.fields_cons_of_ne (show '\x1b' ≠ '\x60' by decide) t
  obtain ⟨q, qs, hu⟩ := List.exists_cons_of_ne_nil (Text.fields_ne_nil '\x60' u)
  have hstart : '\x60' ∉ ['\x1b', '['] := by decide
  have hct' := Text.fields_append_of_not_mem hstart hct
  have hcu := Text.fields_append_of_not_mem hstart hu
  simp only [List.cons_append, List.nil_append] at hct' hcu
  simp only [Aligned, hct, hu, hct', hcu] at h ⊢
  exact h.change_first .cut (fun _ _ => rfl)

/-- A text without escape characters may stand before texts that are aligned after any
character. -/
theorem Aligned.append_left {w : Text} (hw : '\x1b' ∉ w) (h : ∀ fresh, Aligned allowed fresh t u) :
    Aligned allowed fresh (w ++ t) (w ++ u) := by
  induction w generalizing fresh with
  | nil => exact h fresh
  | cons c w ih =>
      simp only [List.mem_cons, not_or] at hw
      by_cases hc : c = '\x60'
      · subst hc
        exact .backtick (ih hw.2)
      · exact .char hc (Ne.symm hw.1) (ih hw.2)

/-- A text without backticks makes what follows it fresh. -/
theorem Aligned.append_left_of_not_mem {w : Text} (hw : '\x1b' ∉ w) (hcode : '\x60' ∉ w)
    (hne : w ≠ []) (h : Aligned allowed true t u) : Aligned allowed fresh (w ++ t) (w ++ u) := by
  induction w generalizing fresh with
  | nil => exact absurd rfl hne
  | cons c w ih =>
      simp only [List.mem_cons, not_or] at hw hcode
      refine .char (Ne.symm hcode.1) (Ne.symm hw.1) ?_
      cases w with
      | nil => exact h
      | cons d w => exact ih hw.2 hcode.2 (List.cons_ne_nil d w)

end ShellDocs.Render
