import Mathlib.Data.List.Basic
import ShellDocs.Proofs.Text.Lines

/-!
# The order of texts

Texts are ordered by their code points, and sorted texts stand in order (`pairwise_sort`). Texts
that are cut into pieces at a separator are ordered piece by piece; pieces that both have at the
same places make no difference, so they can be left out of both (`le_join_filter`).
-/

namespace ShellDocs.Text

variable {t u v : Text}

/-- The first character in which texts differ decides. -/
theorem le_cons_iff {c d : Char} :
    le (c :: t) (d :: u) = true ↔ c < d ∨ c = d ∧ le t u = true := by
  rw [le]
  split_ifs with hlt hgt
  · simp [hlt]
  · have hne : c ≠ d := by
      rintro rfl
      exact hlt hgt
    simp [hlt, hne]
  · have heq : c = d := Char.le_antisymm (Char.not_lt.1 hgt) (Char.not_lt.1 hlt)
    simp [heq]

/-- A common first character makes no difference. -/
@[simp] theorem le_cons_self (c : Char) (t u : Text) : le (c :: t) (c :: u) = le t u := by
  rw [le, if_neg (Char.lt_irrefl c), if_neg (Char.lt_irrefl c)]

/-- Different first characters decide, whatever follows. -/
theorem le_cons_of_ne {c d : Char} (hne : c ≠ d) (t u t' u' : Text) :
    le (c :: t) (d :: u) = le (c :: t') (d :: u') := by
  rw [Bool.eq_iff_iff, le_cons_iff, le_cons_iff]
  simp [hne]

theorem le_trans (htu : le t u = true) (huv : le u v = true) : le t v = true := by
  induction t generalizing u v with
  | nil => rfl
  | cons c t ih =>
      cases u with
      | nil => contradiction
      | cons d u =>
          cases v with
          | nil => contradiction
          | cons e v =>
              rw [le_cons_iff] at htu huv ⊢
              rcases htu with hcd | ⟨rfl, htu⟩
              · rcases huv with hde | ⟨rfl, -⟩
                · exact .inl (Char.lt_trans hcd hde)
                · exact .inl hcd
              · rcases huv with hce | ⟨rfl, huv⟩
                · exact .inl hce
                · exact .inr ⟨rfl, ih htu huv⟩

theorem le_total (t u : Text) : le t u = true ∨ le u t = true := by
  induction t generalizing u with
  | nil => exact .inl rfl
  | cons c t ih =>
      cases u with
      | nil => exact .inr rfl
      | cons d u =>
          rw [le_cons_iff, le_cons_iff]
          by_cases hlt : c < d
          · exact .inl (.inl hlt)
          · by_cases hgt : d < c
            · exact .inr (.inl hgt)
            · obtain rfl := Char.le_antisymm (Char.not_lt.1 hgt) (Char.not_lt.1 hlt)
              exact (ih u).imp (fun h => .inr ⟨rfl, h⟩) fun h => .inr ⟨rfl, h⟩

/-- Sorted texts stand in order. -/
theorem pairwise_sort (ts : List Text) : (sort ts).Pairwise fun t u => le t u = true := by
  refine List.pairwise_mergeSort (fun t u v => ?_) (fun t u => ?_) ts
  · exact le_trans
  · rw [Bool.or_eq_true]
    exact le_total t u

/-! ## Texts in parts -/

/-- A text that does not end in the separator does not end in an empty piece. -/
theorem getLast?_fields_ne_nil {sep c : Char} {t : Text} (h : t.getLast? = some c) (hc : c ≠ sep) :
    (fields sep t).getLast? ≠ some [] := by
  induction t with
  | nil => contradiction
  | cons e t ih =>
      cases t with
      | nil =>
          obtain rfl : e = c := by simpa using h
          simp [fields, hc]
      | cons f t =>
          rw [List.getLast?_cons_cons] at h
          have hrest := ih h
          by_cases he : e = sep
          · obtain ⟨piece, more, hfields⟩ := List.exists_cons_of_ne_nil (fields_ne_nil sep (f :: t))
            rw [hfields] at hrest
            rwa [fields, if_pos he, hfields, List.getLast?_cons_cons]
          · obtain ⟨piece, more, hfields, hcons⟩ := fields_cons_of_ne he (f :: t)
            rw [hfields] at hrest
            rw [hcons]
            cases more with
            | nil => simp
            | cons next more => rwa [List.getLast?_cons_cons] at hrest ⊢

/-- A common beginning makes no difference. -/
theorem le_append_left (t u v : Text) : le (t ++ u) (t ++ v) = le u v := by
  induction t with
  | nil => rfl
  | cons c t ih => simp [ih]

/-- Different texts before a character that stands in neither of them decide, whatever follows. -/
theorem le_append_cons_of_ne {c : Char} (hne : t ≠ u) (ht : c ∉ t) (hu : c ∉ u)
    (v w v' w' : Text) : le (t ++ c :: v) (u ++ c :: w) = le (t ++ c :: v') (u ++ c :: w') := by
  induction t generalizing u with
  | nil =>
      cases u with
      | nil => contradiction
      | cons e u => exact le_cons_of_ne (fun h => hu (by simp [h])) _ _ _ _
  | cons d t ih =>
      cases u with
      | nil => exact le_cons_of_ne (fun h => ht (by simp [h])) _ _ _ _
      | cons e u =>
          by_cases hde : d = e
          · subst hde
            have hrest := ih (fun h => hne (congrArg (d :: ·) h))
              (fun h => ht (List.mem_cons_of_mem d h)) (fun h => hu (List.mem_cons_of_mem d h))
            simpa using hrest
          · exact le_cons_of_ne hde _ _ _ _

/-- Two pieces that stand at the same place: both pass a test, or they are the same. -/
structure Paired (sep : Char) (keep : Text → Bool) (t u : Text) : Prop where
  left : sep ∉ t
  right : sep ∉ u
  keep_eq : keep t = keep u
  eq_of_dropped : keep t = false → t = u

theorem Paired.self {sep : Char} {keep : Text → Bool} (h : sep ∉ t) : Paired sep keep t t :=
  ⟨h, h, rfl, fun _ => rfl⟩

theorem Paired.symm {sep : Char} {keep : Text → Bool} (h : Paired sep keep t u) :
    Paired sep keep u t :=
  ⟨h.right, h.left, h.keep_eq.symm, fun hdropped =>
    (h.eq_of_dropped (h.keep_eq.trans hdropped)).symm⟩

section

variable {sep : Char} {keep : Text → Bool} {ts us : List Text}

theorem filter_eq_nil_iff_of_paired (h : List.Forall₂ (Paired sep keep) ts us) :
    ts.filter keep = [] ↔ us.filter keep = [] := by
  induction h with
  | nil => rfl
  | @cons t u _ _ hpair _ ih =>
      cases hkeep : keep t with
      | false => simpa [hkeep, ← hpair.keep_eq] using ih
      | true => simp [hkeep, ← hpair.keep_eq]

/-- After a piece in both, the rest decides or what stands for it. -/
theorem Paired.le_append_cons {v w v' w' : Text} (h : Paired sep keep t u)
    (hrest : le v w = le v' w') :
    le (t ++ sep :: v) (u ++ sep :: w) = le (t ++ sep :: v') (u ++ sep :: w') := by
  by_cases heq : t = u
  · subst heq
    simp only [le_append_left, le_cons_self, hrest]
  · exact le_append_cons_of_ne heq h.left h.right _ _ _ _

/-- The order of two texts does not depend on the pieces that both have at the same places, if the
last piece is not one of them. -/
theorem le_join_filter (h : List.Forall₂ (Paired sep keep) ts us)
    (hlast : ts.getLast?.any keep = true) :
    le (join [sep] ts) (join [sep] us) =
      le (join [sep] (ts.filter keep)) (join [sep] (us.filter keep)) := by
  induction h with
  | nil => contradiction
  | @cons t u ts us hpair hrest ih =>
      cases hrest with
      | nil =>
          have ht : keep t = true := hlast
          have hu : keep u = true := hpair.keep_eq ▸ ht
          simp [ht, hu]
      | @cons next next' more more' hnext hmore =>
          rw [List.getLast?_cons_cons] at hlast
          have hsame := ih hlast
          rw [join_cons (List.cons_ne_nil next more), join_cons (List.cons_ne_nil next' more')]
          cases hkeep : keep t with
          | false =>
              -- The piece stands in both texts and is dropped from both.
              obtain rfl := hpair.eq_of_dropped hkeep
              have hdropped (vs : List Text) : (t :: vs).filter keep = vs.filter keep :=
                List.filter_cons_of_neg (by simp [hkeep])
              rw [hdropped, hdropped, ← hsame, le_append_left, le_cons_self]
          | true =>
              obtain ⟨last, hmem, hkept⟩ := (Option.any_eq_true _ _).1 hlast
              have hleft : (next :: more).filter keep ≠ [] :=
                List.ne_nil_of_mem (List.mem_filter.2 ⟨List.mem_of_getLast? hmem, hkept⟩)
              have hright : (next' :: more').filter keep ≠ [] := fun hnil =>
                hleft ((filter_eq_nil_iff_of_paired (.cons hnext hmore)).2 hnil)
              have hkeep' : keep u = true := hpair.keep_eq.symm.trans hkeep
              rw [List.filter_cons_of_pos hkeep, List.filter_cons_of_pos hkeep', join_cons hleft,
                join_cons hright]
              exact hpair.le_append_cons hsame

end

end ShellDocs.Text
