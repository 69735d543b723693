import Mathlib.Order.Bounds.Basic
import ShellDocs.Proofs.Render.Indentation

/-!
# Indentation that is removed

The indentation that lines have in common is the greatest number of characters in which none of
them has anything but white space (`commonIndent?_eq_some_iff`). How much they share adds up when
some of it is removed (`sharesIndent_add`), so nothing is left to share after it is gone. The main
statement is `dropCommonIndent_once`.
-/

namespace ShellDocs.Render

variable {lines : List Text} {line : Text} {m n : Nat}

/-- Whether all lines have only white space in their first `n` characters. A line may be
shorter. -/
def SharesIndent (n : Nat) (lines : List Text) : Prop :=
  ∀ line ∈ lines, Text.isVoid (line.take n) = true

/-! ## What lines share -/

/-- The beginning of a line is white space if it is no longer than the indentation, and of a blank
line in any case. -/
theorem isVoid_take_iff (line : Text) (n : Nat) :
    Text.isVoid (line.take n) = true ↔ Text.isVoid line = true ∨ n ≤ indentation line := by
  induction line generalizing n with
  | nil => simp [Text.isVoid]
  | cons c line ih =>
      cases n with
      | zero => simp [Text.isVoid]
      | succ n =>
          cases hc : Text.isSpace c with
          | true => simpa [Text.isVoid, indentation, hc] using ih n
          | false => simp [Text.isVoid, indentation, hc]

/-- Lines share what none but the blank ones has less of. -/
theorem sharesIndent_iff :
    SharesIndent n lines ↔ ∀ line ∈ lines, Text.isVoid line = false → n ≤ indentation line := by
  refine forall₂_congr fun line _ => ?_
  rw [isVoid_take_iff, or_iff_not_imp_left, Bool.not_eq_true]

/-- The indentation that lines have in common is the most that they share. -/
theorem commonIndent?_eq_some_iff :
    commonIndent? lines = some n ↔ IsGreatest {m | SharesIndent m lines} n := by
  have hgreatest {k : Nat} (h : commonIndent? lines = some k) :
      IsGreatest {m | SharesIndent m lines} k := by
    obtain ⟨⟨line, hline, hvoid, rfl⟩, hleast⟩ := commonIndent?_eq_some.1 h
    exact ⟨sharesIndent_iff.2 hleast, fun m hm => sharesIndent_iff.1 hm line hline hvoid⟩
  refine ⟨hgreatest, fun h => ?_⟩
  cases hcommon : commonIndent? lines with
  | none =>
      -- Blank lines share any number of characters.
      have hvoid := commonIndent?_eq_none.1 hcommon
      have hmore : SharesIndent (n + 1) lines := fun line hline =>
        (isVoid_take_iff line (n + 1)).2 (.inl (hvoid line hline))
      exact absurd (h.2 hmore) (Nat.not_succ_le_self n)
  | some k => rw [(hgreatest hcommon).unique h]

/-- What lines share is what is removed and what they share then. -/
theorem sharesIndent_add :
    SharesIndent (n + m) lines ↔
      SharesIndent n lines ∧ SharesIndent m (lines.map (·.drop n)) := by
  simp only [SharesIndent, List.forall_mem_map, ← forall₂_and]
  refine forall₂_congr fun line _ => ?_
  rw [List.take_add, Text.isVoid, List.all_append, Bool.and_eq_true, Text.isVoid, Text.isVoid]

theorem sharesIndent_zero (lines : List Text) : SharesIndent 0 lines := fun _ _ => rfl

/-- Lines share a character just if none of them starts with another one. -/
theorem sharesIndent_one :
    SharesIndent 1 lines ↔ ∀ line ∈ lines, ∀ c, line.head? = some c → Text.isSpace c = true := by
  refine forall₂_congr fun line _ => ?_
  cases line <;> simp [Text.isVoid]

/-! ## What is removed -/

/-- When the most that lines share is removed, they share nothing. -/
theorem isGreatest_zero_drop (h : IsGreatest {m | SharesIndent m lines} n) :
    IsGreatest {m | SharesIndent m (lines.map (·.drop n))} 0 := by
  refine ⟨sharesIndent_zero _, fun m hm => ?_⟩
  have hle : n + m ≤ n := h.2 (sharesIndent_add.2 ⟨h.1, hm⟩)
  omega

/-- From all lines but the first one number of characters is removed: the most that they share, or
nothing if they are all blank. -/
theorem exists_dropCommonIndent (first : Text) (rest : List Text) :
    ∃ n, SharesIndent n rest ∧
      dropCommonIndent (first :: rest) = first :: rest.map (·.drop n) ∧
      ((∃ line ∈ rest, Text.isVoid line = false) → IsGreatest {m | SharesIndent m rest} n) := by
  cases h : commonIndent? rest with
  | none =>
      have hvoid := commonIndent?_eq_none.1 h
      refine ⟨0, sharesIndent_zero rest, by simp [dropCommonIndent, h], ?_⟩
      rintro ⟨line, hline, hseen⟩
      rw [hvoid line hline] at hseen
      contradiction
  | some n =>
      have hgreatest := commonIndent?_eq_some_iff.1 h
      exact ⟨n, hgreatest.1, by rw [dropCommonIndent, h], fun _ => hgreatest⟩

/-- There is nothing to remove a second time. -/
theorem dropCommonIndent_idem (lines : List Text) :
    dropCommonIndent (dropCommonIndent lines) = dropCommonIndent lines := by
  cases lines with
  | nil => rfl
  | cons first rest =>
      cases h : commonIndent? rest with
      | none => simp only [dropCommonIndent, h]
      | some n =>
          have hzero := commonIndent?_eq_some_iff.2
            (isGreatest_zero_drop (commonIndent?_eq_some_iff.1 h))
          simp [dropCommonIndent, h, hzero]

/-- Only white space is removed, as much from each line as from the others, and none from the
first. It is all that the lines share: unless they are all blank, one of them starts with another
character then. A second time nothing is removed. -/
theorem dropCommonIndent_once (lines : List Text) :
    (dropCommonIndent lines).length = lines.length ∧
    (dropCommonIndent lines).head? = lines.head? ∧
    (∃ n, (dropCommonIndent lines).tail = lines.tail.map (·.drop n) ∧
      SharesIndent n lines.tail ∧
      ((∃ line ∈ lines.tail, Text.isVoid line = false) →
        (∀ m, SharesIndent m lines.tail → m ≤ n) ∧
        ∃ line ∈ (dropCommonIndent lines).tail,
          ∃ c, line.head? = some c ∧ Text.isSpace c = false)) ∧
    dropCommonIndent (dropCommonIndent lines) = dropCommonIndent lines := by
  have hidem := dropCommonIndent_idem lines
  cases lines with
  | nil => exact ⟨rfl, rfl, ⟨0, rfl, sharesIndent_zero [], by simp⟩, hidem⟩
  | cons first rest =>
      obtain ⟨n, hshares, hdrop, hgreatest⟩ := exists_dropCommonIndent first rest
      refine ⟨by simp [hdrop], by simp [hdrop], ⟨n, by simp [hdrop], hshares, ?_⟩, hidem⟩
      intro hseen
      refine ⟨fun m hm => (hgreatest hseen).2 hm, ?_⟩
      have hnone : ¬ SharesIndent 1 (rest.map (·.drop n)) := by
        intro hone
        exact Nat.not_succ_le_zero 0 ((isGreatest_zero_drop (hgreatest hseen)).2 hone)
      rw [sharesIndent_one] at hnone
      push Not at hnone
      simpa [hdrop] using hnone

/-- Documentation as it stands in the code, with a blank line that is shorter than the
indentation and a line that is indented deeper. -/
def indented : List Text := ["  Say hello", "\t   Usage: greet", " ", "\t     greet you"]

/-- The same documentation without the indentation. -/
def unindented : List Text := ["  Say hello", "Usage: greet", "", "  greet you"]

theorem dropCommonIndent_once_greet :
    (∃ line ∈ indented.tail, Text.isVoid line = false) ∧
    dropCommonIndent indented = unindented ∧ dropCommonIndent unindented = unindented ∧
    ∃ line ∈ unindented.tail, ∃ c, line.head? = some c ∧ Text.isSpace c = false := by
  have hseen : ∃ line ∈ indented.tail, Text.isVoid line = false := by decide
  have hshown : dropCommonIndent indented = unindented := by decide
  obtain ⟨-, -, ⟨n, -, -, hall⟩, honce⟩ := dropCommonIndent_once indented
  rw [hshown] at honce hall
  exact ⟨hseen, hshown, honce, (hall hseen).2⟩

end ShellDocs.Render
