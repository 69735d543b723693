import Mathlib.Algebra.Ring.Parity
import ShellDocs.Render.Page

/-!
# Fenced blocks

A line stands in a fenced block just if the number of fence lines before it is odd. The state that
goes from line to line is the parity of the fence lines so far (`styleBodyFrom_append`), from which
the place of every line and the lines after an even number of fence lines follow. The main
statement is `styleBody_fences`.
-/

namespace ShellDocs.Render

variable {lines : List Text} {i : Nat}

/-- How a line is shown: a fence line as it is, other lines in italics inside a fenced block and
with their styles outside of one. -/
def shownLine (o : Options) (inFence : Bool) (line : Text) : Text :=
  if isFence line then line
  else if inFence then (if line.isEmpty then line else styled [.italic] line)
  else styleLine o.headingWords line

/-- The number of fence lines. -/
def fences (lines : List Text) : Nat := lines.countP isFence

/-- Whether a fenced block is open after the lines if none is open before them. -/
def endsInFence (lines : List Text) : Bool := decide (Odd (fences lines))

theorem endsInFence_iff : endsInFence lines = true ↔ Odd (fences lines) := decide_eq_true_iff

theorem endsInFence_eq_false_iff : endsInFence lines = false ↔ Even (fences lines) := by
  rw [← Nat.not_odd_iff_even, ← endsInFence_iff, Bool.not_eq_true]

/-! ## From line to line -/

/-- Each line is shown by itself, and a fence line changes the state. -/
theorem styleBodyFrom_cons (o : Options) (inFence : Bool) (line : Text) (rest : List Text) :
    styleBodyFrom o inFence (line :: rest) =
      (o.lead ++ shownLine o inFence line) ::
        styleBodyFrom o (inFence ^^ isFence line) rest := by
  cases h : isFence line <;> simp [styleBodyFrom, shownLine, h]

theorem endsInFence_cons (line : Text) (rest : List Text) :
    endsInFence (line :: rest) = (isFence line ^^ endsInFence rest) := by
  have hcount : fences (line :: rest) = fences rest + if isFence line then 1 else 0 :=
    List.countP_cons
  rw [Bool.eq_iff_iff, endsInFence_iff, hcount]
  cases isFence line <;> simp [endsInFence_iff, endsInFence_eq_false_iff, Nat.odd_add_one]

/-- The lines after some others are shown as these leave the state. -/
theorem styleBodyFrom_append (o : Options) (inFence : Bool) (lines rest : List Text) :
    styleBodyFrom o inFence (lines ++ rest) =
      styleBodyFrom o inFence lines ++
        styleBodyFrom o (inFence ^^ endsInFence lines) rest := by
  induction lines generalizing inFence with
  | nil => simp [styleBodyFrom, endsInFence, fences]
  | cons line lines ih =>
      rw [List.cons_append, styleBodyFrom_cons, ih, styleBodyFrom_cons, endsInFence_cons,
        Bool.xor_assoc, List.cons_append]

theorem length_styleBodyFrom (o : Options) (inFence : Bool) (lines : List Text) :
    (styleBodyFrom o inFence lines).length = lines.length := by
  induction lines generalizing inFence with
  | nil => rfl
  | cons line lines ih => rw [styleBodyFrom_cons, List.length_cons, ih, List.length_cons]

/-- Every line is shown in its place, with the state that the lines before it leave. -/
theorem getElem?_styleBody {line : Text} (o : Options) (h : lines[i]? = some line) :
    (styleBody o lines)[i]? = some (o.lead ++ shownLine o (endsInFence (lines.take i)) line) := by
  obtain ⟨hi, hline⟩ := List.getElem?_eq_some_iff.1 h
  have hlines : lines.take i ++ line :: lines.drop (i + 1) = lines := by simp [← hline]
  have hbefore : (styleBodyFrom o false (lines.take i)).length = i := by
    rw [length_styleBodyFrom, List.length_take_of_le (Nat.le_of_lt hi)]
  have hstyled := styleBodyFrom_append o false (lines.take i) (line :: lines.drop (i + 1))
  rw [hlines, styleBodyFrom_cons, Bool.false_xor] at hstyled
  rw [styleBody, hstyled, List.getElem?_append_right (Nat.le_of_eq hbefore), hbefore]
  simp

/-! ## The place of a line -/

/-- Every line is shown in its place after the blanks that stand before all of them. It is shown as
it is if it is a fence line, in italics only if it is not and the number of fence lines before it is
odd, and with its styles if that number is even. So nothing that follows an even number of fence
lines is shown differently because of them. -/
theorem styleBody_fences (o : Options) (lines : List Text) :
    (styleBody o lines).length = lines.length ∧
    (∀ i line, lines[i]? = some line → ∃ shown,
      (styleBody o lines)[i]? = some (o.lead ++ shown) ∧
      (isFence line = true → shown = line) ∧
      (isFence line = false → Odd (fences (lines.take i)) →
        shown = if line = [] then [] else styled [.italic] line) ∧
      (isFence line = false → Even (fences (lines.take i)) →
        shown = styleLine o.headingWords line)) ∧
    ∀ rest, Even (fences lines) →
      styleBody o (lines ++ rest) = styleBody o lines ++ styleBody o rest := by
  refine ⟨length_styleBodyFrom o false lines, ?_, ?_⟩
  · intro i line hline
    refine ⟨_, getElem?_styleBody o hline, ?_, ?_, ?_⟩
    · intro hfence
      rw [shownLine, if_pos hfence]
    · intro hfence hodd
      have hin := endsInFence_iff.2 hodd
      cases line <;> simp [shownLine, hfence, hin]
    · intro hfence heven
      have hout := endsInFence_eq_false_iff.2 heven
      simp [shownLine, hfence, hout]
  · intro rest heven
    rw [styleBody, styleBodyFrom_append, endsInFence_eq_false_iff.2 heven]
    rfl

/-- A fenced block with code that would be styled outside of it. -/
def fenced : List Text := ["\t```sh", "greet `you`", "```"]

/-- More documentation, with a block that is not closed. -/
def unfenced : List Text := ["Usage: `greet`", "```", "greet"]

def bare : Options where
  headingWords := defaultHeadingWords

theorem styleBody_fences_greet :
    fenced[1]? = some "greet `you`".toList ∧ Odd (fences (fenced.take 1)) ∧
    (styleBody bare fenced)[1]? = some (bare.lead ++ styled [.italic] "greet `you`") ∧
    bare.lead ++ styled [.italic] "greet `you`" = "  \x1b[3mgreet `you`\x1b[0m" ∧
    Even (fences fenced) ∧
    styleBody bare (fenced ++ unfenced) = styleBody bare fenced ++ styleBody bare unfenced := by
  have hline : fenced[1]? = some "greet `you`".toList := rfl
  have hodd : Odd (fences (fenced.take 1)) := by decide
  have heven : Even (fences fenced) := by decide
  obtain ⟨-, hplace, hcut⟩ := styleBody_fences bare fenced
  obtain ⟨shown, hshown, -, hcode, -⟩ := hplace 1 "greet `you`" hline
  rw [hcode (by decide) hodd] at hshown
  exact ⟨hline, hodd, hshown, by decide, heven, hcut unfenced heven⟩

end ShellDocs.Render
