import ShellDocs.Files.Resolve
import ShellDocs.Proofs.Files.Spelling

/-!
# Paths that are made absolute

Making a path absolute fails just if it has no text that a file could have for its path, or if the
system cannot tell where it leads (`Disk.resolve_eq_error`). In a tree without links there are no
links to go through, so what is left is to undo each `..` by the part before it
(`Disk.resolve_of_linkless`).
-/

namespace ShellDocs

namespace Path

variable {p q : Path} {u : User} {t : Text}

theorem root_up (p : Path) : p.up.root = p.root := by
  rw [up]
  split
  · exact apply_ite root _ _ _ |>.trans (ite_self _)
  · exact apply_ite root _ _ _ |>.trans (ite_self _)

theorem root_goOn (p : Path) (part : Text) : (p.goOn part).root = p.root := by
  rw [goOn]
  split_ifs
  · rfl
  · exact root_up p
  · rfl

theorem root_foldl_goOn (p : Path) (parts : List Text) : (parts.foldl goOn p).root = p.root := by
  induction parts generalizing p with
  | nil => rfl
  | cons part rest ih => rw [List.foldl_cons, ih, root_goOn]

/-- Going on by a step comes to what undoing the step comes to. -/
theorem foldl_undo_goOn (l : Location) (hl : p.isAbsolute = true → l = []) {part : Text}
    (hpart : isStep part = true) :
    (p.goOn part).parts.foldl undo l = undo (p.parts.foldl undo l) part := by
  have hname : isName part = true ∨ part = ['.', '.'] := by
    by_cases hup : part = ['.', '.']
    · exact .inr hup
    · exact .inl (by simpa [isName, isStep, hup] using hpart)
  obtain hname | rfl := hname
  · have hup : part ≠ ['.', '.'] := (isName_iff.1 hname).2.2
    rw [goOn, if_pos hname, List.foldl_append]
    rfl
  · have hgo : p.goOn ['.', '.'] = p.up := rfl
    rw [hgo, up]
    cases hlast : p.parts.getLast? with
    | none =>
        rw [List.getLast?_eq_none_iff.1 hlast]
        dsimp only
        split_ifs with habsolute
        · rw [hl habsolute, List.getLast?_eq_none_iff.1 hlast]
          rfl
        · rfl
    | some last =>
        dsimp only
        split_ifs with hlastUp
        · rw [List.foldl_append]
          rfl
        · obtain ⟨above, habove⟩ := List.getLast?_eq_some_iff.1 hlast
          rw [parent, habove, List.dropLast_concat, List.foldl_append]
          simp [undo, hlastUp]

/-- Going on by all steps of a path comes to what undoing them comes to. -/
theorem foldl_undo_foldl_goOn (l : Location) (hl : p.isAbsolute = true → l = [])
    {parts : List Text} (hparts : ∀ part ∈ parts, isStep part = true) :
    (parts.foldl goOn p).parts.foldl undo l = parts.foldl undo (p.parts.foldl undo l) := by
  induction parts generalizing p with
  | nil => rfl
  | cons part rest ih =>
      obtain ⟨hpart, hrest⟩ := List.forall_mem_cons.1 hparts
      have habsolute : (p.goOn part).isAbsolute = p.isAbsolute := by
        rw [isAbsolute, isAbsolute, root_goOn]
      rw [List.foldl_cons, List.foldl_cons, ih (by rwa [habsolute]) hrest,
        foldl_undo_goOn l hl hpart]

theorem isStep_of_mem_ofText {part : Text} (h : part ∈ (ofText t).parts) : isStep part = true :=
  (List.mem_filter.1 h).2

/-- What holds of the parts of all paths that are read holds with the home directory put in. -/
theorem forall_mem_expandHome? {P : Text → Prop} (hP : ∀ t, ∀ part ∈ (ofText t).parts, P part)
    (h : (ofText t).expandHome? u = some q) : ∀ part ∈ q.parts, P part := by
  rcases expandHome?_cases h with rfl | ⟨name, rest, home, hparts, -, rfl⟩
  · exact hP t
  · rw [Path.append]
    exact List.forall_mem_append.2 ⟨hP _,
      fun part hpart => hP t part (hparts ▸ List.mem_cons_of_mem _ hpart)⟩

/-- A path with the home directory put in consists of steps. -/
theorem isStep_of_mem_expandHome? (h : (ofText t).expandHome? u = some q) :
    ∀ part ∈ q.parts, isStep part = true :=
  forall_mem_expandHome? (fun _ _ => isStep_of_mem_ofText) h

end Path

namespace Disk

open ShellDocs.Path (isStep)

variable {d : Disk} {p q : Path} {cause : Escape}

/-- Whether the system can tell where a path leads: links do not lie too deep inside one another or
lead round in a circle, and a path that is seen from the current directory has one to be seen
from. -/
structure Leads (d : Disk) (p q : Path) : Prop where
  unlinked : d.unlinked? p = some q
  cwd : q.isAbsolute = true ∨ d.hasCwd = true
  seek : d.seek (q.resolve d.cwd).toText ≠ .error .loop

/-- Whether the system cannot tell where a path leads. -/
def Lost (d : Disk) (p : Path) : Prop := ∀ q, ¬ d.Leads p q

theorem resolve_of_leads (hname : d.user.canName p.toText = true) (h : d.Leads p q) :
    d.resolve p = .ok (q.resolve d.cwd) := by
  have hcwd : (!q.isAbsolute && !d.hasCwd) = false := by
    obtain habsolute | hcwd := h.cwd
    · simp [habsolute]
    · simp [hcwd]
  rw [resolve, hname, h.unlinked]
  dsimp only
  rw [hcwd]
  simp only [Bool.not_true, Bool.false_eq_true, if_false]
  split
  · next hseek => exact absurd hseek h.seek
  · rfl

theorem resolve_of_lost (hname : d.user.canName p.toText = true) (h : d.Lost p) :
    d.resolve p = .error .unanswered := by
  rw [resolve, hname]
  simp only [Bool.not_true, Bool.false_eq_true, if_false]
  split
  · rfl
  · next q hunlinked =>
      split_ifs with hcwd
      · rfl
      · split
        · rfl
        · next hseek =>
            refine absurd ⟨hunlinked, ?_, fun hloop => hseek hloop⟩ (h q)
            simpa [or_iff_not_imp_left] using hcwd

/-- A path is not made absolute just if no file can have its text for a path, or if the system
cannot tell where it leads. -/
theorem resolve_eq_error : d.resolve p = .error cause ↔
    d.user.canName p.toText = false ∧ cause = .badPath ∨
      d.user.canName p.toText = true ∧ d.Lost p ∧ cause = .unanswered := by
  cases hname : d.user.canName p.toText with
  | false =>
      have hresult : d.resolve p = .error .badPath := by simp [resolve, hname]
      simp [hresult, eq_comm]
  | true =>
      by_cases hlost : d.Lost p
      · simp [resolve_of_lost hname hlost, hlost, eq_comm]
      · obtain ⟨settled, hleads⟩ := not_forall_not.1 hlost
        simp [resolve_of_leads hname hleads, hlost]

theorem resolve_eq_ok : d.resolve p = .ok q ↔
    d.user.canName p.toText = true ∧ ∃ settled, d.Leads p settled ∧ q = settled.resolve d.cwd := by
  cases hname : d.user.canName p.toText with
  | false => simp [resolve, hname]
  | true =>
      by_cases hlost : d.Lost p
      · refine iff_of_false (by simp [resolve_of_lost hname hlost]) ?_
        rintro ⟨-, settled, hleads, -⟩
        exact hlost settled hleads
      · obtain ⟨settled, hleads⟩ := not_forall_not.1 hlost
        rw [resolve_of_leads hname hleads]
        constructor
        · intro h
          exact ⟨rfl, settled, hleads, (Except.ok.inj h).symm⟩
        · rintro ⟨-, settled', hleads', rfl⟩
          have hsame := hleads.unlinked.symm.trans hleads'.unlinked
          rw [Option.some.inj hsame]

theorem linkAt?_of_linkless (h : d.tree.Linkless) (path : Text) : d.linkAt? path = none := by
  rw [linkAt?]
  split
  · next l target hseek => exact absurd (find?_of_reach_taken hseek) (h l target)
  · rfl

/-- Without links a path is gone along part by part. -/
theorem settleParts_of_linkless (h : d.tree.Linkless) (seen : List Text)
    (leap : List Text → Path → Text → Except (Option Path) Path) (p : Path) (parts : List Text) :
    d.settleParts seen leap p parts = .ok (parts.foldl Path.goOn p) := by
  induction parts generalizing p with
  | nil => rfl
  | cons part rest ih =>
      rw [settleParts]
      simp only [linkAt?_of_linkless h, ite_self]
      exact ih _

/-- Without links only the parts that go up are undone. -/
theorem unlinked?_of_linkless (h : d.tree.Linkless)
    (hsteps : ∀ part ∈ p.parts, isStep part = true) :
    ∃ q, d.unlinked? p = some q ∧ q.isAbsolute = p.isAbsolute ∧
      q.resolve d.cwd = p.resolve d.cwd := by
  refine ⟨p.parts.foldl Path.goOn ⟨if p.isAbsolute then ['/'] else [], []⟩, ?_, ?_, ?_⟩
  · simp only [unlinked?, settleParts_of_linkless h]
  · rw [Path.isAbsolute, Path.root_foldl_goOn]
    cases p.isAbsolute <;> rfl
  · rw [Path.resolve, Path.resolve, Path.isAbsolute, Path.root_foldl_goOn]
    cases p.isAbsolute with
    | true =>
        have hfold := Path.foldl_undo_foldl_goOn (p := ⟨['/'], []⟩) [] (fun _ => rfl) hsteps
        exact congrArg (Path.mk ['/']) hfold
    | false =>
        have hfold := Path.foldl_undo_foldl_goOn (p := ⟨[], []⟩) (Path.foldParents d.cwd)
          (fun hroot => absurd hroot Bool.false_ne_true) hsteps
        simp only [Bool.false_eq_true, if_false, List.isEmpty_nil, Bool.not_true,
          Path.foldParents_append]
        exact congrArg (Path.mk ['/']) hfold

/-- Without links a path that is made absolute comes to what is left when each `..` is undone. -/
theorem resolve_of_linkless (h : d.tree.Linkless) (hsteps : ∀ part ∈ p.parts, isStep part = true)
    (hresult : d.resolve p = .ok q) : q = p.resolve d.cwd := by
  obtain ⟨-, settled, hleads, rfl⟩ := resolve_eq_ok.1 hresult
  obtain ⟨settled', hunlinked, -, hsame⟩ := unlinked?_of_linkless h hsteps
  obtain rfl := Option.some.inj (hleads.unlinked.symm.trans hunlinked)
  exact hsame

end Disk

end ShellDocs
