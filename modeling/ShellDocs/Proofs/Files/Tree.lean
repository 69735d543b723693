import Mathlib.Data.List.Basic
import ShellDocs.Files.Tree
import ShellDocs.Proofs.Association

/-!
# Changes of a file tree

What each change of a tree does to what stands at a location and to the rights of the process. What
is written to a file stands under all its names (`Tree.find?_fill`), and a new file has just one. A
tree that keeps the directories and links of another one keeps its walks as well; `Tree.Keeps` is
what this takes. Making directories puts directories where nothing stood and changes nothing else
(`Tree.Grows`).
-/

namespace ShellDocs

namespace Entry

/-- Whether an entry is a symbolic link. -/
def isLink : Entry → Bool
  | .link _ => true
  | _ => false

end Entry

namespace Tree

variable {t t' t'' : Tree} {l m here there : Location} {a : Access} {e : Entry} {content : Bytes}

/-! ## Entries -/

@[simp] theorem find?_nil (t : Tree) : t.find? [] = some .directory := rfl

/-- What is no directory does not stand at the root. -/
theorem ne_nil_of_find?_ne (h : t.find? l ≠ some .directory) : l ≠ [] := by
  rintro rfl
  exact h rfl

/-- What was put at a location stands there, and everything else is as before. -/
theorem find?_put (t : Tree) (hl : l ≠ []) (e : Entry) (m : Location) :
    (t.put l e).find? m = if m = l then some e else t.find? m := by
  by_cases hm : m = []
  · subst hm
    rw [if_neg (Ne.symm hl)]
    rfl
  · have hnonempty : m.isEmpty = false := List.isEmpty_eq_false_iff.2 hm
    simp only [find?, hnonempty, Bool.false_eq_true, if_false, put]
    split_ifs with hthere hml hml
    · obtain ⟨f, hf⟩ := Option.isSome_iff_exists.1 hthere
      rw [Association.lookup_map_replace _ (· = l), if_pos hml, hml, hf]
      rfl
    · rw [Association.lookup_map_replace _ (· = l), if_neg hml]
    · have hnone : t.entries.lookup l = none := Option.not_isSome_iff_eq_none.1 hthere
      rw [List.lookup_append, hml]
      simp [hnone]
    · rw [List.lookup_append]
      simp [Association.lookup_cons_of_ne hml]

/-- Nothing stands where something was taken away, and everything else is as before. -/
theorem find?_erase (t : Tree) (hl : l ≠ []) (m : Location) :
    (t.erase l).find? m = if m = l then none else t.find? m := by
  by_cases hm : m = []
  · subst hm
    rw [if_neg (Ne.symm hl)]
    rfl
  · have hnonempty : m.isEmpty = false := List.isEmpty_eq_false_iff.2 hm
    simp only [find?, hnonempty, Bool.false_eq_true, if_false, erase]
    exact Association.lookup_filter_ne t.entries l m

/-- What was moved stands where it was moved to, and nothing where it was. -/
theorem find?_move (t : Tree) (hhere : here ≠ []) (hthere : there ≠ []) (e : Entry)
    (m : Location) : (t.move here there e).find? m =
      if m = here then none else if m = there then some e else t.find? m := by
  have hentries : (t.move here there e).find? m = ((t.put there e).erase here).find? m := rfl
  rw [hentries, find?_erase _ hhere, find?_put _ hthere]

/-- The content at a location depends on what stands there. -/
theorem content?_congr (h : t'.find? m = t.find? m) : t'.content? m = t.content? m := by
  simp only [content?, h]

/-! ## Names of one file -/

@[simp] theorem sameFile_self (t : Tree) (l : Location) : t.sameFile l l = true := by
  simp [sameFile]

/-- The same stands under all names of a file. -/
theorem find?_of_sameFile (h : t.sameFile l m = true) : t.find? m = t.find? l := by
  obtain rfl | h : l = m ∨ _ := by simpa [sameFile] using h
  · rfl
  · exact h.1.2

/-- The rights to a file are the same under all its names. -/
theorem permits_of_sameFile (h : t.sameFile l m = true) (a : Access) :
    t.permits a m = t.permits a l := by
  obtain rfl | h : l = m ∨ _ := by simpa [sameFile] using h
  · rfl
  · exact h.2 a (by cases a <;> simp [Access.all])

/-- Where nothing stands there is no file with other names. -/
theorem sameFile_of_free (h : t.find? l = none) : t.sameFile l m = true ↔ m = l := by
  simp [sameFile, h, @eq_comm _ m l]

/-- A new file has one name. -/
theorem eq_of_sameFile_fill (h : t.find? l = none)
    (hsame : (t.fill l content).sameFile l m = true) : m = l := by
  have hnumber : (t.fill l content).numbers.lookup l = none := by
    rw [fill, if_neg (by simp [h]), put, Association.lookup_filter_ne, if_pos rfl]
  have heq : l = m := by simpa [sameFile, hnumber] using hsame
  exact heq.symm

/-- What was written to a file stands under all its names, and everything else is as before. -/
theorem find?_fill (hl : t.find? l ≠ some .directory) (content : Bytes) (m : Location) :
    (t.fill l content).find? m =
      if t.sameFile l m then some (.file content) else t.find? m := by
  have hroot (h : t.sameFile l m = true) : m ≠ [] :=
    ne_nil_of_find?_ne (t := t) (find?_of_sameFile h ▸ hl)
  rw [fill]
  split_ifs with hthere hsame hsame
  · obtain ⟨e, he⟩ := Option.isSome_iff_exists.1 hthere
    have hm : t.find? m = some e := (find?_of_sameFile hsame).trans he
    have hnonempty : m.isEmpty = false := List.isEmpty_eq_false_iff.2 (hroot hsame)
    simp only [find?, hnonempty, Bool.false_eq_true, if_false] at hm ⊢
    rw [Association.lookup_map_replace _ (t.sameFile l · = true), if_pos hsame, hm]
    rfl
  · simp only [find?]
    rw [Association.lookup_map_replace _ (t.sameFile l · = true), if_neg hsame]
  · have hfree : t.find? l = none := Option.not_isSome_iff_eq_none.1 hthere
    rw [find?_put t (ne_nil_of_find?_ne hl), if_pos ((sameFile_of_free hfree).1 hsame)]
  · rw [find?_put t (ne_nil_of_find?_ne hl), if_neg]
    rintro rfl
    exact hsame (t.sameFile_self m)

/-! ## Rights -/

theorem denied_put : (t.put l e).denied = t.denied := rfl

theorem permits_fill : (t.fill l content).permits a m = t.permits a m := by
  rw [fill]
  split <;> rfl

theorem permits_iff : t.permits a m = true ↔ (a, m) ∉ t.denied := by
  simp [permits]

/-- Rights elsewhere stay as they are when something is moved. -/
theorem permits_move_of_ne (hhere : m ≠ here) (hthere : m ≠ there) :
    (t.move here there e).permits a m = t.permits a m := by
  refine Bool.eq_iff_iff.2 ?_
  rw [permits_iff, permits_iff, not_iff_not, move, List.mem_map]
  constructor
  · rintro ⟨x, hx, heq⟩
    split_ifs at heq
    · exact absurd (Prod.mk.inj heq).2.symm hthere
    · exact heq ▸ List.mem_of_mem_filter hx
  · intro hmem
    exact ⟨(a, m), List.mem_filter.2 ⟨hmem, by simpa using hthere⟩, if_neg hhere⟩

/-- What is moved takes its rights along. -/
theorem permits_move_there (hne : here ≠ there) :
    (t.move here there e).permits a there = t.permits a here := by
  refine Bool.eq_iff_iff.2 ?_
  rw [permits_iff, permits_iff, not_iff_not, move, List.mem_map]
  constructor
  · rintro ⟨x, hx, heq⟩
    obtain ⟨hx, hother⟩ := List.mem_filter.1 hx
    split_ifs at heq with hhere
    · have hright : x = (a, here) := Prod.ext (Prod.mk.inj heq).1 hhere
      exact hright ▸ hx
    · simp [heq] at hother
  · intro hmem
    exact ⟨(a, here), List.mem_filter.2 ⟨hmem, by simpa using hne⟩, if_pos rfl⟩

/-! ## Trees that keep the ways through another one -/

/-- All directories and links of one tree are those of another, and what the process may enter stays
so. -/
structure Keeps (t t' : Tree) : Prop where
  directories : ∀ m, t.find? m = some .directory → t'.find? m = some .directory
  links : ∀ m target, t.find? m = some (.link target) → t'.find? m = some (.link target)
  rights : ∀ m, t.find? m = some .directory → t.permits .enter m = true →
    t'.permits .enter m = true

theorem Keeps.trans (h : t.Keeps t') (h' : t'.Keeps t'') : t.Keeps t'' where
  directories m hm := h'.directories m (h.directories m hm)
  links m target hm := h'.links m target (h.links m target hm)
  rights m hm hright := h'.rights m (h.directories m hm) (h.rights m hm hright)

/-- The directories and links of one tree are those of another one, but for a link at one location,
and what the process may enter stays so. -/
structure KeepsBut (t t' : Tree) (x : Location) : Prop where
  directories : ∀ m, t.find? m = some .directory → t'.find? m = some .directory
  links : ∀ m target, m ≠ x → t.find? m = some (.link target) → t'.find? m = some (.link target)
  rights : ∀ m, t.find? m = some .directory → t.permits .enter m = true →
    t'.permits .enter m = true

theorem Keeps.trans_keepsBut {x : Location} (h : t.Keeps t') (h' : t'.KeepsBut t'' x) :
    t.KeepsBut t'' x where
  directories m hm := h'.directories m (h.directories m hm)
  links m target hne hm := h'.links m target hne (h.links m target hm)
  rights m hm hright := h'.rights m (h.directories m hm) (h.rights m hm hright)

theorem KeepsBut.keeps {x : Location} (h : t.KeepsBut t' x)
    (hx : ∀ target, t.find? x ≠ some (.link target)) : t.Keeps t' where
  directories := h.directories
  links m target hm := by
    refine h.links m target ?_ hm
    rintro rfl
    exact hx target hm
  rights := h.rights

/-- One tree has all that another has, and directories besides. -/
structure Grows (t t' : Tree) : Prop where
  find? : ∀ m, t'.find? m = t.find? m ∨ t.find? m = none ∧ t'.find? m = some .directory
  denied : t'.denied = t.denied

namespace Grows

theorem refl (t : Tree) : t.Grows t := ⟨fun _ => .inl rfl, rfl⟩

theorem trans (h : t.Grows t') (h' : t'.Grows t'') : t.Grows t'' := by
  refine ⟨fun m => ?_, h'.denied.trans h.denied⟩
  obtain hm' | ⟨hnone, hdir⟩ := h'.find? m
  · rw [hm']
    exact h.find? m
  · obtain hm | ⟨-, hdir'⟩ := h.find? m
    · exact .inr ⟨hm ▸ hnone, hdir⟩
    · rw [hdir'] at hnone
      contradiction

theorem content? (h : t.Grows t') (m : Location) : t'.content? m = t.content? m := by
  obtain hm | ⟨hnone, hdir⟩ := h.find? m
  · exact content?_congr hm
  · simp only [Tree.content?, hnone, hdir]

theorem find?_of_eq_some (h : t.Grows t') (he : t.find? m = some e) : t'.find? m = some e := by
  obtain hm | ⟨hnone, -⟩ := h.find? m
  · rw [hm, he]
  · rw [he] at hnone
    contradiction

theorem permits (h : t.Grows t') (a : Access) (m : Location) :
    t'.permits a m = t.permits a m := by
  rw [Tree.permits, Tree.permits, h.denied]

theorem keeps (h : t.Grows t') : t.Keeps t' where
  directories _ := h.find?_of_eq_some
  links _ _ := h.find?_of_eq_some
  rights m _ hright := (h.permits .enter m).trans hright

end Grows

end Tree

end ShellDocs
