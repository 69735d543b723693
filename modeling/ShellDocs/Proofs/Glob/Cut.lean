import ShellDocs.Files.Glob
import ShellDocs.Proofs.Files.Names

/-!
# Patterns and paths in two parts

A pattern is expanded from its end: it is cut into a directory and a last part (`Cut`), and what the
last part stands for is joined to what the directory stands for. Read as paths, both the pattern
and the joined text have the parts of the directory and then the parts of the last one
(`Cut.ofText`, `ofText_joinTo`), and both end in a step just if the last part is one.
-/

namespace ShellDocs.Glob

open ShellDocs.Path (isStep)

/-! ## Patterns in two parts -/

/-- A directory, slashes and a last part of a pattern. Slashes are taken off a directory that has
something else. -/
structure Cut (directory gap last : Text) : Prop where
  nonempty : directory ≠ []
  slashes : ∀ c ∈ gap, c = '/'
  last_plain : '/' ∉ last
  bare : (gap = [] ∧ ∀ c ∈ directory, c = '/') ∨ (gap ≠ [] ∧ ∃ c ∈ directory, c ≠ '/')

variable {pattern directory gap last dir name : Text}

theorem ne_slash_of_not_mem (h : '/' ∉ name) : ∀ c ∈ name.reverse, (c != '/') = true := by
  intro c hc
  rw [bne_iff_ne]
  rintro rfl
  exact h (List.mem_reverse.1 hc)

theorem splitLast_of_not_mem (h : '/' ∉ pattern) : splitLast pattern = ([], pattern) := by
  simp [splitLast, List.takeWhile_eq_self_iff.2 (ne_slash_of_not_mem h), Text.dropTail]

theorem splitLast_append (head : Text) (h : '/' ∉ last) :
    splitLast (head ++ '/' :: last) =
      (if (Text.dropTail (· == '/') head).isEmpty then head ++ ['/']
        else Text.dropTail (· == '/') head, last) := by
  have hlast : ((head ++ '/' :: last).reverse.takeWhile (· != '/')).reverse = last := by
    rw [List.reverse_append, List.reverse_cons, List.append_assoc,
      List.takeWhile_append_of_pos (ne_slash_of_not_mem h)]
    simp
  have hhead : (head ++ '/' :: last).take ((head ++ '/' :: last).length - last.length) =
      head ++ ['/'] := by
    have hpattern : head ++ '/' :: last = (head ++ ['/']) ++ last := by simp
    rw [hpattern]
    exact List.take_left' (by simp; omega)
  have htrimmed : Text.dropTail (· == '/') (head ++ ['/']) = Text.dropTail (· == '/') head :=
    Text.dropTail_append (by simp) head
  simp only [splitLast, hlast, hhead, htrimmed]

/-- A text with a slash has a last one. -/
theorem exists_eq_append_slash (h : '/' ∈ pattern) :
    ∃ head last, pattern = head ++ '/' :: last ∧ '/' ∉ last := by
  obtain ⟨before, after, hreverse, hbefore⟩ :=
    List.eq_append_cons_of_mem (List.mem_reverse.2 h)
  exact ⟨after.reverse, before.reverse, by simpa using congrArg List.reverse hreverse,
    by simpa using hbefore⟩

/-- A pattern with a slash is cut at its last slashes. -/
theorem exists_splitLast (h : '/' ∈ pattern) :
    ∃ directory gap last, splitLast pattern = (directory, last) ∧
      pattern = directory ++ gap ++ last ∧ Cut directory gap last := by
  obtain ⟨head, last, rfl, hlast⟩ := exists_eq_append_slash h
  obtain ⟨tail, hhead, htail, hend⟩ := Text.exists_dropTail_append (· == '/') head
  have hslashes : ∀ c ∈ tail ++ ['/'], c = '/' := by
    intro c hc
    obtain hc | hc := List.mem_append.1 hc
    · simpa using htail c hc
    · simpa using hc
  rw [splitLast_append head hlast]
  cases htrimmed : Text.dropTail (· == '/') head with
  | nil =>
      rw [htrimmed, List.nil_append] at hhead
      subst hhead
      exact ⟨head ++ ['/'], [], last, by simp, by simp, by simp, by simp, hlast,
        .inl ⟨rfl, hslashes⟩⟩
  | cons c rest =>
      rw [htrimmed] at hhead hend
      obtain ⟨e, he⟩ : ∃ e, (c :: rest).getLast? = some e := by simp [List.getLast?_cons]
      have hne : e ≠ '/' := by simpa using hend e he
      exact ⟨c :: rest, tail ++ ['/'], last, by simp, by simp [hhead], by simp, hslashes, hlast,
        .inr ⟨by simp, e, List.mem_of_getLast? he, hne⟩⟩

/-! ## Paths in two parts -/

theorem ofText_of_plain (h : '/' ∉ name) :
    Path.ofText name = ⟨[], [name].filter isStep⟩ := by
  have hparts : (Path.ofText name).parts = [name].filter isStep := by
    rw [Path.ofText, Text.fields_eq_singleton h]
    rfl
  exact congrArg₂ Path.mk (Path.rootOf_of_head?_ne (Path.head?_ne_of_not_mem h)) hparts

/-- A step without slashes is the only part of its path. -/
theorem ofText_of_isStep (hstep : isStep name = true) (h : '/' ∉ name) :
    Path.ofText name = ⟨[], [name]⟩ := by
  rw [ofText_of_plain h, List.filter_cons_of_pos hstep, List.filter_nil]

theorem ofText_of_isEntryName (h : Tree.IsEntryName name) : Path.ofText name = ⟨[], [name]⟩ :=
  ofText_of_isStep (Path.isStep_of_isName h.1) h.2.2

/-- Slashes in front of a text add no part. -/
theorem parts_slashes_append {slashes : Text} (h : ∀ c ∈ slashes, c = '/') (t : Text) :
    (Path.ofText (slashes ++ t)).parts = (Path.ofText t).parts := by
  induction slashes with
  | nil => rfl
  | cons c slashes ih =>
      obtain ⟨rfl, hrest⟩ := List.forall_mem_cons.1 h
      exact (Path.parts_ofText_append [] (slashes ++ t)).trans (ih hrest)

namespace Cut

/-- Both parts of a pattern are read apart from each other. -/
theorem ofText (h : Cut directory gap last) :
    Path.ofText (directory ++ gap ++ last) =
      ⟨(Path.ofText directory).root,
        (Path.ofText directory).parts ++ (Path.ofText last).parts⟩ := by
  have hhead := Path.head?_ne_of_not_mem h.last_plain
  rw [List.append_assoc]
  rcases h.bare with ⟨rfl, hslashes⟩ | ⟨hgap, c, hc, hne⟩
  · refine congrArg₂ Path.mk (Path.rootOf_append (.inl hhead)) ?_
    have hnone : (Path.ofText directory).parts = [] := by
      simpa [Path.ofText, Text.fields] using parts_slashes_append hslashes []
    rw [hnone]
    exact parts_slashes_append hslashes last
  · refine congrArg₂ Path.mk (Path.rootOf_append (.inr ⟨c, hc, hne⟩)) ?_
    obtain ⟨e, more, rfl⟩ := List.exists_cons_of_ne_nil hgap
    obtain ⟨rfl, hmore⟩ := List.forall_mem_cons.1 h.slashes
    have hparts := Path.parts_ofText_append directory (more ++ last)
    rw [parts_slashes_append hmore] at hparts
    exact hparts

end Cut

/-- A name is put behind one slash. -/
theorem exists_joinTo (hdir : dir ≠ []) (name : Text) :
    ∃ lead, joinTo dir name = lead ++ '/' :: name ∧
      (dir = lead ++ ['/'] ∨ dir = lead ∧ ∃ c, dir.getLast? = some c ∧ c ≠ '/') := by
  have hempty : dir.isEmpty = false := List.isEmpty_eq_false_iff.2 hdir
  rcases List.eq_nil_or_concat dir with rfl | ⟨lead, c, rfl⟩
  · contradiction
  · rw [List.concat_eq_append] at hdir hempty ⊢
    by_cases hc : c = '/'
    · subst hc
      have hends : Text.endsIn ['/'] (lead ++ ['/']) = true :=
        Text.endsIn_iff.2 (List.suffix_append lead ['/'])
      exact ⟨lead, by simp [joinTo, hends], .inl rfl⟩
    · have hends : Text.endsIn ['/'] (lead ++ [c]) = false := by
        refine Bool.eq_false_iff.2 fun hends => hc ?_
        obtain ⟨rest, hrest⟩ := Text.endsIn_iff.1 hends
        simpa using (List.append_inj' hrest rfl).2.symm
      refine ⟨lead ++ [c], ?_, .inr ⟨rfl, c, by simp, hc⟩⟩
      rw [joinTo, hempty, hends]
      rfl

theorem slash_mem_joinTo (hdir : dir ≠ []) : '/' ∈ joinTo dir name := by
  obtain ⟨lead, hjoin, -⟩ := exists_joinTo hdir name
  simp [hjoin]

theorem ofText_joinTo (hdir : dir ≠ []) (hname : '/' ∉ name) :
    Path.ofText (joinTo dir name) =
      ⟨(Path.ofText dir).root, (Path.ofText dir).parts ++ (Path.ofText name).parts⟩ := by
  have hhead := Path.head?_ne_of_not_mem hname
  obtain ⟨lead, hjoin, rfl | ⟨rfl, c, hlast, hc⟩⟩ := exists_joinTo hdir name
  · have hparts : (Path.ofText (lead ++ ['/'])).parts = (Path.ofText lead).parts := by
      simpa [Path.ofText, Text.fields] using Path.parts_ofText_append lead []
    have hroot : Path.rootOf (lead ++ '/' :: name) = Path.rootOf (lead ++ ['/']) := by
      simpa using Path.rootOf_append (t := lead ++ ['/']) (.inl hhead)
    rw [hjoin, hparts]
    exact congrArg₂ Path.mk hroot (Path.parts_ofText_append lead name)
  · have hroot : Path.rootOf (dir ++ '/' :: name) = Path.rootOf dir :=
      Path.rootOf_append (.inr ⟨c, List.mem_of_getLast? hlast, hc⟩)
    rw [hjoin]
    exact congrArg₂ Path.mk hroot (Path.parts_ofText_append dir name)

theorem joinTo_ne_nil (hdir : dir ≠ []) : joinTo dir name ≠ [] :=
  List.ne_nil_of_mem (slash_mem_joinTo hdir)

/-- A slash at its end makes no difference to a directory. -/
theorem ofText_joinTo_nil (hdir : dir ≠ []) : Path.ofText (joinTo dir []) = Path.ofText dir := by
  rw [ofText_joinTo hdir List.not_mem_nil]
  simp [Path.ofText, Text.fields]

theorem endsInStep_append (lead : Text) (h : '/' ∉ name) :
    Path.EndsInStep (lead ++ '/' :: name) ↔ isStep name = true := by
  rw [Path.EndsInStep, Text.fields_append, Text.fields_eq_singleton h]
  simp

theorem endsInStep_joinTo (hdir : dir ≠ []) (hname : '/' ∉ name) :
    Path.EndsInStep (joinTo dir name) ↔ isStep name = true := by
  obtain ⟨lead, hjoin, -⟩ := exists_joinTo hdir name
  rw [hjoin, endsInStep_append lead hname]

theorem Cut.endsInStep (h : Cut directory gap last) :
    Path.EndsInStep (directory ++ gap ++ last) ↔ isStep last = true := by
  have hhead : ∃ lead, directory ++ gap = lead ++ ['/'] := by
    rcases h.bare with ⟨rfl, hslashes⟩ | ⟨hgap, -⟩
    · refine ⟨directory.dropLast, ?_⟩
      rw [List.append_nil, ← hslashes _ (List.getLast_mem h.nonempty),
        List.dropLast_append_getLast]
    · refine ⟨directory ++ gap.dropLast, ?_⟩
      rw [List.append_assoc, ← h.slashes _ (List.getLast_mem hgap), List.dropLast_append_getLast]
  obtain ⟨lead, hlead⟩ := hhead
  rw [hlead, List.append_assoc]
  exact endsInStep_append lead h.last_plain

end ShellDocs.Glob
