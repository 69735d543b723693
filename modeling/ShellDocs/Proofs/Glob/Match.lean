import ShellDocs.Proofs.Glob.Covers

/-!
# What a pattern matches

The expansion of a pattern finds texts directory by directory. Whatever the tree is like, the
pattern stands for the path of every match, and the match is written as the pattern is
(`found_of_mem_expand`).
-/

namespace ShellDocs.Glob

open ShellDocs.Path (isStep)

variable {d : Disk} {only : Bool} {fuel : Nat} {pattern directory gap last dir name found : Text}

/-! ## Listed names -/

/-- Only names of entries are listed. -/
theorem isEntryName_of_mem_listing (ht : d.tree.Proper) (h : name ∈ listing d dir only) :
    Tree.IsEntryName name := by
  rw [listing] at h
  split at h
  · split at h
    · contradiction
    · split at h
      · exact ht.isEntryName (List.mem_of_mem_filter h)
      · exact ht.isEntryName h
  · contradiction

theorem nodup_listing (ht : d.tree.Proper) : (listing d dir only).Nodup := by
  rw [listing]
  split
  · next l _ =>
      split
      · exact List.nodup_nil
      · split
        · exact (ht.nodup_names l).filter _
        · exact ht.nodup_names l
  · exact List.nodup_nil

/-- The names that the last part of a pattern stands for in a directory. -/
def lastNames (d : Disk) (only : Bool) (last dir : Text) : List Text :=
  if hasMagic last then (listing d dir only).filter (acceptsName last)
  else if last.isEmpty then (if d.isDirectory dir then [last] else [])
  else if d.holdsLink (joinTo dir last) then [last] else []

/-! ## Expansion part by part -/

/-- Whether something stands at a pattern that is taken as it is. -/
def stands (d : Disk) (pattern : Text) : Bool :=
  if (splitLast pattern).2.isEmpty then d.isDirectory (splitLast pattern).1 else d.holdsLink pattern

theorem ne_nil_of_stands (h : stands d pattern = true) : pattern ≠ [] := by
  rintro rfl
  contradiction

theorem expand_of_plain (h : hasMagic pattern = false) :
    expand d (fuel + 1) only pattern = if stands d pattern then [pattern] else [] := by
  simp only [expand, h, Bool.not_false, if_true]
  rfl

theorem expand_of_name (h : hasMagic pattern = true) (hname : '/' ∉ pattern) :
    expand d (fuel + 1) only pattern = (listing d [] only).filter (acceptsName pattern) := by
  simp [expand, h, splitLast_of_not_mem hname]

theorem Cut.ne (h : Cut directory gap last) (hmagic : hasMagic (directory ++ gap ++ last) = true) :
    directory ≠ directory ++ gap ++ last := by
  intro heq
  rw [List.append_assoc, List.self_eq_append_right, List.append_eq_nil_iff] at heq
  obtain ⟨rfl, rfl⟩ := heq
  rcases h.bare with ⟨-, hslashes⟩ | ⟨hgap, -⟩
  · simp [hasMagic_of_slashes hslashes] at hmagic
  · contradiction

/-- A directory with a character that has a meaning is shorter than the pattern. -/
theorem Cut.length_lt (h : Cut directory gap last) (hmagic : hasMagic directory = true) :
    directory.length < (directory ++ gap ++ last).length := by
  rcases h.bare with ⟨-, hslashes⟩ | ⟨hgap, -⟩
  · simp [hasMagic_of_slashes hslashes] at hmagic
  · have hpos := List.length_pos_iff.2 hgap
    simp only [List.length_append]
    omega

/-- The directories that the first part of a pattern stands for. -/
def directories (d : Disk) (fuel : Nat) (directory : Text) : List Text :=
  if hasMagic directory then expand d fuel true directory else [directory]

theorem expand_of_cut (hcut : Cut directory gap last)
    (hsplit : splitLast (directory ++ gap ++ last) = (directory, last))
    (h : hasMagic (directory ++ gap ++ last) = true) :
    expand d (fuel + 1) only (directory ++ gap ++ last) =
      (directories d fuel directory).flatMap fun dir =>
        (lastNames d only last dir).map (joinTo dir) := by
  have hempty : directory.isEmpty = false := List.isEmpty_eq_false_iff.2 hcut.nonempty
  have hne := hcut.ne h
  simp only [expand, hsplit, h, hempty, Bool.not_true, Bool.false_eq_true, if_false, ne_eq, hne,
    not_false_eq_true, true_and]
  rfl

/-! ## Every match is one -/

/-- What is said of a match of a pattern: it is no empty text, the pattern stands for its path, and
it is written as the pattern is. -/
structure Found (pattern found : Text) : Prop where
  nonempty : found ≠ []
  covers : Covers pattern (Path.ofText found)
  slash : '/' ∈ pattern → '/' ∈ found
  ends : Path.EndsInStep found ↔ Path.EndsInStep pattern

/-- A pattern without characters that have a meaning is its own match. -/
theorem found_self (h : hasMagic pattern = false) (hne : pattern ≠ []) : Found pattern pattern :=
  ⟨hne, .of_plain h, id, Iff.rfl⟩

/-- The last part of a pattern stands for itself if no character of it has a meaning. -/
theorem eq_of_mem_lastNames (hmagic : hasMagic last = false)
    (h : name ∈ lastNames d only last dir) : name = last := by
  rw [lastNames, hmagic, if_neg Bool.false_ne_true] at h
  split_ifs at h
  · exact List.mem_singleton.1 h
  · contradiction
  · exact List.mem_singleton.1 h
  · contradiction

/-- A name that the last part of a pattern stands for fits the part. -/
theorem fits_of_mem_lastNames (ht : d.tree.Proper) (hlast : '/' ∉ last)
    (h : name ∈ lastNames d only last dir) :
    '/' ∉ name ∧ isStep name = isStep last ∧
      List.Forall₂ Fits (Path.ofText last).parts (Path.ofText name).parts := by
  cases hmagic : hasMagic last with
  | false =>
      obtain rfl := eq_of_mem_lastNames hmagic h
      exact ⟨hlast, rfl, (Covers.of_plain hmagic).parts⟩
  | true =>
      rw [lastNames, if_pos hmagic, List.mem_filter] at h
      have hname := isEntryName_of_mem_listing ht h.1
      have hstep : isStep last = true := isStep_of_hasMagic hmagic
      refine ⟨hname.2.2, (Path.isStep_of_isName hname.1).trans hstep.symm, ?_⟩
      rw [ofText_of_isStep hstep hlast, ofText_of_isEntryName hname]
      exact .cons ((fits_iff hmagic).2 ⟨hname, h.2⟩) .nil

/-- A name in the current directory is a match of a pattern without slashes. -/
theorem found_of_isEntryName (hmagic : hasMagic pattern = true) (hslash : '/' ∉ pattern)
    (hname : Tree.IsEntryName name) (haccepts : acceptsName pattern name = true) :
    Found pattern name := by
  have hstep : isStep pattern = true := isStep_of_hasMagic hmagic
  have hpath : Path.ofText name = ⟨[], [name]⟩ := ofText_of_isEntryName hname
  have hpath' : Path.ofText pattern = ⟨[], [pattern]⟩ := ofText_of_isStep hstep hslash
  refine ⟨hname.ne_nil, ⟨?_, ?_⟩, fun h => absurd h hslash, ?_⟩
  · rw [hpath]
    exact (congrArg Path.root hpath').symm
  · rw [hpath, hpath']
    exact .cons ((fits_iff hmagic).2 ⟨hname, haccepts⟩) .nil
  · simp [Path.EndsInStep, Text.fields_eq_singleton hname.2.2, Text.fields_eq_singleton hslash,
      Path.isStep_of_isName hname.1, hstep]

/-- The directories of a pattern are those that its first part stands for. -/
theorem covers_of_mem_directories (hcut : Cut directory gap last)
    (hfound : ∀ dir ∈ expand d fuel true directory, Found directory dir)
    (h : dir ∈ directories d fuel directory) : dir ≠ [] ∧ Covers directory (Path.ofText dir) := by
  rw [directories] at h
  split_ifs at h with hmagic
  · exact ⟨(hfound dir h).nonempty, (hfound dir h).covers⟩
  · obtain rfl := List.mem_singleton.1 h
    exact ⟨hcut.nonempty, .of_plain (Bool.eq_false_iff.2 hmagic)⟩

/-- Every match of a pattern is one. -/
theorem found_of_mem_expand (ht : d.tree.Proper) (h : found ∈ expand d fuel only pattern) :
    Found pattern found := by
  induction fuel generalizing only pattern found with
  | zero => exact absurd h List.not_mem_nil
  | succ fuel ih =>
      cases hmagic : hasMagic pattern with
      | false =>
          rw [expand_of_plain hmagic] at h
          split_ifs at h with hstands
          · obtain rfl := List.mem_singleton.1 h
            exact found_self hmagic (ne_nil_of_stands hstands)
          · contradiction
      | true =>
          by_cases hslash : '/' ∈ pattern
          · obtain ⟨directory, gap, last, hsplit, rfl, hcut⟩ := exists_splitLast hslash
            rw [expand_of_cut hcut hsplit hmagic] at h
            obtain ⟨dir, hdir, h⟩ := List.mem_flatMap.1 h
            obtain ⟨name, hname, rfl⟩ := List.mem_map.1 h
            obtain ⟨hne, hcovers⟩ := covers_of_mem_directories hcut (fun _ => ih) hdir
            obtain ⟨hplain, hstep, hfits⟩ := fits_of_mem_lastNames ht hcut.last_plain hname
            refine ⟨joinTo_ne_nil hne, ?_, fun _ => slash_mem_joinTo hne, ?_⟩
            · rw [ofText_joinTo hne hplain]
              exact hcovers.append hcut hfits
            · rw [endsInStep_joinTo hne hplain, hcut.endsInStep, hstep]
          · rw [expand_of_name hmagic hslash] at h
            obtain ⟨hlisted, haccepts⟩ := List.mem_filter.1 h
            have hname := isEntryName_of_mem_listing ht hlisted
            exact found_of_isEntryName hmagic hslash hname haccepts

theorem nonempty_of_mem_directories (ht : d.tree.Proper) (hcut : Cut directory gap last)
    (h : dir ∈ directories d fuel directory) : dir ≠ [] :=
  (covers_of_mem_directories hcut (fun _ => found_of_mem_expand ht) h).1

/-! ## Matches that do not end in a step -/

theorem exists_seek_toText_of_isDirectory (h : d.isDirectory dir = true)
    (hpath : Path.ofText found = Path.ofText dir) (htakes : d.Takes (Path.ofText found).toText) :
    ∃ l, d.seek (Path.ofText found).toText = .ok (.taken l .directory) := by
  obtain ⟨l, hseek⟩ := Disk.isDirectory_eq_true.1 h
  rw [hpath] at htakes ⊢
  exact ⟨l, Disk.seek_toText_ofText hseek htakes⟩

theorem exists_seek_toText_of_holdsLink (h : d.holdsLink found = true)
    (hends : ¬ Path.EndsInStep found) (htakes : d.Takes (Path.ofText found).toText) :
    ∃ l, d.seek (Path.ofText found).toText = .ok (.taken l .directory) := by
  obtain ⟨l, e, hreach⟩ := Disk.holdsLink_eq_true.1 h
  obtain rfl := Disk.eq_directory_of_reach hends hreach
  have hseek := Disk.seek_of_seekLink hreach fun target => by simp [Tree.Spot.entry?]
  exact ⟨l, Disk.seek_toText_ofText hseek htakes⟩

theorem exists_seek_toText_of_stands (h : stands d found = true) (hends : ¬ Path.EndsInStep found)
    (htakes : d.Takes (Path.ofText found).toText) :
    ∃ l, d.seek (Path.ofText found).toText = .ok (.taken l .directory) := by
  rw [stands] at h
  split_ifs at h with hempty
  · by_cases hslash : '/' ∈ found
    · obtain ⟨directory, gap, last, hsplit, rfl, hcut⟩ := exists_splitLast hslash
      rw [hsplit] at h hempty
      obtain rfl := List.isEmpty_iff.1 hempty
      refine exists_seek_toText_of_isDirectory h ?_ htakes
      simpa [Path.ofText, Text.fields] using hcut.ofText
    · rw [splitLast_of_not_mem hslash] at h
      obtain ⟨l, hseek⟩ := Disk.isDirectory_eq_true.1 h
      contradiction
  · exact exists_seek_toText_of_holdsLink h hends htakes

/-- A match that does not end in a step is the path of a directory. -/
theorem exists_seek_toText_of_mem_expand (ht : d.tree.Proper)
    (h : found ∈ expand d fuel only pattern) (hends : ¬ Path.EndsInStep found)
    (htakes : d.Takes (Path.ofText found).toText) :
    ∃ l, d.seek (Path.ofText found).toText = .ok (.taken l .directory) := by
  have hfound := found_of_mem_expand ht h
  -- A last part with a meaning is a step.
  have hlast {last : Text} (hlast : isStep last = false) : hasMagic last = false :=
    Bool.eq_false_iff.2 fun hmagic => Bool.eq_false_iff.1 hlast (isStep_of_hasMagic hmagic)
  cases fuel with
  | zero => exact absurd h List.not_mem_nil
  | succ fuel =>
      cases hmagic : hasMagic pattern with
      | false =>
          rw [expand_of_plain hmagic] at h
          split_ifs at h with hstands
          · obtain rfl := List.mem_singleton.1 h
            exact exists_seek_toText_of_stands hstands hends htakes
          · contradiction
      | true =>
          rw [hfound.ends] at hends
          by_cases hslash : '/' ∈ pattern
          · obtain ⟨directory, gap, last, hsplit, rfl, hcut⟩ := exists_splitLast hslash
            rw [expand_of_cut hcut hsplit hmagic] at h
            obtain ⟨dir, hdir, h⟩ := List.mem_flatMap.1 h
            obtain ⟨name, hname, rfl⟩ := List.mem_map.1 h
            rw [hcut.endsInStep, Bool.not_eq_true] at hends
            rw [lastNames, hlast hends, if_neg Bool.false_ne_true] at hname
            split_ifs at hname with hempty hthere hthere
            · obtain rfl := List.mem_singleton.1 hname
              obtain rfl := List.isEmpty_iff.1 hempty
              have hne := nonempty_of_mem_directories ht hcut hdir
              exact exists_seek_toText_of_isDirectory hthere (ofText_joinTo_nil hne) htakes
            · contradiction
            · obtain rfl := List.mem_singleton.1 hname
              refine exists_seek_toText_of_holdsLink hthere (hfound.ends.not.2 ?_) htakes
              rwa [hcut.endsInStep, Bool.not_eq_true]
            · contradiction
          · have hstep := isStep_of_hasMagic hmagic
            rw [Path.EndsInStep, Text.fields_eq_singleton hslash] at hends
            exact absurd hstep hends

end ShellDocs.Glob
