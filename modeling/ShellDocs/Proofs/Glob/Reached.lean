import Mathlib.Algebra.GroupWithZero.Nat
import ShellDocs.Proofs.Glob.Match

/-!
# Which paths a pattern matches

In a tree without links in which the process may do everything, every path that a pattern stands
for and that leads somewhere is that of a match (`exists_mem_expand`), if the system takes a path
that is as long as the path and the pattern together.
-/

namespace ShellDocs.Glob

open ShellDocs.Path (isStep)

variable {d : Disk} {only : Bool} {fuel : Nat} {l : Location} {e : Entry} {p : Path}
  {pattern directory gap last dir name found : Text}

/-! ## What is listed -/

/-- In a tree without links the directories in a directory are listed as such. -/
theorem isDirectoryIn_iff (ht : d.tree.Plain) :
    isDirectoryIn d l dir name = true ↔ d.tree.find? (l ++ [name]) = some .directory := by
  rw [isDirectoryIn]
  split
  · next hdir => exact iff_of_true rfl hdir
  · next target hlink => exact absurd hlink (ht.linkless _ target)
  · next hother _ => exact iff_of_false Bool.false_ne_true hother

/-- What is listed in a tree without links. -/
theorem mem_listing (ht : d.tree.Plain) :
    name ∈ listing d dir only ↔ d.Takes (if dir.isEmpty then ['.'] else dir) ∧
      ∃ l, d.walk (if dir.isEmpty then ['.'] else dir) = .ok (.taken l .directory) ∧
        ∃ e, d.tree.find? (l ++ [name]) = some e ∧ (only = true → e = .directory) := by
  rw [listing]
  generalize (if dir.isEmpty then ['.'] else dir) = path
  split
  · next l hseek =>
      obtain ⟨htakes, hwalk⟩ := (Disk.reach_eq_ok_iff ht).1 hseek
      simp only [htakes, hwalk, ht.permitted, Bool.not_true, Bool.false_eq_true, if_false, true_and,
        Except.ok.injEq, Tree.Spot.taken.injEq, and_true, exists_eq_left']
      cases only with
      | false => simp [Tree.mem_names]
      | true =>
          simp only [if_true, List.mem_filter, Tree.mem_names, isDirectoryIn_iff ht, forall_const,
            exists_eq_right]
          exact ⟨fun h => h.2, fun h => ⟨⟨_, h⟩, h⟩⟩
  · next hother =>
      refine iff_of_false List.not_mem_nil ?_
      rintro ⟨htakes, l, hwalk, -⟩
      exact hother l ((Disk.reach_eq_ok_iff ht).2 ⟨htakes, hwalk⟩)

/-- Slashes at the end of a path make no difference if the path leads to a directory. -/
theorem Cut.walk_iff (ht : d.tree.Linkless) (h : Cut directory gap []) :
    d.walk directory = .ok (.taken l .directory) ↔
      ∃ e, d.walk (directory ++ gap) = .ok (.taken l e) := by
  have hpath : Path.ofText (directory ++ gap) = Path.ofText directory := by
    simpa [Path.ofText, Text.fields] using h.ofText
  have hends : ¬ Path.EndsInStep (directory ++ gap) := by
    simpa [isStep] using h.endsInStep
  constructor
  · intro hwalk
    exact ⟨.directory, Disk.walk_directory_congr (by simp [h.nonempty]) hpath.symm hwalk⟩
  · rintro ⟨e, hwalk⟩
    obtain rfl := Disk.eq_directory_of_walk ht hends hwalk
    exact Disk.walk_directory_congr h.nonempty hpath hwalk

theorem stands_of_walk (ht : d.tree.Plain) (htakes : d.Takes pattern)
    (h : d.walk pattern = .ok (.taken l e)) : stands d pattern = true := by
  rw [stands]
  split_ifs with hempty
  · by_cases hslash : '/' ∈ pattern
    · obtain ⟨directory, gap, last, hsplit, rfl, hcut⟩ := exists_splitLast hslash
      rw [hsplit] at hempty ⊢
      obtain rfl := List.isEmpty_iff.1 hempty
      rw [List.append_nil] at h htakes
      exact (Disk.isDirectory_iff ht).2
        ⟨htakes.of_append, l, (hcut.walk_iff ht.linkless).2 ⟨e, h⟩⟩
    · rw [splitLast_of_not_mem hslash] at hempty
      obtain rfl := List.isEmpty_iff.1 hempty
      contradiction
  · rw [Disk.holdsLink_eq_holds ht, Disk.holds_iff ht]
    exact ⟨htakes, l, e, h⟩

/-! ## How long the matches are -/

theorem length_encode_append (t u : Text) :
    (Utf8.encode (t ++ u)).length = (Utf8.encode t).length + (Utf8.encode u).length := by
  rw [Utf8.encode, List.flatMap_append, List.length_append]
  rfl

/-- The number of bytes of a path with a slash counted for each part. -/
def extent (p : Path) : Nat :=
  (Utf8.encode p.root).length + (p.parts.map fun part => (Utf8.encode part).length + 1).sum

theorem extent_append (root : Text) (parts more : List Text) :
    extent ⟨root, parts ++ more⟩ =
      extent ⟨root, parts⟩ + (more.map fun part => (Utf8.encode part).length + 1).sum := by
  simp [extent, Nat.add_assoc]

theorem length_encode_join {parts : List Text} (h : parts ≠ []) :
    (Utf8.encode (Text.join ['/'] parts)).length + 1 =
      (parts.map fun part => (Utf8.encode part).length + 1).sum := by
  induction parts with
  | nil => contradiction
  | cons part rest ih =>
      cases rest with
      | nil => simp [Text.join]
      | cons next more =>
          have hrest := ih (List.cons_ne_nil next more)
          have hslash : (Utf8.encode ['/']).length = 1 := rfl
          rw [Text.join, length_encode_append, length_encode_append, hslash, List.map_cons,
            List.sum_cons, ← hrest]
          omega

/-- A path is at most one byte shorter in its written form. -/
theorem extent_le (p : Path) : extent p ≤ (Utf8.encode p.toText).length + 1 := by
  obtain ⟨root, parts⟩ := p
  cases parts with
  | nil =>
      cases root with
      | nil => exact Nat.zero_le _
      | cons c root => simp [extent, Path.toText, Text.join]
  | cons part rest =>
      have hjoin := length_encode_join (List.cons_ne_nil part rest)
      have htext : Path.toText ⟨root, part :: rest⟩ = root ++ Text.join ['/'] (part :: rest) := by
        simp [Path.toText]
      rw [htext, length_encode_append, extent, hjoin.symm]
      exact Nat.le_of_eq (Nat.add_assoc _ _ 1).symm

theorem length_joinTo_le (dir name : Text) :
    (Utf8.encode (joinTo dir name)).length ≤
      (Utf8.encode dir).length + 1 + (Utf8.encode name).length := by
  rw [joinTo]
  split_ifs
  · rw [length_encode_append]
    omega
  · have hslash : (Utf8.encode ('/' :: name)).length = 1 + (Utf8.encode name).length :=
      length_encode_append ['/'] name
    rw [length_encode_append, hslash]
    omega

/-- A match has at most the bytes of its path and of the pattern. -/
theorem Cut.length_joinTo_le (hcut : Cut directory gap last) (hdir : dir ≠ [])
    (hslashes : gap = [] → dir = directory)
    (hlength : (Utf8.encode dir).length ≤ extent (Path.ofText dir) + (Utf8.encode directory).length)
    (hname : name = last ∨ isStep name = true) (hplain : '/' ∉ name) :
    (Utf8.encode (joinTo dir name)).length ≤ extent (Path.ofText (joinTo dir name)) +
      (Utf8.encode (directory ++ gap ++ last)).length := by
  rw [ofText_joinTo hdir hplain, extent_append, length_encode_append, length_encode_append]
  have hjoin := Glob.length_joinTo_le dir name
  have hroot : extent ⟨(Path.ofText dir).root, (Path.ofText dir).parts⟩ =
      extent (Path.ofText dir) := rfl
  rw [hroot]
  by_cases hstep : isStep name = true
  · have hparts : (Path.ofText name).parts = [name] :=
      congrArg Path.parts (ofText_of_isStep hstep hplain)
    rw [hparts, List.map_singleton, List.sum_singleton]
    omega
  · obtain rfl := hname.resolve_right hstep
    rcases hcut.bare with ⟨rfl, hall⟩ | ⟨hgap, -⟩
    · obtain rfl := hslashes rfl
      have hends : Text.endsIn ['/'] dir = true := by
        have hlast : dir = dir.dropLast ++ ['/'] := by
          rw [← hall _ (List.getLast_mem hdir), List.dropLast_append_getLast]
        rw [hlast]
        exact Text.endsIn_iff.2 (List.suffix_append _ _)
      have hsame : joinTo dir name = dir ++ name := by simp [joinTo, hends]
      rw [hsame, length_encode_append]
      omega
    · have hpos : 0 < (Utf8.encode gap).length := by
        obtain ⟨c, more, rfl⟩ := List.exists_cons_of_ne_nil hgap
        obtain rfl := hcut.slashes c List.mem_cons_self
        have hslash : (Utf8.encode ('/' :: more)).length = 1 + (Utf8.encode more).length :=
          length_encode_append ['/'] more
        omega
      omega

/-- The first part of a pattern is slashes alone if there are none behind it. -/
theorem Cut.directories_eq (hcut : Cut directory gap last) (hgap : gap = [])
    (h : dir ∈ directories d fuel directory) : dir = directory := by
  have hall : ∀ c ∈ directory, c = '/' := by
    rcases hcut.bare with ⟨-, hall⟩ | ⟨hne, -⟩
    · exact hall
    · exact absurd hgap hne
  rw [directories, hasMagic_of_slashes hall, if_neg Bool.false_ne_true] at h
  exact List.mem_singleton.1 h

/-- A directory of a pattern has at most the bytes of its path and of the first part. -/
theorem length_directories_le
    (hfound : ∀ dir ∈ expand d fuel true directory, (Utf8.encode dir).length ≤
      extent (Path.ofText dir) + (Utf8.encode directory).length)
    (h : dir ∈ directories d fuel directory) :
    (Utf8.encode dir).length ≤ extent (Path.ofText dir) + (Utf8.encode directory).length := by
  rw [directories] at h
  split_ifs at h
  · exact hfound dir h
  · rw [List.mem_singleton.1 h]
    exact Nat.le_add_left _ _

theorem length_expand_le (ht : d.tree.Proper) (h : found ∈ expand d fuel only pattern) :
    (Utf8.encode found).length ≤ extent (Path.ofText found) + (Utf8.encode pattern).length := by
  induction fuel generalizing only pattern found with
  | zero => exact absurd h List.not_mem_nil
  | succ fuel ih =>
      cases hmagic : hasMagic pattern with
      | false =>
          rw [expand_of_plain hmagic] at h
          split_ifs at h
          · rw [List.mem_singleton.1 h]
            exact Nat.le_add_left _ _
          · contradiction
      | true =>
          by_cases hslash : '/' ∈ pattern
          · obtain ⟨directory, gap, last, hsplit, rfl, hcut⟩ := exists_splitLast hslash
            rw [expand_of_cut hcut hsplit hmagic] at h
            obtain ⟨dir, hdir, h⟩ := List.mem_flatMap.1 h
            obtain ⟨name, hname, rfl⟩ := List.mem_map.1 h
            obtain ⟨hplain, hstep, -⟩ := fits_of_mem_lastNames ht hcut.last_plain hname
            refine hcut.length_joinTo_le (nonempty_of_mem_directories ht hcut hdir)
              (hcut.directories_eq · hdir) (length_directories_le (fun _ => ih) hdir) ?_ hplain
            cases hlast : hasMagic last with
            | false => exact .inl (eq_of_mem_lastNames hlast hname)
            | true => exact .inr (hstep.trans (isStep_of_hasMagic hlast))
          · rw [expand_of_name hmagic hslash] at h
            have hname := isEntryName_of_mem_listing ht (List.mem_filter.1 h).1
            rw [ofText_of_isEntryName hname, extent]
            simp only [List.map_singleton, List.sum_singleton]
            omega

/-- A text can be a path if the parts of its path can be names. -/
theorem canName_of_named {u : User} (h : Path.Named u (Path.ofText found)) :
    u.canName found = true := by
  rw [← Text.join_fields '/' found]
  refine List.all_eq_true.2 fun c hc => ?_
  by_cases hslash : c = '/'
  · simp [hslash, u.locale.has_slash]
  · obtain ⟨part, hpart, hc⟩ := Text.exists_of_mem_join hc hslash
    cases hstep : isStep part with
    | true => exact List.all_eq_true.1 (h part (List.mem_filter.2 ⟨hpart, hstep⟩)) c hc
    | false =>
        rcases Path.eq_of_isStep_eq_false hstep with rfl | rfl
        · contradiction
        · rw [List.mem_singleton.1 hc]
          simp [u.locale.has_dot]

theorem takes_of_joinTo (hdir : dir ≠ []) (h : d.Takes (joinTo dir name)) : d.Takes dir := by
  obtain ⟨lead, hjoin, rfl | ⟨rfl, -⟩⟩ := exists_joinTo hdir name
  · have happend : lead ++ '/' :: name = lead ++ ['/'] ++ name := by simp
    exact (happend ▸ hjoin ▸ h).of_append
  · exact (hjoin ▸ h).of_append

/-! ## Every path is found -/

/-- The last part of a pattern stands for itself if it leads somewhere and no character of it has a
meaning. -/
theorem mem_lastNames_of_plain (hd : d.tree.Plain) (hmagic : hasMagic last = false)
    (hdir : dir ≠ []) (hlast : '/' ∉ last) (hends : e = .directory ∨ isStep last = true)
    (htakes : d.Takes (joinTo dir last))
    (hwalk : d.walk (Path.ofText (joinTo dir last)).toText = .ok (.taken l e)) :
    last ∈ lastNames d only last dir := by
  rw [← endsInStep_joinTo hdir hlast] at hends
  have hthere := Disk.walk_of_walk_toText (joinTo_ne_nil hdir) hends hwalk
  rw [lastNames, hmagic, if_neg Bool.false_ne_true]
  split_ifs with hempty hdirectory hholds
  · exact List.mem_singleton_self last
  · obtain rfl := List.isEmpty_iff.1 hempty
    obtain rfl := Disk.eq_directory_of_walk hd.linkless
      (fun hstep => absurd ((endsInStep_joinTo hdir hlast).1 hstep) (by decide)) hthere
    have hdirWalk := Disk.walk_directory_congr hdir (ofText_joinTo_nil hdir) hthere
    have hdirTakes : d.Takes dir := takes_of_joinTo hdir htakes
    exact absurd ((Disk.isDirectory_iff hd).2 ⟨hdirTakes, l, hdirWalk⟩) hdirectory
  · exact List.mem_singleton_self last
  · rw [Disk.holdsLink_eq_holds hd] at hholds
    exact absurd ((Disk.holds_iff hd).2 ⟨htakes, l, e, hthere⟩) hholds

/-- A directory has a name for a path that goes on by the last part of a pattern. -/
theorem exists_mem_lastNames (hd : d.tree.Plain) {root : Text} {above names : List Text}
    (hdir : dir ≠ []) (htakes : ∀ name, Path.ofText (joinTo dir name) = ⟨root, above ++ names⟩ →
      (name = last ∨ isStep name = true) → '/' ∉ name → d.Takes (joinTo dir name))
    (hpath : Path.ofText dir = ⟨root, above⟩) (hlast : '/' ∉ last)
    (hp : Path.Plain ⟨root, above ++ names⟩)
    (hfits : List.Forall₂ Fits (Path.ofText last).parts names)
    (hwalk : d.walk (Path.toText ⟨root, above ++ names⟩) = .ok (.taken l e))
    (honly : only = true → e = .directory) (hends : e = .directory ∨ isStep last = true) :
    ∃ name ∈ lastNames d only last dir,
      Path.ofText (joinTo dir name) = ⟨root, above ++ names⟩ := by
  cases hmagic : hasMagic last with
  | false =>
      have hsame : (⟨[], names⟩ : Path) = Path.ofText last :=
        Covers.eq_ofText ⟨(congrArg Path.root (ofText_of_plain hlast)).symm, hfits⟩ hmagic
      have hjoin : Path.ofText (joinTo dir last) = ⟨root, above ++ names⟩ := by
        rw [ofText_joinTo hdir hlast, hpath, ← hsame]
      rw [← hjoin] at hwalk
      exact ⟨last, mem_lastNames_of_plain hd hmagic hdir hlast hends
        (htakes last hjoin (.inl rfl) hlast) hwalk, hjoin⟩
  | true =>
      obtain ⟨name, rfl, hname, haccepts⟩ := exists_of_fits hmagic hlast hfits
      obtain ⟨l', habove, hlastWalk⟩ := (Disk.walk_toText_concat hp).1 hwalk
      have hdirWalk : d.walk dir = .ok (.taken l' .directory) :=
        Disk.walk_of_walk_toText hdir (.inl rfl) (hpath ▸ habove)
      obtain ⟨rfl, he⟩ :=
        (Tree.walk_name hname.1 hname.2.1 (Disk.find?_of_walk hdirWalk)).1 hlastWalk
      have hjoin : Path.ofText (joinTo dir name) = ⟨root, above ++ [name]⟩ := by
        rw [ofText_joinTo hdir hname.2.2, hpath, ofText_of_isEntryName hname]
      have hdirTakes := takes_of_joinTo hdir
        (htakes name hjoin (.inr (Path.isStep_of_isName hname.1)) hname.2.2)
      refine ⟨name, ?_, hjoin⟩
      rw [lastNames, if_pos hmagic]
      refine List.mem_filter.2 ⟨(mem_listing hd).2 ?_, haccepts⟩
      rw [List.isEmpty_eq_false_iff.2 hdir, if_neg Bool.false_ne_true]
      exact ⟨hdirTakes, l', hdirWalk, e, he, honly⟩

/-- A path that a pattern in two parts stands for leads through a directory. -/
theorem exists_walk_above {root : Text} {above names : List Text} (hlast : '/' ∉ last)
    (hp : Path.Plain ⟨root, above ++ names⟩)
    (hfits : List.Forall₂ Fits (Path.ofText last).parts names)
    (hwalk : d.walk (Path.toText ⟨root, above ++ names⟩) = .ok (.taken l e))
    (hends : e = .directory ∨ isStep last = true) :
    ∃ l', d.walk (Path.toText ⟨root, above⟩) = .ok (.taken l' .directory) := by
  cases hstep : isStep last with
  | true =>
      rw [ofText_of_isStep hstep hlast] at hfits
      simp only [List.forall₂_cons_left_iff, List.forall₂_nil_left_iff] at hfits
      obtain ⟨name, _, -, rfl, rfl⟩ := hfits
      obtain ⟨l', habove, -⟩ := (Disk.walk_toText_concat hp).1 hwalk
      exact ⟨l', habove⟩
  | false =>
      obtain rfl := hends.resolve_right (by simp [hstep])
      have hnone : [last].filter isStep = [] := by simp [hstep]
      rw [ofText_of_plain hlast, hnone, List.forall₂_nil_left_iff] at hfits
      subst hfits
      rw [List.append_nil] at hwalk
      exact ⟨l, hwalk⟩

/-- A pattern without slashes matches what is in the current directory under a name that it
accepts. -/
theorem exists_mem_listing (hd : d.tree.Plain) (hmagic : hasMagic pattern = true)
    (hslash : '/' ∉ pattern) (hcovers : Covers pattern p)
    (hwalk : d.walk p.toText = .ok (.taken l e)) (honly : only = true → e = .directory) :
    ∃ found ∈ (listing d [] only).filter (acceptsName pattern), Path.ofText found = p := by
  obtain ⟨name, hparts, hname, haccepts⟩ := exists_of_fits hmagic hslash hcovers.parts
  have hplain := hcovers.plain
  have hroot := hcovers.root
  rw [Path.rootOf_of_head?_ne (Path.head?_ne_of_not_mem hslash)] at hroot
  obtain rfl : p = ⟨[], [] ++ [name]⟩ := congrArg₂ Path.mk hroot hparts
  obtain ⟨l', hhere, hlast⟩ := (Disk.walk_toText_concat hplain).1 hwalk
  obtain ⟨rfl, he⟩ := (Tree.walk_name hname.1 hname.2.1 (Disk.find?_of_walk hhere)).1 hlast
  have htakes : d.Takes ['.'] := ⟨d.user.canName_dot, by decide⟩
  exact ⟨name, List.mem_filter.2
    ⟨(mem_listing hd).2 ⟨htakes, l', hhere, e, he, honly⟩, haccepts⟩, ofText_of_isEntryName hname⟩

/-- A directory is there for every path that the first part of a pattern stands for, if the
expansion finds one. -/
theorem exists_mem_directories (hcovers : Covers directory p)
    (hfound : hasMagic directory = true →
      ∃ dir ∈ expand d fuel true directory, Path.ofText dir = p) :
    ∃ dir ∈ directories d fuel directory, Path.ofText dir = p := by
  rw [directories]
  split_ifs with hmagic
  · exact hfound hmagic
  · exact ⟨directory, List.mem_singleton_self directory,
      (hcovers.eq_ofText (Bool.eq_false_iff.2 hmagic)).symm⟩

/-- A pattern matches every path that it stands for and that leads somewhere, if the path and the
pattern together are not too long. -/
theorem exists_mem_expand (hd : d.tree.Plain) (ht : d.tree.Proper) (hcovers : Covers pattern p)
    (hwalk : d.walk p.toText = .ok (.taken l e)) (honly : only = true → e = .directory)
    (hends : e = .directory ∨ Path.EndsInStep pattern) (hne : pattern ≠ [])
    (hnamed : Path.Named d.user p)
    (hroom : extent p + (Utf8.encode pattern).length < Disk.pathLimit)
    (hfuel : pattern.length < fuel) :
    ∃ found ∈ expand d fuel only pattern, Path.ofText found = p := by
  induction fuel generalizing only pattern p l e with
  | zero => contradiction
  | succ fuel ih =>
      cases hmagic : hasMagic pattern with
      | false =>
          obtain rfl := hcovers.eq_ofText hmagic
          have htakes : d.Takes pattern := ⟨canName_of_named hnamed, by omega⟩
          have hstands : stands d pattern = true :=
            stands_of_walk hd htakes (Disk.walk_of_walk_toText hne hends hwalk)
          refine ⟨pattern, ?_, rfl⟩
          rw [expand_of_plain hmagic, if_pos hstands]
          exact List.mem_singleton_self pattern
      | true =>
          by_cases hslash : '/' ∈ pattern
          · obtain ⟨directory, gap, last, hsplit, rfl, hcut⟩ := exists_splitLast hslash
            rw [hcut.endsInStep] at hends
            have hplain := hcovers.plain
            obtain ⟨root, parts⟩ := p
            obtain ⟨above, names, rfl, hdirectory, hnames⟩ := hcovers.exists_append hcut
            obtain ⟨l', habove⟩ := exists_walk_above hcut.last_plain hplain hnames hwalk hends
            have hnamedAbove : Path.Named d.user ⟨root, above⟩ :=
              fun part hpart => hnamed part (List.mem_append_left names hpart)
            have hroomAbove : extent ⟨root, above⟩ + (Utf8.encode directory).length <
                Disk.pathLimit := by
              rw [extent_append, length_encode_append, length_encode_append] at hroom
              omega
            obtain ⟨dir, hdir, hpath⟩ := exists_mem_directories hdirectory fun hdirMagic => by
              have hshort : directory.length < fuel := by
                have hlength := hcut.length_lt hdirMagic
                omega
              exact ih hdirectory habove (fun _ => rfl) (.inl rfl) hcut.nonempty hnamedAbove
                hroomAbove hshort
            have hdirNe := nonempty_of_mem_directories ht hcut hdir
            have hlength := length_directories_le (fun _ => length_expand_le ht) hdir
            obtain ⟨name, hname, hjoin⟩ := exists_mem_lastNames hd hdirNe
              (fun name hjoin hstep hname => by
                have hbound := hcut.length_joinTo_le hdirNe (hcut.directories_eq · hdir) hlength
                  hstep hname
                rw [hjoin] at hbound
                exact ⟨canName_of_named (hjoin ▸ hnamed), Nat.lt_of_le_of_lt hbound hroom⟩)
              hpath hcut.last_plain hplain hnames hwalk honly hends
            refine ⟨joinTo dir name, ?_, hjoin⟩
            rw [expand_of_cut hcut hsplit hmagic]
            exact List.mem_flatMap.2 ⟨dir, hdir, List.mem_map_of_mem hname⟩
          · rw [expand_of_name hmagic hslash]
            exact exists_mem_listing hd hmagic hslash hcovers hwalk honly

end ShellDocs.Glob
