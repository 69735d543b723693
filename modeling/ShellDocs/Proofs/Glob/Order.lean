import ShellDocs.Proofs.Glob.Match
import ShellDocs.Proofs.Text.Order

/-!
# The matches of one pattern

The matches of a pattern have their parts at the same places, and the parts that take no step are
the same in all of them (`beside_of_mem_expand`). So the matches are in the order of their paths
(`Beside.le_toText`), and no two of them are the same path (`nodup_map_ofText_expand`).
-/

namespace ShellDocs.Glob

open ShellDocs.Path (isStep)

variable {d : Disk} {only : Bool} {fuel : Nat} {pattern directory gap last dir name : Text}

/-! ## Matches of one pattern side by side -/

/-- The parts of two texts stand side by side: those that take no step are the same. -/
def Beside (t u : Text) : Prop :=
  List.Forall₂ (Text.Paired '/' isStep) (Text.fields '/' t) (Text.fields '/' u)

variable {dir' name' : Text}

theorem beside_self (t : Text) : Beside t t :=
  List.forall₂_same.2 fun _ hpiece => .self (Text.not_mem_of_mem_fields hpiece)

theorem Beside.symm (h : Beside dir dir') : Beside dir' dir :=
  List.Forall₂.flip (h.imp fun _ _ hpair => hpair.symm)

theorem paired_of_isEntryName (h : Tree.IsEntryName name) (h' : Tree.IsEntryName name') :
    Text.Paired '/' isStep name name' := by
  have hstep : isStep name = true := Path.isStep_of_isName h.1
  have hstep' : isStep name' = true := Path.isStep_of_isName h'.1
  exact ⟨h.2.2, h'.2.2, hstep.trans hstep'.symm, fun hskip => by simp [hstep] at hskip⟩

theorem paired_of_mem_lastNames (ht : d.tree.Proper) (hlast : '/' ∉ last)
    (h : name ∈ lastNames d only last dir) (h' : name' ∈ lastNames d only last dir') :
    Text.Paired '/' isStep name name' := by
  cases hmagic : hasMagic last with
  | false =>
      rw [eq_of_mem_lastNames hmagic h, eq_of_mem_lastNames hmagic h']
      exact .self hlast
  | true =>
      rw [lastNames, if_pos hmagic, List.mem_filter] at h h'
      exact paired_of_isEntryName (isEntryName_of_mem_listing ht h.1)
        (isEntryName_of_mem_listing ht h'.1)

/-- What stands beside a text with a slash at its end has one too. -/
theorem Beside.of_append {t u : Text} (h : Beside (t ++ ['/']) u) :
    ∃ pieces, Text.fields '/' u = pieces ++ [[]] ∧
      List.Forall₂ (Text.Paired '/' isStep) (Text.fields '/' t) pieces := by
  have hfields : Text.fields '/' (t ++ ['/']) = Text.fields '/' t ++ [[]] :=
    Text.fields_append '/' t []
  rw [Beside, hfields] at h
  obtain ⟨pieces, more, hu, hpieces, hmore⟩ := exists_append_of_forall₂ h
  simp only [List.forall₂_cons_left_iff, List.forall₂_nil_left_iff] at hmore
  obtain ⟨piece, _, hpair, rfl, rfl⟩ := hmore
  rw [← hpair.eq_of_dropped rfl] at hu
  exact ⟨pieces, hu, hpieces⟩

/-- Paired names joined to texts that stand side by side stand side by side. -/
theorem Beside.joinTo (hdir : dir ≠ []) (hdir' : dir' ≠ []) (h : Beside dir dir')
    (hname : Text.Paired '/' isStep name name') : Beside (joinTo dir name) (joinTo dir' name') := by
  obtain ⟨lead, hjoin, hlead⟩ := exists_joinTo hdir name
  obtain ⟨lead', hjoin', hlead'⟩ := exists_joinTo hdir' name'
  suffices hsame : List.Forall₂ (Text.Paired '/' isStep) (Text.fields '/' lead)
      (Text.fields '/' lead') by
    rw [Beside, hjoin, hjoin', Text.fields_append, Text.fields_append,
      Text.fields_eq_singleton hname.left, Text.fields_eq_singleton hname.right]
    exact List.rel_append hsame (.cons hname .nil)
  rcases hlead with rfl | ⟨rfl, c, hlast, hc⟩ <;> rcases hlead' with rfl | ⟨rfl, c', hlast', hc'⟩
  · obtain ⟨pieces, hpieces, hsame⟩ := h.of_append
    have hfields : Text.fields '/' (lead' ++ ['/']) = Text.fields '/' lead' ++ [[]] :=
      Text.fields_append '/' lead' []
    rw [hfields] at hpieces
    rwa [(List.append_inj' hpieces rfl).1]
  · obtain ⟨pieces, hpieces, -⟩ := h.of_append
    exact absurd (by simp [hpieces]) (Text.getLast?_fields_ne_nil hlast' hc')
  · obtain ⟨pieces, hpieces, -⟩ := h.symm.of_append
    exact absurd (by simp [hpieces]) (Text.getLast?_fields_ne_nil hlast hc)
  · exact h

/-- Two directories of one pattern stand side by side if two matches of its first part do. -/
theorem beside_of_mem_directories
    (hfound : ∀ dir ∈ expand d fuel true directory, ∀ dir' ∈ expand d fuel true directory,
      Beside dir dir')
    (h : dir ∈ directories d fuel directory) (h' : dir' ∈ directories d fuel directory) :
    Beside dir dir' := by
  rw [directories] at h h'
  split_ifs at h h'
  · exact hfound dir h dir' h'
  · rw [List.mem_singleton.1 h, List.mem_singleton.1 h']
    exact beside_self directory

/-- Two matches of one pattern stand side by side. -/
theorem beside_of_mem_expand (ht : d.tree.Proper) {found found' : Text}
    (h : found ∈ expand d fuel only pattern) (h' : found' ∈ expand d fuel only pattern) :
    Beside found found' := by
  induction fuel generalizing only pattern found found' with
  | zero => exact absurd h List.not_mem_nil
  | succ fuel ih =>
      cases hmagic : hasMagic pattern with
      | false =>
          rw [expand_of_plain hmagic] at h h'
          split_ifs at h h' with hstands
          · rw [List.mem_singleton.1 h, List.mem_singleton.1 h']
            exact beside_self pattern
          · contradiction
      | true =>
          by_cases hslash : '/' ∈ pattern
          · obtain ⟨directory, gap, last, hsplit, rfl, hcut⟩ := exists_splitLast hslash
            rw [expand_of_cut hcut hsplit hmagic] at h h'
            obtain ⟨dir, hdir, h⟩ := List.mem_flatMap.1 h
            obtain ⟨dir', hdir', h'⟩ := List.mem_flatMap.1 h'
            obtain ⟨name, hname, rfl⟩ := List.mem_map.1 h
            obtain ⟨name', hname', rfl⟩ := List.mem_map.1 h'
            have hbeside : Beside dir dir' :=
              beside_of_mem_directories (fun _ h _ h' => ih h h') hdir hdir'
            exact hbeside.joinTo (nonempty_of_mem_directories ht hcut hdir)
              (nonempty_of_mem_directories ht hcut hdir')
              (paired_of_mem_lastNames ht hcut.last_plain hname hname')
          · rw [expand_of_name hmagic hslash, List.mem_filter] at h h'
            have hname := isEntryName_of_mem_listing ht h.1
            have hname' := isEntryName_of_mem_listing ht h'.1
            rw [Beside, Text.fields_eq_singleton hname.2.2, Text.fields_eq_singleton hname'.2.2]
            exact .cons (paired_of_isEntryName hname hname') .nil

/-- Texts that stand side by side are in the order of their paths if they end in a step. -/
theorem Beside.le_toText {t u : Text} (h : Beside t u) (hroot : Path.rootOf t = Path.rootOf u)
    (hends : Path.EndsInStep t) :
    Text.le (Path.ofText t).toText (Path.ofText u).toText = Text.le t u := by
  have hparts : (Path.ofText t).parts ≠ [] := Path.filter_isStep_ne_nil hends
  have hparts' : (Path.ofText u).parts ≠ [] := fun hnil =>
    hparts ((Text.filter_eq_nil_iff_of_paired h).2 hnil)
  have htext {v : Text} (hv : (Path.ofText v).parts ≠ []) : (Path.ofText v).toText =
      Path.rootOf v ++ Text.join ['/'] ((Text.fields '/' v).filter isStep) := by
    have hempty : (Path.ofText v).parts.isEmpty = false := List.isEmpty_eq_false_iff.2 hv
    rw [Path.toText, hempty, Bool.and_false, if_neg Bool.false_ne_true]
    rfl
  rw [htext hparts, htext hparts', hroot, Text.le_append_left, ← Text.le_join_filter h hends,
    Text.join_fields, Text.join_fields]

/-! ## No path is matched twice -/

theorem nodup_lastNames (ht : d.tree.Proper) : (lastNames d only last dir).Nodup := by
  rw [lastNames]
  split_ifs
  · exact (nodup_listing ht).filter _
  all_goals simp

theorem eq_of_ofText_eq (h : Tree.IsEntryName name) (h' : Tree.IsEntryName name')
    (heq : Path.ofText name = Path.ofText name') : name = name' := by
  rw [ofText_of_isEntryName h, ofText_of_isEntryName h'] at heq
  simpa using heq

/-- The names of one directory are joined to it on different paths. -/
theorem nodup_map_joinTo (ht : d.tree.Proper) (hdir : dir ≠ []) :
    (((lastNames d only last dir).map (joinTo dir)).map Path.ofText).Nodup := by
  rw [List.map_map]
  refine (nodup_lastNames ht).map_on fun name hname name' hname' heq => ?_
  cases hmagic : hasMagic last with
  | false => rw [eq_of_mem_lastNames hmagic hname, eq_of_mem_lastNames hmagic hname']
  | true =>
      rw [lastNames, if_pos hmagic, List.mem_filter] at hname hname'
      have hentry := isEntryName_of_mem_listing ht hname.1
      have hentry' := isEntryName_of_mem_listing ht hname'.1
      simp only [Function.comp_apply, ofText_joinTo hdir hentry.2.2,
        ofText_joinTo hdir hentry'.2.2, ofText_of_isEntryName hentry,
        ofText_of_isEntryName hentry', Path.mk.injEq, true_and,
        List.append_cancel_left_eq] at heq
      simpa using heq

/-- Different directories of one pattern lead on to different paths. -/
theorem ofText_joinTo_ne (ht : d.tree.Proper) (hcut : Cut directory gap last)
    (hdir : dir ∈ directories d fuel directory) (hdir' : dir' ∈ directories d fuel directory)
    (hne : Path.ofText dir ≠ Path.ofText dir') (hname : '/' ∉ name) (hname' : '/' ∉ name') :
    Path.ofText (joinTo dir name) ≠ Path.ofText (joinTo dir' name') := by
  have hfound : ∀ found ∈ expand d fuel true directory, Found directory found :=
    fun _ => found_of_mem_expand ht
  obtain ⟨hempty, hcovers⟩ := covers_of_mem_directories hcut hfound hdir
  obtain ⟨hempty', hcovers'⟩ := covers_of_mem_directories hcut hfound hdir'
  rw [ofText_joinTo hempty hname, ofText_joinTo hempty' hname']
  intro heq
  have hlength : (Path.ofText dir).parts.length = (Path.ofText dir').parts.length :=
    hcovers.parts.length_eq.symm.trans hcovers'.parts.length_eq
  exact hne (congrArg₂ Path.mk (congrArg Path.root heq)
    (List.append_inj (congrArg Path.parts heq) hlength).1)

/-- What the directories of a pattern lead on to are different paths if they are. -/
theorem nodup_map_flatMap (ht : d.tree.Proper) (hcut : Cut directory gap last)
    (habove : ((directories d fuel directory).map Path.ofText).Nodup) :
    (((directories d fuel directory).flatMap fun dir =>
      (lastNames d only last dir).map (joinTo dir)).map Path.ofText).Nodup := by
  rw [List.map_flatMap, List.nodup_flatMap]
  refine ⟨fun dir hdir => nodup_map_joinTo ht (nonempty_of_mem_directories ht hcut hdir), ?_⟩
  refine (List.pairwise_map.1 habove).imp_of_mem fun {dir dir'} hdir hdir' hne => ?_
  change List.Disjoint (((lastNames d only last dir).map (joinTo dir)).map Path.ofText)
    (((lastNames d only last dir').map (joinTo dir')).map Path.ofText)
  rw [List.map_map, List.map_map, List.disjoint_left]
  intro p h h'
  obtain ⟨name, hname, rfl⟩ := List.mem_map.1 h
  obtain ⟨name', hname', heq⟩ := List.mem_map.1 h'
  exact ofText_joinTo_ne ht hcut hdir hdir' hne
    (fits_of_mem_lastNames ht hcut.last_plain hname).1
    (fits_of_mem_lastNames ht hcut.last_plain hname').1 heq.symm

/-- No two matches of a pattern are the same path. -/
theorem nodup_map_ofText_expand (ht : d.tree.Proper) :
    ((expand d fuel only pattern).map Path.ofText).Nodup := by
  induction fuel generalizing only pattern with
  | zero => exact List.nodup_nil
  | succ fuel ih =>
      cases hmagic : hasMagic pattern with
      | false =>
          rw [expand_of_plain hmagic]
          split_ifs <;> simp
      | true =>
          by_cases hslash : '/' ∈ pattern
          · obtain ⟨directory, gap, last, hsplit, rfl, hcut⟩ := exists_splitLast hslash
            have habove : ((directories d fuel directory).map Path.ofText).Nodup := by
              rw [directories]
              split_ifs
              · exact ih
              · simp
            rw [expand_of_cut hcut hsplit hmagic]
            exact nodup_map_flatMap ht hcut habove
          · rw [expand_of_name hmagic hslash]
            refine ((nodup_listing ht).filter _).map_on fun name hname name' hname' heq => ?_
            exact eq_of_ofText_eq (isEntryName_of_mem_listing ht (List.mem_filter.1 hname).1)
              (isEntryName_of_mem_listing ht (List.mem_filter.1 hname').1) heq

end ShellDocs.Glob
