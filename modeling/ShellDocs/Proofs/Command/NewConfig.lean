import Mathlib.Data.List.Basic
import ShellDocs.Proofs.Command.Outcome
import ShellDocs.Proofs.Config.RoundTrip
import ShellDocs.Proofs.Files.Unlinked

/-!
# Writing a new configuration

A run that is asked for a new configuration leaves a file alone that stands at the path as it is
written, and else saves at the resolved form of the path. The main statement is `run_initConfig`:
in a tree without links, a run that succeeds has found the place of its file free just if the disk
does not tell the two paths apart, which is always so if the path is straight, short enough, and not
closed to the process. Otherwise an existing configuration may be reset, as in
`run_initConfig_detour`.
-/

namespace ShellDocs

namespace Path

/-! ## Written forms -/

/-- A path of parts that say something has a written form that is not empty. -/
theorem toText_ne_nil {p : Path} (h : [] ∉ p.parts) : p.toText ≠ [] := by
  obtain ⟨root, parts⟩ := p
  cases root with
  | cons c root => simp [toText]
  | nil =>
      cases parts with
      | nil => simp [toText]
      | cons part rest =>
          have hpart : part ≠ [] := fun heq => h (heq ▸ List.mem_cons_self)
          cases rest with
          | nil => simpa [toText, Text.join] using hpart
          | cons next more => simp [toText, Text.join]

theorem nil_not_mem_ofText (t : Text) : [] ∉ (ofText t).parts := by
  simp [ofText]

theorem nil_not_mem_append {p q : Path} (hp : [] ∉ p.parts) (hq : [] ∉ q.parts) :
    [] ∉ (p.append q).parts := by
  rw [append]
  split_ifs
  · exact hq
  · simp [hp, hq]

theorem nil_not_mem_expandHome? {u : User} {t : Text} {q : Path}
    (h : (ofText t).expandHome? u = some q) : [] ∉ q.parts :=
  fun hnil => absurd (isStep_of_mem_expandHome? h [] hnil) (by decide)

end Path

namespace Config

variable {lib : Toml.Library} {d : Disk} {e : Environment} {asked : Option Text} {c : Config}
  {p : Path} {t : Text}

/-- In a tree without links the path that is asked for has the home directory put in and no `..`
left. -/
theorem exists_of_askedPath (hlinks : d.tree.Linkless) (h : askedPath d t = .ok p) :
    ∃ q, (Path.ofText t).expandHome? d.user = some q ∧ p = q.resolve d.cwd := by
  obtain ⟨q, hq, hresolve⟩ := Toml.exists_of_bind_eq_ok h
  have hexpand := (expandHome_eq_ok.1 hq).2
  exact ⟨q, hexpand, Disk.resolve_of_linkless hlinks (Path.isStep_of_mem_expandHome? hexpand)
    (escaping_eq_ok.1 hresolve)⟩

/-- The path of a configuration file that is not asked for has a written form. -/
theorem toText_ne_nil_of_impliedPath (h : impliedPath d e = .ok p) : p.toText ≠ [] := by
  apply Path.toText_ne_nil
  simp only [impliedPath] at h
  split at h
  · exact Path.nil_not_mem_expandHome? (expandHome_eq_ok.1 h).2
  · rw [← Except.ok.inj h]
    exact Path.nil_not_mem_append (Path.nil_not_mem_ofText _) (by decide)

/-- A directory cannot be saved to. -/
theorem seek_ne_directory_of_save (h : (save d e asked c lib).2.result = .ok p) (l : Location) :
    d.seek p.toText ≠ .ok (.taken l .directory) := by
  intro hseek
  obtain ⟨-, text, bytes, d₁, hwrites, -, -⟩ := exists_writes_of_save h
  have hgrows := prepared_grows d p
  have hdir := hgrows.tree.find?_of_eq_some (Disk.find?_of_reach_taken hseek)
  have hprepared : (prepared d p).seek p.toText = .ok (.taken l .directory) :=
    Disk.reach_of_keeps hgrows.keeps hseek hdir fun _ => rfl
  obtain ⟨doc, hdoc, -⟩ := Toml.exists_of_bind_eq_ok hwrites.edited
  obtain ⟨content, hfile⟩ := file_of_currentDocument hdoc hprepared
  contradiction

/-- Where a configuration can be saved, something stands just if it is a file. -/
theorem holds_iff_of_save (h : (save d e asked c lib).2.result = .ok p)
    (hlinks : d.tree.Linkless) : d.holds p.toText = true ↔
      ∃ l content, d.seek p.toText = .ok (.taken l (.file content)) := by
  rw [Disk.holds_eq_true]
  constructor
  · rintro ⟨l, entry, hseek⟩
    cases entry with
    | file content => exact ⟨l, content, hseek⟩
    | directory => exact absurd hseek (seek_ne_directory_of_save h l)
    | link target => exact absurd (Disk.find?_of_reach_taken hseek) (hlinks l target)
  · rintro ⟨l, content, hseek⟩
    exact ⟨l, _, hseek⟩

end Config

namespace Command

variable {s : Surroundings} {a : Arguments} {line : List Text} {p : Path}

theorem newConfigTarget_ne_nil {t : Text} (h : newConfigTarget s a = .ok t) : t ≠ [] := by
  simp only [newConfigTarget] at h
  split at h
  · next text hconfig =>
      obtain rfl := Except.ok.inj h
      have hfilter := (Option.filter_eq_some_iff.1 hconfig).2
      simpa using hfilter
  · cases himplied : Config.impliedPath s.disk s.environment with
    | error f =>
        rw [himplied] at h
        contradiction
    | ok q =>
        rw [himplied] at h
        rw [← Except.ok.inj h]
        exact Config.toText_ne_nil_of_impliedPath himplied

/-- What a new configuration that was written tells: its place, and that nothing stood at the path
as it is written. -/
theorem exists_of_writeConfig (h : (writeConfig s a).result = .ok p) :
    ∃ t, newConfigTarget s a = .ok t ∧ Config.askedPath s.disk t = .ok p ∧
      s.disk.holds (Path.expandHomeText s.disk.user t) = false ∧
      (Config.save s.disk s.environment (some t) {} s.toml).2.result = .ok p ∧
      (writeConfig s a).diskAfter s.disk =
        (Config.save s.disk s.environment (some t) {} s.toml).1 := by
  have hsteps : writeConfig s a = Traced.ofExcept (newConfigTarget s a) >>= fun target =>
      if s.disk.holds (Path.expandHomeText s.disk.user target) then
        Traced.fail (.config (.present target))
      else (Config.save s.disk s.environment (some target) {} s.toml).2.storing
        (Config.save s.disk s.environment (some target) {} s.toml).1 := rfl
  rw [hsteps] at h ⊢
  obtain ⟨t, htarget, h⟩ := Traced.exists_of_bind_eq_ok h
  rw [Traced.diskAfter_bind_of_ok htarget]
  have htarget : newConfigTarget s a = .ok t := htarget
  split_ifs at h ⊢ with hholds
  · contradiction
  · have hsave : (Config.save s.disk s.environment (some t) {} s.toml).2.result = .ok p := h
    -- An empty path would count as none, but the target is never empty.
    have hgiven : (some t).filter (fun text => !text.isEmpty) = some t := by
      simp [newConfigTarget_ne_nil htarget]
    have hpath := (Config.exists_writes_of_save hsave).1
    simp only [Config.savePath, hgiven] at hpath
    exact ⟨t, htarget, hpath, Bool.eq_false_iff.2 hholds, hsave, Traced.diskAfter_storing _ _⟩

/-- A run that is asked for a new configuration and succeeds has written one. -/
theorem exists_of_run (hparse : Arguments.parse line = .ok a) (hreport : a.report = none)
    (hinit : a.initConfig = true) (hstatus : (run s line).status = 0) :
    ∃ p, (writeConfig s a).result = .ok p ∧
      (run s line).output = (echo none (("Wrote default config to " : Text) ++ p.toText)).output ∧
      (run s line).disk = (writeConfig s a).diskAfter s.disk := by
  have hrun : run s line = outcome s a.verbose (perform s a) := by rw [run, hparse]
  have hperform : perform s a = Traced.ofExcept (openDefinitions s.disk a.definitions) >>= fun _ =>
      writeConfig s a >>= fun p =>
        echo none (("Wrote default config to " : Text) ++ p.toText) := by
    rw [perform, hreport]
    simp only [hinit, if_true]
  rw [hrun] at hstatus ⊢
  have hresult := result_of_status_eq_zero s a.verbose hstatus
  rw [hperform] at hresult
  obtain ⟨definitions, hopen, hresult⟩ := Traced.exists_of_bind_eq_ok hresult
  obtain ⟨p, hp, -⟩ := Traced.exists_of_bind_eq_ok hresult
  refine ⟨p, hp, ?_, ?_⟩
  · have houtput : (perform s a).output =
        (echo none (("Wrote default config to " : Text) ++ p.toText)).output := by
      rw [hperform, Traced.output_bind_of_hides (Traced.only_ofExcept _) hopen,
        Traced.output_bind_of_hides (only_hides_writeConfig s a) hp]
    exact houtput
  · have hdisk : (perform s a).diskAfter s.disk = (writeConfig s a).diskAfter s.disk := by
      rw [hperform, Traced.diskAfter_bind_of_ok hopen, Traced.diskAfter_bind_of_ok hp]
      rfl
    exact hdisk

/-- In a tree without links, a run that is asked for a new configuration and succeeds reports the
path where it is, the resolved form of the path that is written on the command line or implied. No
file stood there before just if the disk tells the same of both forms of the path; it always does if
the process may do everything, the system takes the path as it is written, and the path is
straight. -/
theorem run_initConfig (hlinks : s.disk.tree.Linkless) (hparse : Arguments.parse line = .ok a)
    (hreport : a.report = none) (hinit : a.initConfig = true)
    (hstatus : (run s line).status = 0) :
    ∃ t p, newConfigTarget s a = .ok t ∧ Config.askedPath s.disk t = .ok p ∧
      (run s line).output = (echo none (("Wrote default config to " : Text) ++ p.toText)).output ∧
      (∃ l bytes, (run s line).disk.seek p.toText = .ok (.taken l (.file bytes))) ∧
      ((¬ ∃ l bytes, s.disk.seek p.toText = .ok (.taken l (.file bytes))) ↔
        s.disk.holds p.toText = s.disk.holds (Path.expandHomeText s.disk.user t)) ∧
      ((∀ access l, s.disk.tree.permits access l = true) → s.disk.HasDirectory s.disk.cwd →
        s.disk.Takes (Path.expandHomeText s.disk.user t) → Path.Straight s.disk.user t →
        s.disk.holds p.toText = false) := by
  obtain ⟨p, hp, houtput, hdisk⟩ := exists_of_run hparse hreport hinit hstatus
  obtain ⟨t, htarget, hasked, hfree, hsave, hafter⟩ := exists_of_writeConfig hp
  refine ⟨t, p, htarget, hasked, houtput, ?_, ?_, ?_⟩
  · obtain ⟨-, text, bytes, d₁, hwrites, hbytes, hmove⟩ := Config.exists_writes_of_save hsave
    have hdirect := Config.direct_of_linkless hlinks (some t) p
    obtain ⟨l, -, hseek, -⟩ := Config.seek_of_writes hwrites hbytes hmove hdirect
    exact ⟨l, bytes, by rw [hdisk, hafter, hseek]⟩
  · rw [hfree, ← Config.holds_iff_of_save hsave hlinks, Bool.not_eq_true]
  · intro hpermitted hcwd htakes hstraight
    have ht : s.disk.tree.Plain := ⟨hlinks, hpermitted⟩
    obtain ⟨q, hq, rfl⟩ := Config.exists_of_askedPath hlinks hasked
    have hwalk := Disk.walk_resolve hcwd hstraight.parts
    rw [← hstraight.resolve_eq hq] at hwalk
    refine Bool.eq_false_iff.2 fun hholds => Bool.eq_false_iff.1 hfree ?_
    rw [Disk.holds_iff ht] at hholds ⊢
    exact ⟨htakes, by rw [hwalk]; exact hholds.2⟩

/-- A process in a directory with a configuration file. -/
def detour : Surroundings where
  disk :=
    { tree := { entries := [(["w"], .directory),
        (["w", "a.toml"], .file (Utf8.encode "indent = 7\n"))] }
      cwd := ["w"]
      user := "/" }
  environment := []
  input := []
  terminal := false
  shell := fun _ => .missing

/-- The command line that asks for a new configuration at a path. -/
def newConfigAt (path : Text) : List Text := [initOption, "--config", path]

theorem parse_newConfigAt (path : Text) :
    Arguments.parse (newConfigAt path) = .ok { config := some path, initConfig := true } := rfl

theorem linkless_detour : detour.disk.tree.Linkless := Tree.linkless_of_forall (by decide)

/-- A path through a directory that does not exist leads nowhere, and its resolved form leads to
the configuration file, which is overwritten. At a straight path nothing is. -/
theorem run_initConfig_detour :
    (∃ p : Path, (run detour (newConfigAt "missing/../a.toml")).output =
        (echo none (("Wrote default config to " : Text) ++ p.toText)).output ∧
      (∃ l bytes, detour.disk.seek p.toText = .ok (.taken l (.file bytes))) ∧
      (run detour (newConfigAt "missing/../a.toml")).disk.tree.content? ["w", "a.toml"] ≠
        detour.disk.tree.content? ["w", "a.toml"]) ∧
    ∃ p : Path, (run detour (newConfigAt "b.toml")).output =
        (echo none (("Wrote default config to " : Text) ++ p.toText)).output ∧
      detour.disk.holds p.toText = false := by
  constructor
  · obtain ⟨t, p, htarget, hasked, houtput, -, hiff, -⟩ :=
      run_initConfig linkless_detour (parse_newConfigAt "missing/../a.toml") rfl rfl
        (by decide +kernel)
    obtain rfl := Except.ok.inj htarget
    have hplace : Config.askedPath detour.disk "missing/../a.toml" = .ok ⟨"/", ["w", "a.toml"]⟩ :=
      Config.eq_ok_of_toOption (by decide +kernel)
    obtain rfl := Except.ok.inj (hplace.symm.trans hasked)
    refine ⟨_, houtput, not_not.1 fun hnone => ?_, by decide +kernel⟩
    have hheld := hiff.1 hnone
    revert hheld
    decide +kernel
  · obtain ⟨t, p, htarget, -, houtput, -, -, hstraight⟩ :=
      run_initConfig linkless_detour (parse_newConfigAt "b.toml") rfl rfl (by decide +kernel)
    obtain rfl := Except.ok.inj htarget
    refine ⟨p, houtput, hstraight (fun _ _ => rfl) ⟨by decide, fun above habove => ?_⟩
      (by decide) ⟨by decide, by decide⟩⟩
    obtain rfl | ⟨rest, rfl, hrest⟩ := List.prefix_cons_iff.1 habove
    · rfl
    · obtain rfl := List.prefix_nil.1 hrest
      rfl

end Command

end ShellDocs
