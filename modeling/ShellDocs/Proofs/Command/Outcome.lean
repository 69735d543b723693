import Mathlib.Data.List.Basic
import Mathlib.Data.List.TakeWhile
import ShellDocs.Command.Run
import ShellDocs.Proofs.Association
import ShellDocs.Proofs.Command.Lookup

/-!
# What a run prints and what it changes

What is shown and what is changed is read from the trace of a run. All steps up to the last one
leave remarks, lookups and, for a new configuration, a changed disk; only the last step shows
something (`shows_perform`). So a run shows nothing just if it fails. The files are left alone by
every run but one that is asked for a new configuration (`diskAfter_perform`), and no argument asks
for it but the option itself (`Arguments.mem_of_initConfig`). The main statement is
`run_status_ne_zero_iff`.
-/

namespace ShellDocs.Command

/-! ## Command lines -/

/-- The option that asks for a new configuration. -/
def initOption : Text := "--init-config"

namespace Arguments

variable {a b : Arguments} {line : List Text} {argument : Text} {pending : Option Pending}

theorem initConfig_raise {f : Flag} (h : (a.raise f).initConfig = true) :
    a.initConfig = true ∨ f = .initConfig := by
  cases f with
  | initConfig => exact .inr rfl
  | describe | title | color | pager | verbose | report => exact .inl h

@[simp] theorem initConfig_give (a : Arguments) (value : Text) (s : Setting) :
    (a.give value s).initConfig = a.initConfig := by
  cases s <;> rfl

/-- No letter stands for the option. -/
theorem lookup_shortOptions_ne (c : Char) :
    shortOptions.lookup c ≠ some (.flag .initConfig) := by
  intro h
  have hmem := Association.mem_of_lookup_eq_some h
  simp [shortOptions] at hmem

/-- No other long name stands for it. -/
theorem eq_of_lookup_longOptions {name : Text}
    (h : longOptions.lookup name = some (.flag .initConfig)) : name = initOption := by
  have hmem := Association.mem_of_lookup_eq_some h
  simp only [longOptions, List.mem_cons, Prod.mk.injEq, Choice.flag.injEq, reduceCtorEq,
    and_false, false_or, and_true, List.not_mem_nil, or_false] at hmem
  exact hmem

/-- Letters do not raise the flag. -/
theorem initConfig_readLetters {letters : Text} (h : readLetters a letters = .ok (b, pending))
    (hb : b.initConfig = true) : a.initConfig = true := by
  induction letters generalizing a with
  | nil =>
      obtain ⟨rfl, -⟩ := Prod.mk.inj (Except.ok.inj h)
      exact hb
  | cons c rest ih =>
      rw [readLetters] at h
      split at h
      · contradiction
      · next f hc =>
          refine (initConfig_raise (ih h)).resolve_right ?_
          rintro rfl
          exact lookup_shortOptions_ne c hc
      · split_ifs at h
        · obtain ⟨rfl, -⟩ := Prod.mk.inj (Except.ok.inj h)
          exact hb
        · obtain ⟨rfl, -⟩ := Prod.mk.inj (Except.ok.inj h)
          simpa using hb

/-- A long option raises the flag only if it is the option itself. -/
theorem initConfig_readLong (h : readLong a argument = .ok (b, pending))
    (hb : b.initConfig = true) : a.initConfig = true ∨ argument = initOption := by
  simp only [readLong] at h
  split at h
  · contradiction
  · next f hname hvalue =>
      obtain ⟨rfl, -⟩ := Prod.mk.inj (Except.ok.inj h)
      refine (initConfig_raise hb).imp_right ?_
      rintro rfl
      have hwhole : argument.takeWhile (· != '=') = argument := by
        have hrest : argument.dropWhile (· != '=') = [] := by
          cases hdrop : argument.dropWhile (· != '=') with
          | nil => rfl
          | cons c rest => simp [hdrop] at hvalue
        simpa [hrest] using List.takeWhile_append_dropWhile (p := (· != '=')) (l := argument)
      rw [hwhole] at hname
      exact eq_of_lookup_longOptions hname
  · contradiction
  · obtain ⟨rfl, -⟩ := Prod.mk.inj (Except.ok.inj h)
    exact .inl (by simpa using hb)
  · obtain ⟨rfl, -⟩ := Prod.mk.inj (Except.ok.inj h)
    exact .inl hb

/-- One argument raises the flag only if it is the option. -/
theorem initConfig_readOne (h : readOne a argument = .ok (b, pending))
    (hb : b.initConfig = true) : a.initConfig = true ∨ argument = initOption := by
  unfold readOne at h
  split at h
  · exact initConfig_readLong h hb
  · exact .inl (initConfig_readLetters h hb)
  · obtain ⟨rfl, -⟩ := Prod.mk.inj (Except.ok.inj h)
    exact .inl hb

/-- A command line raises the flag only if the option is one of its arguments. -/
theorem initConfig_readAll (h : readAll a line = .ok b) (hb : b.initConfig = true) :
    a.initConfig = true ∨ initOption ∈ line := by
  fun_induction readAll a line with
  | case1 a =>
      obtain rfl := Except.ok.inj h
      exact .inl hb
  | case2 a rest =>
      obtain rfl := Except.ok.inj h
      exact .inl hb
  | case3 => contradiction
  | case4 a argument rest _ a' hone ih =>
      obtain ha' | hmem := ih h
      · obtain ha | rfl := initConfig_readOne hone ha'
        · exact .inl ha
        · exact .inr (by simp)
      · exact .inr (by simp [hmem])
  | case5 => contradiction
  | case6 a argument _ a' pending hone value rest ih =>
      obtain ha' | hmem := ih h
      · rw [initConfig_give] at ha'
        obtain ha | rfl := initConfig_readOne hone ha'
        · exact .inl ha
        · exact .inr (by simp)
      · exact .inr (by simp [hmem])

theorem mem_of_initConfig (h : parse line = .ok a) (ha : a.initConfig = true) :
    initOption ∈ line :=
  (initConfig_readAll h ha).resolve_left (by simp)

end Arguments

/-! ## Steps that show nothing -/

section

open Traced

theorem only_inquires_load (d : Disk) (e : Environment) (asked : Option Text) (lib : Toml.Library) :
    (Config.load d e asked lib).Only Event.Inquires := by
  refine (only_ofExcept _).bind fun p => (only_ofExcept _).bind fun there => ?_
  split
  · refine (only_ofExcept _).bind fun table => (only_note _ trivial).bind fun _ => ?_
    -- A remark on unknown keys, if there are any, comes before the settings are checked.
    unfold Config.ofTable
    split
    · exact (only_note _ trivial).bind fun _ => only_ofExcept _
    · exact (only_pure _).bind fun _ => only_ofExcept _
  · exact (only_note _ trivial).bind fun _ => only_pure _

theorem only_inquires_expand (d : Disk) (patterns : List Text) :
    (Library.expand d patterns).Only Event.Inquires := by
  induction patterns with
  | nil => exact only_pure _
  | cons pattern rest ih =>
      rw [Library.expand]
      split
      · exact only_fail _
      · have hwarned : (ofExcept (Library.filesAmong d (Library.matching d pattern)) >>=
            fun files => Library.expand d rest >>= fun others =>
              Pure.pure (files ++ others)).Only Event.Inquires :=
          (only_ofExcept _).bind fun files => ih.bind fun others => only_pure _
        split
        · exact (only_note _ trivial).bind fun _ => hwarned
        · exact (only_pure ()).bind fun _ => hwarned

theorem only_inquires_provider (d : Disk) (definitions : Option Text) (sources : List Text)
    (config : Config) : (provider d definitions sources config).Only Event.Inquires := by
  cases definitions with
  | some text =>
      refine Only.bind ?_ fun catalog => only_pure _
      exact (only_notes _ fun _ => trivial).bind fun _ => only_pure _
  | none =>
      exact (only_ofExcept _).bind fun patterns =>
        (only_inquires_expand d _).bind fun files => only_pure _

namespace Sources

variable (s : Sources)

theorem only_inquires_findFunction (name : Text) :
    (s.findFunction name).Only Event.Inquires := by
  have hlookup := Provider.only_inquires_lookup s.provider s.shell name
  refine Only.orElse (hlookup.bind fun d => only_pure _) fun failure => ?_
  cases failure with
  | unknownFunction _ => exact only_pure _
  | shellMissing _ | lookupTimeout _ => exact (only_note _ trivial).bind fun _ => only_pure _
  | undocumented _ | malformedHereDoc _ | unreadableDocs _ _ | config _ | usage _ | escape _ =>
      exact only_fail _

theorem only_inquires_explicitDocumentation (r : Request) :
    (s.explicitDocumentation r).Only Event.Inquires := by
  unfold explicitDocumentation
  split
  · unfold functionDocumentation
    split
    · exact only_fail _
    · next name _ =>
        exact (Provider.only_inquires_lookup s.provider s.shell name).bind fun d =>
          ((s.quiet_documentation name d).mono Event.Tells.inquires).bind fun docs => only_pure _
  · exact only_pure _

/-- Collecting documentation asks for definitions and remarks on what it finds. -/
theorem only_inquires_collect (r : Request) : (s.collect r).Only Event.Inquires := by
  unfold collect
  split
  · exact only_pure _
  · split
    · exact s.only_inquires_explicitDocumentation r
    · next name _ =>
        refine (s.only_inquires_findFunction name).bind fun found => ?_
        cases found with
        | none => exact s.only_inquires_explicitDocumentation r
        | some d =>
            exact ((s.quiet_documentation name d).mono Event.Tells.inquires).bind fun docs =>
              only_pure _

end Sources

/-- The text that is shown is put together before any of it is shown. -/
theorem only_inquires_compose (s : Surroundings) (a : Arguments)
    (definitions : Option Definitions) : (compose s a definitions).Only Event.Inquires := by
  refine (only_inquires_load _ _ _ _).bind fun config => (only_ofExcept _).bind fun (text, input) =>
    (only_inquires_provider _ _ _ _).bind fun provider => (only_ofExcept _).bind fun renderer =>
      (Sources.only_inquires_collect _ _).bind fun (docs, name) => ?_
  dsimp only
  split
  · exact only_fail _
  · exact (only_ofExcept _).bind fun options => (only_ofExcept _).bind fun styling => only_pure _

theorem quiet_save (d : Disk) (e : Environment) (asked : Option Text) (c : Config)
    (lib : Toml.Library) : (Config.save d e asked c lib).2.Quiet := by
  unfold Config.save
  split
  · exact only_fail _
  · split
    · exact only_fail _
    · dsimp only
      split
      · exact (only_note _ trivial).bind fun _ => only_pure _
      · exact only_fail _
      · exact only_fail _

/-- Writing a configuration changes files and shows nothing. -/
theorem only_hides_writeConfig (s : Surroundings) (a : Arguments) :
    (writeConfig s a).Only Event.Hides := by
  refine (only_ofExcept _).bind fun target => ?_
  split
  · exact only_fail _
  · refine List.forall_mem_append.2 ⟨?_, List.forall_mem_singleton.2 trivial⟩
    exact (quiet_save _ _ _ _ _).mono fun h => h.inquires.hides

/-! ## Steps that show something -/

theorem help_ne_nil : help ≠ [] := by
  simp [help]

theorem version_ne_nil : version ≠ [] := by
  decide

theorem shows_echo (styling : Option Bool) (text : Text) : (echo styling text).Shows :=
  shows_print (by simp)

theorem shows_present (terminal : Bool) (p : Printing) : (present terminal p).Shows := by
  unfold present
  split
  · exact shows_page _
  · exact shows_echo _ _

/-- A command line that makes sense shows something as the last thing that it does. -/
theorem shows_perform (s : Surroundings) (a : Arguments) : (perform s a).Shows := by
  unfold perform
  split
  · exact shows_print help_ne_nil
  · exact shows_print version_ne_nil
  · refine Shows.bind (only_ofExcept _) fun definitions => ?_
    split
    · exact Shows.bind (only_hides_writeConfig s a) fun p => shows_echo _ _
    · exact Shows.bind ((only_inquires_compose s a definitions).mono Event.Inquires.hides)
        fun p => shows_present _ _

theorem only_keeps_present (terminal : Bool) (p : Printing) :
    (present terminal p).Only Event.Keeps := by
  unfold present
  split
  · exact List.forall_mem_singleton.2 trivial
  · exact List.forall_mem_singleton.2 trivial

/-- Only a new configuration changes files. -/
theorem diskAfter_perform {s : Surroundings} {a : Arguments} (h : ¬ a.initConfig = true) :
    (perform s a).diskAfter s.disk = s.disk := by
  refine diskAfter_of_keeps ?_
  unfold perform
  split
  · exact List.forall_mem_singleton.2 trivial
  · exact List.forall_mem_singleton.2 trivial
  · refine (only_ofExcept _).bind fun definitions => ?_
    rw [if_neg h]
    exact ((only_inquires_compose s a definitions).mono Event.Inquires.keeps).bind fun p =>
      only_keeps_present _ _

end

/-! ## Outcomes -/

theorem exitStatus_ne_zero (f : Failure) : f.exitStatus ≠ 0 := by
  cases f <;> simp [Failure.exitStatus]

section

variable (s : Surroundings) (verbose : Bool) {x : Traced Unit}

/-- A computation that shows something at its end fails just if its outcome shows nothing. -/
theorem outcome_status_ne_zero_iff (h : x.Shows) :
    (outcome s verbose x).status ≠ 0 ↔
      (outcome s verbose x).output = [] ∧ (outcome s verbose x).paged = [] := by
  cases hresult : x.result with
  | ok a =>
      refine iff_of_false (fun hstatus => hstatus ?_) ?_
      · simp only [outcome, hresult]
      · rintro ⟨houtput, hpaged⟩
        exact (h.shows a hresult).elim (· houtput) (· hpaged)
  | error failure =>
      have hhides := h.hides failure hresult
      refine iff_of_true ?_ ⟨Traced.output_of_hides hhides, Traced.pages_of_hides hhides⟩
      simp only [outcome, hresult]
      exact exitStatus_ne_zero failure

/-- A status of zero tells of success. -/
theorem result_of_status_eq_zero (h : (outcome s verbose x).status = 0) : x.result = .ok () := by
  cases hresult : x.result with
  | ok a => rfl
  | error failure =>
      simp only [outcome, hresult] at h
      exact absurd h (exitStatus_ne_zero failure)

/-- A cause that no part of the program reports gives a status like any other failure. -/
theorem status_ne_zero_of_escape (h : (outcome s verbose x).escape ≠ none) :
    (outcome s verbose x).status ≠ 0 := by
  intro hstatus
  simp only [outcome, result_of_status_eq_zero s verbose hstatus] at h
  exact h rfl

end

/-! ## Runs -/

/-- A run is the outcome of a computation that shows something at its end, and that leaves the disk
as it is unless a new configuration is asked for. -/
theorem run_cases (s : Surroundings) (line : List Text) :
    ∃ (verbose : Bool) (x : Traced Unit), run s line = outcome s verbose x ∧ x.Shows ∧
      (x.diskAfter s.disk = s.disk ∨ ∃ a, Arguments.parse line = .ok a ∧ a.initConfig = true) := by
  rw [run]
  split
  · next fault hfault => exact ⟨_, _, rfl, Traced.shows_fail _, .inl rfl⟩
  · next a ha =>
      refine ⟨_, _, rfl, shows_perform s a, ?_⟩
      by_cases hinit : a.initConfig = true
      · exact .inr ⟨a, ha, hinit⟩
      · exact .inl (diskAfter_perform hinit)

/-- A run prints nothing and hands nothing to a pager just if its status tells of a failure, and a
cause that no part of the program reports is such a failure. The files are left as they are unless
the option for a new configuration is among the arguments and read as such. -/
theorem run_status_ne_zero_iff (s : Surroundings) (line : List Text) :
    ((run s line).status ≠ 0 ↔ (run s line).output = [] ∧ (run s line).paged = []) ∧
      ((run s line).escape = none ∨ (run s line).status ≠ 0) ∧
      ((run s line).disk = s.disk ∨
        ∃ a, Arguments.parse line = .ok a ∧ a.initConfig = true ∧ initOption ∈ line) := by
  obtain ⟨verbose, x, hrun, hshows, hdisk⟩ := run_cases s line
  rw [hrun]
  refine ⟨outcome_status_ne_zero_iff s verbose hshows, ?_, ?_⟩
  · by_cases hescape : (outcome s verbose x).escape = none
    · exact .inl hescape
    · exact .inr (status_ne_zero_of_escape s verbose hescape)
  · refine hdisk.imp_right ?_
    rintro ⟨a, ha, hinit⟩
    exact ⟨a, ha, hinit, Arguments.mem_of_initConfig ha hinit⟩

end ShellDocs.Command
