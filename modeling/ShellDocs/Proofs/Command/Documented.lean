import ShellDocs.Proofs.Block.Scanned
import ShellDocs.Proofs.Command.Lookup
import ShellDocs.Proofs.Command.Outcome
import ShellDocs.Proofs.Docstring
import ShellDocs.Proofs.Reference.Outcome

/-!
# Functions without documentation

A function whose body holds no documentation is reported, with an exit status of its own. The
check is made before a reference is followed, so a function that refers to a file with nothing in
it is shown as an empty page and counts as documented. `Sources.collect_documented` says that there
is no other way to succeed without a line of documentation.
-/

namespace ShellDocs

namespace Command

/-- The sources that a run has made ready when it goes on to collect documentation. -/
def Prepares (w : Surroundings) (a : Arguments) (definitions : Option Definitions)
    (s : Sources) : Prop :=
  ∃ config text input provider renderer,
    (Config.load w.disk w.environment a.config w.toml).result = .ok config ∧
    readDefinitions w.input definitions = .ok (text, input) ∧
    (Command.provider w.disk text a.sources config).result = .ok provider ∧
    rendererName config = .ok renderer ∧
    s = ⟨w.disk, w.shell, provider, renderer, input⟩

/-- A run fails as the documentation that it collects does. -/
theorem Prepares.result_compose {w : Surroundings} {a : Arguments}
    {definitions : Option Definitions} {s : Sources} {failure : Failure}
    (h : Prepares w a definitions s)
    (hcollect : (s.collect ⟨a.words, a.function⟩).result = .error failure) :
    (compose w a definitions).result = .error failure := by
  obtain ⟨config, text, input, provider, renderer, hconfig, hdefinitions, hprovider, hrenderer,
    rfl⟩ := h
  have htext : (Traced.ofExcept (readDefinitions w.input definitions)).result =
      .ok (text, input) := hdefinitions
  rw [compose, Traced.result_bind_of_ok hconfig, Traced.result_bind_of_ok htext,
    Traced.result_bind_of_ok hprovider,
    Traced.result_bind_of_ok (x := Traced.ofExcept (rendererName config)) hrenderer,
    Traced.result_bind_of_error hcollect]

namespace Sources

variable {s : Sources} {r : Request} {n : Text} {d : Definition} {docs : Docstring}

/-- The definition refers to a file that can be read and holds nothing but newlines. -/
def RefersToNothing (s : Sources) (d : Definition) : Prop :=
  ∃ docs t, (d.documentation s.renderer).result = .ok docs ∧
    (∀ cause, ¬ Reference.Overlooked s.disk none docs cause) ∧
    Reference.LeadsTo s.disk none docs t ∧ ∀ c ∈ t, c = '\n'

/-! ## Documentation of a definition -/

/-- Documentation is resolved if there is any, and reported to be missing if not. -/
theorem result_documentation_of_ok (h : (d.documentation s.renderer).result = .ok docs) :
    (s.documentation n d).result =
      if docs = .empty then .error (.undocumented n)
      else (Reference.resolveFrom s.disk none docs).result := by
  rw [documentation, Traced.bind_of_ok h]
  by_cases hempty : docs = .empty
  · subst hempty
    rfl
  · have hfound : docs.found = true := Docstring.found_eq_true.2 hempty
    simp only [hfound, if_true, if_neg hempty]

/-- A failure to read documentation is that of a malformed here-document. -/
theorem exists_malformed_of_documentation {failure : Failure}
    (h : (d.documentation s.renderer).result = .error failure) :
    ∃ fault, failure = .malformedHereDoc fault := by
  rw [Definition.documentation_result] at h
  split at h
  · next fault _ => exact ⟨fault, (Except.error.inj h).symm⟩
  · contradiction

/-- Documentation is reported to be missing just if the definition has none. -/
theorem result_documentation_eq_undocumented :
    (s.documentation n d).result = .error (.undocumented n) ↔
      (d.documentation s.renderer).result = .ok .empty := by
  cases h : (d.documentation s.renderer).result with
  | error failure =>
      obtain ⟨fault, rfl⟩ := exists_malformed_of_documentation h
      rw [documentation, Traced.bind_of_error h]
      simp
  | ok docs =>
      rw [result_documentation_of_ok h, Except.ok.injEq]
      split_ifs with hempty
      · simp [hempty]
      · refine iff_of_false (fun hfail => ?_) hempty
        -- Resolving fails only with causes that nobody reports.
        obtain ⟨cause, hcause, -⟩ :=
          ((Reference.resolve_outcome _ _ docs).1 _).1 hfail
        contradiction

/-- A definition comes to no documentation just if it refers to a file with nothing in it. -/
theorem result_documentation_eq_empty :
    (s.documentation n d).result = .ok .empty ↔ s.RefersToNothing d := by
  cases h : (d.documentation s.renderer).result with
  | error failure =>
      rw [documentation, Traced.bind_of_error h]
      simp [RefersToNothing, h]
  | ok docs =>
      rw [result_documentation_of_ok h]
      simp only [RefersToNothing, h, Except.ok.injEq, exists_and_left, exists_eq_left']
      split_ifs with hempty
      · -- Documentation without lines is no reference.
        refine iff_of_false (by simp) ?_
        rintro ⟨-, t, ⟨reference, target, hreference, -⟩, -⟩
        rw [hempty] at hreference
        contradiction
      · rw [(Reference.resolve_outcome _ _ docs).2]
        refine and_congr_right fun _ => ⟨?_, ?_⟩
        · rintro (⟨t, ht, hfile⟩ | ⟨-, hsame⟩)
          · exact ⟨t, ht, Docstring.ofFile_eq_empty.1 hfile.symm⟩
          · exact absurd hsame.symm hempty
        · rintro ⟨t, ht, hnewlines⟩
          exact .inl ⟨t, ht, (Docstring.ofFile_eq_empty.2 hnewlines).symm⟩

/-! ## Requests for a function -/

/-- A request that has a function looked up succeeds without a line of documentation just if the
function refers to a file with nothing in it. If the function has no documentation at all, and only
then, this is reported, and a run that collects it prints nothing and ends with status 1. -/
theorem collect_documented (hasked : s.asked? r = some n) (hlookup : (s.lookup n).result = .ok d) :
    (∀ docs name, (s.collect r).result = .ok (docs, name) →
      (docs.lines = [] ↔ s.RefersToNothing d)) ∧
    (s.RefersToNothing d → (s.collect r).result = .ok (.empty, some n)) ∧
    ((s.collect r).result = .error (.undocumented n) ↔
      (d.documentation s.renderer).result = .ok .empty) ∧
    ∀ w a definitions, Prepares w a definitions s → r = ⟨a.words, a.function⟩ →
      (d.documentation s.renderer).result = .ok .empty →
      (outcome w a.verbose (compose w a definitions >>= present w.terminal)).status = 1 := by
  have hresult := result_collect hasked hlookup
  have hmissing : (s.collect r).result = .error (.undocumented n) ↔
      (d.documentation s.renderer).result = .ok .empty := by
    rw [← result_documentation_eq_undocumented (n := n), hresult]
    cases (s.documentation n d).result <;> simp [Except.map]
  refine ⟨fun docs name hok => ?_, fun hnothing => ?_, hmissing, ?_⟩
  · rw [hresult] at hok
    rw [← result_documentation_eq_empty (n := n)]
    cases hdocs : (s.documentation n d).result with
    | error failure =>
        rw [hdocs] at hok
        contradiction
    | ok found =>
        rw [hdocs] at hok
        obtain ⟨rfl, -⟩ := Prod.mk.inj (Except.ok.inj hok)
        obtain ⟨lines⟩ := found
        simp [Docstring.empty]
  · rw [hresult, result_documentation_eq_empty.2 hnothing]
    rfl
  · rintro w a definitions hprepares rfl hempty
    have hfail := hprepares.result_compose (hmissing.2 hempty)
    rw [Traced.bind_of_error hfail]
    rfl

/-- A function that refers to an empty file. -/
def unwrittenSources : Sources where
  disk :=
    { tree := { entries := [(["w"], .directory), (["w", "e.md"], .file [])] }
      cwd := ["w"]
      user := "/" }
  shell := fun _ => .missing
  provider := .catalog (.ofText "f () \n\x7b \n    : cat e.md;\n\x7d\n")
  renderer := "docsh"
  input := []

def unwritten : Definition := ⟨"f", ["f () ", "\x7b ", "    : cat e.md;", ['\x7d']]⟩

theorem collect_documented_unwritten :
    unwrittenSources.RefersToNothing unwritten ∧
      (unwrittenSources.collect ⟨[], none⟩).result = .ok (.empty, some "f") := by
  have hasked : unwrittenSources.asked? ⟨[], none⟩ = some "f" := by decide
  have hlookup : (unwrittenSources.lookup "f").result = .ok unwritten := rfl
  have hdocs : (unwritten.documentation unwrittenSources.renderer).result =
      .ok ⟨["cat e.md"]⟩ := by cbv
  have hreference : Reference.reference? ⟨["cat e.md"]⟩ = some "e.md" := by decide
  have htarget : Reference.target unwrittenSources.disk none "e.md" =
      .ok ⟨['/'], ["w", "e.md"]⟩ :=
    Config.eq_ok_of_toOption (by decide +kernel)
  have hnothing : unwrittenSources.RefersToNothing unwritten := by
    refine ⟨⟨["cat e.md"]⟩, [], hdocs, fun cause hcause => ?_,
      ⟨"e.md", _, hreference, htarget, [], [], rfl, rfl, rfl⟩, by simp⟩
    obtain hlost | ⟨path, hfound, hname, -⟩ := (Reference.overlooked_iff hreference).1 hcause
    · rw [htarget] at hlost
      contradiction
    · obtain rfl := Except.ok.inj (htarget.symm.trans hfound)
      revert hname
      decide
  exact ⟨hnothing, (collect_documented hasked hlookup).2.1 hnothing⟩

end Sources

end Command

end ShellDocs
