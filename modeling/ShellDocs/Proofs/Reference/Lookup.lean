import ShellDocs.Proofs.Command.Lookup
import ShellDocs.Proofs.Files.Spelling
import ShellDocs.Proofs.Reference.Outcome
import ShellDocs.Proofs.Reference.Written

/-!
# Looking up a function that refers to a file

A function whose only documentation is a reference is looked up with the documentation in the file,
or with the text of the reference if there is no such documentation. `collect_reference` says so
for every reference that can be written, and when the lookup ends otherwise. Which file it is
depends on how the path is read: not always it is the file at the path as it is written, and a path
that is read as one of an unknown user's files ends the lookup.
-/

namespace ShellDocs

namespace Reference

variable {d : Disk} {t : Text} {path : Path} {cause : Escape}

/-- The documentation of a function that refers to the file at a path. -/
def Written.docs (w : Written) (d : Disk) (path : Text) : Docstring :=
  (docsAt? d path).getD ⟨[w.text]⟩

theorem docsAt?_congr {here there : Text} (h : d.seek here = d.seek there) :
    docsAt? d here = docsAt? d there := by
  ext found
  simp only [docsAt?_eq_some, HoldsText, Disk.readBytes_eq_ok, h]

/-- Documentation is found at a path only if it ends in a step and the system takes it. -/
theorem of_docsAt?_ne_none (h : docsAt? d t ≠ none) : Path.EndsInStep t ∧ d.Takes t := by
  obtain ⟨found, hfound⟩ := Option.ne_none_iff_exists'.1 h
  obtain ⟨-, ⟨bytes, -, hread, -⟩, -⟩ := docsAt?_eq_some.1 hfound
  refine ⟨not_not.1 fun hends => Disk.readBytes_ne_ok hends bytes hread, ?_⟩
  obtain ⟨l, hseek, -⟩ := Disk.readBytes_eq_ok.1 hread
  exact .of_reach hseek

/-- The file of a reference is read as its path is spelled, if nothing is lost of the path. -/
theorem docsAt?_target (hcwd : d.Reaches d.cwd) (htilde : Path.TildeFirst t)
    (hends : Path.EndsInStep (Path.expandHomeText d.user t))
    (hspelled : d.Takes (Path.expandHomeText d.user t)) (hread : d.Takes path.toText)
    (h : target d none t = .ok path) :
    docsAt? d path.toText = docsAt? d (Path.expandHomeText d.user t) := by
  obtain ⟨q, hq, rfl⟩ := exists_of_target h
  obtain ⟨-, hq⟩ := Disk.expandHome_eq_ok.1 hq
  exact docsAt?_congr (Disk.seek_expandHome? hcwd hends htilde hq hspelled hread)

/-- Files can have the path that a reference leads to, if they can have the one that it names and
those that home directories and the current directory have. -/
theorem canName_target (ht : d.user.canName t = true) (hhomes : d.user.HomesNamed)
    (hcwd : ∀ part ∈ d.cwd, d.user.canName part = true) (h : target d none t = .ok path) :
    d.user.canName path.toText = true := by
  obtain ⟨q, hq, rfl⟩ := exists_of_target h
  obtain ⟨-, hq⟩ := Disk.expandHome_eq_ok.1 hq
  have hnamed : Path.Named d.user q := (Path.named_ofText ht).expandHome? hhomes hq
  have hrooted : q.Rooted := (Path.rooted_ofText t).expandHome? hq
  have hhere : Path.Named d.user ⟨['/'], d.cwd⟩ := hcwd
  exact (hhere.append hnamed).canName_toText (Path.Rooted.append (.inr (.inl rfl)) hrooted)

/-- All that is overlooked of a reference in an existing directory is an unknown user, if files can
have all the paths. -/
theorem overlooked_iff_of_canName {docs : Docstring} (hreference : reference? docs = some t)
    (ht : d.user.canName t = true) (hhomes : d.user.HomesNamed) (hhere : d.hasCwd = true)
    (hcwd : ∀ part ∈ d.cwd, d.user.canName part = true) :
    Overlooked d none docs cause ↔ Path.NamesUnknown d.user t ∧ cause = .unknownUser := by
  constructor
  · intro h
    cases h with
    | user hother huser =>
        obtain rfl := Option.some.inj (hother.symm.trans hreference)
        exact ⟨huser, rfl⟩
    | nobody hother huser =>
        obtain rfl := Option.some.inj (hother.symm.trans hreference)
        obtain ⟨name, rest, hparts, hname⟩ := huser
        have hfirst : d.user.canName ('~' :: name) = true :=
          Path.named_ofText ht _ (by rw [hparts]; exact List.mem_cons_self)
        have hall : d.user.canName name = true := (Bool.and_eq_true_iff.1 hfirst).2
        rw [hname] at hall
        contradiction
    | lost _ _ _ _ hlost => simp [hhere] at hlost
    | unnamed hother hpath hname =>
        obtain rfl := Option.some.inj (hother.symm.trans hreference)
        simp [canName_target ht hhomes hcwd hpath] at hname
  · rintro ⟨huser, rfl⟩
    exact .user hreference huser

end Reference

namespace Command.Sources

open Reference (Site Overlooked target docsAt?)

variable {s : Sources} {r : Request} {name : Text} {d : Definition} {site : Site}

/-- The documentation of a function that refers to a file is what the reference is resolved to. -/
theorem result_documentation (hrenderer : s.renderer = "docsh") (hbody : d.body = site.body) :
    (s.documentation name d).result =
      (Reference.resolveFrom s.disk none ⟨[site.reference.text]⟩).result := by
  have hdocs : (d.documentation s.renderer).result = .ok ⟨[site.reference.text]⟩ := by
    rw [hrenderer]
    exact site.documentation hbody
  rw [documentation, Traced.bind_of_ok hdocs]
  rfl

/-- Looking up a function that refers to a file fails just if something is overlooked of the
reference, which is only an unknown user that the path starts with, if files can have all the paths
and the current directory exists. Otherwise it gives the documentation in the file, or the text of
the reference if it cannot be read. This is the file at the path as it is spelled, unless something
stands before a tilde; only a path that does not end in a step, or is too long, and so leads to no
file as it is spelled, may be read as that of a file. -/
theorem collect_reference (hrenderer : s.renderer = "docsh") (hasked : s.asked? r = some name)
    (hlookup : (s.lookup name).result = .ok d) (hbody : d.body = site.body) :
    let w := site.reference
    let spelled := Path.expandHomeText s.disk.user w.path
    (∀ failure, (s.collect r).result = .error failure ↔
      ∃ cause, failure = .escape cause ∧ Overlooked s.disk none ⟨[w.text]⟩ cause) ∧
    (s.disk.user.canName w.path = true → s.disk.user.HomesNamed → s.disk.hasCwd = true →
      (∀ part ∈ s.disk.cwd, s.disk.user.canName part = true) →
      ∀ cause, Overlooked s.disk none ⟨[w.text]⟩ cause ↔
        Path.NamesUnknown s.disk.user w.path ∧ cause = .unknownUser) ∧
    ∀ path, target s.disk none w.path = .ok path → s.disk.user.canName path.toText = true →
      (s.collect r).result = .ok (w.docs s.disk path.toText, some name) ∧
      (Path.TildeFirst w.path → s.disk.Reaches s.disk.cwd → s.disk.Takes path.toText →
        ((s.collect r).result = .ok (w.docs s.disk spelled, some name) ↔
          (Path.EndsInStep spelled ∧ s.disk.Takes spelled) ∨
            w.docs s.disk path.toText = ⟨[w.text]⟩)) := by
  intro w spelled
  have hreference : Reference.reference? ⟨[w.text]⟩ = some w.path := w.path?_text
  have hresult := result_collect hasked hlookup
  rw [result_documentation hrenderer hbody] at hresult
  refine ⟨fun failure => ?_, fun hpath hhomes hhere hnames cause => ?_,
    fun path htarget hname => ?_⟩
  · have hfails := (Reference.resolve_outcome s.disk none ⟨[w.text]⟩).1 failure
    rw [hresult, ← hfails]
    cases (Reference.resolveFrom s.disk none ⟨[w.text]⟩).result <;> simp [Except.map]
  · exact Reference.overlooked_iff_of_canName hreference hpath hhomes hhere hnames
  · have hok : (s.collect r).result = .ok (w.docs s.disk path.toText, some name) := by
      rw [hresult, Reference.result_resolveFrom hreference, htarget]
      simp only [hname, if_true]
      rfl
    refine ⟨hok, fun htilde hcwd hread => ?_⟩
    rw [hok]
    by_cases hspelled : Path.EndsInStep spelled ∧ s.disk.Takes spelled
    · have hsame := Reference.docsAt?_target hcwd htilde hspelled.1 hspelled.2 hread htarget
      simp [Reference.Written.docs, hsame, hspelled, spelled]
    · have hnone : docsAt? s.disk spelled = none :=
        not_not.1 fun hfound => hspelled (Reference.of_docsAt?_ne_none hfound)
      have hdocs : w.docs s.disk spelled = ⟨[w.text]⟩ := by rw [Reference.Written.docs, hnone]; rfl
      simp [hdocs, hspelled]

/-- A reference, after an empty line, to a file whose name holds a blank. -/
def notesSite : Site where
  guard := none
  blanks := [""]
  void := List.forall_mem_singleton.2 rfl
  lead := .bare (.ofText "    " rfl)
  gap := ⟨[' '], List.cons_ne_nil _ _, List.forall_mem_singleton.2 rfl⟩
  reference :=
    { command := "docsh"
      known := .head _
      gap := ⟨[' '], List.cons_ne_nil _ _, List.forall_mem_singleton.2 rfl⟩
      quote := some .single
      path := "my notes.md"
      ne_nil := List.cons_ne_nil _ _
      newline_free := by decide
      head_unquoted := fun _ h => Option.some.inj h ▸ rfl
      last_unquoted := fun _ h => Option.some.inj h ▸ rfl
      bare := nofun }
  semicolon := true
  tail := ["    return"]
  silent := by decide
  ended := nofun

/-- The printout of a function with this reference. -/
def notesPrintout : Text :=
  "f () \n\x7b \n\n    : docsh \x27my notes.md\x27;\n    return\n\x7d\n"

/-- A shell that knows the function, and the file in the current directory. -/
def notesSources : Sources where
  disk :=
    { tree := { entries := [(["w"], .directory),
        (["w", "my notes.md"], .file (Utf8.encode "Hello\nWorld\n"))] }
      cwd := ["w"]
      user := "/" }
  shell := fun _ => .finished 0 notesPrintout
  provider := .shell ⟨[], (.text "bash" : Toml.Value), .int 10⟩
  renderer := "docsh"
  input := []

theorem collect_reference_notes :
    (notesSources.collect ⟨["f"], none⟩).result = .ok (⟨["Hello", "World"]⟩, some "f") := by
  have hasked : notesSources.asked? ⟨["f"], none⟩ = some "f" := by decide +kernel
  have hlookup : (notesSources.lookup "f").result = .ok (.ofText notesPrintout (some "f")) := rfl
  have hbody : (Definition.ofText notesPrintout (some "f")).body = notesSite.body := by
    decide +kernel
  have htarget : target notesSources.disk none notesSite.reference.path =
      .ok ⟨['/'], ["w", "my notes.md"]⟩ :=
    Config.eq_ok_of_toOption (by decide +kernel)
  have hdocs : notesSite.reference.docs notesSources.disk "/w/my notes.md" =
      ⟨["Hello", "World"]⟩ := by decide +kernel
  obtain ⟨-, -, hfound⟩ := collect_reference rfl hasked hlookup hbody
  rw [← hdocs]
  exact (hfound _ htarget (by decide +kernel)).1

end Command.Sources

end ShellDocs
