import ShellDocs.Proofs.Config.Accepted
import ShellDocs.Proofs.Files.Spelling
import ShellDocs.Proofs.Traced
import ShellDocs.Reference

/-!
# What resolving a reference can come to

Documentation that is one reference is replaced by what its file holds, and every other is left
alone, so resolving it is not meant to fail. A file that cannot be read is no failure either; what
is overlooked are the ways in which a path leads to no file that could be read or not. `Overlooked`
lists them, and `resolve_outcome` says that there are no others and what the documentation is
otherwise.
-/

namespace ShellDocs.Reference

/-- The path in documentation that is a reference and nothing else. -/
def reference? (docs : Docstring) : Option Text :=
  match docs.lines with
  | [line] => path? line
  | _ => none

/-- The file at a path holds a text, which is read with uniform line ends. -/
def HoldsText (d : Disk) (path t : Text) : Prop :=
  ∃ bytes text, d.readBytes path = .ok bytes ∧ Utf8.decode bytes = .ok text ∧
    t = Text.uniformNewlines text

/-- The documentation is a reference to a file that holds a text. -/
def LeadsTo (d : Disk) (base : Option Path) (docs : Docstring) (t : Text) : Prop :=
  ∃ reference path, reference? docs = some reference ∧ target d base reference = .ok path ∧
    HoldsText d path.toText t

/-- The causes that end the resolution of a reference. -/
inductive Overlooked (d : Disk) (base : Option Path) (docs : Docstring) : Escape → Prop where
  /-- The path starts at the home directory of a user that does not exist. -/
  | user {reference : Text} : reference? docs = some reference →
      Path.NamesUnknown d.user reference → Overlooked d base docs .unknownUser
  /-- The path starts at the home directory of a user that cannot even be looked up. -/
  | nobody {reference : Text} : reference? docs = some reference →
      Path.NamesNobody d.user reference → Overlooked d base docs .badPath
  /-- The path is relative, and there is no directory from which it could be seen. -/
  | lost {reference : Text} {q : Path} : reference? docs = some reference →
      d.expandHome (.ofText reference) = .ok q → q.isAbsolute = false → base = none →
      d.hasCwd = false → Overlooked d base docs .unanswered
  /-- No file can have the path. -/
  | unnamed {reference : Text} {path : Path} : reference? docs = some reference →
      target d base reference = .ok path → d.user.canName path.toText = false →
      Overlooked d base docs .badPath

variable {d : Disk} {base : Option Path} {docs found : Docstring} {reference t : Text}
  {cause : Escape}

/-! ## Reading a file -/

/-- The documentation in a file that can be read. -/
def docsAt? (d : Disk) (path : Text) : Option Docstring := (readFile d path).toOption

theorem docsAt?_eq_some {path : Text} :
    docsAt? d path = some found ↔ ∃ t, HoldsText d path t ∧ found = Docstring.ofFile t := by
  simp only [docsAt?, readFile, HoldsText]
  cases hbytes : d.readBytes path with
  | error fault => simp [Except.toOption]
  | ok bytes =>
      cases htext : Utf8.decode bytes with
      | error fault => simp [Except.toOption, htext]
      | ok text => simp [Except.toOption, htext, eq_comm]

theorem docsAt?_eq_none {path : Text} : docsAt? d path = none ↔ ∀ t, ¬ HoldsText d path t := by
  rw [Option.eq_none_iff_forall_ne_some]
  refine ⟨fun h t ht => h _ (docsAt?_eq_some.2 ⟨t, ht, rfl⟩), fun h found hfound => ?_⟩
  obtain ⟨t, ht, -⟩ := docsAt?_eq_some.1 hfound
  exact h t ht

/-! ## The file of a reference -/

/-- A reference leads to a file unless no home directory can be put in, or its path is relative and
there is no directory to see it from. -/
theorem target_eq_error : target d base reference = .error cause ↔
    d.expandHome (.ofText reference) = .error cause ∨
      ∃ q, d.expandHome (.ofText reference) = .ok q ∧ q.isAbsolute = false ∧ base = none ∧
        d.hasCwd = false ∧ cause = .unanswered := by
  rw [target, Config.bind_eq_error]
  refine or_congr Iff.rfl (exists_congr fun q => and_congr_right fun _ => ?_)
  cases habsolute : q.isAbsolute with
  | true => simp [Pure.pure, Except.pure]
  | false =>
      cases base with
      | some base => simp [Bind.bind, Except.bind, Pure.pure, Except.pure]
      | none =>
          cases hcwd : d.hasCwd <;>
            simp [Disk.currentDirectory, hcwd, Bind.bind, Except.bind, Pure.pure, Except.pure,
              eq_comm]

/-- The path of the file is the one that is read, with home directories put in, as seen from the
base or the current directory. -/
theorem exists_of_target {path : Path} (h : target d base reference = .ok path) :
    ∃ q, d.expandHome (.ofText reference) = .ok q ∧
      path = (base.getD ⟨['/'], d.cwd⟩).append q := by
  obtain ⟨q, hq, h⟩ := Config.bind_eq_ok.1 h
  refine ⟨q, hq, ?_⟩
  cases habsolute : q.isAbsolute with
  | true =>
      rw [habsolute, if_pos rfl] at h
      rw [Path.append, habsolute, if_pos rfl]
      exact (Except.ok.inj h).symm
  | false =>
      rw [habsolute, if_neg Bool.false_ne_true] at h
      cases base with
      | some base => exact (Except.ok.inj h).symm
      | none =>
          obtain ⟨seen, hseen, h⟩ := Config.bind_eq_ok.1 h
          simp only [Disk.currentDirectory] at hseen
          split_ifs at hseen
          obtain rfl := Except.ok.inj hseen
          exact (Except.ok.inj h).symm

/-! ## Resolving -/

/-- Documentation that is no reference is left alone. -/
theorem resolveFrom_of_none (h : reference? docs = none) : resolveFrom d base docs = pure docs := by
  unfold resolveFrom
  split
  · next line hlines =>
      have hpath : path? line = none := by simpa [reference?, hlines] using h
      rw [hpath]
  · rfl

/-- Reading a reference comes to reading its file, if a file can have its path. -/
theorem result_readFrom : (readFrom d base reference).result =
    match target d base reference with
    | .error cause => .error (.escape cause)
    | .ok path =>
        if d.user.canName path.toText then
          (readFile d path.toText).mapError (.unreadableDocs path.toText)
        else .error (.escape .badPath) := by
  rw [readFrom]
  cases target d base reference with
  | error cause => rfl
  | ok path =>
      cases hname : d.user.canName path.toText with
      | false => simp [hname, Traced.fail]
      | true =>
          cases hread : readFile d path.toText <;> simp [hname, hread] <;> rfl

/-- A reference is replaced by the documentation in its file, if that can be read. -/
theorem result_resolveFrom (h : reference? docs = some reference) :
    (resolveFrom d base docs).result =
      match target d base reference with
      | .error cause => .error (.escape cause)
      | .ok path =>
          if d.user.canName path.toText then .ok ((docsAt? d path.toText).getD docs)
          else .error (.escape .badPath) := by
  unfold resolveFrom
  split
  · next line hlines =>
      have hpath : path? line = some reference := by simpa [reference?, hlines] using h
      simp only [hpath, Traced.result_orElse, result_readFrom]
      cases target d base reference with
      | error cause => rfl
      | ok path =>
          simp only [docsAt?]
          split_ifs
          · cases readFile d path.toText <;> rfl
          · rfl
  · next hlines =>
      have hnone : reference? docs = none := by
        unfold reference?
        split
        · next line hline => exact absurd hline (hlines line)
        · rfl
      rw [hnone] at h
      cases h

/-! ## Outcomes -/

/-- What is overlooked of a reference is that it leads to no file, or that none can have its
path. -/
theorem overlooked_iff (h : reference? docs = some reference) :
    Overlooked d base docs cause ↔ target d base reference = .error cause ∨
      ∃ path, target d base reference = .ok path ∧ d.user.canName path.toText = false ∧
        cause = .badPath := by
  rw [target_eq_error, Disk.expandHome_eq_error]
  constructor
  · intro hcause
    cases hcause with
    | user hreference huser =>
        obtain rfl := Option.some.inj (hreference.symm.trans h)
        exact .inl (.inl (.inr ⟨huser, rfl⟩))
    | nobody hreference huser =>
        obtain rfl := Option.some.inj (hreference.symm.trans h)
        exact .inl (.inl (.inl ⟨huser, rfl⟩))
    | lost hreference hq habsolute hbase hcwd =>
        obtain rfl := Option.some.inj (hreference.symm.trans h)
        exact .inl (.inr ⟨_, hq, habsolute, hbase, hcwd, rfl⟩)
    | unnamed hreference hpath hname =>
        obtain rfl := Option.some.inj (hreference.symm.trans h)
        exact .inr ⟨_, hpath, hname, rfl⟩
  · rintro (((⟨huser, rfl⟩ | ⟨huser, rfl⟩) | ⟨q, hq, habsolute, hbase, hcwd, rfl⟩) |
      ⟨path, hpath, hname, rfl⟩)
    · exact .nobody h huser
    · exact .user h huser
    · exact .lost h hq habsolute hbase hcwd
    · exact .unnamed h hpath hname

theorem leadsTo_iff {path : Path} (h : reference? docs = some reference)
    (hpath : target d base reference = .ok path) :
    LeadsTo d base docs t ↔ HoldsText d path.toText t := by
  refine ⟨?_, fun ht => ⟨reference, path, h, hpath, ht⟩⟩
  rintro ⟨other, path', hother, hpath', ht⟩
  obtain rfl := Option.some.inj (hother.symm.trans h)
  obtain rfl := Except.ok.inj (hpath'.symm.trans hpath)
  exact ht

/-- Resolving fails exactly with a cause that is overlooked. It gives the documentation in the file
that is referred to, or the documentation itself if it is no reference to a file with a text. -/
theorem resolve_outcome (d : Disk) (base : Option Path) (docs : Docstring) :
    (∀ failure, (resolveFrom d base docs).result = .error failure ↔
      ∃ cause, failure = .escape cause ∧ Overlooked d base docs cause) ∧
    ∀ found, (resolveFrom d base docs).result = .ok found ↔
      (∀ cause, ¬ Overlooked d base docs cause) ∧
        ((∃ t, LeadsTo d base docs t ∧ found = Docstring.ofFile t) ∨
          (∀ t, ¬ LeadsTo d base docs t) ∧ found = docs) := by
  cases hreference : reference? docs with
  | none =>
      have hcause (cause : Escape) : ¬ Overlooked d base docs cause := by
        intro h
        cases h <;> simp_all
      have hfile (t : Text) : ¬ LeadsTo d base docs t := by
        rintro ⟨reference, -, h, -⟩
        simp_all
      rw [resolveFrom_of_none hreference]
      simp [hcause, hfile, Pure.pure, Traced.pure, eq_comm]
  | some reference =>
      simp only [result_resolveFrom hreference, overlooked_iff hreference]
      cases hpath : target d base reference with
      | error cause => simpa using fun failure => eq_comm
      | ok path =>
          simp only [leadsTo_iff hreference hpath, ← docsAt?_eq_some, ← docsAt?_eq_none]
          cases hname : d.user.canName path.toText with
          | false => simpa [hname] using fun failure => eq_comm
          | true =>
              cases docsAt? d path.toText with
              | none => simpa [hname] using fun found => eq_comm
              | some docs => simp [hname]

/-- A process in an empty directory that knows of one other user. -/
def guest : Disk where
  tree := { entries := [(["u"], .directory), (["u", "x"], .file (Utf8.encode "Hello\n"))] }
  cwd := []
  user := { home := "/", others := [("root", "/u")] }

/-- The file of a user that is known is read, and that of an unknown one ends the resolution, where
the line should stand for itself. -/
theorem resolve_outcome_guest :
    (resolveFrom guest none ⟨["cat ~root/x"]⟩).result = .ok ⟨["Hello"]⟩ ∧
      (resolveFrom guest none ⟨["cat ~nosuchuser/x"]⟩).result = .error (.escape .unknownUser) := by
  constructor
  · have hreference : reference? ⟨["cat ~root/x"]⟩ = some "~root/x" := by decide +kernel
    have hpath : target guest none "~root/x" = .ok ⟨"/", ["u", "x"]⟩ :=
      Config.eq_ok_of_toOption (by decide +kernel)
    refine ((resolve_outcome guest none _).2 _).2 ⟨fun cause hcause => ?_,
      .inl ⟨"Hello\n", ⟨_, _, hreference, hpath, _, "Hello\n", rfl, ?_, rfl⟩, rfl⟩⟩
    · rw [overlooked_iff hreference, hpath] at hcause
      obtain herror | ⟨path, hok, hname, -⟩ := hcause
      · contradiction
      · obtain rfl := Except.ok.inj hok
        revert hname
        decide
    · exact Config.eq_ok_of_toOption (by decide +kernel)
  · have hreference : reference? ⟨["cat ~nosuchuser/x"]⟩ = some "~nosuchuser/x" := by
      decide +kernel
    have huser : Path.NamesUnknown guest.user "~nosuchuser/x" :=
      ⟨"nosuchuser", [['x']], by decide +kernel, by decide +kernel, fun home hhome => nomatch hhome⟩
    exact ((resolve_outcome guest none _).1 _).2 ⟨_, rfl, .user hreference huser⟩

end ShellDocs.Reference
