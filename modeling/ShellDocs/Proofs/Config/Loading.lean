import Mathlib.Data.List.Basic
import ShellDocs.Config.Store
import ShellDocs.Proofs.Config.Accepted
import ShellDocs.Proofs.Files.Disk
import ShellDocs.Proofs.Files.Unlinked
import ShellDocs.Proofs.Text.Utf8
import ShellDocs.Proofs.Traced

/-!
# What loading a configuration can come to

Loading is meant to give a configuration or to report a configuration fault. Of the steps that it
takes, only opening the file and reading it as TOML report what goes wrong; a path that cannot be
looked for, bytes that are no text, a reader that ends for another cause than the form of the text,
and settings without members end the program instead. `Overlooked` lists these causes by what the
disk, the environment, the reader and the file are like, and `load_escape_iff` says that there are
no others: loading ends in a cause just if it is overlooked, and it gives a configuration or reports
a fault just if none is.
-/

namespace ShellDocs.Config

open Toml (Value Table)

/-- The path that is given for the configuration file: in the call, or else in the environment. -/
def givenPath? (e : Environment) (asked : Option Text) : Option Text :=
  asked.filter (!·.isEmpty) <|> e.configFile?

/-- What the check demands of settings, in its order, with the faults of those that do not meet
it. -/
def demands (c : Config) : List (Bool × ConfigFault) :=
  [(isIndent c.indent, .indent c.indent), (isSwitch c.pager, .pager c.pager),
    (isColorMode c.color, .color c.color),
    ((c.headingWords.members?.getD []).all isWord, .headingWords),
    ((c.libraryFiles.members?.getD []).all isText, .libraryFiles),
    (isWord c.rendererName, .rendererName),
    (isTimeout c.shellTimeout, .shellTimeout c.shellTimeout)]

/-- The fault of the first demand that is not met. -/
def firstFault? (demands : List (Bool × ConfigFault)) : Option ConfigFault :=
  (demands.find? (!·.1)).map (·.2)

/-- Whether the wording of a fault shows a value with an integer of too many digits. -/
def Unshown (fault : ConfigFault) : Prop := ∃ v, shown? fault = some v ∧ v.holdsLong = true

/-- Whether the file at a path holds a text. -/
def HoldsText (d : Disk) (p : Path) (t : Text) : Prop :=
  ∃ bytes, d.readBytes p.toText = .ok bytes ∧ Utf8.decode bytes = .ok t

/-- The causes that end loading without a report. -/
inductive Overlooked (lib : Toml.Library) (d : Disk) (e : Environment) (asked : Option Text) :
    Escape → Prop where
  /-- The path starts at the home directory of a user that has none. -/
  | user {t : Text} : givenPath? e asked = some t → Path.NamesUnknown d.user t →
      Overlooked lib d e asked .unknownUser
  /-- The path starts with a tilde and a text that is the name of no user. -/
  | nobody {t : Text} : givenPath? e asked = some t → Path.NamesNobody d.user t →
      Overlooked lib d e asked .badPath
  /-- The path that was asked for is one that no file can have. -/
  | unnamed {t : Text} {p : Path} : asked.filter (!·.isEmpty) = some t →
      expandHome d t = .ok p → d.user.canName p.toText = false →
      Overlooked lib d e asked .badPath
  /-- The system cannot tell where the path that was asked for leads. -/
  | lost {t : Text} {p : Path} : asked.filter (!·.isEmpty) = some t →
      expandHome d t = .ok p → d.user.canName p.toText = true → d.Lost p →
      Overlooked lib d e asked .unanswered
  /-- The system cannot tell whether the file is there: a name is too long, or a directory may not
  be entered. -/
  | untold {p : Path} {fault : FileFault} : savePath d e asked = .ok p →
      d.exists? p.toText = .error fault → Overlooked lib d e asked .unanswered
  /-- The file is no text. -/
  | encoding {p : Path} {bytes : Bytes} {fault : Utf8.Fault} : savePath d e asked = .ok p →
      d.readBytes p.toText = .ok bytes → Utf8.decode bytes = .error fault →
      Overlooked lib d e asked .badEncoding
  /-- The reader ends for another cause than the form of the text. -/
  | reader {p : Path} {t : Text} {cause : Escape} : savePath d e asked = .ok p →
      HoldsText d p t → lib.read t = .error (.other cause) → Overlooked lib d e asked cause
  /-- A setting that must have members has none. -/
  | members {p : Path} {t : Text} {table : Table} : savePath d e asked = .ok p →
      HoldsText d p t → lib.read t = .ok table →
      (given table).headingWords.members? = none ∨ (given table).libraryFiles.members? = none →
      Overlooked lib d e asked .wrongType
  /-- The setting that is refused holds a number that cannot be shown. -/
  | unshown {p : Path} {t : Text} {table : Table} {fault : ConfigFault} :
      savePath d e asked = .ok p → HoldsText d p t → lib.read t = .ok table →
      (given table).headingWords.members?.isSome → (given table).libraryFiles.members?.isSome →
      firstFault? (given table).demands = some fault → Unshown fault →
      Overlooked lib d e asked .longNumber

variable {lib : Toml.Library} {d : Disk} {e : Environment} {asked : Option Text} {p : Path}
  {t : Text} {f : Failure} {cause : Escape}

/-! ## Paths -/

theorem escaping_eq_error {α : Type} {r : Except Escape α} :
    escaping r = .error f ↔ ∃ cause, r = .error cause ∧ f = .escape cause := by
  cases r <;> simp [escaping, Except.mapError, eq_comm]

theorem escaping_eq_ok {α : Type} {r : Except Escape α} {a : α} :
    escaping r = .ok a ↔ r = .ok a := by
  cases r <;> simp [escaping, Except.mapError]

theorem expandHome_eq_ok : expandHome d t = .ok p ↔
    ¬ Path.NamesNobody d.user t ∧ (Path.ofText t).expandHome? d.user = some p := by
  rw [expandHome, escaping_eq_ok, Disk.expandHome_eq_ok]

theorem expandHome_eq_error : expandHome d t = .error f ↔
    Path.NamesNobody d.user t ∧ f = .escape .badPath ∨
      Path.NamesUnknown d.user t ∧ f = .escape .unknownUser := by
  simp only [expandHome, escaping_eq_error, Disk.expandHome_eq_error, or_and_right, exists_or,
    and_assoc, exists_and_left, exists_eq_left]

theorem askedPath_eq_error : askedPath d t = .error f ↔
    expandHome d t = .error f ∨
      ∃ p, expandHome d t = .ok p ∧
        (d.user.canName p.toText = false ∧ f = .escape .badPath ∨
          d.user.canName p.toText = true ∧ d.Lost p ∧ f = .escape .unanswered) := by
  simp only [askedPath, bind_eq_error, escaping_eq_error, Disk.resolve_eq_error, or_and_right,
    exists_or, and_assoc, exists_and_left, exists_eq_left]

/-- The place of the file is not found just if there is no home directory for its path to start at,
or if the path that was asked for cannot be made absolute. -/
theorem savePath_eq_error : savePath d e asked = .error f ↔
    (∃ t, givenPath? e asked = some t ∧ expandHome d t = .error f) ∨
      ∃ t p, asked.filter (!·.isEmpty) = some t ∧ expandHome d t = .ok p ∧
        (d.user.canName p.toText = false ∧ f = .escape .badPath ∨
          d.user.canName p.toText = true ∧ d.Lost p ∧ f = .escape .unanswered) := by
  simp only [savePath, givenPath?, impliedPath]
  cases asked.filter (!·.isEmpty) with
  | some t => simp [askedPath_eq_error]
  | none =>
      cases e.configFile? with
      | some t => simp
      | none => simp

theorem standsAt_eq_error : standsAt d p = .error f ↔
    (∃ fault, d.exists? p.toText = .error fault) ∧ f = .escape .unanswered := by
  simp only [standsAt]
  split
  · next hb => simp [hb]
  · next hfault => simp [hfault, eq_comm]

/-- Loading looks for the file where it would be saved. Only a file that was asked for must be
there. -/
theorem result_load : (load d e asked lib).result = (do
    let p ← savePath d e asked
    let there ← standsAt d p
    if there then do
      let table ← readTable d p lib
      ofEntries table
    else if (asked.filter (!·.isEmpty)).isSome then .error (.config (.missing p.toText))
    else pure {}) := by
  have hrest (p : Path) (there : Bool) : (if there then do
      let table ← Traced.ofExcept (readTable d p lib)
      Traced.note (.configLoaded p.toText)
      ofTable table
    else do
      Traced.note .configMissing
      pure {}).result =
      if there then readTable d p lib >>= ofEntries else (pure {} : Except Failure Config) := by
    cases there with
    | true => simp only [if_true, Traced.result_bind, result_ofTable]; rfl
    | false => rfl
  simp only [load, Traced.result_bind, hrest]
  simp only [Traced.ofExcept, path, savePath]
  cases asked.filter (!·.isEmpty) with
  | none => rfl
  | some t =>
      simp only [bind_assoc]
      refine bind_congr fun p => ?_
      cases hthere : standsAt d p with
      | error f => rfl
      | ok there =>
          cases there with
          | true => simp only [Bind.bind, Except.bind, if_true, Pure.pure, Except.pure, hthere]
          | false => rfl

/-! ## Files -/

/-- The demands are checked one by one, and the first that is not met decides. -/
theorem forM_require_eq_error {l : List (Bool × ConfigFault)} :
    (forM l fun x => require x.1 x.2) = .error f ↔ ∃ fault, firstFault? l = some fault ∧
      (Unshown fault ∧ f = .escape .longNumber ∨ ¬ Unshown fault ∧ f = .config fault) := by
  induction l with
  | nil => simp [firstFault?, Pure.pure, Except.pure]
  | cons x rest ih =>
      obtain ⟨holds, fault⟩ := x
      rw [List.forM_cons, bind_eq_error, ih]
      cases holds with
      | true => simp [require, firstFault?]
      | false =>
          have hunshown : (shown? fault).any (·.holdsLong) = true ↔ Unshown fault := by
            simp [Option.any_eq_true, Unshown]
          by_cases hlong : Unshown fault
          · simp [require, firstFault?, hunshown.2 hlong, hlong, eq_comm]
          · have hshort := mt hunshown.1 hlong
            simp [require, firstFault?, hshort, hlong, eq_comm]

/-- The check goes through the demands. -/
theorem check_eq_forM {c : Config} {words files : List Value}
    (hwords : c.headingWords.members? = some words)
    (hfiles : c.libraryFiles.members? = some files) :
    check { c with headingWords := .list words, libraryFiles := .list files } =
      forM c.demands fun x => require x.1 x.2 := by
  simp only [check, demands, members_list, hwords, hfiles, List.forM_cons, List.forM_nil,
    Option.getD_some, bind_pure_unit]
  rfl

theorem members_eq_error {v : Value} :
    members v = .error f ↔ v.members? = none ∧ f = .escape .wrongType := by
  simp only [members]
  split
  · next hsome => simp [hsome]
  · next hnone => simp [hnone, eq_comm]

/-- Settings are made a configuration unless one that must have members has none or a demand is
not met. -/
theorem ofEntries_eq_error {table : Table} : ofEntries table = .error f ↔
    ((given table).headingWords.members? = none ∨ (given table).libraryFiles.members? = none) ∧
      f = .escape .wrongType ∨
    (given table).headingWords.members?.isSome ∧ (given table).libraryFiles.members?.isSome ∧
      ∃ fault, firstFault? (given table).demands = some fault ∧
        (Unshown fault ∧ f = .escape .longNumber ∨ ¬ Unshown fault ∧ f = .config fault) := by
  have hsteps : ofEntries table = members (given table).headingWords >>= fun words =>
      members (given table).libraryFiles >>= fun files =>
        let c := { given table with headingWords := .list words, libraryFiles := .list files }
        check c >>= fun _ => .ok c := rfl
  simp only [hsteps, bind_eq_error, members_eq_ok, members_eq_error, ← forM_require_eq_error]
  generalize given table = c
  cases hwords : c.headingWords.members? with
  | none => simp
  | some words =>
      cases hfiles : c.libraryFiles.members? with
      | none => simp
      | some files => simp [← check_eq_forM hwords hfiles]

theorem readTable_eq_ok {table : Table} :
    readTable d p lib = .ok table ↔ ∃ t, HoldsText d p t ∧ lib.read t = .ok table := by
  simp only [readTable, HoldsText]
  split
  · next hread => simp [hread]
  · next bytes hread =>
      split
      · next hdecode => simp [hread, hdecode]
      · next text hdecode =>
          cases htable : lib.read text <;> simp [hread, hdecode, htable, Except.mapError]

theorem readTable_eq_error : readTable d p lib = .error f ↔
    (∃ fault, d.readBytes p.toText = .error fault ∧ f = .config (.unreadable fault)) ∨
    (∃ bytes fault, d.readBytes p.toText = .ok bytes ∧ Utf8.decode bytes = .error fault ∧
      f = .escape .badEncoding) ∨
    ∃ t refusal, HoldsText d p t ∧ lib.read t = .error refusal ∧ f = refused refusal := by
  simp only [readTable, HoldsText]
  split
  · next hread => simp [hread, @eq_comm _ f]
  · next bytes hread =>
      split
      · next hdecode => simp [hread, hdecode, @eq_comm _ f]
      · next text hdecode =>
          cases htable : lib.read text <;>
            simp [hread, hdecode, htable, Except.mapError, @eq_comm _ f]

/-! ## Loading -/

/-- Whatever is read from a file stands there. -/
theorem standsAt_of_readBytes {bytes : Bytes} (h : d.readBytes p.toText = .ok bytes) :
    standsAt d p = .ok true := by
  obtain ⟨l, hseek, -⟩ := Disk.readBytes_eq_ok.1 h
  simp only [standsAt, Disk.exists?, Disk.ask, hseek]

/-- Loading fails in one of its steps, or because a file that was asked for is missing. -/
theorem result_load_eq_error : (load d e asked lib).result = .error f ↔
    savePath d e asked = .error f ∨ ∃ p, savePath d e asked = .ok p ∧
      (standsAt d p = .error f ∨
        standsAt d p = .ok true ∧
          (readTable d p lib = .error f ∨ ∃ table, readTable d p lib = .ok table ∧
            ofEntries table = .error f) ∨
        standsAt d p = .ok false ∧ (asked.filter (!·.isEmpty)).isSome ∧
          f = .config (.missing p.toText)) := by
  rw [result_load, bind_eq_error]
  refine or_congr_right (exists_congr fun p => and_congr_right fun _ => ?_)
  rw [bind_eq_error]
  refine or_congr_right ?_
  constructor
  · rintro ⟨there, hthere, h⟩
    cases there with
    | true => exact .inl ⟨hthere, bind_eq_error.1 h⟩
    | false =>
        rw [if_neg Bool.false_ne_true] at h
        split at h
        · next hasked => exact .inr ⟨hthere, hasked, (Except.error.inj h).symm⟩
        · contradiction
  · rintro (⟨hthere, h⟩ | ⟨hthere, hasked, rfl⟩)
    · exact ⟨true, hthere, bind_eq_error.2 h⟩
    · exact ⟨false, hthere, by rw [if_neg Bool.false_ne_true, if_pos hasked]⟩

/-- An overlooked cause ends loading. -/
theorem Overlooked.result_load (h : Overlooked lib d e asked cause) :
    (load d e asked lib).result = .error (.escape cause) := by
  have hplace {f} (hf : savePath d e asked = .error f) :
      (load d e asked lib).result = .error f := result_load_eq_error.2 (.inl hf)
  have hread {p t} (hp : savePath d e asked = .ok p) (ht : HoldsText d p t)
      {f} (hf : readTable d p lib = .error f ∨ ∃ table, readTable d p lib = .ok table ∧
        ofEntries table = .error f) : (load d e asked lib).result = .error f := by
    obtain ⟨bytes, hbytes, -⟩ := ht
    exact result_load_eq_error.2
      (.inr ⟨p, hp, .inr (.inl ⟨standsAt_of_readBytes hbytes, hf⟩)⟩)
  cases h with
  | user ht hunknown =>
      have hexpand := expandHome_eq_error.2 (.inr ⟨hunknown, rfl⟩)
      exact hplace (savePath_eq_error.2 (.inl ⟨_, ht, hexpand⟩))
  | nobody ht hnobody =>
      have hexpand := expandHome_eq_error.2 (.inl ⟨hnobody, rfl⟩)
      exact hplace (savePath_eq_error.2 (.inl ⟨_, ht, hexpand⟩))
  | unnamed ht hp hname =>
      exact hplace (savePath_eq_error.2 (.inr ⟨_, _, ht, hp, .inl ⟨hname, rfl⟩⟩))
  | lost ht hp hname hlost =>
      exact hplace (savePath_eq_error.2 (.inr ⟨_, _, ht, hp, .inr ⟨hname, hlost, rfl⟩⟩))
  | untold hp hfault =>
      exact result_load_eq_error.2
        (.inr ⟨_, hp, .inl (standsAt_eq_error.2 ⟨⟨_, hfault⟩, rfl⟩)⟩)
  | @encoding p _ _ hp hbytes hdecode =>
      have htable : readTable d p lib = .error (.escape .badEncoding) :=
        readTable_eq_error.2 (.inr (.inl ⟨_, _, hbytes, hdecode, rfl⟩))
      exact result_load_eq_error.2
        (.inr ⟨_, hp, .inr (.inl ⟨standsAt_of_readBytes hbytes, .inl htable⟩)⟩)
  | reader hp ht hfail =>
      exact hread hp ht (.inl (readTable_eq_error.2 (.inr (.inr ⟨_, _, ht, hfail, rfl⟩))))
  | members hp ht htable hnone =>
      exact hread hp ht (.inr ⟨_, readTable_eq_ok.2 ⟨_, ht, htable⟩,
        ofEntries_eq_error.2 (.inl ⟨hnone, rfl⟩)⟩)
  | unshown hp ht htable hwords hfiles hfault hshown =>
      exact hread hp ht (.inr ⟨_, readTable_eq_ok.2 ⟨_, ht, htable⟩,
        ofEntries_eq_error.2 (.inr ⟨hwords, hfiles, _, hfault, .inl ⟨hshown, rfl⟩⟩)⟩)

end ShellDocs.Config
