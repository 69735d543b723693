import Mathlib.Data.List.Basic
import ShellDocs.Config.Basic
import ShellDocs.Proofs.Toml.Outline

/-!
# Which configurations are accepted

A table is read as a configuration just if the settings pass the check (`ofEntries_eq_ok_iff`),
and `Checked` says what the check makes sure of (`check_eq_ok_iff`). That is less than the settings
are meant to be. `wellTyped_ofTable_iff` gives the exact difference: the shell is not looked at,
true passes for a number of seconds, and a text or a table passes for the list of its members.
-/

namespace ShellDocs.Config

open Toml (Value Table)

/-- What the check makes sure of. -/
structure Checked (c : Config) : Prop where
  indent : ∃ n : Int, 0 ≤ n ∧ c.indent = .int n
  pager : ∃ b, c.pager = .bool b
  color : ∃ mode ∈ colorModes, c.color = .text mode
  headingWords : ∃ words : List Text, [] ∉ words ∧ c.headingWords = .list (words.map .text)
  libraryFiles : ∃ files : List Text, c.libraryFiles = .list (files.map .text)
  rendererName : ∃ name : Text, name ≠ [] ∧ c.rendererName = .text name
  shellTimeout : (∃ n : Int, 0 < n ∧ c.shellTimeout = .int n) ∨ c.shellTimeout = .bool true

/-- What the settings are meant to be. -/
structure WellTyped (c : Config) : Prop extends Checked c where
  shell : ∃ name : Text, name ≠ [] ∧ c.shell = .text name
  shellTimeout_ne_true : c.shellTimeout ≠ .bool true

/-- The settings as a table gives them, before anything is made of them. -/
def given (t : Table) : Config := ({} : Config).withEntries t

variable {c : Config} {t : Table} {v : Value}

/-! ## Settings one by one -/

theorem isIndent_iff : isIndent v = true ↔ ∃ n : Int, 0 ≤ n ∧ v = .int n := by
  cases v <;> simp [isIndent]

theorem isSwitch_iff : isSwitch v = true ↔ ∃ b, v = .bool b := by
  cases v <;> simp [isSwitch]

theorem isColorMode_iff : isColorMode v = true ↔ ∃ mode ∈ colorModes, v = .text mode := by
  cases v <;> simp [isColorMode]

theorem isText_iff : isText v = true ↔ ∃ t, v = .text t := by
  cases v <;> simp [isText]

theorem isWord_iff : isWord v = true ↔ ∃ t : Text, t ≠ [] ∧ v = .text t := by
  cases v <;> simp [isWord]

theorem isTimeout_iff :
    isTimeout v = true ↔ (∃ n : Int, 0 < n ∧ v = .int n) ∨ v = .bool true := by
  cases v <;> simp [isTimeout]

/-- The items of a list are texts that pass a test just if the list is one of such texts. -/
theorem all_iff_exists_texts {test : Value → Bool} {good : Text → Prop}
    (htest : ∀ v, test v = true ↔ ∃ t, good t ∧ v = .text t) (vs : List Value) :
    vs.all test = true ↔ ∃ ts : List Text, (∀ t ∈ ts, good t) ∧ vs = ts.map .text := by
  induction vs with
  | nil => simp
  | cons v rest ih =>
      rw [List.all_cons, Bool.and_eq_true, htest, ih]
      constructor
      · rintro ⟨⟨t, ht, rfl⟩, ts, hts, rfl⟩
        exact ⟨t :: ts, List.forall_mem_cons.2 ⟨ht, hts⟩, rfl⟩
      · rintro ⟨ts, hts, hmap⟩
        cases ts with
        | nil => contradiction
        | cons t ts =>
            obtain ⟨rfl, rfl⟩ := List.cons.inj hmap
            obtain ⟨ht, hts⟩ := List.forall_mem_cons.1 hts
            exact ⟨⟨t, ht, rfl⟩, ts, hts, rfl⟩

/-! ## The check -/

theorem bind_eq_ok {ε α β : Type} {x : Except ε α} {f : α → Except ε β} {b : β} :
    x >>= f = .ok b ↔ ∃ a, x = .ok a ∧ f a = .ok b := by
  refine ⟨Toml.exists_of_bind_eq_ok, ?_⟩
  rintro ⟨a, rfl, h⟩
  exact h

theorem bind_eq_error {ε α β : Type} {x : Except ε α} {g : α → Except ε β} {err : ε} :
    x >>= g = .error err ↔ x = .error err ∨ ∃ a, x = .ok a ∧ g a = .error err := by
  cases x <;> simp [Bind.bind, Except.bind]

theorem eq_ok_of_toOption {ε α : Type} {x : Except ε α} {a : α} (h : x.toOption = some a) :
    x = .ok a := by
  cases x with
  | error e => simp [Except.toOption] at h
  | ok b => simpa [Except.toOption] using h

theorem require_eq_ok {holds : Bool} {fault : ConfigFault} {u : Unit} :
    require holds fault = .ok u ↔ holds = true := by
  cases holds with
  | true => simp [require]
  | false =>
      simp only [require, Bool.false_eq_true, if_false, iff_false]
      split <;> simp

theorem members_eq_ok {vs : List Value} : members v = .ok vs ↔ v.members? = some vs := by
  simp only [members]
  split <;> simp_all

/-- The members of a list are its items. -/
theorem members_list (vs : List Value) : members (.list vs) = .ok vs := rfl

/-- The check passes just if every setting has its form; the shell may have any. -/
theorem check_eq_ok_iff {words files : List Value} (hwords : c.headingWords = .list words)
    (hfiles : c.libraryFiles = .list files) : c.check = .ok () ↔ c.Checked := by
  have hwordTexts := all_iff_exists_texts (fun _ => isWord_iff) words
  have hfileTexts : files.all isText = true ↔
      ∃ fs : List Text, (∀ t ∈ fs, True) ∧ files = fs.map .text :=
    all_iff_exists_texts (fun _ => by simp only [isText_iff, true_and]) files
  have hcheck : c.check = .ok () ↔ isIndent c.indent = true ∧ isSwitch c.pager = true ∧
      isColorMode c.color = true ∧ words.all isWord = true ∧ files.all isText = true ∧
      isWord c.rendererName = true ∧ isTimeout c.shellTimeout = true := by
    simp only [check, hwords, hfiles, members_list, bind_eq_ok, require_eq_ok, Except.ok.injEq,
      exists_const, exists_eq_left']
  rw [hcheck, isIndent_iff, isSwitch_iff, isColorMode_iff, hwordTexts, hfileTexts, isWord_iff,
    isTimeout_iff]
  constructor
  · rintro ⟨hindent, hpager, hcolor, ⟨ws, hne, rfl⟩, ⟨fs, -, rfl⟩, hname, htimeout⟩
    exact ⟨hindent, hpager, hcolor, ⟨ws, fun hmem => hne [] hmem rfl, hwords⟩, ⟨fs, hfiles⟩,
      hname, htimeout⟩
  · rintro ⟨hindent, hpager, hcolor, ⟨ws, hne, hws⟩, ⟨fs, hfs⟩, hname, htimeout⟩
    obtain rfl : words = ws.map .text := Value.list.inj (hwords.symm.trans hws)
    obtain rfl : files = fs.map .text := Value.list.inj (hfiles.symm.trans hfs)
    exact ⟨hindent, hpager, hcolor, ⟨ws, fun w hw heq => hne (heq ▸ hw), rfl⟩,
      ⟨fs, fun _ _ => trivial, rfl⟩, hname, htimeout⟩

/-! ## Tables -/

/-- The configuration of a table: its settings, with the members of two of them for lists. -/
theorem ofEntries_eq_ok_iff : ofEntries t = .ok c ↔
    c.Checked ∧ ∃ words files, (given t).headingWords.members? = some words ∧
      (given t).libraryFiles.members? = some files ∧
      c = { given t with headingWords := .list words, libraryFiles := .list files } := by
  simp only [ofEntries, given, bind_eq_ok, members_eq_ok]
  constructor
  · rintro ⟨words, hwords, files, hfiles, ⟨⟩, hcheck, hc⟩
    obtain rfl := Except.ok.inj hc
    exact ⟨(check_eq_ok_iff rfl rfl).1 hcheck, words, files, hwords, hfiles, rfl⟩
  · rintro ⟨hchecked, words, files, hwords, hfiles, rfl⟩
    exact ⟨words, hwords, files, hfiles, (), (check_eq_ok_iff rfl rfl).2 hchecked, rfl⟩

theorem result_ofTable (t : Table) : (ofTable t).result = ofEntries t := by
  simp only [ofTable]
  split <;> rfl

/-- A list of settings is the given one just if a list was given: other values with members are
never equal to the list of them. -/
theorem list_eq_iff {vs : List Value} (h : v.members? = some vs) :
    Value.list vs = v ↔ ∃ items, v = .list items := by
  constructor
  · rintro rfl
    exact ⟨vs, rfl⟩
  · rintro ⟨items, rfl⟩
    obtain rfl := Option.some.inj h
    rfl

/-- Every configuration that is read from a table has passed the check. Its settings are those
that the table gives, and are what they are meant to be, just if both lists are given as lists or
not at all, the shell is a text that is not empty, and the timeout is not true. -/
theorem wellTyped_ofTable_iff (h : (ofTable t).result = .ok c) :
    c.Checked ∧ (c.WellTyped ∧ c = given t ↔
      (∃ items, (given t).headingWords = .list items) ∧
      (∃ items, (given t).libraryFiles = .list items) ∧
      (∃ name : Text, name ≠ [] ∧ (given t).shell = .text name) ∧
      (given t).shellTimeout ≠ .bool true) := by
  rw [result_ofTable] at h
  obtain ⟨hchecked, words, files, hwords, hfiles, rfl⟩ := ofEntries_eq_ok_iff.1 h
  refine ⟨hchecked, ?_⟩
  rw [← list_eq_iff hwords, ← list_eq_iff hfiles]
  constructor
  · rintro ⟨⟨-, hshell, htimeout⟩, hgiven⟩
    exact ⟨congrArg Config.headingWords hgiven, congrArg Config.libraryFiles hgiven, hshell,
      htimeout⟩
  · rintro ⟨hlist, hlist', hshell, htimeout⟩
    refine ⟨⟨hchecked, hshell, htimeout⟩, ?_⟩
    rw [hlist, hlist']

/-- Settings that the check lets pass although none is what it is meant to be. -/
def misfits : Table :=
  [("heading_words", .text "ab"), ("library_files", .table [("x", .int 1)]), ("shell", .int 5),
    ("shell_timeout", .bool true)]

/-- The configuration that is made of them. -/
def misfitConfig : Config where
  headingWords := .list [.text "a", .text "b"]
  libraryFiles := .list [.text "x"]
  shell := .int 5
  shellTimeout := .bool true

/-- A text for words, a table for files, a number for the shell and true for a number of seconds
are all accepted. -/
theorem wellTyped_misfits :
    (ofTable misfits).result = .ok misfitConfig ∧ misfitConfig.Checked ∧
      ¬ (misfitConfig.WellTyped ∧ misfitConfig = given misfits) := by
  have hresult : (ofTable misfits).result = .ok misfitConfig := by
    rw [result_ofTable]
    rfl
  obtain ⟨hchecked, hiff⟩ := wellTyped_ofTable_iff hresult
  refine ⟨hresult, hchecked, fun hwell => ?_⟩
  obtain ⟨-, -, -, htimeout⟩ := hiff.1 hwell
  exact htimeout rfl

end ShellDocs.Config
