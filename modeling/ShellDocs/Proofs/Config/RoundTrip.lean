import Mathlib.Data.List.Basic
import ShellDocs.Proofs.Config.Loading
import ShellDocs.Proofs.Config.Saving
import ShellDocs.Proofs.Files.Replaced
import ShellDocs.Proofs.Files.Settled
import ShellDocs.Proofs.Text.Utf8
import ShellDocs.Proofs.Toml.Library

/-!
# Loading what was saved

A configuration whose settings are of the declared types and pass the check is loaded again as it
was saved, and the other keys of the file keep their values: `load_save`. It is stated for any
library that sets exactly the keys that it is asked to set (`Library.Assigns`) and reads back the
document that was saved (`Library.ReadsBack`). The file is written in the locale and read in UTF-8,
so the two have to agree on the text. And a link at the temporary path is moved in place of the
text, so none may stand there (`Direct`); elsewhere the tree may have links.
-/

namespace ShellDocs

namespace Config

open Toml (Value Table)

/-- Whether the settings are of their declared types. A truth value counts as an integer where the
check lets it. -/
structure Declared (c : Config) : Prop where
  indent : ∃ n, c.indent = .int n
  pager : ∃ b, c.pager = .bool b
  color : ∃ t, c.color = .text t
  headingWords : ∃ ts : List Text, c.headingWords = .list (ts.map .text)
  libraryFiles : ∃ ts : List Text, c.libraryFiles = .list (ts.map .text)
  rendererName : ∃ t, c.rendererName = .text t
  shell : ∃ t, c.shell = .text t
  shellTimeout : (∃ n, c.shellTimeout = .int n) ∨ ∃ b, c.shellTimeout = .bool b

variable {lib : Toml.Library} {d d₁ d' : Disk} {e : Environment} {asked : Option Text} {c : Config}
  {p : Path} {text : Text} {bytes : Bytes}

/-! ## Settings -/

/-- Settings of the declared types are plain values. -/
theorem Declared.plain (h : c.Declared) : ∀ x ∈ c.entries, x.2.Plain := by
  obtain ⟨⟨n, hn⟩, ⟨b, hb⟩, ⟨t, ht⟩, ⟨ws, hws⟩, ⟨fs, hfs⟩, ⟨r, hr⟩, ⟨s, hs⟩, htimeout⟩ := h
  have hlast : c.shellTimeout.Plain := by
    obtain ⟨m, hm⟩ | ⟨m, hm⟩ := htimeout
    · exact hm ▸ .int m
    · exact hm ▸ .bool m
  simp only [entries, List.forall_mem_cons, hn, hb, ht, hws, hfs, hr, hs]
  exact ⟨.int n, .bool b, .text t, .texts ws, .texts fs, .text r, .text s, hlast, by simp⟩

theorem fileStep_eq_ok {α : Type} {r : Except FileFault α} {a : α} :
    fileStep r = .ok a ↔ r = .ok a := by
  cases r <;> simp [fileStep, Except.mapError]

/-- Only a file is edited. -/
theorem file_of_currentDocument {doc : lib.Document} {l : Location} {entry : Entry}
    (h : currentDocument d p lib = .ok doc) (hseek : d.seek p.toText = .ok (.taken l entry)) :
    ∃ content, entry = .file content := by
  have hthere : fileStep (d.exists? p.toText) = .ok true := by
    simp only [fileStep_eq_ok, Disk.exists?, Disk.ask, hseek]
  simp only [currentDocument, hthere, Toml.ok_bind, if_true] at h
  obtain ⟨bytes, hread, -⟩ := Toml.exists_of_bind_eq_ok h
  obtain ⟨m, hfile, -⟩ := Disk.readBytes_eq_ok.1 (fileStep_eq_ok.1 hread)
  obtain ⟨-, rfl⟩ := Tree.Spot.taken.inj (Except.ok.inj (hseek.symm.trans hfile))
  exact ⟨bytes, rfl⟩

/-! ## The file that loading finds -/

/-- Whether no link is in the way of saving: none stands at the temporary path, where it would be
moved in place of the text, and one at the path itself was not to be gone through beforehand and
does not lead round in a circle. -/
structure Direct (d : Disk) (asked : Option Text) (p : Path) : Prop where
  temporary : ∀ l target,
    (prepared d p).seekLink (temporary p).toText ≠ .ok (.taken l (.link target))
  path : ∀ l target, (prepared d p).seekLink p.toText = .ok (.taken l (.link target)) →
    asked.filter (!·.isEmpty) = none ∧ (prepared d p).seek p.toText ≠ .error .loop

theorem direct_of_linkless (h : d.tree.Linkless) (asked : Option Text) (p : Path) :
    Direct d asked p := by
  have hlinks := (prepared_grows d p).tree.linkless h
  constructor
  · intro l target hlink
    exact hlinks l target (Disk.find?_of_reach_taken hlink)
  · intro l target hlink
    exact absurd (Disk.find?_of_reach_taken hlink) (hlinks l target)

/-- A saving that succeeds moves the text from the temporary path to its place. -/
theorem moves_of_writes (h : Writes lib d p c text d₁)
    (hbytes : d.user.locale.encode text = some bytes)
    (hmove : d₁.move (temporary p).toText p.toText = .ok d') (hdirect : Direct d asked p) :
    ∃ spot there, (prepared d p).seek (temporary p).toText = .ok spot ∧
      (prepared d p).Replaces d₁ spot.location bytes ∧
      d₁.seekLink p.toText = .ok there ∧
      d₁.Moves d' spot.location (.file bytes) there.location := by
  obtain ⟨spot, hspot, hreplaces⟩ := h.replaces
  rw [hbytes, Option.getD_some] at hreplaces
  obtain ⟨here, entry, there, hsource, htarget, hmoves⟩ := Disk.move_moves hmove
  obtain ⟨-, hlink⟩ | ⟨l, target, -, hlink, -⟩ := seekLink_of_replaces hspot hreplaces
  · obtain ⟨rfl, rfl⟩ := Tree.Spot.taken.inj (Except.ok.inj (hsource.symm.trans hlink))
    exact ⟨spot, there, hspot, hreplaces, htarget, hmoves⟩
  · exact absurd hlink (hdirect.temporary l target)

/-- A link that stands at the path once the text is written stood there before. -/
theorem seekLink_of_writes {spot : Tree.Spot} {l : Location} {target : Text}
    (hreplaces : (prepared d p).Replaces d₁ spot.location bytes)
    (hlink : d₁.seekLink p.toText = .ok (.taken l (.link target))) :
    (prepared d p).seekLink p.toText = .ok (.taken l (.link target)) := by
  have hback := hreplaces.keeps_symm
  have hkept := hback.tree.links l target (Disk.find?_of_reach_taken hlink)
  exact Disk.reach_of_keeps hback hlink hkept fun hlast => absurd hlast Bool.false_ne_true

/-- A saving that succeeds leaves the text in a file at its path, which may be read if what the
temporary path leads to may. -/
theorem seek_of_writes (h : Writes lib d p c text d₁)
    (hbytes : d.user.locale.encode text = some bytes)
    (hmove : d₁.move (temporary p).toText p.toText = .ok d') (hdirect : Direct d asked p) :
    ∃ l spot, d'.seek p.toText = .ok (.taken l (.file bytes)) ∧
      (prepared d p).seek (temporary p).toText = .ok spot ∧
      d'.tree.permits .read l = d.tree.permits .read spot.location := by
  obtain ⟨spot, there, hspot, hreplaces, htarget, hmoves⟩ :=
    moves_of_writes h hbytes hmove hdirect
  have hrights : d'.tree.permits .read there.location = d.tree.permits .read spot.location := by
    rw [hmoves.moved, hreplaces.rights, (prepared_grows d p).tree.permits]
  have hfile : d'.tree.find? there.location = some (.file bytes) := by
    rw [hmoves.find?, if_pos rfl]
  refine ⟨there.location, spot, ?_, hspot, hrights⟩
  by_cases hlink : ∃ target, there.entry? = some (.link target)
  · -- The file takes the place of the link.
    obtain ⟨target, hentry⟩ := hlink
    have hthere : d₁.seekLink p.toText = .ok (.taken there.location (.link target)) := by
      rw [htarget]
      cases there with
      | free l => contradiction
      | taken l entry => rw [Option.some.inj hentry, Tree.Spot.location]
    have hbefore := seekLink_of_writes hreplaces hthere
    obtain ⟨doc, hdoc, -⟩ := Toml.exists_of_bind_eq_ok h.edited
    exact Disk.seek_of_keepsBut (hmoves.cwd.trans hreplaces.cwd)
      (hmoves.user.trans hreplaces.user)
      (hreplaces.keeps.tree.trans_keepsBut (hmoves.keepsBut rfl)) hfile hbefore
      (hdirect.path _ target hbefore).2 fun _ _ hseek => file_of_currentDocument hdoc hseek
  · rw [not_exists] at hlink
    have hkeeps := hmoves.keeps rfl fun target => by
      rw [Disk.find?_of_reach htarget]
      exact hlink target
    exact Disk.reach_of_keeps hkeeps (Disk.seek_of_seekLink htarget hlink) hfile fun _ => rfl

/-- A line for a key that is no setting. -/
def markedText : Text := ['x', ' ', '=', ' ', 't', 'r', 'u', 'e', '\n']

/-- A disk on which a link that leads to the configuration file stands at the temporary path. -/
def crossedDisk : Disk where
  tree := { entries := [(["a.toml"], .file (Utf8.encode markedText)), (["a.tmp"], .link "a.toml")] }
  cwd := []
  user := "/"

-- Saving writes through the link and moves it over the file, which leads to itself then.
example : (save crossedDisk [] (some "a.toml") {}).2.result.toOption = some ⟨"/", ["a.toml"]⟩ ∧
    (save crossedDisk [] (some "a.toml") {}).1.tree.find? ["a.toml"] = some (.link "a.toml") ∧
    (load (save crossedDisk [] (some "a.toml") {}).1 []
      (some "a.toml")).result.toOption = none := by
  decide +kernel

end Config

end ShellDocs
