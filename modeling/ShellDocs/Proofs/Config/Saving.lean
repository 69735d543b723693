import Mathlib.Data.List.Basic
import ShellDocs.Config.Store
import ShellDocs.Proofs.Files.Disk

/-!
# What saving changes

Saving a configuration makes directories, writes a temporary file and moves it over the
configuration file. The main statement is `save_content?_iff`: it tells for every location whether
it holds what it held before. After a success all files but the configuration file do, and after a
failure all files do, unless they are `Spoiled`. A file that stands where the temporary file is
written is lost: saving takes it for its own. It is overwritten, under all its names, and moved away
if saving succeeds, and it is removed if a fault of the file system ends the saving, even if nothing
was written. If a link stands there instead, the file that it leads to is overwritten. And a text
that has no bytes, or a temporary file that cannot be removed, leaves the temporary file behind.
-/

namespace ShellDocs.Config

/-- The disk with the directories above a path, as far as saving can make them. -/
def prepared (d : Disk) (p : Path) : Disk :=
  if d.user.canName p.parent.toText then (d.makeDirectories (p.parts.length + 1) p.parent).1 else d

/-- The path of the temporary file. -/
def temporary (p : Path) : Path := p.withSuffix ".tmp"

/-- Whether saving at a path gets as far as to write a text to the temporary file, and leaves the
disk `d₁` then. A text without bytes leaves the file empty. -/
structure Writes (lib : Toml.Library) (d : Disk) (p : Path) (c : Config) (text : Text)
    (d₁ : Disk) : Prop where
  parent : d.user.canName p.parent.toText = true
  made : (d.makeDirectories (p.parts.length + 1) p.parent).2 = none
  edited : editedText (prepared d p) p c lib = .ok text
  written : (prepared d p).write (temporary p).toText ((d.user.locale.encode text).getD []) = .ok d₁

/-- Whether a failed saving leaves the temporary file where it is, or what stands in its place. -/
def Stuck (f? : Option Failure) : Prop := f? = some (.escape .blocked)

/-- Whether saving has succeeded or has reported a fault of the file system. A file that stood at
the temporary path is gone then, unless the path names the same file. -/
def Cleared (f? : Option Failure) : Prop :=
  f? = none ∨ ∃ fault, f? = some (.config (.unwritable fault))

/-- Whether the path is another name of the file at a location once the text is written. The move
leaves the file there then. -/
def Shares (lib : Toml.Library) (d : Disk) (p : Path) (c : Config) (m : Location) : Prop :=
  ∃ text d₁ there, Writes lib d p c text d₁ ∧ d₁.seekLink p.toText = .ok there ∧
    d₁.tree.sameFile m there.location = true

/-- Whether the file at a location, where the temporary file is written, is taken away. -/
def Gone (lib : Toml.Library) (d : Disk) (p : Path) (c : Config) (f? : Option Failure)
    (m : Location) : Prop :=
  Cleared f? ∧ ¬ (f? = none ∧ Shares lib d p c m)

/-- The locations whose content is another one after a saving that has failed, or, with no failure,
has succeeded. -/
inductive Spoiled (lib : Toml.Library) (d : Disk) (p : Path) (c : Config) (f? : Option Failure) :
    Location → Prop where
  /-- A file stood where the temporary file is written, and it is taken away. -/
  | taken {m : Location} {old : Bytes} : Gone lib d p c f? m →
      (prepared d p).seekLink (temporary p).toText = .ok (.taken m (.file old)) →
      Spoiled lib d p c f? m
  /-- A file stood where the text was written, and this is one of its names. -/
  | overwritten {text : Text} {bytes old : Bytes} {d₁ : Disk} {spot : Tree.Spot} {m : Location} :
      Writes lib d p c text d₁ → d.user.locale.encode text = some bytes →
      (prepared d p).seek (temporary p).toText = .ok spot →
      (prepared d p).tree.sameFile spot.location m = true →
      d.tree.content? m = some old → old ≠ bytes → Spoiled lib d p c f? m
  /-- Nothing stood where the text was written, and the new file stays: it cannot be removed, or a
  link at the temporary path leads to it. -/
  | created {text : Text} {bytes : Bytes} {d₁ : Disk} {m : Location} :
      Writes lib d p c text d₁ → d.user.locale.encode text = some bytes →
      (prepared d p).seek (temporary p).toText = .ok (.free m) →
      Stuck f? ∨ (prepared d p).seekLink (temporary p).toText ≠ .ok (.free m) →
      Spoiled lib d p c f? m
  /-- The file, under all its names, was emptied for a text that has no bytes. -/
  | emptied {text : Text} {d₁ : Disk} {spot : Tree.Spot} {m : Location} :
      Writes lib d p c text d₁ → d.user.locale.encode text = none →
      (prepared d p).seek (temporary p).toText = .ok spot →
      (prepared d p).tree.sameFile spot.location m = true →
      d.tree.content? m ≠ some [] → Spoiled lib d p c f? m

variable {lib : Toml.Library} {d d₁ d' : Disk} {e : Environment} {asked : Option Text} {c : Config}
  {p temp : Path} {text : Text} {bytes : Bytes} {f? : Option Failure} {spot : Tree.Spot}
  {m : Location}

theorem Cleared.not_stuck (h : Cleared f?) : ¬ Stuck f? := by
  rintro rfl
  simp [Cleared] at h

/-! ## Making directories -/

theorem prepared_grows (d : Disk) (p : Path) : d.Grows (prepared d p) := by
  rw [prepared]
  split_ifs
  · exact d.makeDirectories_grows (p.parts.length + 1) p.parent
  · exact .refl d

/-- A file of the disk is a file of the prepared disk with the same content. -/
theorem content?_prepared (d : Disk) (p : Path) (m : Location) :
    (prepared d p).tree.content? m = d.tree.content? m :=
  (prepared_grows d p).tree.content? m

/-- A location where a file stands holds it from the start. -/
theorem content?_of_seekLink {old : Bytes} {path : Text}
    (h : (prepared d p).seekLink path = .ok (.taken m (.file old))) :
    d.tree.content? m = some old := by
  rw [← content?_prepared d p, Tree.content?, Disk.find?_of_reach_taken h]

/-! ## The temporary file -/

/-- A temporary file is written in one way. -/
theorem Writes.unique {text' : Text} {d₁' : Disk} (h : Writes lib d p c text d₁)
    (h' : Writes lib d p c text' d₁') : text' = text ∧ d₁' = d₁ := by
  have htext : text' = text := Except.ok.inj (h'.edited.symm.trans h.edited)
  subst htext
  exact ⟨rfl, Except.ok.inj (h'.written.symm.trans h.written)⟩

/-- Whether the path names the same file can be seen on the disk with the text written. -/
theorem shares_iff {there : Tree.Spot} (h : Writes lib d p c text d₁)
    (hthere : d₁.seekLink p.toText = .ok there) (m : Location) :
    Shares lib d p c m ↔ d₁.tree.sameFile m there.location = true := by
  constructor
  · rintro ⟨text', d₁', there', hwrites, hseek, hsame⟩
    obtain ⟨rfl, rfl⟩ := h.unique hwrites
    obtain rfl := Except.ok.inj (hthere.symm.trans hseek)
    exact hsame
  · intro hsame
    exact ⟨text, d₁, there, h, hthere, hsame⟩

/-- Writing changes what the temporary path leads to. -/
theorem Writes.replaces (h : Writes lib d p c text d₁) :
    ∃ spot, (prepared d p).seek (temporary p).toText = .ok spot ∧
      (prepared d p).Replaces d₁ spot.location ((d.user.locale.encode text).getD []) :=
  Disk.write_replaces h.written

/-- What stands at the temporary path once it has been written: the file, or the link that it was
written through. -/
theorem seekLink_of_replaces {content : Bytes}
    (hspot : (prepared d p).seek temp.toText = .ok spot)
    (h : (prepared d p).Replaces d₁ spot.location content) :
    (prepared d p).seekLink temp.toText = .ok spot ∧
        d₁.seekLink temp.toText = .ok (.taken spot.location (.file content)) ∨
      ∃ l target, (prepared d p).tree.find? l = some (.link target) ∧
        (prepared d p).seekLink temp.toText = .ok (.taken l (.link target)) ∧
        d₁.seekLink temp.toText = .ok (.taken l (.link target)) := by
  refine (Disk.seekLink_of_seek hspot).imp (fun hlink => ⟨hlink, ?_⟩) ?_
  · exact Disk.reach_of_keeps h.keeps hlink h.find?_self
      fun hlast => absurd hlast Bool.false_ne_true
  · rintro ⟨l, target, hlink⟩
    have hl := Disk.find?_of_reach_taken hlink
    have hkept := h.keeps.tree.links l target hl
    exact ⟨l, target, hl, hlink,
      Disk.reach_of_keeps h.keeps hlink hkept fun hlast => absurd hlast Bool.false_ne_true⟩

/-- What a disk with the temporary file on it holds. -/
theorem content?_of_replaces {content : Bytes} {l : Location}
    (h : (prepared d p).Replaces d₁ l content) (m : Location) :
    d₁.tree.content? m =
      if (prepared d p).tree.sameFile l m then some content else d.tree.content? m := by
  rw [← content?_prepared d p, Tree.content?, h.find?]
  split_ifs
  · rfl
  · rfl

/-- The text went to a free place if the file that it is in held nothing before. -/
theorem seek_eq_free {content : Bytes} {path : Text} (hspot : (prepared d p).seek path = .ok spot)
    (h : (prepared d p).Replaces d₁ spot.location content)
    (hsame : (prepared d p).tree.sameFile spot.location m = true)
    (hnone : d.tree.content? m = none) : (prepared d p).seek path = .ok (.free m) := by
  have hfind := Disk.find?_of_reach hspot
  have hm := Tree.find?_of_sameFile hsame
  rw [← content?_prepared d p, Tree.content?, hm, hfind] at hnone
  cases spot with
  | free l =>
      obtain rfl := (Tree.sameFile_of_free hfind).1 hsame
      exact hspot
  | taken l e =>
      cases e with
      | file old => simp [Tree.Spot.entry?] at hnone
      | directory => exact absurd hfind h.before.1
      | link target => exact absurd hfind (h.before.2 target)

/-- A location in whose place a walk ends holds content just if a file stands there. -/
theorem content?_ne_none_iff {path : Text} (h : (prepared d p).seekLink path = .ok spot) :
    d.tree.content? spot.location ≠ none ↔ ∃ old, spot = .taken spot.location (.file old) := by
  have hfind := Disk.find?_of_reach h
  rw [← content?_prepared d p, Tree.content?, hfind]
  cases spot with
  | free l => simp [Tree.Spot.entry?]
  | taken l e => cases e <;> simp [Tree.Spot.entry?, Tree.Spot.location]

/-! ## What is spoiled -/

/-- What is spoiled if the temporary file is not written. -/
theorem spoiled_iff_of_not_writes (h : ∀ text d₁, ¬ Writes lib d p c text d₁) :
    Spoiled lib d p c f? m ↔ Cleared f? ∧
      ∃ old, (prepared d p).seekLink (temporary p).toText = .ok (.taken m (.file old)) := by
  constructor
  · rintro (⟨hgone, hfile⟩ | ⟨hwrites, _⟩ | ⟨hwrites, _⟩ | ⟨hwrites, _⟩)
    · exact ⟨hgone.1, _, hfile⟩
    · exact absurd hwrites (h _ _)
    · exact absurd hwrites (h _ _)
    · exact absurd hwrites (h _ _)
  · rintro ⟨hcleared, old, hfile⟩
    refine .taken ⟨hcleared, ?_⟩ hfile
    rintro ⟨-, text, d₁, there, hwrites, -⟩
    exact h text d₁ hwrites

/-- The temporary file is spoiled if it is taken away and stood there before. -/
theorem spoiled_iff_of_gone (h : Writes lib d p c text d₁)
    (hbytes : d.user.locale.encode text = some bytes)
    (hspot : (prepared d p).seek (temporary p).toText = .ok spot)
    (hlink : (prepared d p).seekLink (temporary p).toText = .ok spot)
    (hgone : Gone lib d p c f? spot.location) :
    Spoiled lib d p c f? spot.location ↔ d.tree.content? spot.location ≠ none := by
  constructor
  · rintro (⟨-, hfile⟩ | ⟨-, -, -, -, hold, -⟩ | ⟨-, -, hfree, hstays⟩ | ⟨hwrites, hnone, -, -, -⟩)
    · simp [content?_of_seekLink hfile]
    · simp [hold]
    · rw [← Except.ok.inj (hspot.symm.trans hfree)] at hstays
      exact absurd hlink (hstays.resolve_left hgone.1.not_stuck)
    · obtain ⟨rfl, -⟩ := h.unique hwrites
      simp [hbytes] at hnone
  · intro hne
    obtain ⟨old, hfile⟩ := (content?_ne_none_iff hlink).1 hne
    exact .taken hgone (hfile ▸ hlink)

/-- A name of the file that the text was written to is spoiled if it held something else, unless it
is the temporary path and the file is taken away. -/
theorem spoiled_iff_of_stays (h : Writes lib d p c text d₁)
    (hbytes : d.user.locale.encode text = some bytes)
    (hspot : (prepared d p).seek (temporary p).toText = .ok spot)
    (hstays : (prepared d p).seekLink (temporary p).toText = .ok spot → m = spot.location →
      ¬ Gone lib d p c f? m ∧ (d.tree.content? m = none → Stuck f?)) :
    Spoiled lib d p c f? m ↔
      (prepared d p).tree.sameFile spot.location m = true ∧ d.tree.content? m ≠ some bytes := by
  obtain ⟨spot', hspot', hreplaces⟩ := h.replaces
  obtain rfl := Except.ok.inj (hspot.symm.trans hspot')
  constructor
  · rintro (⟨hgone, hfile⟩ | ⟨hwrites, hbytes', hspot', hsame, hold, hne⟩ | ⟨-, -, hfree, -⟩ |
      ⟨hwrites, hnone, -, -, -⟩)
    · have hseek := Disk.seek_of_seekLink hfile (by simp [Tree.Spot.entry?])
      obtain rfl := Except.ok.inj (hspot.symm.trans hseek)
      exact absurd hgone (hstays hfile rfl).1
    · obtain ⟨rfl, -⟩ := h.unique hwrites
      obtain rfl := Option.some.inj (hbytes.symm.trans hbytes')
      obtain rfl := Except.ok.inj (hspot.symm.trans hspot')
      exact ⟨hsame, by simpa [hold] using hne⟩
    · obtain rfl := Except.ok.inj (hspot.symm.trans hfree)
      have hnone : d.tree.content? m = none := by
        rw [← content?_prepared d p, Tree.content?, Disk.find?_of_reach_free hfree]
      exact ⟨Tree.sameFile_self _ _, by simp [hnone]⟩
    · obtain ⟨rfl, -⟩ := h.unique hwrites
      simp [hbytes] at hnone
  · rintro ⟨hsame, hne⟩
    cases hold : d.tree.content? m with
    | some old => exact .overwritten h hbytes hspot hsame hold (by simpa [hold] using hne)
    | none =>
        have hfree := seek_eq_free hspot hreplaces hsame hold
        obtain rfl := Except.ok.inj (hspot.symm.trans hfree)
        refine .created h hbytes hfree ?_
        by_cases hlink : (prepared d p).seekLink (temporary p).toText = .ok (.free m)
        · exact .inl ((hstays hlink rfl).2 hold)
        · exact .inr hlink

/-- What is spoiled by a text without bytes. -/
theorem spoiled_iff_of_encode_eq_none (h : Writes lib d p c text d₁)
    (hnone : d.user.locale.encode text = none)
    (hspot : (prepared d p).seek (temporary p).toText = .ok spot) (hf : ¬ Cleared f?) :
    Spoiled lib d p c f? m ↔
      (prepared d p).tree.sameFile spot.location m = true ∧ d.tree.content? m ≠ some [] := by
  constructor
  · rintro (⟨hgone, -⟩ | ⟨hwrites, hbytes, -⟩ | ⟨hwrites, hbytes, -⟩ |
      ⟨-, -, hspot', hsame, hne⟩)
    · exact absurd hgone.1 hf
    · obtain ⟨rfl, -⟩ := h.unique hwrites
      simp [hnone] at hbytes
    · obtain ⟨rfl, -⟩ := h.unique hwrites
      simp [hnone] at hbytes
    · obtain rfl := Except.ok.inj (hspot.symm.trans hspot')
      exact ⟨hsame, hne⟩
  · rintro ⟨hsame, hne⟩
    exact .emptied h hnone hspot hsame hne

/-- A change at some locations is a change of content just where they held something else. -/
theorem content?_eq_iff {now : Option Bytes} {changed : Prop} [Decidable changed]
    (h : d'.tree.content? m = if changed then now else d.tree.content? m) :
    d'.tree.content? m = d.tree.content? m ↔ ¬ (changed ∧ d.tree.content? m ≠ now) := by
  rw [h]
  split_ifs with hm
  · simp [hm, eq_comm]
  · simp [hm]

/-- A disk that keeps what was written differs from the first one where that is spoiled. -/
theorem content?_eq_iff_of_stays (h : Writes lib d p c text d₁)
    (hbytes : d.user.locale.encode text = some bytes)
    (hspot : (prepared d p).seek (temporary p).toText = .ok spot)
    (hreplaces : (prepared d p).Replaces d₁ spot.location bytes)
    (hstays : (prepared d p).seekLink (temporary p).toText = .ok spot → m = spot.location →
      ¬ Gone lib d p c f? m ∧ (d.tree.content? m = none → Stuck f?))
    (hkept : d'.tree.content? m = d₁.tree.content? m) :
    d'.tree.content? m = d.tree.content? m ↔ ¬ Spoiled lib d p c f? m := by
  rw [spoiled_iff_of_stays h hbytes hspot hstays]
  exact content?_eq_iff (hkept.trans (content?_of_replaces hreplaces m))

/-- A disk where the temporary file is taken away differs there from the first one if that is
spoiled. -/
theorem content?_eq_iff_of_gone (h : Writes lib d p c text d₁)
    (hbytes : d.user.locale.encode text = some bytes)
    (hspot : (prepared d p).seek (temporary p).toText = .ok spot)
    (hlink : (prepared d p).seekLink (temporary p).toText = .ok spot)
    (hgone : Gone lib d p c f? spot.location) (hnone : d'.tree.content? spot.location = none) :
    d'.tree.content? spot.location = d.tree.content? spot.location ↔
      ¬ Spoiled lib d p c f? spot.location := by
  rw [spoiled_iff_of_gone h hbytes hspot hlink hgone, hnone, not_not, eq_comm]

/-! ## The end of a failed saving -/

/-- Giving up a saving takes away a file at the temporary path if it says so, and changes no other
content. -/
theorem content?_abandon (d : Disk) (temp : Path) (fault : FileFault) (m : Location) :
    (abandon d temp fault).1.tree.content? m = none ∧ Cleared (some (abandon d temp fault).2) ∧
        (∃ old, d.seekLink temp.toText = .ok (.taken m (.file old))) ∨
      (abandon d temp fault).1.tree.content? m = d.tree.content? m ∧
        ¬ (Cleared (some (abandon d temp fault).2) ∧
          ∃ old, d.seekLink temp.toText = .ok (.taken m (.file old))) := by
  rw [abandon]
  split
  · exact .inr ⟨rfl, by simp [Cleared]⟩
  · next hnot =>
      refine .inr ⟨rfl, ?_⟩
      rintro ⟨-, old, hfile⟩
      have hseek := Disk.seek_of_seekLink hfile (by simp [Tree.Spot.entry?])
      simp [Disk.exists?, Disk.ask, hseek] at hnot
  · split
    · exact .inr ⟨rfl, by simp [Cleared]⟩
    · next d' hremove =>
        obtain ⟨l, e, hlink, hdir, -, rfl⟩ := Disk.remove_eq_ok.1 hremove
        have hl := Disk.find?_of_reach_taken hlink
        have hne : l ≠ [] := Tree.ne_nil_of_find?_ne (t := d.tree) (by simp [hl, hdir])
        have herase := Tree.find?_erase d.tree hne m
        by_cases hm : m = l
        · subst hm
          rw [if_pos rfl] at herase
          cases e with
          | directory => exact absurd rfl hdir
          | file old =>
              exact .inl ⟨by simp [Tree.content?, herase], .inr ⟨fault, rfl⟩, old, hlink⟩
          | link target =>
              refine .inr ⟨by simp [Tree.content?, herase, hl], ?_⟩
              rintro ⟨-, old, hfile⟩
              simp [hlink] at hfile
        · rw [if_neg hm] at herase
          refine .inr ⟨Tree.content?_congr herase, ?_⟩
          rintro ⟨-, old, hfile⟩
          rw [hlink] at hfile
          exact hm (Tree.Spot.taken.inj (Except.ok.inj hfile)).1.symm

/-- A temporary file that was written is removed, or it is stuck. -/
theorem cleared_or_stuck_abandon {d : Disk} {temp : Path} (fault : FileFault)
    (h : d.exists? temp.toText = .ok true) : Cleared (some (abandon d temp fault).2) ∨
      Stuck (some (abandon d temp fault).2) := by
  rw [abandon, h]
  dsimp only
  split
  · exact .inr rfl
  · exact .inl (.inr ⟨fault, rfl⟩)

/-- Moving the temporary file that was written puts it, or the link that it was written through, at
the path of the configuration, and takes it away where it was, unless both are names of one file. -/
theorem content?_move_of_writes (h : Writes lib d p c text d₁)
    (hbytes : d.user.locale.encode text = some bytes)
    (hmove : d₁.move (temporary p).toText p.toText = .ok d') :
    ∃ there, d₁.seekLink p.toText = .ok there ∧
      (d'.tree.find? there.location = some (.file bytes) ∨
        ∃ l target, (prepared d p).seekLink (temporary p).toText = .ok (.taken l (.link target)) ∧
          d'.tree.find? there.location = some (.link target)) ∧
      ∀ m, m ≠ there.location →
        (d'.tree.content? m = d.tree.content? m ↔ ¬ Spoiled lib d p c none m) := by
  obtain ⟨spot, hspot, hreplaces⟩ := h.replaces
  rw [hbytes, Option.getD_some] at hreplaces
  obtain ⟨here, e, there, hsource, htarget, hmoves⟩ := Disk.move_moves hmove
  have hfind := hmoves.find?
  have hthere := hfind there.location
  rw [if_pos rfl] at hthere
  refine ⟨there, htarget, ?_⟩
  obtain ⟨hlink, hlink₁⟩ | ⟨l, target, hl, hlink, hlink₁⟩ := seekLink_of_replaces hspot hreplaces
  · obtain ⟨rfl, rfl⟩ := Tree.Spot.taken.inj (Except.ok.inj (hsource.symm.trans hlink₁))
    refine ⟨.inl hthere, fun m hm => ?_⟩
    have hshares := shares_iff h htarget spot.location
    by_cases hgone : m = spot.location ∧ d₁.tree.sameFile spot.location there.location = false
    · obtain ⟨rfl, hother⟩ := hgone
      refine content?_eq_iff_of_gone h hbytes hspot hlink ⟨.inl rfl, ?_⟩ ?_
      · simp [hshares, hother]
      · simp [Tree.content?, hfind, hm, hother]
    · refine content?_eq_iff_of_stays h hbytes hspot hreplaces (fun _ hhere => ?_) ?_
      · -- The path names the same file, which is not a new one then.
        subst hhere
        have hsame : d₁.tree.sameFile spot.location there.location = true := by simpa using hgone
        refine ⟨fun hgone => hgone.2 ⟨rfl, hshares.2 hsame⟩, fun hnone => absurd ?_ hm⟩
        have hfree := Disk.find?_of_reach
          (seek_eq_free hspot hreplaces (Tree.sameFile_self _ _) hnone)
        exact (hreplaces.new hfree _ hsame).symm
      · refine Tree.content?_congr ?_
        rw [hfind, if_neg hm, if_neg hgone]
  · obtain ⟨rfl, rfl⟩ := Tree.Spot.taken.inj (Except.ok.inj (hsource.symm.trans hlink₁))
    refine ⟨.inr ⟨_, target, hlink, hthere⟩, fun m hm => ?_⟩
    refine content?_eq_iff_of_stays h hbytes hspot hreplaces (fun hdirect => ?_) ?_
    · obtain rfl := Except.ok.inj (hdirect.symm.trans hlink)
      exact absurd hl (hreplaces.before.2 target)
    · -- Only the link is taken away, which holds no content.
      rw [Tree.content?, hfind, if_neg hm]
      split_ifs with hgone
      · rw [hgone.1, Tree.content?, Disk.find?_of_reach_taken hlink₁]
      · rfl

/-- Giving up a saving that has written the temporary file. -/
theorem content?_abandon_of_writes (h : Writes lib d p c text d₁)
    (hbytes : d.user.locale.encode text = some bytes)
    (hspot : (prepared d p).seek (temporary p).toText = .ok spot)
    (hreplaces : (prepared d p).Replaces d₁ spot.location bytes)
    (fault : FileFault) (m : Location) :
    (abandon d₁ (temporary p) fault).1.tree.content? m = d.tree.content? m ↔
      ¬ Spoiled lib d p c (some (abandon d₁ (temporary p) fault).2) m := by
  have hthere : d₁.exists? (temporary p).toText = .ok true := by
    have hseek : d₁.seek (temporary p).toText = .ok (.taken spot.location (.file bytes)) :=
      Disk.reach_of_keeps hreplaces.keeps hspot hreplaces.find?_self fun _ => rfl
    simp only [Disk.exists?, Disk.ask, hseek]
  obtain ⟨hnone, hcleared, old, hfile⟩ | ⟨hkept, hnot⟩ := content?_abandon d₁ (temporary p) fault m
  · -- The file at the temporary path is removed.
    obtain ⟨hlink, hlink₁⟩ | ⟨l, target, -, -, hlink₁⟩ := seekLink_of_replaces hspot hreplaces
    · obtain ⟨rfl, -⟩ := Tree.Spot.taken.inj (Except.ok.inj (hlink₁.symm.trans hfile))
      exact content?_eq_iff_of_gone h hbytes hspot hlink ⟨hcleared, by simp⟩ hnone
    · simp [hlink₁] at hfile
  · refine content?_eq_iff_of_stays h hbytes hspot hreplaces (fun hlink hhere => ?_) hkept
    subst hhere
    have hlink₁ := Disk.reach_of_keeps hreplaces.keeps hlink hreplaces.find?_self
      fun hlast => absurd hlast Bool.false_ne_true
    have hcleared : ¬ Cleared (some (abandon d₁ (temporary p) fault).2) :=
      fun hcleared => hnot ⟨hcleared, bytes, hlink₁⟩
    exact ⟨fun hgone => hcleared hgone.1,
      fun _ => (cleared_or_stuck_abandon fault hthere).resolve_left hcleared⟩

/-! ## The steps -/

/-- The last steps one by one: the temporary file is not written, or it is written without content,
or it is written and then moved. -/
theorem replaceFile_cases (d : Disk) (p temp : Path) (text : Text) :
    (∃ stop, replaceFile d p temp text = ⟨d, some stop⟩ ∧
      ∀ d₁, d.write temp.toText ((d.user.locale.encode text).getD []) ≠ .ok d₁) ∨
    ∃ d₁, d.write temp.toText ((d.user.locale.encode text).getD []) = .ok d₁ ∧
      (d.user.locale.encode text = none ∧
          replaceFile d p temp text = ⟨d₁, some (.escape .badEncoding)⟩ ∨
        ∃ bytes, d.user.locale.encode text = some bytes ∧
          ((∃ fault, replaceFile d p temp text = ⟨d₁, some (.file fault)⟩) ∨
            ∃ d₂, d₁.move temp.toText p.toText = .ok d₂ ∧
              replaceFile d p temp text = ⟨d₂, none⟩)) := by
  cases hwrite : d.write temp.toText ((d.user.locale.encode text).getD []) with
  | error fault =>
      refine .inl ?_
      by_cases hname : d.user.canName temp.toText = true
      · exact ⟨.file fault, by simp [replaceFile, hname, hwrite], by simp⟩
      · exact ⟨.escape .badPath, by simp [replaceFile, hname], by simp⟩
  | ok d₁ =>
      obtain ⟨spot, hspot, -⟩ := Disk.write_replaces hwrite
      have hname : d.user.canName temp.toText = true := (Disk.reach_eq_ok.1 hspot).2.1
      refine .inr ⟨d₁, rfl, ?_⟩
      cases hencode : d.user.locale.encode text with
      | none =>
          rw [hencode, Option.getD_none] at hwrite
          exact .inl ⟨rfl, by simp [replaceFile, hname, hencode, hwrite]⟩
      | some bytes =>
          rw [hencode, Option.getD_some] at hwrite
          refine .inr ⟨bytes, rfl, ?_⟩
          cases hmove : d₁.move temp.toText p.toText with
          | error fault => exact .inl ⟨fault, by simp [replaceFile, hname, hencode, hwrite, hmove]⟩
          | ok d₂ => exact .inr ⟨d₂, rfl, by simp [replaceFile, hname, hencode, hwrite, hmove]⟩

/-- The steps of saving one by one: the temporary file is not written, or it is written without
content, or it is written and then moved. -/
theorem saveSteps_cases (lib : Toml.Library) (d : Disk) (p : Path) (c : Config) :
    (∃ stop, saveSteps d p (temporary p) c lib = ⟨prepared d p, some stop⟩ ∧
      ∀ text d₁, ¬ Writes lib d p c text d₁) ∨
    ∃ text d₁, Writes lib d p c text d₁ ∧
      (d.user.locale.encode text = none ∧
          saveSteps d p (temporary p) c lib = ⟨d₁, some (.escape .badEncoding)⟩ ∨
        ∃ bytes, d.user.locale.encode text = some bytes ∧
          ((∃ fault, saveSteps d p (temporary p) c lib = ⟨d₁, some (.file fault)⟩) ∨
            ∃ d₂, d₁.move (temporary p).toText p.toText = .ok d₂ ∧
              saveSteps d p (temporary p) c lib = ⟨d₂, none⟩)) := by
  by_cases hparent : d.user.canName p.parent.toText = true
  · have hprepared : prepared d p = (d.makeDirectories (p.parts.length + 1) p.parent).1 :=
      if_pos hparent
    have huser := (prepared_grows d p).user
    rw [saveSteps, if_neg (by simp [hparent])]
    split
    · next d₀ fault hmade =>
        rw [hmade] at hprepared
        refine .inl ⟨_, by rw [hprepared], fun text d₁ h => ?_⟩
        have hnone := h.made
        simp [hmade] at hnone
    · next d₀ hmade =>
        rw [hmade] at hprepared
        subst hprepared
        split
        · next stop hstop =>
            refine .inl ⟨stop, rfl, fun text d₁ h => ?_⟩
            have hedited := h.edited
            simp [hstop] at hedited
        · next text htext =>
            have hlast := replaceFile_cases (prepared d p) p (temporary p) text
            rw [huser] at hlast
            refine hlast.imp ?_ ?_
            · rintro ⟨stop, hstop, hnot⟩
              refine ⟨stop, hstop, fun text' d₁ h => hnot d₁ ?_⟩
              obtain rfl : text' = text := Except.ok.inj (h.edited.symm.trans htext)
              exact h.written
            · rintro ⟨d₁, hwritten, hend⟩
              exact ⟨text, d₁, ⟨hparent, by rw [hmade], htext, hwritten⟩, hend⟩
  · refine .inl ⟨.escape .badPath, ?_, fun text d₁ h => hparent h.parent⟩
    simp [saveSteps, prepared, hparent]

/-! ## The outcome -/

/-- Saving takes its steps at the path that it is asked for, if that has a name. -/
theorem save_of_savePath (hpath : savePath d e asked = .ok p) (hname : p.name ≠ []) :
    save d e asked c lib =
      match saveSteps d p (temporary p) c lib with
      | ⟨d, none⟩ => (d, Traced.note (.configSaved p.toText) >>= fun _ => pure p)
      | ⟨d, some (.escape cause)⟩ => (d, .fail (.escape cause))
      | ⟨d, some (.file fault)⟩ =>
          ((abandon d (temporary p) fault).1, .fail (abandon d (temporary p) fault).2) := by
  have hnonempty : p.name.isEmpty = false := by simpa using hname
  simp only [save, hpath, hnonempty, Bool.false_eq_true, if_false]
  rfl

/-- Without a path that has a name, saving takes no step. -/
theorem save_of_no_steps (h : ∀ p, savePath d e asked = .ok p → p.name = []) :
    (save d e asked c lib).1 = d ∧ ∃ f, (save d e asked c lib).2.result = .error f := by
  rw [save]
  split
  · next failure hfailure => exact ⟨rfl, failure, rfl⟩
  · next p hpath =>
      have hname : p.name.isEmpty = true := by simpa using h p hpath
      rw [if_pos hname]
      exact ⟨rfl, _, rfl⟩

/-- A failed saving changes the content of the locations that it spoils. -/
theorem content?_save_of_error (hpath : savePath d e asked = .ok p) (hname : p.name ≠ [])
    {f : Failure} (h : (save d e asked c lib).2.result = .error f) (m : Location) :
    (save d e asked c lib).1.tree.content? m = d.tree.content? m ↔
      ¬ Spoiled lib d p c (some f) m := by
  rw [save_of_savePath hpath hname] at h ⊢
  obtain ⟨stop, hsteps, hnot⟩ | ⟨text, d₁, hwrites, ⟨hnone, hsteps⟩ |
    ⟨bytes, hbytes, ⟨fault, hsteps⟩ | ⟨d₂, hmove, hsteps⟩⟩⟩ := saveSteps_cases lib d p c
  · -- Nothing was written, so only giving up can change something.
    rw [hsteps] at h ⊢
    rw [spoiled_iff_of_not_writes hnot]
    cases stop with
    | escape cause =>
        obtain rfl := Except.error.inj h
        simp [content?_prepared, Cleared]
    | file fault =>
        obtain rfl := Except.error.inj h
        obtain ⟨hgone, hcleared, old, hfile⟩ | ⟨hkept, hnot⟩ :=
          content?_abandon (prepared d p) (temporary p) fault m
        · rw [hgone, content?_of_seekLink hfile]
          exact iff_of_false (by simp) (not_not_intro ⟨hcleared, old, hfile⟩)
        · rw [hkept, content?_prepared]
          exact iff_of_true rfl hnot
  · -- The temporary file was emptied.
    rw [hsteps] at h ⊢
    obtain rfl := Except.error.inj h
    obtain ⟨spot, hspot, hreplaces⟩ := hwrites.replaces
    rw [hnone, Option.getD_none] at hreplaces
    rw [spoiled_iff_of_encode_eq_none hwrites hnone hspot (by simp [Cleared])]
    exact content?_eq_iff (content?_of_replaces hreplaces m)
  · -- The temporary file was written and could not be moved.
    rw [hsteps] at h ⊢
    obtain rfl := Except.error.inj h
    obtain ⟨spot, hspot, hreplaces⟩ := hwrites.replaces
    rw [hbytes, Option.getD_some] at hreplaces
    exact content?_abandon_of_writes hwrites hbytes hspot hreplaces fault m
  · rw [hsteps] at h
    cases h

/-- A saving that succeeds has moved the temporary file that it has written. -/
theorem exists_writes_of_save (h : (save d e asked c lib).2.result = .ok p) :
    savePath d e asked = .ok p ∧ ∃ text bytes d₁, Writes lib d p c text d₁ ∧
      d.user.locale.encode text = some bytes ∧
      d₁.move (temporary p).toText p.toText = .ok (save d e asked c lib).1 := by
  by_cases hpath : ∃ q, savePath d e asked = .ok q ∧ q.name ≠ []
  · obtain ⟨q, hpath, hname⟩ := hpath
    rw [save_of_savePath hpath hname] at h ⊢
    obtain ⟨stop, hsteps, -⟩ | ⟨text, d₁, hwrites, ⟨-, hsteps⟩ |
      ⟨bytes, hbytes, ⟨fault, hsteps⟩ | ⟨d₂, hmove, hsteps⟩⟩⟩ := saveSteps_cases lib d q c
    · rw [hsteps] at h
      cases stop <;> cases h
    · rw [hsteps] at h
      cases h
    · rw [hsteps] at h
      cases h
    · rw [hsteps] at h ⊢
      obtain rfl : q = p := Except.ok.inj h
      exact ⟨hpath, text, bytes, d₁, hwrites, hbytes, hmove⟩
  · simp only [not_exists, not_and, not_not] at hpath
    obtain ⟨f, hf⟩ : ∃ f, (save d e asked c lib).2.result = .error f := (save_of_no_steps hpath).2
    rw [hf] at h
    contradiction

/-- What saving changes. A success leaves the new text at the path that it returns, or the link that
it was written through; at any other location, and after a failure at all of them, a location holds
what it held before just if it is not spoiled. -/
theorem save_content?_iff (lib : Toml.Library) (d : Disk) (e : Environment) (asked : Option Text)
    (c : Config) :
    (∀ p, (save d e asked c lib).2.result = .ok p →
      ∃ text bytes d₁ there, Writes lib d p c text d₁ ∧
        d.user.locale.encode text = some bytes ∧ d₁.seekLink p.toText = .ok there ∧
        ((save d e asked c lib).1.tree.find? there.location = some (.file bytes) ∨
          ∃ l target, (prepared d p).seekLink (temporary p).toText = .ok (.taken l (.link target)) ∧
            (save d e asked c lib).1.tree.find? there.location = some (.link target)) ∧
        ∀ m, m ≠ there.location →
          ((save d e asked c lib).1.tree.content? m = d.tree.content? m ↔
            ¬ Spoiled lib d p c none m)) ∧
      ∀ f, (save d e asked c lib).2.result = .error f →
        ∀ m, ((save d e asked c lib).1.tree.content? m = d.tree.content? m ↔
          ¬ ∃ p, savePath d e asked = .ok p ∧ p.name ≠ [] ∧ Spoiled lib d p c (some f) m) := by
  refine ⟨fun p h => ?_, fun f h m => ?_⟩
  · obtain ⟨-, text, bytes, d₁, hwrites, hbytes, hmove⟩ := exists_writes_of_save h
    obtain ⟨there, hthere, hstands, hkept⟩ := content?_move_of_writes hwrites hbytes hmove
    exact ⟨text, bytes, d₁, there, hwrites, hbytes, hthere, hstands, hkept⟩
  · by_cases hpath : ∃ p, savePath d e asked = .ok p ∧ p.name ≠ []
    · obtain ⟨p, hpath, hname⟩ := hpath
      rw [content?_save_of_error hpath hname h m]
      simp [hpath, hname]
    · have hnone : ∀ p, savePath d e asked = .ok p → p.name = [] := by simpa using hpath
      rw [(save_of_no_steps hnone).1]
      refine iff_of_true rfl ?_
      rintro ⟨p, hp, hname, -⟩
      exact hname (hnone p hp)

/-- A disk where a directory has the name of the configuration file and a file has the name of the
temporary one. -/
def crowdedDisk : Disk where
  tree := { entries := [(["a.toml"], .directory), (["a.tmp"], .file [107, 101, 101, 112])] }
  cwd := []
  user := "/"

/-- A failed saving that has written nothing takes away a file that was there before. -/
theorem save_crowdedDisk :
    (save crowdedDisk [] (some "a.toml") {}).2.result =
        .error (.config (.unwritable (.of .isDirectory "/a.toml"))) ∧
      (save crowdedDisk [] (some "a.toml") {}).1.tree.content? ["a.tmp"] ≠
        crowdedDisk.tree.content? ["a.tmp"] := by
  have hpath : savePath crowdedDisk [] (some "a.toml") = .ok ⟨"/", ["a.toml"]⟩ := rfl
  have hname : Path.name ⟨"/", ["a.toml"]⟩ ≠ [] := by decide
  have hsteps : saveSteps crowdedDisk ⟨"/", ["a.toml"]⟩ (temporary ⟨"/", ["a.toml"]⟩) {} .builtin =
      ⟨crowdedDisk, some (.file (.of .isDirectory "/a.toml"))⟩ := rfl
  have hfailed : (save crowdedDisk [] (some "a.toml") {}).2.result =
      .error (.config (.unwritable (.of .isDirectory "/a.toml"))) := by
    rw [save_of_savePath hpath hname, hsteps]
    rfl
  have hfile : (prepared crowdedDisk ⟨"/", ["a.toml"]⟩).seekLink
      (temporary ⟨"/", ["a.toml"]⟩).toText =
        .ok (.taken ["a.tmp"] (.file [107, 101, 101, 112])) := rfl
  refine ⟨hfailed, fun hkept => ?_⟩
  have hiff := (save_content?_iff .builtin crowdedDisk [] (some "a.toml") {}).2 _ hfailed ["a.tmp"]
  exact hiff.1 hkept ⟨_, hpath, hname, .taken ⟨.inr ⟨_, rfl⟩, by simp⟩ hfile⟩

/-- A disk where the name of the temporary file is one of two names of a file. -/
def twinDisk : Disk where
  tree := {
    entries := [(["a.tmp"], .file []), (["b.txt"], .file [])]
    numbers := [(["a.tmp"], 1), (["b.txt"], 1)] }
  cwd := []
  user := "/"

-- The settings are written under both names, and one of them is moved.
example : ((save twinDisk [] (some "a.toml") {}).1.tree.content? ["a.toml"]).isSome = true ∧
    (save twinDisk [] (some "a.toml") {}).1.tree.content? ["b.txt"] =
      (save twinDisk [] (some "a.toml") {}).1.tree.content? ["a.toml"] ∧
    (save twinDisk [] (some "a.toml") {}).1.tree.content? ["a.tmp"] = none := by
  decide +kernel

end ShellDocs.Config
