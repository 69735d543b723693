import ShellDocs.Files.Disk
import ShellDocs.Proofs.Files.Walk

/-!
# Changes of a disk

What the operations on files do. Making directories lets a disk grow
(`Disk.makeDirectories_grows`). Writing a file changes its content under all its names
(`Disk.write_replaces`), removing one clears a location (`Disk.remove_eq_ok`), and moving one takes
it from one location to another (`Disk.move_moves`). A path leads where it led before on a disk that
keeps the directories and links (`Disk.reach_of_keeps`).
-/

namespace ShellDocs.Disk

variable {d d' d'' : Disk} {last : Bool} {path source target : Text} {spot : Tree.Spot}
  {l m here there : Location} {e : Entry} {bytes content : Bytes}

/-! ## Where paths lead -/

/-- A path leads somewhere if it can be taken and the walk along it comes to an end. -/
theorem reach_eq_ok : d.reach last path = .ok spot ↔
    path ≠ [] ∧ d.user.canName path = true ∧ (Utf8.encode path).length < pathLimit ∧
      d.tree.follow last Tree.linkLimit (if path.head? = some '/' then [] else d.cwd)
        (Text.fields '/' path) = .ok spot := by
  rw [reach]
  by_cases hpath : (path.isEmpty || !d.user.canName path) = true
  · rw [if_pos hpath]
    refine iff_of_false (by simp) ?_
    rintro ⟨hne, hname, -⟩
    simp [hne, hname] at hpath
  · have ⟨hne, hname⟩ : path ≠ [] ∧ d.user.canName path = true := by simpa using hpath
    rw [if_neg hpath]
    by_cases hlong : pathLimit ≤ (Utf8.encode path).length
    · rw [if_pos hlong]
      exact iff_of_false (by simp) fun h => absurd h.2.2.1 (Nat.not_lt.2 hlong)
    · rw [if_neg hlong]
      simp [hne, hname, Nat.not_le.1 hlong]

/-- A walk tells what stands where it ends. -/
theorem find?_of_reach (h : d.reach last path = .ok spot) :
    d.tree.find? spot.location = spot.entry? :=
  Tree.find?_of_follow (reach_eq_ok.1 h).2.2.2

theorem find?_of_reach_taken (h : d.reach last path = .ok (.taken l e)) :
    d.tree.find? l = some e :=
  find?_of_reach h

theorem find?_of_reach_free (h : d.reach last path = .ok (.free l)) : d.tree.find? l = none :=
  find?_of_reach h

/-- What stands at a path is what the path leads to, unless it is a link. -/
theorem seekLink_of_seek (h : d.seek path = .ok spot) : d.seekLink path = .ok spot ∨
    ∃ m target, d.seekLink path = .ok (.taken m (.link target)) := by
  obtain ⟨hne, hname, hshort, hwalk⟩ := reach_eq_ok.1 h
  have hstops := (Tree.follow_eq_ok.1 hwalk).stops
  refine hstops.imp (fun hwalk => ?_) fun ⟨m, target, hwalk⟩ => ⟨m, target, ?_⟩
  · exact reach_eq_ok.2 ⟨hne, hname, hshort, Tree.follow_eq_ok.2 hwalk⟩
  · exact reach_eq_ok.2 ⟨hne, hname, hshort, Tree.follow_eq_ok.2 hwalk⟩

theorem seek_of_seekLink (h : d.seekLink path = .ok spot)
    (hlink : ∀ target, spot.entry? ≠ some (.link target)) : d.seek path = .ok spot := by
  obtain ⟨hne, hname, hshort, hwalk⟩ := reach_eq_ok.1 h
  exact reach_eq_ok.2
    ⟨hne, hname, hshort, Tree.follow_eq_ok.2 ((Tree.follow_eq_ok.1 hwalk).passes hlink)⟩

/-- A file stands at a path just if the path leads to one. -/
theorem isFile?_eq_ok_true :
    d.isFile? path = .ok true ↔ ∃ l content, d.seek path = .ok (.taken l (.file content)) := by
  rw [isFile?, ask]
  split
  · next l e hseek => cases e <;> simp [hseek]
  · next l hseek => simp [hseek]
  · next errno hseek => split_ifs <;> simp [hseek]

theorem isDirectory_eq_true :
    d.isDirectory path = true ↔ ∃ l, d.seek path = .ok (.taken l .directory) := by
  rw [isDirectory]
  split
  · next l hseek => exact iff_of_true rfl ⟨l, hseek⟩
  · next hother =>
      refine iff_of_false Bool.false_ne_true ?_
      rintro ⟨l, hseek⟩
      exact hother l hseek

theorem holds_eq_true : d.holds path = true ↔ ∃ l e, d.seek path = .ok (.taken l e) := by
  rw [holds]
  split
  · next l e hseek => exact iff_of_true rfl ⟨l, e, hseek⟩
  · next hother =>
      refine iff_of_false Bool.false_ne_true ?_
      rintro ⟨l, e, hseek⟩
      exact hother l e hseek

theorem holdsLink_eq_true :
    d.holdsLink path = true ↔ ∃ l e, d.seekLink path = .ok (.taken l e) := by
  rw [holdsLink]
  split
  · next l e hseek => exact iff_of_true rfl ⟨l, e, hseek⟩
  · next hother =>
      refine iff_of_false Bool.false_ne_true ?_
      rintro ⟨l, e, hseek⟩
      exact hother l e hseek

/-- One disk keeps the ways through another one. -/
structure Keeps (d d' : Disk) : Prop where
  cwd : d'.cwd = d.cwd
  user : d'.user = d.user
  tree : d.tree.Keeps d'.tree

theorem Keeps.trans (h : d.Keeps d') (h' : d'.Keeps d'') : d.Keeps d'' :=
  ⟨h'.cwd.trans h.cwd, h'.user.trans h.user, h.tree.trans h'.tree⟩

/-- A path leads to the same place on a disk that keeps the directories and links, if something
stands there that is not to be gone through. -/
theorem reach_of_keeps (hkeeps : d.Keeps d') (h : d.reach last path = .ok spot)
    (he : d'.tree.find? spot.location = some e) (hlink : last = true → e.isLink = false) :
    d'.reach last path = .ok (.taken spot.location e) := by
  obtain ⟨hne, hname, hshort, hwalk⟩ := reach_eq_ok.1 h
  refine reach_eq_ok.2 ⟨hne, by rwa [hkeeps.user], hshort, ?_⟩
  rw [hkeeps.cwd]
  exact Tree.follow_of_keeps hkeeps.tree hwalk he hlink

/-! ## Growth -/

/-- One disk has all that another has, and directories besides. -/
structure Grows (d d' : Disk) : Prop where
  cwd : d'.cwd = d.cwd
  user : d'.user = d.user
  tree : d.tree.Grows d'.tree

namespace Grows

theorem refl (d : Disk) : d.Grows d := ⟨rfl, rfl, .refl d.tree⟩

theorem trans (h : d.Grows d') (h' : d'.Grows d'') : d.Grows d'' :=
  ⟨h'.cwd.trans h.cwd, h'.user.trans h.user, h.tree.trans h'.tree⟩

theorem keeps (h : d.Grows d') : d.Keeps d' := ⟨h.cwd, h.user, h.tree.keeps⟩

end Grows

theorem makeDirectory_grows (h : d.makeDirectory path = .ok d') : d.Grows d' := by
  simp only [makeDirectory] at h
  split at h
  · contradiction
  · next l hreach =>
      split_ifs at h
      obtain rfl := Except.ok.inj h
      have hfree : d.tree.find? l = none := find?_of_reach_free hreach
      have hl : l ≠ [] := Tree.ne_nil_of_find?_ne (t := d.tree) (by simp [hfree])
      refine ⟨rfl, rfl, fun m => ?_, ?_⟩
      · simp only [put, Tree.find?_put _ hl]
        split_ifs with hm
        · exact .inr ⟨hm ▸ hfree, rfl⟩
        · exact .inl rfl
      · exact Tree.denied_put
  · contradiction

theorem makeDirectories_grows (d : Disk) (fuel : Nat) (path : Path) :
    d.Grows (d.makeDirectories fuel path).1 := by
  induction fuel generalizing d path with
  | zero => exact .refl d
  | succ fuel ih =>
      rw [makeDirectories]
      dsimp only
      split
      · have hparents := ih d path.parent
        split
        · next d' hmade =>
            rw [hmade] at hparents
            refine hparents.trans ?_
            split
            · next hdone => exact makeDirectory_grows hdone
            · split_ifs <;> exact .refl d'
        · exact hparents
      · split
        · next hdone => exact makeDirectory_grows hdone
        · split_ifs <;> exact .refl d

/-! ## Files -/

/-- A file is read just if its path leads there and the process may read it. -/
theorem readBytes_eq_ok : d.readBytes path = .ok bytes ↔
    ∃ l, d.seek path = .ok (.taken l (.file bytes)) ∧ d.tree.permits .read l = true := by
  simp only [readBytes]
  split
  · next l e hseek =>
      simp only [hseek, Except.ok.injEq, Tree.Spot.taken.injEq]
      cases hright : d.tree.permits .read l with
      | false =>
          refine iff_of_false (by simp) ?_
          rintro ⟨l, ⟨rfl, -⟩, hallowed⟩
          simp [hright] at hallowed
      | true =>
          cases e with
          | file content => simp [hright]
          | directory => simp
          | link target => simp
  · next hseek => simp [hseek]
  · next hseek => simp [hseek]

/-- A file is read on a disk that has more directories as it was read before. -/
theorem Grows.readBytes (h : d.Grows d') (hread : d.readBytes path = .ok bytes) :
    d'.readBytes path = .ok bytes := by
  obtain ⟨l, hseek, hright⟩ := readBytes_eq_ok.1 hread
  have hfile := h.tree.find?_of_eq_some (find?_of_reach_taken hseek)
  refine readBytes_eq_ok.2 ⟨l, ?_, (h.tree.permits .read l).trans hright⟩
  exact reach_of_keeps h.keeps hseek hfile fun _ => rfl

/-- A disk is another one except for the content of the file at one location, under all its names.
Neither a directory nor a link was there. -/
structure Replaces (d d' : Disk) (l : Location) (content : Bytes) : Prop where
  cwd : d'.cwd = d.cwd
  user : d'.user = d.user
  before : d.tree.find? l ≠ some .directory ∧ ∀ target, d.tree.find? l ≠ some (.link target)
  find? : ∀ m, d'.tree.find? m =
    if d.tree.sameFile l m then some (.file content) else d.tree.find? m
  rights : ∀ a m, d'.tree.permits a m = d.tree.permits a m
  new : d.tree.find? l = none → ∀ m, d'.tree.sameFile l m = true → m = l

namespace Replaces

theorem find?_self (h : d.Replaces d' l content) : d'.tree.find? l = some (.file content) := by
  rw [h.find?, if_pos (d.tree.sameFile_self l)]

theorem keeps (h : d.Replaces d' l content) : d.Keeps d' where
  cwd := h.cwd
  user := h.user
  tree := {
    directories := fun m hm => by
      rw [h.find? m, if_neg]
      · exact hm
      · intro hsame
        exact h.before.1 (Tree.find?_of_sameFile hsame ▸ hm)
    links := fun m target hm => by
      rw [h.find? m, if_neg]
      · exact hm
      · intro hsame
        exact h.before.2 target (Tree.find?_of_sameFile hsame ▸ hm)
    rights := fun m _ hright => (h.rights .enter m).trans hright }

/-- The directories and links on the disk were there before. -/
theorem keeps_symm (h : d.Replaces d' l content) : d'.Keeps d where
  cwd := h.cwd.symm
  user := h.user.symm
  tree := {
    directories := fun m hm => by
      rw [h.find?] at hm
      split_ifs at hm
      · simp at hm
      · exact hm
    links := fun m target hm => by
      rw [h.find?] at hm
      split_ifs at hm
      · simp at hm
      · exact hm
    rights := fun m _ hright => (h.rights .enter m).symm.trans hright }

end Replaces

/-- Writing a file changes the place that its path leads to. -/
theorem write_replaces (h : d.write path content = .ok d') :
    ∃ spot, d.seek path = .ok spot ∧ d.Replaces d' spot.location content := by
  have hfill {l : Location} (hl : d.tree.find? l ≠ some .directory)
      (hlink : ∀ target, d.tree.find? l ≠ some (.link target)) :
      d.Replaces (d.fill l content) l content :=
    ⟨rfl, rfl, ⟨hl, hlink⟩, Tree.find?_fill hl content, fun _ _ => Tree.permits_fill,
      fun hfree _ => Tree.eq_of_sameFile_fill hfree⟩
  simp only [write] at h
  split at h
  · next l old hseek =>
      split_ifs at h
      obtain rfl := Except.ok.inj h
      have hl : d.tree.find? l = some (.file old) := find?_of_reach_taken hseek
      exact ⟨_, hseek, hfill (by simp [hl]) (by simp [hl])⟩
  · contradiction
  · contradiction
  · next l hseek =>
      split_ifs at h
      obtain rfl := Except.ok.inj h
      have hl : d.tree.find? l = none := find?_of_reach_free hseek
      exact ⟨_, hseek, hfill (by simp [hl]) (by simp [hl])⟩
  · contradiction

/-- Removing a path succeeds just where a file or a link stands that may be removed. -/
theorem remove_eq_ok : d.remove path = .ok d' ↔ ∃ l e, d.seekLink path = .ok (.taken l e) ∧
    e ≠ .directory ∧ d.permitsIn l = true ∧ d' = { d with tree := d.tree.erase l } := by
  simp only [remove]
  split
  · next l e hseek =>
      cases hright : d.permitsIn l with
      | false =>
          refine iff_of_false (by simp) ?_
          rintro ⟨k, f, hk, -, hallowed, -⟩
          obtain ⟨rfl, rfl⟩ := Tree.Spot.taken.inj (Except.ok.inj (hseek.symm.trans hk))
          simp [hright] at hallowed
      | true =>
          by_cases hdir : e = .directory
          · simp [hseek, hdir]
          · simp [hseek, hright, hdir, @eq_comm _ d']
  · next hseek => simp [hseek]
  · next hseek => simp [hseek]

/-- A disk is another one except that an entry has been moved from one location to another. It stays
where it was as well if both are names of one file. -/
structure Moves (d d' : Disk) (here : Location) (e : Entry) (there : Location) : Prop where
  cwd : d'.cwd = d.cwd
  user : d'.user = d.user
  entry : d.tree.find? here = some e
  directory : e ≠ .directory ∧ d.tree.find? there ≠ some .directory
  find? : ∀ m, d'.tree.find? m =
    if m = there then some e
    else if m = here ∧ d.tree.sameFile here there = false then none
    else d.tree.find? m
  rights : ∀ a m, m ≠ here → m ≠ there → d'.tree.permits a m = d.tree.permits a m
  moved : ∀ a, d'.tree.permits a there = d.tree.permits a here

/-- What is moved to another name of it stays where it is. -/
theorem Moves.of_sameFile (he : d.tree.find? here = some e) (hdir : e ≠ .directory)
    (hsame : d.tree.sameFile here there = true) : d.Moves d here e there := by
  have hthere : d.tree.find? there = some e := (Tree.find?_of_sameFile hsame).trans he
  refine ⟨rfl, rfl, he, ⟨hdir, by simpa [hthere] using hdir⟩, fun m => ?_, fun _ _ _ _ => rfl,
    Tree.permits_of_sameFile hsame⟩
  split_ifs with hm hm'
  · rw [hm, hthere]
  · simp [hsame] at hm'
  · rfl

/-- What is moved elsewhere takes another place. -/
theorem Moves.of_not_sameFile (he : d.tree.find? here = some e) (hdir : e ≠ .directory)
    (hfree : d.tree.find? there ≠ some .directory) (hsame : d.tree.sameFile here there = false) :
    d.Moves { d with tree := d.tree.move here there e } here e there := by
  have hne : here ≠ there := by
    rintro rfl
    simp at hsame
  have hhere : here ≠ [] := Tree.ne_nil_of_find?_ne (t := d.tree) (by simp [he, hdir])
  refine ⟨rfl, rfl, he, ⟨hdir, hfree⟩, fun m => ?_,
    fun a m => Tree.permits_move_of_ne, fun a => Tree.permits_move_there hne⟩
  rw [Tree.find?_move d.tree hhere (Tree.ne_nil_of_find?_ne hfree)]
  simp only [hsame, and_true]
  split_ifs with hm hm'
  · exact absurd (hm.symm.trans hm') hne
  all_goals rfl

/-- Moving a path takes what stands at it to the place where the target path leads. -/
theorem move_moves (h : d.move source target = .ok d') :
    ∃ here e there, d.seekLink source = .ok (.taken here e) ∧ d.seekLink target = .ok there ∧
      d.Moves d' here e there.location := by
  simp only [move] at h
  split at h
  · next here e there hsource htarget =>
      have hhere := find?_of_reach_taken hsource
      have hthere := find?_of_reach htarget
      refine ⟨here, e, there, hsource, htarget, ?_⟩
      split at h
      · next hnothing =>
          have ⟨hdir, hsame⟩ :
              e ≠ .directory ∧ d.tree.sameFile here there.location = true := by
            simpa using hnothing
          obtain rfl := Except.ok.inj h
          exact .of_sameFile hhere hdir hsame
      · next hnot =>
          split at h
          · contradiction
          split at h
          · contradiction
          · contradiction
          · next hdir hspot =>
              obtain rfl := Except.ok.inj h
              have hother : ¬ e = .directory → d.tree.sameFile here there.location = false := by
                simpa using hnot
              refine .of_not_sameFile hhere hdir ?_ (hother hdir)
              rw [hthere]
              cases there with
              | free l => simp [Tree.Spot.entry?]
              | taken l f =>
                  simp only [Tree.Spot.entry?, ne_eq, Option.some.injEq]
                  rintro rfl
                  exact hspot l rfl
  all_goals contradiction

/-- The ways through a disk stay when a file is moved, but for a link whose place it takes. -/
theorem Moves.keepsBut (h : d.Moves d' here e there) (hlink : e.isLink = false) :
    d.tree.KeepsBut d'.tree there := by
  have hother {m : Location} {f : Entry} (hm : d.tree.find? m = some f) (hf : f ≠ e)
      (hm' : m ≠ there) : m ≠ here ∧ d'.tree.find? m = some f := by
    have hne : m ≠ here := by
      rintro rfl
      exact hf (Option.some.inj (hm.symm.trans h.entry))
    exact ⟨hne, by rw [h.find?, if_neg hm', if_neg (fun hgone => hne hgone.1), hm]⟩
  have hdirectory {m : Location} (hm : d.tree.find? m = some .directory) :
      m ≠ there ∧ m ≠ here ∧ d'.tree.find? m = some .directory := by
    have hm' : m ≠ there := fun heq => h.directory.2 (heq ▸ hm)
    exact ⟨hm', hother hm h.directory.1.symm hm'⟩
  refine ⟨fun m hm => (hdirectory hm).2.2, fun m target hne hm => ?_, fun m hm hright => ?_⟩
  · refine (hother hm ?_ hne).2
    rintro rfl
    exact absurd hlink (by simp [Entry.isLink])
  · obtain ⟨hm', hm'', -⟩ := hdirectory hm
    exact (h.rights .enter m hm'' hm').trans hright

/-- The ways through a disk stay when a file is moved, unless it takes the place of a link. -/
theorem Moves.keeps (h : d.Moves d' here e there) (hlink : e.isLink = false)
    (hthere : ∀ target, d.tree.find? there ≠ some (.link target)) : d.Keeps d' :=
  ⟨h.cwd, h.user, (h.keepsBut hlink).keeps hthere⟩

end ShellDocs.Disk
