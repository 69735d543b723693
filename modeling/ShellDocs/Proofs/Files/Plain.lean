import ShellDocs.Proofs.Files.Disk

/-!
# Walks without links

In a tree without links in which the process may do everything, a walk depends on directories and
names alone. `Tree.walk` is that walk: `Tree.follow_eq_walk` says that it is the one that is taken
in such a tree, and `Disk.reach_eq_ok_iff` that a path then leads where its parts lead, if it can be
taken at all.
-/

namespace ShellDocs

namespace Tree

/-- Whether there are no links in the tree. -/
def Linkless (t : Tree) : Prop := ∀ l target, t.find? l ≠ some (.link target)

/-- Whether there are no links in the tree and the process may do everything in it. -/
structure Plain (t : Tree) : Prop where
  linkless : t.Linkless
  permitted : ∀ a l, t.permits a l = true

/-- The walk from `here` along the parts of a path in a tree without links. -/
def walk (t : Tree) (here : Location) : List Text → Except Errno Spot
  | [] =>
      match t.find? here with
      | some e => .ok (.taken here e)
      | none => .error .noEntry
  | part :: rest =>
      match t.find? here with
      | none => .error .noEntry
      | some .directory =>
          if part.isEmpty || part == ['.'] then walk t here rest
          else if part == ['.', '.'] then walk t here.dropLast rest
          else if nameLimit < (Utf8.encode part).length then .error .nameTooLong
          else
            match t.find? (here ++ [part]) with
            | some _ => walk t (here ++ [part]) rest
            | none => if rest.isEmpty then .ok (.free (here ++ [part])) else .error .noEntry
      | some _ => .error .notDirectory

variable {t : Tree} {last : Bool} {links : Nat} {here : Location} {part : Text}
  {parts rest : List Text} {spot : Spot}

/-- A tree without entries but directories and files has no links. -/
theorem linkless_of_forall (h : ∀ x ∈ t.entries, x.2.isLink = false) : t.Linkless := by
  intro l target hl
  rw [find?] at hl
  split_ifs at hl
  · simp at hl
  · have hlink := h _ (Association.mem_of_lookup_eq_some hl)
    contradiction

theorem Grows.linkless {t' : Tree} (h : t.Grows t') (ht : t.Linkless) : t'.Linkless := by
  intro l target hl
  obtain hsame | ⟨-, hdir⟩ := h.find? l
  · exact ht l target (hsame.symm.trans hl)
  · simp [hdir] at hl

/-- The walk that is taken in a tree without links in which the process may do everything. -/
theorem follow_eq_walk (ht : t.Plain) : t.follow last links here parts = t.walk here parts := by
  obtain ⟨jump, hfollow⟩ := exists_advance t last links
  rw [hfollow]
  induction parts generalizing here with
  | nil =>
      cases hhere : t.find? here <;> simp [advance, walk, hhere]
  | cons part rest ih =>
      rw [advance, walk]
      cases hhere : t.find? here with
      | none => rfl
      | some e =>
          cases e with
          | file content => rfl
          | link target => rfl
          | directory =>
              dsimp only
              by_cases hempty : part.isEmpty = true
              · simp [hempty, ih]
              by_cases hdot : part = ['.']
              · simp [hdot, ht.permitted, ih]
              simp only [hempty, ht.permitted, Bool.not_true, Bool.false_eq_true, if_false,
                beq_eq_false_iff_ne.2 hdot, Bool.or_self, ih]
              cases hpart : t.find? (here ++ [part]) with
              | none => rfl
              | some f =>
                  cases f with
                  | file content => rfl
                  | directory => rfl
                  | link target => exact absurd hpart (ht.linkless _ target)

/-- One step of a walk that leads somewhere: it stays, goes up, goes on to what a name stands for,
or ends at a free place. -/
theorem walk_cons_eq_ok :
    t.walk here (part :: rest) = .ok spot ↔ t.find? here = some .directory ∧
      if part.isEmpty || part == ['.'] then t.walk here rest = .ok spot
      else if part == ['.', '.'] then t.walk here.dropLast rest = .ok spot
      else ¬ nameLimit < (Utf8.encode part).length ∧
        ((∃ e, t.find? (here ++ [part]) = some e ∧ t.walk (here ++ [part]) rest = .ok spot) ∨
          t.find? (here ++ [part]) = none ∧ rest = [] ∧ spot = .free (here ++ [part])) := by
  rw [walk]
  split
  · next hnone => simp [hnone]
  · next hdir =>
      simp only [hdir, true_and]
      split
      · rfl
      · split
        · rfl
        · split
          · next hlong => simp [hlong]
          · next hshort =>
              simp only [hshort, not_false_eq_true, true_and]
              split
              · next e he => simp [he]
              · next hnone =>
                  cases rest with
                  | nil => simp [hnone, eq_comm]
                  | cons _ _ => simp [hnone]
  · next e hother he =>
      exact iff_of_false (by simp) fun h => hother (Option.some.inj (he.symm.trans h.1))

/-- A walk tells what stands where it ends. -/
theorem find?_of_walk (h : t.walk here parts = .ok spot) :
    t.find? spot.location = spot.entry? := by
  induction parts generalizing here with
  | nil =>
      rw [walk] at h
      split at h
      · next e he =>
          obtain rfl := Except.ok.inj h
          exact he
      · contradiction
  | cons part rest ih =>
      obtain ⟨-, h⟩ := walk_cons_eq_ok.1 h
      split_ifs at h
      · exact ih h
      · exact ih h
      · obtain ⟨-, ⟨e, -, hrest⟩ | ⟨hnone, -, rfl⟩⟩ := h
        · exact ih hrest
        · exact hnone

end Tree

namespace Locale

theorem has_slash (l : Locale) : l.has '/' = true := l.has_ascii _ (by decide)

theorem has_dot (l : Locale) : l.has '.' = true := l.has_ascii _ (by decide)

end Locale

namespace User

variable {u : User} {t t' : Text}

theorem canName_append : u.canName (t ++ t') = (u.canName t && u.canName t') := List.all_append

theorem canName_slash (u : User) : u.canName ['/'] = true := by
  simp [canName, Locale.canPass, u.locale.has_slash]

theorem canName_dot (u : User) : u.canName ['.'] = true := by
  simp [canName, Locale.canPass, u.locale.has_dot]

end User

namespace Disk

variable {d : Disk} {last : Bool} {path : Text} {spot : Tree.Spot} {l : Location} {e : Entry}
  {bytes : Bytes}

/-- Whether the system takes a path: a file can have it for its name, and it is not too long. -/
structure Takes (d : Disk) (path : Text) : Prop where
  named : d.user.canName path = true
  short : (Utf8.encode path).length < pathLimit

instance (d : Disk) (path : Text) : Decidable (d.Takes path) :=
  decidable_of_iff (d.user.canName path = true ∧ (Utf8.encode path).length < pathLimit)
    ⟨fun h => ⟨h.1, h.2⟩, fun h => ⟨h.named, h.short⟩⟩

/-- The system takes a path that leads somewhere. -/
theorem Takes.of_reach (h : d.reach last path = .ok spot) : d.Takes path where
  named := (reach_eq_ok.1 h).2.1
  short := (reach_eq_ok.1 h).2.2.1

theorem Takes.of_append {more : Text} (h : d.Takes (path ++ more)) : d.Takes path where
  named := (Bool.and_eq_true_iff.1 (User.canName_append.symm.trans h.named)).1
  short := by
    have hsize := h.short
    rw [Utf8.encode, List.flatMap_append, List.length_append] at hsize
    exact Nat.lt_of_le_of_lt (Nat.le_add_right _ _) hsize

/-- Where a path leads in a tree without links. -/
def walk (d : Disk) (path : Text) : Except Errno Tree.Spot :=
  if path.isEmpty then .error .noEntry
  else d.tree.walk (if path.head? = some '/' then [] else d.cwd) (Text.fields '/' path)

/-- A path that the system takes leads along its parts. -/
theorem reach_eq_walk (ht : d.tree.Plain) (h : d.Takes path) : d.reach last path = d.walk path := by
  rw [reach, walk, Tree.follow_eq_walk ht]
  simp [h.named, Nat.not_le.2 h.short]

theorem reach_eq_ok_iff (ht : d.tree.Plain) :
    d.reach last path = .ok spot ↔ d.Takes path ∧ d.walk path = .ok spot := by
  constructor
  · intro h
    have htakes := Takes.of_reach h
    exact ⟨htakes, reach_eq_walk ht htakes ▸ h⟩
  · rintro ⟨htakes, h⟩
    rw [reach_eq_walk ht htakes, h]

theorem seek_eq_ok_iff (ht : d.tree.Plain) :
    d.seek path = .ok spot ↔ d.Takes path ∧ d.walk path = .ok spot :=
  reach_eq_ok_iff ht

/-- A walk tells what stands where it ends. -/
theorem find?_of_walk (h : d.walk path = .ok spot) :
    d.tree.find? spot.location = spot.entry? := by
  rw [walk] at h
  split_ifs at h
  all_goals exact Tree.find?_of_walk h

theorem holds_iff (ht : d.tree.Plain) :
    d.holds path = true ↔ d.Takes path ∧ ∃ l e, d.walk path = .ok (.taken l e) := by
  simp only [holds_eq_true, seek_eq_ok_iff ht, exists_and_left]

theorem holdsLink_eq_holds (ht : d.tree.Plain) : d.holdsLink path = d.holds path := by
  rw [Bool.eq_iff_iff, holdsLink_eq_true, holds_eq_true]
  simp only [seekLink, seek, reach_eq_ok_iff ht]

theorem isDirectory_iff (ht : d.tree.Plain) :
    d.isDirectory path = true ↔ d.Takes path ∧ ∃ l, d.walk path = .ok (.taken l .directory) := by
  simp only [isDirectory_eq_true, seek_eq_ok_iff ht, exists_and_left]

end Disk

end ShellDocs
