import ShellDocs.Proofs.Files.Tree

/-!
# Walks along a path

The walks that come to an end, as a relation with one case for each kind of part (`Tree.Walks`).
`Tree.follow_eq_ok` says that these are the walks that `Tree.follow` takes. What holds of walks is
then shown by induction over them: a walk tells what stands where it ends (`Tree.find?_of_follow`),
and it ends at the same place in a tree that keeps the directories and links, if something stands
there (`Tree.follow_of_keeps`).
-/

namespace ShellDocs

namespace Path

theorem eq_of_isName_eq_false {part : Text} (h : isName part = false) :
    part = [] ∨ part = ['.'] ∨ part = ['.', '.'] := by
  by_contra hother
  simp only [not_or] at hother
  simp [isName, hother] at h

theorem isName_iff {part : Text} :
    isName part = true ↔ part ≠ [] ∧ part ≠ ['.'] ∧ part ≠ ['.', '.'] := by
  simp [isName, and_assoc]

end Path

namespace Tree

open ShellDocs.Path (isName)

/-- Whether a part of a path is looked up as a name in a directory. -/
structure LooksUp (t : Tree) (l : Location) (part : Text) : Prop where
  directory : t.find? l = some .directory
  permitted : t.permits .enter l = true
  name : isName part = true
  short : (Utf8.encode part).length ≤ nameLimit

/-- The directory that the target of a link in `l` is seen from. -/
def base (l : Location) (target : Text) : Location := if target.head? = some '/' then [] else l

/-- `t.Walks last links l parts spot` says that the parts lead from `l` to `spot`, through so many
links at most. -/
inductive Walks (t : Tree) (last : Bool) : Nat → Location → List Text → Spot → Prop where
  | done {links l e} : t.find? l = some e → Walks t last links l [] (.taken l e)
  | skip {links l rest spot} :
      t.find? l = some .directory → Walks t last links l rest spot →
      Walks t last links l ([] :: rest) spot
  | dot {links l rest spot} :
      t.find? l = some .directory → t.permits .enter l = true → Walks t last links l rest spot →
      Walks t last links l (['.'] :: rest) spot
  | up {links l rest spot} :
      t.find? l = some .directory → t.permits .enter l = true →
      Walks t last links l.dropLast rest spot → Walks t last links l (['.', '.'] :: rest) spot
  | enter {links l part rest e spot} :
      t.LooksUp l part → t.find? (l ++ [part]) = some e → e.isLink = false →
      Walks t last links (l ++ [part]) rest spot → Walks t last links l (part :: rest) spot
  | free {links l part} :
      t.LooksUp l part → t.find? (l ++ [part]) = none →
      Walks t last links l [part] (.free (l ++ [part]))
  /-- A link at the end that is not gone through. -/
  | stop {links l part target} :
      t.LooksUp l part → t.find? (l ++ [part]) = some (.link target) → last = false →
      Walks t last links l [part] (.taken (l ++ [part]) (.link target))
  | leap {links l part rest target spot} :
      t.LooksUp l part → t.find? (l ++ [part]) = some (.link target) → rest ≠ [] ∨ last = true →
      Walks t last links (base l target) (Text.fields '/' target ++ rest) spot →
      Walks t last (links + 1) l (part :: rest) spot

variable {t t' : Tree} {last : Bool} {links : Nat} {l : Location} {part : Text}
  {parts rest : List Text} {spot : Spot} {e : Entry}
  {jump : Location → List Text → Except Errno Spot}

/-! ## The walks that are taken -/

theorem advance_skip (hdir : t.find? l = some .directory) :
    t.advance last jump l ([] :: rest) = t.advance last jump l rest := by
  rw [advance, hdir]
  rfl

theorem advance_dot (hdir : t.find? l = some .directory) (hright : t.permits .enter l = true) :
    t.advance last jump l (['.'] :: rest) = t.advance last jump l rest := by
  rw [advance, hdir]
  simp [hright]

theorem advance_up (hdir : t.find? l = some .directory) (hright : t.permits .enter l = true) :
    t.advance last jump l (['.', '.'] :: rest) = t.advance last jump l.dropLast rest := by
  rw [advance, hdir]
  simp [hright]

/-- A walk goes on by a name according to what stands there. -/
theorem advance_name (h : t.LooksUp l part) :
    t.advance last jump l (part :: rest) =
      match t.find? (l ++ [part]) with
      | some (.link target) =>
          if rest.isEmpty && !last then .ok (.taken (l ++ [part]) (.link target))
          else jump (base l target) (Text.fields '/' target ++ rest)
      | some _ => t.advance last jump (l ++ [part]) rest
      | none => if rest.isEmpty then .ok (.free (l ++ [part])) else .error .noEntry := by
  obtain ⟨hempty, hdot, hup⟩ := Path.isName_iff.1 h.name
  rw [advance, h.directory]
  simp only [List.isEmpty_eq_false_iff.2 hempty, h.permitted, beq_eq_false_iff_ne.2 hdot,
    beq_eq_false_iff_ne.2 hup, Nat.not_lt.2 h.short, Bool.not_true, Bool.false_eq_true, if_false]
  rfl

/-- A walk that leads somewhere starts with an empty part, a dot or two, or a name. -/
theorem advance_cases (h : t.advance last jump l (part :: rest) = .ok spot) :
    t.find? l = some .directory ∧ (part = [] ∨ t.permits .enter l = true ∧
      (part = ['.'] ∨ part = ['.', '.'] ∨ t.LooksUp l part)) := by
  rw [advance] at h
  split at h
  · contradiction
  · next hdir =>
      refine ⟨hdir, ?_⟩
      by_cases hempty : part = []
      · exact .inl hempty
      by_cases hright : t.permits .enter l = true
      · refine .inr ⟨hright, ?_⟩
        by_cases hdot : part = ['.']
        · exact .inl hdot
        by_cases hup : part = ['.', '.']
        · exact .inr (.inl hup)
        refine .inr (.inr ⟨hdir, hright, Path.isName_iff.2 ⟨hempty, hdot, hup⟩, ?_⟩)
        by_contra hlong
        simp [hempty, hright, hdot, hup, Nat.not_le.1 hlong] at h
      · simp [hempty, hright] at h
  · contradiction

/-- The first link is gone through by `jump`; before it the parts are taken one by one. -/
theorem walks_of_advance {links : Nat}
    (hjump : ∀ l part rest target, t.LooksUp l part →
      t.find? (l ++ [part]) = some (.link target) → rest ≠ [] ∨ last = true →
      jump (base l target) (Text.fields '/' target ++ rest) = .ok spot →
      t.Walks last links l (part :: rest) spot)
    (h : t.advance last jump l parts = .ok spot) : t.Walks last links l parts spot := by
  induction parts generalizing l with
  | nil =>
      rw [advance] at h
      split at h
      · next e he =>
          obtain rfl := Except.ok.inj h
          exact .done he
      · contradiction
  | cons part rest ih =>
      obtain ⟨hdir, rfl | ⟨hright, rfl | rfl | hname⟩⟩ := advance_cases h
      · exact .skip hdir (ih (advance_skip hdir ▸ h))
      · exact .dot hdir hright (ih (advance_dot hdir hright ▸ h))
      · exact .up hdir hright (ih (advance_up hdir hright ▸ h))
      · rw [advance_name hname] at h
        split at h
        · next target htarget =>
            split_ifs at h with hstop
            · obtain rfl := Except.ok.inj h
              obtain ⟨hrest, hlast⟩ := Bool.and_eq_true_iff.1 hstop
              obtain rfl := List.isEmpty_iff.1 hrest
              exact .stop hname htarget (by simpa using hlast)
            · refine hjump l part rest target hname htarget ?_ h
              simpa [or_iff_not_imp_left] using hstop
        · next e hnone he =>
            refine .enter hname he ?_ (ih h)
            cases e with
            | link target => exact (hnone target rfl).elim
            | directory => rfl
            | file content => rfl
        · next hfree =>
            split_ifs at h with hrest
            obtain rfl := List.isEmpty_iff.1 hrest
            obtain rfl := Except.ok.inj h
            exact .free hname hfree

/-- Up to its first link a walk does not depend on how many links it may go through. -/
theorem exists_advance (t : Tree) (last : Bool) (links : Nat) :
    ∃ jump, t.follow last links = t.advance last jump := by
  cases links <;> exact ⟨_, rfl⟩

/-- Walks are those that `follow` takes. -/
theorem follow_eq_ok :
    t.follow last links l parts = .ok spot ↔ t.Walks last links l parts spot := by
  constructor
  · intro h
    induction links generalizing l parts with
    | zero =>
        rw [follow] at h
        refine walks_of_advance (fun _ _ _ _ _ _ _ hjump => ?_) h
        contradiction
    | succ links ih =>
        rw [follow] at h
        exact walks_of_advance
          (fun _ _ _ _ hname htarget hmore hjump => .leap hname htarget hmore (ih hjump)) h
  · intro h
    induction h with
    | @done links l e he =>
        obtain ⟨jump, hfollow⟩ := exists_advance t last links
        rw [hfollow, advance, he]
    | @skip links l rest spot hdir hrest ih =>
        obtain ⟨jump, hfollow⟩ := exists_advance t last links
        rw [hfollow] at ih ⊢
        rw [advance_skip hdir, ih]
    | @dot links l rest spot hdir hright hrest ih =>
        obtain ⟨jump, hfollow⟩ := exists_advance t last links
        rw [hfollow] at ih ⊢
        rw [advance_dot hdir hright, ih]
    | @up links l rest spot hdir hright hrest ih =>
        obtain ⟨jump, hfollow⟩ := exists_advance t last links
        rw [hfollow] at ih ⊢
        rw [advance_up hdir hright, ih]
    | @enter links l part rest e spot hname he hlink hrest ih =>
        obtain ⟨jump, hfollow⟩ := exists_advance t last links
        rw [hfollow] at ih ⊢
        rw [advance_name hname, he]
        cases e with
        | link target => contradiction
        | directory => exact ih
        | file content => exact ih
    | @free links l part hname hfree =>
        obtain ⟨jump, hfollow⟩ := exists_advance t last links
        rw [hfollow, advance_name hname, hfree]
        rfl
    | @stop links l part target hname htarget hlast =>
        obtain ⟨jump, hfollow⟩ := exists_advance t last links
        rw [hfollow, advance_name hname, htarget]
        simp [hlast]
    | @leap links l part rest target spot hname htarget hmore hrest ih =>
        have hgo : (rest.isEmpty && !last) = false := by
          rcases hmore with hmore | hmore <;> simp [hmore]
        rw [follow, advance_name hname, htarget]
        simp only [hgo, Bool.false_eq_true, if_false]
        exact ih

/-! ## Where a walk ends -/

/-- What a tree holds at the place where a walk ends. -/
def Spot.entry? : Spot → Option Entry
  | .taken _ e => some e
  | .free _ => none

/-- A walk tells what stands where it ends. -/
theorem find?_of_follow (h : t.follow last links l parts = .ok spot) :
    t.find? spot.location = spot.entry? := by
  have hwalk := follow_eq_ok.1 h
  clear h
  induction hwalk with
  | done he => exact he
  | skip _ _ ih => exact ih
  | dot _ _ _ ih => exact ih
  | up _ _ _ ih => exact ih
  | enter _ _ _ _ ih => exact ih
  | free _ hfree => exact hfree
  | stop _ htarget _ => exact htarget
  | leap _ _ _ _ ih => exact ih

/-- A walk from a file stays there. -/
theorem Walks.of_file {content : Bytes} (hfile : t.find? l = some (.file content))
    (h : t.Walks last links l parts spot) : parts = [] ∧ spot.location = l := by
  have hdir : t.find? l ≠ some .directory := by simp [hfile]
  cases h with
  | done _ => exact ⟨rfl, rfl⟩
  | skip hthere _ => exact absurd hthere hdir
  | dot hthere _ _ => exact absurd hthere hdir
  | up hthere _ _ => exact absurd hthere hdir
  | enter hname _ _ _ => exact absurd hname.directory hdir
  | free hname _ => exact absurd hname.directory hdir
  | stop hname _ _ => exact absurd hname.directory hdir
  | leap hname _ _ _ => exact absurd hname.directory hdir

theorem LooksUp.of_keeps (hkeeps : t.Keeps t') (h : t.LooksUp l part) : t'.LooksUp l part where
  directory := hkeeps.directories l h.directory
  permitted := hkeeps.rights l h.directory h.permitted
  name := h.name
  short := h.short

/-- A walk by one name ends at what stands there, unless that is a link to be gone through. -/
theorem Walks.single (hname : t.LooksUp l part) (he : t.find? (l ++ [part]) = some e)
    (hlink : last = true → e.isLink = false) :
    t.Walks last links l [part] (.taken (l ++ [part]) e) := by
  cases e with
  | directory => exact .enter hname he rfl (.done he)
  | file content => exact .enter hname he rfl (.done he)
  | link target =>
      refine .stop hname he (Bool.eq_false_iff.2 fun hlast => ?_)
      exact absurd (hlink hlast) (by simp [Entry.isLink])

/-- Where a walk through links ends, one that stops at links ends too, unless it stops at a link
before. -/
theorem Walks.stops (h : t.Walks true links l parts spot) : t.Walks false links l parts spot ∨
    ∃ m target, t.Walks false links l parts (.taken m (.link target)) := by
  induction h with
  | done he => exact .inl (.done he)
  | skip hdir _ ih =>
      exact ih.imp (.skip hdir) fun ⟨m, target, ih⟩ => ⟨m, target, .skip hdir ih⟩
  | dot hdir hright _ ih =>
      exact ih.imp (.dot hdir hright) fun ⟨m, target, ih⟩ => ⟨m, target, .dot hdir hright ih⟩
  | up hdir hright _ ih =>
      exact ih.imp (.up hdir hright) fun ⟨m, target, ih⟩ => ⟨m, target, .up hdir hright ih⟩
  | enter hname he hlink _ ih =>
      exact ih.imp (.enter hname he hlink)
        fun ⟨m, target, ih⟩ => ⟨m, target, .enter hname he hlink ih⟩
  | free hname hfree => exact .inl (.free hname hfree)
  | stop _ _ hlast => contradiction
  | @leap links l part rest target spot hname htarget _ _ ih =>
      by_cases hrest : rest = []
      · subst hrest
        exact .inr ⟨_, target, .stop hname htarget rfl⟩
      · exact ih.imp (.leap hname htarget (.inl hrest))
          fun ⟨m, other, ih⟩ => ⟨m, other, .leap hname htarget (.inl hrest) ih⟩

/-- A walk that stops at links goes on through none of them if it ends at no link. -/
theorem Walks.passes (h : t.Walks false links l parts spot)
    (hlink : ∀ target, spot.entry? ≠ some (.link target)) : t.Walks true links l parts spot := by
  induction h with
  | done he => exact .done he
  | skip hdir _ ih => exact .skip hdir (ih hlink)
  | dot hdir hright _ ih => exact .dot hdir hright (ih hlink)
  | up hdir hright _ ih => exact .up hdir hright (ih hlink)
  | enter hname he hpassed _ ih => exact .enter hname he hpassed (ih hlink)
  | free hname hfree => exact .free hname hfree
  | stop _ _ _ => exact absurd rfl (hlink _)
  | leap hname htarget _ _ ih => exact .leap hname htarget (.inr rfl) (ih hlink)

/-- A walk ends at the same place in a tree that keeps the directories and links, if something
stands there that is not to be gone through. -/
theorem Walks.of_keeps (hkeeps : t.Keeps t') (h : t.Walks last links l parts spot)
    (he : t'.find? spot.location = some e) (hlink : last = true → e.isLink = false) :
    t'.Walks last links l parts (.taken spot.location e) := by
  induction h with
  | done _ => exact .done he
  | skip hdir _ ih => exact .skip (hkeeps.directories _ hdir) (ih he)
  | dot hdir hright _ ih =>
      exact .dot (hkeeps.directories _ hdir) (hkeeps.rights _ hdir hright) (ih he)
  | up hdir hright _ ih =>
      exact .up (hkeeps.directories _ hdir) (hkeeps.rights _ hdir hright) (ih he)
  | @enter links l part rest f spot hname hf hfLink hrest ih =>
      cases f with
      | link target => contradiction
      | directory =>
          exact .enter (hname.of_keeps hkeeps) (hkeeps.directories _ hf) rfl (ih he)
      | file content =>
          -- A file is passed only at the end, so what counts is what stands there now.
          obtain ⟨rfl, hend⟩ := hrest.of_file hf
          rw [hend] at he ⊢
          exact .single (hname.of_keeps hkeeps) he hlink
  | free hname _ => exact .single (hname.of_keeps hkeeps) he hlink
  | @stop links l part target hname htarget hlast =>
      have hkept := hkeeps.links _ _ htarget
      obtain rfl : e = .link target := Option.some.inj (he.symm.trans hkept)
      exact .stop (hname.of_keeps hkeeps) hkept hlast
  | leap hname htarget hmore _ ih =>
      exact .leap (hname.of_keeps hkeeps) (hkeeps.links _ _ htarget) hmore (ih he)

theorem follow_of_keeps (hkeeps : t.Keeps t') (h : t.follow last links l parts = .ok spot)
    (he : t'.find? spot.location = some e) (hlink : last = true → e.isLink = false) :
    t'.follow last links l parts = .ok (.taken spot.location e) :=
  follow_eq_ok.2 ((follow_eq_ok.1 h).of_keeps hkeeps he hlink)

end Tree

end ShellDocs
