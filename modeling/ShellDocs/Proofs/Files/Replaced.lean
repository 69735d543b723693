import ShellDocs.Proofs.Files.Spelling

/-!
# Links that a file takes the place of

A path that ends at a link leads to the file that takes the place of the link:
`Disk.seek_of_keepsBut`. The walk along the path could go through the very link before it ends
there. But then the link leads to a directory, or through more links than a walk goes through, and
both are excluded.
-/

namespace ShellDocs

namespace Tree

variable {t t' : Tree} {last : Bool} {n links : Nat} {l x : Location} {parts more : List Text}
  {spot : Spot} {e : Entry} {target : Text} {content : Bytes}
  {jump jump' : Location → List Text → Except Errno Spot}

/-! ## More links to go through -/

/-- A walk that does not come to an end at a link stays the same if links are gone through in the
same way except where they lead round in a circle. -/
theorem advance_of_ne_loop
    (hjump : ∀ l parts, jump l parts ≠ .error .loop → jump' l parts = jump l parts)
    (h : t.advance last jump l parts ≠ .error .loop) :
    t.advance last jump' l parts = t.advance last jump l parts := by
  induction parts generalizing l with
  | nil => rfl
  | cons part rest ih =>
      rw [advance] at h ⊢
      rw [advance]
      cases hhere : t.find? l with
      | none => rfl
      | some f =>
          cases f with
          | file content => rfl
          | link target => rfl
          | directory =>
              rw [hhere] at h
              cases hpart : t.find? (l ++ [part]) with
              | none =>
                  simp only [hpart] at h ⊢
                  split_ifs at h ⊢
                  all_goals first | rfl | exact ih h
              | some e =>
                  cases e with
                  | link target =>
                      simp only [hpart] at h ⊢
                      split_ifs at h ⊢
                      all_goals first | rfl | exact ih h | exact hjump _ _ h
                  | directory =>
                      simp only [hpart] at h ⊢
                      split_ifs at h ⊢
                      all_goals first | rfl | exact ih h
                  | file content =>
                      simp only [hpart] at h ⊢
                      split_ifs at h ⊢
                      all_goals first | rfl | exact ih h

/-- A walk stays the same if it may go through more links, unless it goes through too many. -/
theorem follow_of_le (hn : n ≤ links) (h : t.follow last n l parts ≠ .error .loop) :
    t.follow last links l parts = t.follow last n l parts := by
  induction n generalizing links l parts with
  | zero =>
      cases links with
      | zero => rfl
      | succ links =>
          rw [follow, follow]
          exact advance_of_ne_loop (fun _ _ hne => absurd rfl hne) h
  | succ n ih =>
      obtain ⟨links, rfl⟩ : ∃ m, links = m + 1 := ⟨links - 1, by omega⟩
      rw [follow, follow]
      exact advance_of_ne_loop (fun l parts hne => ih (by omega) hne) h

/-! ## Walks to a link -/

/-- The first parts of a walk lead to a directory. -/
theorem Walks.exists_directory (h : t.Walks last links l (parts ++ more) spot) (hmore : more ≠ []) :
    ∃ above, t.Walks true links l parts (.taken above .directory) := by
  generalize hparts : parts ++ more = walked at h
  induction h generalizing parts with
  | done _ => exact absurd (List.append_eq_nil_iff.1 hparts).2 hmore
  | @skip links l rest spot hdir _ ih =>
      cases parts with
      | nil => exact ⟨l, .done hdir⟩
      | cons part parts =>
          obtain ⟨rfl, hrest⟩ := List.cons_eq_cons.1 hparts
          obtain ⟨above, habove⟩ := ih hrest
          exact ⟨above, .skip hdir habove⟩
  | @dot links l rest spot hdir hright _ ih =>
      cases parts with
      | nil => exact ⟨l, .done hdir⟩
      | cons part parts =>
          obtain ⟨rfl, hrest⟩ := List.cons_eq_cons.1 hparts
          obtain ⟨above, habove⟩ := ih hrest
          exact ⟨above, .dot hdir hright habove⟩
  | @up links l rest spot hdir hright _ ih =>
      cases parts with
      | nil => exact ⟨l, .done hdir⟩
      | cons part parts =>
          obtain ⟨rfl, hrest⟩ := List.cons_eq_cons.1 hparts
          obtain ⟨above, habove⟩ := ih hrest
          exact ⟨above, .up hdir hright habove⟩
  | @enter links l part rest e spot hlooks he hlink _ ih =>
      cases parts with
      | nil => exact ⟨l, .done hlooks.directory⟩
      | cons first parts =>
          obtain ⟨rfl, hrest⟩ := List.cons_eq_cons.1 hparts
          obtain ⟨above, habove⟩ := ih hrest
          exact ⟨above, .enter hlooks he hlink habove⟩
  | @free links l part hlooks _ =>
      cases parts with
      | nil => exact ⟨l, .done hlooks.directory⟩
      | cons first parts =>
          obtain ⟨-, hrest⟩ := List.cons_eq_cons.1 hparts
          exact absurd (List.append_eq_nil_iff.1 hrest).2 hmore
  | @stop links l part target hlooks _ _ =>
      cases parts with
      | nil => exact ⟨l, .done hlooks.directory⟩
      | cons first parts =>
          obtain ⟨-, hrest⟩ := List.cons_eq_cons.1 hparts
          exact absurd (List.append_eq_nil_iff.1 hrest).2 hmore
  | @leap links l part rest target spot hlooks htarget _ _ ih =>
      cases parts with
      | nil => exact ⟨l, .done hlooks.directory⟩
      | cons first parts =>
          obtain ⟨rfl, hrest⟩ := List.cons_eq_cons.1 hparts
          have hwalked : (Text.fields '/' target ++ parts) ++ more =
              Text.fields '/' target ++ rest :=
            (List.append_assoc _ _ _).trans (congrArg _ hrest)
          obtain ⟨above, habove⟩ := ih hwalked
          exact ⟨above, .leap hlooks htarget (.inr rfl) habove⟩

theorem KeepsBut.looksUp {part : Text} (hkeeps : t.KeepsBut t' x) (h : t.LooksUp l part) :
    t'.LooksUp l part where
  directory := hkeeps.directories l h.directory
  permitted := hkeeps.rights l h.directory h.permitted
  name := h.name
  short := h.short

/-- A walk to a link leads to the file that takes its place, unless it goes through the link before,
which leads to a directory then. -/
theorem Walks.of_keepsBut (hkeeps : t.KeepsBut t' x) (hx : t'.find? x = some (.file content))
    (h : t.Walks false links l parts (.taken x (.link target))) :
    t'.Walks true links l parts (.taken x (.file content)) ∨ ∃ n above, n ≤ links ∧
      t.Walks true n (base x.dropLast target) (Text.fields '/' target)
        (.taken above .directory) := by
  have htarget : t.find? x = some (.link target) := find?_of_follow (follow_eq_ok.2 h)
  generalize hspot : Spot.taken x (.link target) = spot at h
  induction h with
  | done _ =>
      obtain ⟨rfl, rfl⟩ := Spot.taken.inj hspot
      exact .inl (.done hx)
  | skip hdir _ ih => exact (ih hspot).imp_left (.skip (hkeeps.directories _ hdir))
  | dot hdir hright _ ih =>
      exact (ih hspot).imp_left
        (.dot (hkeeps.directories _ hdir) (hkeeps.rights _ hdir hright))
  | up hdir hright _ ih =>
      exact (ih hspot).imp_left
        (.up (hkeeps.directories _ hdir) (hkeeps.rights _ hdir hright))
  | @enter links l part rest e spot hlooks he hlink hrest ih =>
      cases e with
      | link _ => contradiction
      | directory =>
          exact (ih hspot).imp_left
            (.enter (hkeeps.looksUp hlooks) (hkeeps.directories _ he) rfl)
      | file _ =>
          obtain ⟨-, hend⟩ := hrest.of_file he
          rw [← hspot] at hend
          obtain rfl : x = l ++ [part] := hend
          simp [he] at htarget
  | free _ _ => contradiction
  | stop hlooks _ _ =>
      obtain ⟨rfl, -⟩ := Spot.taken.inj hspot
      exact .inl (.enter (hkeeps.looksUp hlooks) hx rfl (.done hx))
  | @leap links l part rest other spot hlooks hother hmore hrest ih =>
      by_cases hhere : l ++ [part] = x
      · -- The walk goes on after the link, so the link leads to a directory.
        obtain rfl : other = target :=
          Entry.link.inj (Option.some.inj (hother.symm.trans (hhere ▸ htarget)))
        obtain ⟨above, habove⟩ := hrest.exists_directory (hmore.resolve_right Bool.false_ne_true)
        refine .inr ⟨links, above, Nat.le_succ links, ?_⟩
        rwa [← hhere, List.dropLast_concat]
      · refine (ih hspot).imp ?_ ?_
        · exact .leap (hkeeps.looksUp hlooks) (hkeeps.links _ other hhere hother) (.inr rfl)
        · rintro ⟨n, above, hn, habove⟩
          exact ⟨n, above, Nat.le_succ_of_le hn, habove⟩

/-- A walk that goes through a link at its end leads where the link leads. -/
theorem Walks.follow_eq (h : t.Walks false links l parts (.taken x (.link target)))
    (hloop : t.follow true links l parts ≠ .error .loop) :
    t.follow true links l parts = .ok (.taken x (.link target)) ∨ ∃ n, n ≤ links ∧
      t.follow true links l parts =
        t.follow true n (base x.dropLast target) (Text.fields '/' target) := by
  generalize hspot : Spot.taken x (.link target) = spot at h
  induction h with
  | @done links l e he =>
      obtain ⟨jump, hfollow⟩ := exists_advance t true links
      rw [hfollow, advance, he]
      exact .inl rfl
  | @skip links l rest spot hdir _ ih =>
      obtain ⟨jump, hfollow⟩ := exists_advance t true links
      rw [hfollow, advance_skip hdir, ← hfollow] at hloop ⊢
      exact ih hloop hspot
  | @dot links l rest spot hdir hright _ ih =>
      obtain ⟨jump, hfollow⟩ := exists_advance t true links
      rw [hfollow, advance_dot hdir hright, ← hfollow] at hloop ⊢
      exact ih hloop hspot
  | @up links l rest spot hdir hright _ ih =>
      obtain ⟨jump, hfollow⟩ := exists_advance t true links
      rw [hfollow, advance_up hdir hright, ← hfollow] at hloop ⊢
      exact ih hloop hspot
  | @enter links l part rest e spot hlooks he hlink _ ih =>
      obtain ⟨jump, hfollow⟩ := exists_advance t true links
      have hgo : t.follow true links l (part :: rest) = t.follow true links (l ++ [part]) rest := by
        rw [hfollow, advance_name hlooks, he]
        cases e with
        | link _ => contradiction
        | directory => rfl
        | file _ => rfl
      rw [hgo] at hloop ⊢
      exact ih hloop hspot
  | free _ _ => contradiction
  | @stop links l part other hlooks hother _ =>
      obtain ⟨rfl, hlink⟩ := Spot.taken.inj hspot
      obtain rfl := Entry.link.inj hlink
      cases links with
      | zero =>
          rw [follow, advance_name hlooks, hother] at hloop
          exact absurd rfl hloop
      | succ links =>
          -- One link is gone through, so there is one less to go through after it.
          refine .inr ⟨links, Nat.le_succ links, ?_⟩
          rw [follow, advance_name hlooks, hother, List.dropLast_concat]
          simp
  | @leap links l part rest other spot hlooks hother hmore _ ih =>
      have hgo : t.follow true (links + 1) l (part :: rest) =
          t.follow true links (base l other) (Text.fields '/' other ++ rest) := by
        rw [follow, advance_name hlooks, hother]
        simp
      rw [hgo] at hloop ⊢
      refine (ih hloop hspot).imp_right ?_
      rintro ⟨n, hn, heq⟩
      exact ⟨n, Nat.le_succ_of_le hn, heq⟩

end Tree

namespace Disk

variable {d d' : Disk} {x here there : Location} {e : Entry} {path target : Text} {content : Bytes}

/-- A path at which a link stood leads to the file that took its place, if the link did not lead
to a directory, or round in a circle. -/
theorem seek_of_keepsBut (hcwd : d'.cwd = d.cwd) (huser : d'.user = d.user)
    (hkeeps : d.tree.KeepsBut d'.tree x) (hx : d'.tree.find? x = some (.file content))
    (hlink : d.seekLink path = .ok (.taken x (.link target)))
    (hloop : d.seek path ≠ .error .loop)
    (hend : ∀ l e, d.seek path = .ok (.taken l e) → ∃ content, e = .file content) :
    d'.seek path = .ok (.taken x (.file content)) := by
  obtain ⟨hne, hname, hshort, hwalk⟩ := reach_eq_ok.1 hlink
  have hseek := seek_eq_follow hne ⟨hname, hshort⟩
  have hwalks := Tree.follow_eq_ok.1 hwalk
  rw [hseek] at hloop hend
  obtain hnew | ⟨n, above, hn, habove⟩ := hwalks.of_keepsBut hkeeps hx
  · refine reach_eq_ok.2 ⟨hne, huser ▸ hname, hshort, ?_⟩
    rw [hcwd]
    exact Tree.follow_eq_ok.2 hnew
  · -- The link would lead to a directory, in both walks with all the links that there may be.
    exfalso
    obtain hstays | ⟨n', hn', hthrough⟩ := hwalks.follow_eq hloop
    · obtain ⟨_, hfile⟩ := hend _ _ hstays
      contradiction
    · have hdir := Tree.follow_eq_ok.2 habove
      have hlimit := Tree.follow_of_le hn (by rw [hdir]; simp)
      rw [hdir] at hlimit
      rw [hthrough] at hloop hend
      have hlimit' := Tree.follow_of_le hn' hloop
      rw [hlimit] at hlimit'
      obtain ⟨_, hfile⟩ := hend _ _ hlimit'.symm
      contradiction

end Disk

end ShellDocs
