import Mathlib.Data.List.Induction
import ShellDocs.Proofs.Files.Unlinked

/-!
# Paths that are made absolute again

On a disk that keeps the directories of another one and has the same links, a path is made absolute
as it was before: `Disk.resolve_of_sameWays`. While a path is gone along, what has been gone along
is settled: it goes up only at its start, and no name in it leads to a link (`Disk.Settled`). So the
next name leads to a link on the one disk just if it does on the other
(`Disk.Settled.linkAt?_eq`).
-/

namespace ShellDocs

namespace Path

variable {p : Path} {part : Text} {parts before after : List Text}

/-- Whether a path goes up only at its start, unless that is the root, and consists of names
then. -/
structure Tidy (p : Path) : Prop where
  root : p.root = [] ∨ p.root = ['/']
  parts : ∃ ups names, p.parts = ups ++ names ∧ (∀ part ∈ ups, part = ['.', '.']) ∧
    (∀ part ∈ names, isName part = true) ∧ (p.isAbsolute = true → ups = [])
  slash : ∀ part ∈ p.parts, '/' ∉ part

namespace Tidy

/-- The path without parts is tidy. -/
theorem nil {root : Text} (hroot : root = [] ∨ root = ['/']) : Tidy ⟨root, []⟩ :=
  ⟨hroot, ⟨[], [], rfl, by simp, by simp, fun _ => rfl⟩, by simp⟩

theorem isStep (h : p.Tidy) : ∀ part ∈ p.parts, Path.isStep part = true := by
  obtain ⟨ups, names, hparts, hups, hnames, -⟩ := h.parts
  intro part hpart
  rw [hparts] at hpart
  obtain hpart | hpart := List.mem_append.1 hpart
  · rw [hups part hpart]
    rfl
  · exact isStep_of_isName (hnames part hpart)

/-- Going on by a name keeps a path tidy. -/
theorem concat (h : p.Tidy) (hname : isName part = true) (hslash : '/' ∉ part) :
    Tidy ⟨p.root, p.parts ++ [part]⟩ := by
  obtain ⟨ups, names, hparts, hups, hnames, habsolute⟩ := h.parts
  refine ⟨h.root, ⟨ups, names ++ [part], ?_, hups, ?_, habsolute⟩, ?_⟩
  · rw [hparts, List.append_assoc]
  · exact List.forall_mem_append.2 ⟨hnames, List.forall_mem_singleton.2 hname⟩
  · exact List.forall_mem_append.2 ⟨h.slash, List.forall_mem_singleton.2 hslash⟩

/-- A tidy path goes up by leaving out its last part, or by one more way up. -/
theorem up_cases (h : p.Tidy) : p.up = p.parent ∨
    p.isAbsolute = false ∧ (∀ part ∈ p.parts, part = ['.', '.']) ∧
      p.up = ⟨p.root, p.parts ++ [['.', '.']]⟩ := by
  obtain ⟨ups, names, hparts, hups, hnames, habsolute⟩ := h.parts
  rw [up]
  cases hlast : p.parts.getLast? with
  | none =>
      have hnone : p.parts = [] := List.getLast?_eq_none_iff.1 hlast
      cases hroot : p.isAbsolute with
      | true =>
          left
          have hparent : p.parent = p := by rw [parent, hnone, List.dropLast_nil, ← hnone]
          rw [hparent]
          rfl
      | false =>
          right
          simp [hnone]
  | some last =>
      dsimp only
      split_ifs with hup
      · -- The last part is no name, so all parts go up.
        have hnames : names = [] := by
          by_contra hne
          rw [hparts, List.getLast?_append_of_ne_nil _ hne] at hlast
          have hname := hnames last (List.mem_of_getLast? hlast)
          rw [hup] at hname
          contradiction
        subst hnames
        rw [List.append_nil] at hparts
        refine .inr ⟨Bool.eq_false_iff.2 fun hroot => ?_, hparts ▸ hups, rfl⟩
        rw [hparts, habsolute hroot] at hlast
        contradiction
      · exact .inl rfl

/-- The first parts of a tidy path make one. -/
theorem of_prefix (h : p.Tidy) (hparts : parts <+: p.parts) : Tidy ⟨p.root, parts⟩ := by
  obtain ⟨after, hafter⟩ := hparts
  refine ⟨h.root, ?_, fun part hpart => h.slash part (hafter ▸ List.mem_append_left after hpart)⟩
  obtain ⟨ups, names, hups, hall, hnames, habsolute⟩ := h.parts
  obtain ⟨more, hmore, -⟩ | ⟨more, hmore, hrest⟩ :=
    List.append_eq_append_iff.1 (hafter.trans hups)
  · refine ⟨parts, [], by simp, fun part hpart => hall part ?_, by simp, fun hroot => ?_⟩
    · exact hmore ▸ List.mem_append_left more hpart
    · exact (List.append_eq_nil_iff.1 (hmore.symm.trans (habsolute hroot))).1
  · refine ⟨ups, more, hmore, hall, fun part hpart => hnames part ?_, habsolute⟩
    exact hrest ▸ List.mem_append_left after hpart

theorem up (h : p.Tidy) : p.up.Tidy := by
  obtain hup | ⟨hrelative, hparts, hup⟩ := h.up_cases
  · rw [hup]
    exact h.of_prefix (List.dropLast_prefix p.parts)
  · rw [hup]
    refine ⟨h.root, ⟨p.parts ++ [['.', '.']], [], by simp, ?_, by simp, ?_⟩, ?_⟩
    · exact List.forall_mem_append.2 ⟨hparts, by simp⟩
    · intro hroot
      rw [isAbsolute] at hrelative hroot
      simp [hrelative] at hroot
    · exact List.forall_mem_append.2 ⟨h.slash, by decide⟩

theorem goOn (h : p.Tidy) (hslash : '/' ∉ part) : (p.goOn part).Tidy := by
  rw [Path.goOn]
  split_ifs with hname
  · exact h.concat hname hslash
  · exact h.up
  · exact h

/-- Undoing the first parts of a tidy path comes to a place above the start, or to one above the
place that all parts come to. -/
theorem foldl_undo (h : p.Tidy) (hparts : p.parts = before ++ after) (hafter : after ≠ [])
    (l : Location) : before.foldl undo l <+: l ∨
      ∃ more, more ≠ [] ∧ p.parts.foldl undo l = before.foldl undo l ++ more := by
  obtain ⟨ups, names, hups, hall, hnames, -⟩ := h.parts
  have hgoUp (ups : List Text) (hall : ∀ part ∈ ups, part = ['.', '.']) (l : Location) :
      ups.foldl undo l <+: l := by
    induction ups generalizing l with
    | nil => exact List.prefix_rfl
    | cons part rest ih =>
        obtain ⟨rfl, hrest⟩ := List.forall_mem_cons.1 hall
        exact (ih hrest _).trans (List.dropLast_prefix l)
  obtain ⟨more, hbefore, hmore⟩ | ⟨more, hmore, -⟩ :=
    List.append_eq_append_iff.1 (hups.symm.trans hparts)
  · right
    refine ⟨after, hafter, ?_⟩
    have hup : ['.', '.'] ∉ after := by
      intro hmem
      have hname := hnames _ (hmore ▸ List.mem_append_right more hmem)
      contradiction
    rw [hparts, List.foldl_append, foldl_undo_of_not_mem hup]
  · left
    refine hgoUp before (fun part hpart => hall part ?_) l
    exact hmore ▸ List.mem_append_left more hpart

end Tidy

/-- The parts of a path up to some part make the start of its written form. -/
theorem toText_isPrefix (hbefore : before ≠ []) (root : Text) (after : List Text) :
    toText ⟨root, before⟩ <+: toText ⟨root, before ++ after⟩ := by
  have hjoin (before : List Text) (hbefore : before ≠ []) :
      Text.join ['/'] before <+: Text.join ['/'] (before ++ after) := by
    induction before with
    | nil => contradiction
    | cons part rest ih =>
        by_cases hrest : rest = []
        · subst hrest
          cases after with
          | nil => exact List.prefix_rfl
          | cons next more =>
              rw [List.singleton_append, Text.join_cons (List.cons_ne_nil next more)]
              exact List.prefix_append part _
        · rw [List.cons_append, Text.join_cons hrest,
            Text.join_cons (List.append_ne_nil_of_left_ne_nil hrest after)]
          exact (List.prefix_append_right_inj part).2
            (List.cons_prefix_cons.2 ⟨rfl, ih hrest⟩)
  have hmore : before ++ after ≠ [] := List.append_ne_nil_of_left_ne_nil hbefore after
  simp only [toText, List.isEmpty_eq_false_iff.2 hbefore, List.isEmpty_eq_false_iff.2 hmore,
    Bool.and_false, Bool.false_eq_true, if_false]
  exact (List.prefix_append_right_inj root).2 (hjoin before hbefore)

end Path

namespace Tree

open ShellDocs.Path (isName isStep undo)

variable {t t' t'' : Tree} {links : Nat} {l m : Location} {part : Text} {parts rest : List Text}
  {spot : Spot} {e : Entry} {target : Text}

/-- Whether everything in a tree stands in a directory. -/
def Grounded (t : Tree) : Prop :=
  ∀ l e, t.find? l = some e → t.find? l.dropLast = some .directory

/-- What stands below a location stands in a directory there. -/
theorem Grounded.directory (ht : t.Grounded) {more : List Text} (hne : more ≠ [])
    (h : t.find? (l ++ more) = some e) : t.find? l = some .directory := by
  induction more using List.reverseRecOn generalizing e with
  | nil => contradiction
  | append_singleton more part ih =>
      have habove := ht _ _ h
      rw [← List.append_assoc, List.dropLast_concat] at habove
      by_cases hmore : more = []
      · rwa [hmore, List.append_nil] at habove
      · exact ih hmore habove

theorem Grounded.directory_of_prefix (ht : t.Grounded) (hl : l <+: m)
    (hm : t.find? m = some .directory) : t.find? l = some .directory := by
  obtain ⟨more, rfl⟩ := hl
  by_cases hmore : more = []
  · rwa [hmore, List.append_nil] at hm
  · exact ht.directory hmore hm

/-- The links of two trees are the same, and one has all directories of the other, with the same
rights to enter them. -/
structure SameWays (t t' : Tree) : Prop extends t.Keeps t' where
  noLinks : ∀ m target, t'.find? m = some (.link target) → t.find? m = some (.link target)
  noRights : ∀ m, t.find? m = some .directory → t'.permits .enter m = true →
    t.permits .enter m = true

theorem SameWays.trans (h : t.SameWays t') (h' : t'.SameWays t'') : t.SameWays t'' where
  toKeeps := h.toKeeps.trans h'.toKeeps
  noLinks m target hm := h.noLinks m target (h'.noLinks m target hm)
  noRights m hm hright := h.noRights m hm (h'.noRights m (h.directories m hm) hright)

theorem Walks.directory {last : Bool} (h : t.Walks last links l parts spot) (hne : parts ≠ []) :
    t.find? l = some .directory := by
  cases h with
  | done _ => contradiction
  | skip hdir _ => exact hdir
  | dot hdir _ _ => exact hdir
  | up hdir _ _ => exact hdir
  | enter hlooks _ _ _ => exact hlooks.directory
  | free hlooks _ => exact hlooks.directory
  | stop hlooks _ _ => exact hlooks.directory
  | leap hlooks _ _ _ => exact hlooks.directory

/-- Whether a walk can leave a directory by a part. -/
structure Steps (t : Tree) (l : Location) (part : Text) : Prop where
  directory : t.find? l = some .directory
  permitted : t.permits .enter l = true
  short : (Utf8.encode part).length ≤ nameLimit

/-- Whether a walk that stops at links leads to none before its last part. -/
def MeetsNoLink (t : Tree) (links : Nat) (l : Location) (parts : List Text) : Prop :=
  ∀ before part, before ++ [part] <+: parts → before ++ [part] ≠ parts → isName part = true →
    ∀ m target, ¬ t.Walks false links l (before ++ [part]) (.taken m (.link target))

/-- A part before which there is nothing, or the first of several parts. -/
theorem concat_isPrefix_cons {before : List Text} {next : Text} :
    before ++ [next] <+: part :: rest ↔
      before = [] ∧ next = part ∨ ∃ more, before = part :: more ∧ more ++ [next] <+: rest := by
  cases before with
  | nil => simp [List.cons_prefix_cons]
  | cons first more => simp [List.cons_prefix_cons, and_assoc, eq_comm]

/-- A walk that meets no link takes its parts one by one. -/
theorem Walks.steps (h : t.Walks false links l parts spot)
    (hsteps : ∀ part ∈ parts, isStep part = true) (hmeets : t.MeetsNoLink links l parts) :
    spot.location = parts.foldl undo l ∧
      ∀ before part, before ++ [part] <+: parts → t.Steps (before.foldl undo l) part := by
  -- A part in front of a walk is one step more, and a single name is one step.
  have hcons {l : Location} {part : Text} {rest : List Text} {spot : Spot}
      (hfirst : t.Steps l part) (hrest : spot.location = rest.foldl undo (undo l part) ∧
        ∀ before next, before ++ [next] <+: rest →
          t.Steps (before.foldl undo (undo l part)) next) :
      spot.location = (part :: rest).foldl undo l ∧ ∀ before next,
        before ++ [next] <+: part :: rest → t.Steps (before.foldl undo l) next := by
    refine ⟨hrest.1, fun before next hbefore => ?_⟩
    obtain ⟨rfl, rfl⟩ | ⟨more, rfl, hmore⟩ := concat_isPrefix_cons.1 hbefore
    · exact hfirst
    · exact hrest.2 more next hmore
  have hundo {l : Location} {part : Text} (hname : isName part = true) :
      undo l part = l ++ [part] := if_neg (Path.isName_iff.1 hname).2.2
  have hend {l : Location} {part : Text} {spot : Spot} (hname : t.LooksUp l part)
      (hspot : spot.location = l ++ [part]) :
      spot.location = [part].foldl undo l ∧ ∀ before next,
        before ++ [next] <+: [part] → t.Steps (before.foldl undo l) next := by
    refine hcons ⟨hname.directory, hname.permitted, hname.short⟩ ⟨?_, fun before next hbefore => ?_⟩
    · rw [hspot, ← hundo hname.name]
      rfl
    · simp at hbefore
  induction h with
  | done _ => exact ⟨rfl, fun before part hbefore => by simp at hbefore⟩
  | skip _ _ _ => exact absurd (hsteps _ List.mem_cons_self) (by decide)
  | dot _ _ _ _ => exact absurd (hsteps _ List.mem_cons_self) (by decide)
  | @up links l rest spot hdir hright hrest ih =>
      refine hcons ⟨hdir, hright, by decide⟩
        (ih (fun part hpart => hsteps part (List.mem_cons_of_mem _ hpart)) ?_)
      intro before part hbefore hne hname m target hwalk
      refine hmeets (['.', '.'] :: before) part (List.cons_prefix_cons.2 ⟨rfl, hbefore⟩) ?_ hname m
        target (.up hdir hright hwalk)
      simpa using hne
  | @enter links l part rest e spot hlooks he hlink hrest ih =>
      refine hcons ⟨hlooks.directory, hlooks.permitted, hlooks.short⟩ ?_
      rw [hundo hlooks.name]
      refine ih (fun part hpart => hsteps part (List.mem_cons_of_mem _ hpart)) ?_
      intro before next hbefore hne hname m target hwalk
      refine hmeets (part :: before) next (List.cons_prefix_cons.2 ⟨rfl, hbefore⟩) ?_ hname m
        target (.enter hlooks he hlink hwalk)
      simpa using hne
  | free hlooks _ => exact hend hlooks rfl
  | stop hlooks _ _ => exact hend hlooks rfl
  | @leap links l part rest target spot hlooks htarget hmore _ _ =>
      -- The walk goes through a link only before its last part, where it would have met it.
      have hrest : rest ≠ [] := hmore.resolve_right Bool.false_ne_true
      refine absurd (.stop hlooks htarget rfl) (hmeets [] part ?_ ?_ hlooks.name _ target)
      · exact List.cons_prefix_cons.2 ⟨rfl, List.nil_prefix⟩
      · simpa using Ne.symm hrest

/-- A walk one by one to a link stops there. -/
theorem walks_of_steps (hsteps : ∀ part ∈ parts, isStep part = true)
    (h : ∀ before part, before ++ [part] <+: parts → t.Steps (before.foldl undo l) part)
    (htarget : t.find? (parts.foldl undo l) = some (.link target)) :
    t.Walks false links l parts (.taken (parts.foldl undo l) (.link target)) := by
  induction parts generalizing l with
  | nil => exact .done htarget
  | cons part rest ih =>
      obtain ⟨hstep, hrest⟩ := List.forall_mem_cons.1 hsteps
      have hhere := h [] part (List.cons_prefix_cons.2 ⟨rfl, List.nil_prefix⟩)
      have hwalk := ih (l := undo l part) hrest
        (fun before next hbefore => h (part :: before) next
          (List.cons_prefix_cons.2 ⟨rfl, hbefore⟩)) htarget
      by_cases hup : part = ['.', '.']
      · subst hup
        exact .up hhere.directory hhere.permitted hwalk
      · have hname : isName part = true := by simpa [isName, isStep, hup] using hstep
        have hlooks : t.LooksUp l part := ⟨hhere.directory, hhere.permitted, hname, hhere.short⟩
        have hundo : undo l part = l ++ [part] := if_neg hup
        cases rest with
        | nil =>
            rw [List.foldl_cons, List.foldl_nil, hundo] at htarget ⊢
            exact .stop hlooks htarget rfl
        | cons next more =>
            have hnext := h [part] next (by simp)
            rw [List.foldl_cons, List.foldl_nil, hundo] at hnext
            rw [hundo] at hwalk
            rw [List.foldl_cons, hundo]
            exact .enter hlooks hnext.directory rfl hwalk

end Tree

namespace Disk

open ShellDocs.Path (isName isStep undo)

variable {d d' d'' : Disk} {p q : Path} {part path target : Text} {parts : List Text}
  {l here there : Location} {e : Entry}

/-- One disk keeps the ways through another one and has no other links. -/
structure SameWays (d d' : Disk) : Prop where
  cwd : d'.cwd = d.cwd
  user : d'.user = d.user
  tree : d.tree.SameWays d'.tree

theorem SameWays.keeps (h : d.SameWays d') : d.Keeps d' := ⟨h.cwd, h.user, h.tree.toKeeps⟩

theorem SameWays.trans (h : d.SameWays d') (h' : d'.SameWays d'') : d.SameWays d'' :=
  ⟨h'.cwd.trans h.cwd, h'.user.trans h.user, h.tree.trans h'.tree⟩

theorem linkAt?_eq_some : d.linkAt? path = some target ↔
    ∃ l, d.seekLink path = .ok (.taken l (.link target)) := by
  rw [linkAt?]
  split
  · next l found hseek => simp [hseek]
  · next hother =>
      refine iff_of_false (by simp) ?_
      rintro ⟨l, hseek⟩
      exact hother l target hseek

/-- The place that a path starts at. -/
def startOf (d : Disk) (p : Path) : Location := if p.isAbsolute then [] else d.cwd

/-- A link is looked up along the parts of a tidy path. -/
theorem seekLink_toText (hp : p.Tidy) (hne : p.parts ≠ []) (h : d.Takes p.toText) :
    d.seekLink p.toText = d.tree.follow false Tree.linkLimit (d.startOf p) p.parts := by
  have hfields : Text.fields '/' (Text.join ['/'] p.parts) = p.parts :=
    Text.fields_join hne hp.slash
  obtain hroot | hroot := hp.root
  · have htext : p.toText = Text.join ['/'] p.parts := by
      simp [Path.toText, hroot, hne]
    have hhead : p.toText.head? ≠ some '/' := by
      intro hslash
      obtain ⟨rest, hrest⟩ := List.head?_eq_some_iff.1 hslash
      rw [← htext, hrest, Text.fields] at hfields
      have hstep := hp.isStep [] (hfields ▸ List.mem_cons_self)
      contradiction
    have hnonempty : p.toText ≠ [] := by
      intro hempty
      rw [← htext, hempty] at hfields
      have hstep := hp.isStep [] (hfields ▸ List.mem_cons_self)
      contradiction
    have hstart : d.startOf p = d.cwd := by simp [startOf, Path.isAbsolute, hroot]
    rw [seekLink, reach_eq_follow hnonempty h, if_neg hhead, hstart, htext, hfields]
  · have htext : p.toText = '/' :: Text.join ['/'] p.parts := by
      simp [Path.toText, hroot]
    have hstart : d.startOf p = [] := by simp [startOf, Path.isAbsolute, hroot]
    rw [seekLink, reach_eq_follow (htext ▸ List.cons_ne_nil _ _) h, htext, hstart]
    simp only [List.head?_cons, if_true, Text.fields, hfields]
    exact Tree.advance_skip d.tree.find?_nil

/-- Whether a path that has been gone along on one disk leads through no link on another one. -/
structure Settled (d d' : Disk) (p : Path) : Prop where
  tidy : p.Tidy
  start : d.tree.find? (d.startOf p) = some .directory
  unlinked : ∀ before part, before ++ [part] <+: p.parts → isName part = true →
    d'.linkAt? (Path.toText ⟨p.root, before ++ [part]⟩) = none

/-- A settled path that goes on by a name meets no link before. -/
theorem Settled.meetsNoLink (h : Settled d d' p)
    (htakes : d'.Takes (Path.toText ⟨p.root, p.parts ++ [part]⟩)) :
    d'.tree.MeetsNoLink Tree.linkLimit (d'.startOf p) (p.parts ++ [part]) := by
  intro before name hbefore hne hname m target hwalk
  have habove : before ++ [name] <+: p.parts := (List.prefix_concat_iff.1 hbefore).resolve_left hne
  have hnonempty : before ++ [name] ≠ [] := by simp
  have hshort : d'.Takes (Path.toText ⟨p.root, before ++ [name]⟩) := by
    obtain ⟨after, hafter⟩ := hbefore
    obtain ⟨more, hmore⟩ := Path.toText_isPrefix hnonempty p.root after
    rw [hafter] at hmore
    exact Takes.of_append (hmore ▸ htakes)
  have hlink : d'.linkAt? (Path.toText ⟨p.root, before ++ [name]⟩) = some target := by
    refine linkAt?_eq_some.2 ⟨m, ?_⟩
    rw [seekLink_toText (h.tidy.of_prefix habove) hnonempty hshort]
    exact Tree.follow_eq_ok.2 hwalk
  simp [h.unlinked before name habove hname] at hlink

/-- Where a settled path that goes on by a name leads to a link on the other disk, it leads to that
link on this one. -/
theorem Settled.linkAt?_of_linkAt? (hsame : d.SameWays d') (ht : d.tree.Grounded)
    (h : Settled d d' p) (hname : isName part = true) (hslash : '/' ∉ part)
    (htarget : d'.linkAt? (Path.toText ⟨p.root, p.parts ++ [part]⟩) = some target) :
    d.linkAt? (Path.toText ⟨p.root, p.parts ++ [part]⟩) = some target := by
  have htidy := h.tidy.concat hname hslash
  have hne : p.parts ++ [part] ≠ [] := by simp
  have hstart : d'.startOf p = d.startOf p := by simp only [Disk.startOf, hsame.cwd]
  obtain ⟨m, hseek⟩ := linkAt?_eq_some.1 htarget
  have hfind : d'.tree.find? m = some (.link target) := find?_of_reach_taken hseek
  have htakes' := Takes.of_reach hseek
  have htakes : d.Takes (Path.toText ⟨p.root, p.parts ++ [part]⟩) :=
    ⟨hsame.user ▸ htakes'.named, htakes'.short⟩
  have hmeets : d'.tree.MeetsNoLink Tree.linkLimit (d.startOf p) (p.parts ++ [part]) :=
    hstart ▸ h.meetsNoLink htakes'
  have hwalk : d'.tree.Walks false Tree.linkLimit (d.startOf p) (p.parts ++ [part])
      (.taken m (.link target)) := by
    rw [seekLink_toText htidy hne htakes'] at hseek
    rw [← hstart]
    exact Tree.follow_eq_ok.1 hseek
  obtain ⟨hplace, hsteps⟩ := hwalk.steps htidy.isStep hmeets
  have hm : d.tree.find? ((p.parts ++ [part]).foldl undo (d.startOf p)) = some (.link target) :=
    hsame.tree.noLinks _ target (hplace ▸ hfind)
  -- On the way there are only directories that stand above the link or above the start.
  have hsteps' : ∀ before next, before ++ [next] <+: p.parts ++ [part] →
      d.tree.Steps (before.foldl undo (d.startOf p)) next := by
    intro before next hbefore
    have hstep := hsteps before next hbefore
    obtain ⟨after, hafter⟩ := hbefore
    rw [List.append_assoc, List.singleton_append] at hafter
    have hdir : d.tree.find? (before.foldl undo (d.startOf p)) = some .directory := by
      obtain habove | ⟨more, hmore, hbelow⟩ :=
        htidy.foldl_undo hafter.symm (List.cons_ne_nil next after) (d.startOf p)
      · exact ht.directory_of_prefix habove h.start
      · exact ht.directory hmore (hbelow ▸ hm)
    exact ⟨hdir, hsame.tree.noRights _ hdir hstep.permitted, hstep.short⟩
  refine linkAt?_eq_some.2 ⟨(p.parts ++ [part]).foldl undo (d.startOf p), ?_⟩
  rw [seekLink_toText htidy hne htakes]
  exact Tree.follow_eq_ok.2 (Tree.walks_of_steps htidy.isStep hsteps' hm)

/-- A settled path that goes on by a name leads to a link on one disk just if it does on the other
one. -/
theorem Settled.linkAt?_eq (hsame : d.SameWays d') (ht : d.tree.Grounded) (h : Settled d d' p)
    (hname : isName part = true) (hslash : '/' ∉ part) :
    d'.linkAt? (Path.toText ⟨p.root, p.parts ++ [part]⟩) =
      d.linkAt? (Path.toText ⟨p.root, p.parts ++ [part]⟩) := by
  refine Option.ext fun target => ⟨h.linkAt?_of_linkAt? hsame ht hname hslash, fun htarget => ?_⟩
  obtain ⟨l, hseek⟩ := linkAt?_eq_some.1 htarget
  have hkept := hsame.tree.links l target (find?_of_reach_taken hseek)
  exact linkAt?_eq_some.2
    ⟨l, reach_of_keeps hsame.keeps hseek hkept fun hlast => absurd hlast Bool.false_ne_true⟩

/-! ## Paths that are gone along -/

/-- A settled path stays settled when it goes on by a part that is no link. -/
theorem Settled.goOn (h : Settled d d' p) (hslash : '/' ∉ part)
    (hlink : isName part = true → d'.linkAt? (p.goOn part).toText = none) :
    Settled d d' (p.goOn part) := by
  have hstart : d.startOf (p.goOn part) = d.startOf p := by
    rw [Disk.startOf, Disk.startOf, Path.isAbsolute, Path.isAbsolute, Path.root_goOn]
  by_cases hname : isName part = true
  · have hgo : p.goOn part = ⟨p.root, p.parts ++ [part]⟩ := if_pos hname
    refine ⟨h.tidy.goOn hslash, hstart ▸ h.start, ?_⟩
    intro before next hbefore hnext
    have hnone := hlink hname
    rw [hgo] at hbefore hnone ⊢
    obtain hlast | hbefore := List.prefix_concat_iff.1 hbefore
    · rw [hlast]
      exact hnone
    · exact h.unlinked before next hbefore hnext
  · by_cases hup : part = ['.', '.']
    · have hgo : p.goOn part = p.up := by rw [Path.goOn, if_neg hname, if_pos hup]
      refine ⟨h.tidy.goOn hslash, hstart ▸ h.start, ?_⟩
      intro before next hbefore hnext
      obtain hparent | ⟨-, hall, hmore⟩ := h.tidy.up_cases
      · rw [hgo, hparent] at hbefore ⊢
        exact h.unlinked before next (hbefore.trans (List.dropLast_prefix p.parts)) hnext
      · -- Such a path has no names.
        rw [hgo, hmore] at hbefore
        have hnextUp : next = ['.', '.'] := by
          have hmem := hbefore.subset (List.mem_append_right before (List.mem_singleton_self next))
          obtain hmem | hmem := List.mem_append.1 hmem
          · exact hall next hmem
          · exact List.mem_singleton.1 hmem
        rw [hnextUp] at hnext
        contradiction
    · have hgo : p.goOn part = p := by rw [Path.goOn, if_neg hname, if_neg hup]
      rw [hgo]
      exact h

/-- Parts lead to the same path from a settled one, and it is settled, if links are gone through in
the same way. -/
theorem Settled.settleParts (hsame : d.SameWays d') (ht : d.tree.Grounded)
    {leap leap' : List Text → Path → Text → Except (Option Path) Path}
    (hleap : ∀ seen p target, Settled d d' p → leap' seen p target = leap seen p target ∧
      ∀ q, leap seen p target = .ok q → Settled d d' q) (seen : List Text)
    (hslash : ∀ part ∈ parts, '/' ∉ part) (h : Settled d d' p) :
    d'.settleParts seen leap' p parts = d.settleParts seen leap p parts ∧
      ∀ q, d.settleParts seen leap p parts = .ok q → Settled d d' q := by
  induction parts generalizing p with
  | nil => exact ⟨rfl, fun q hq => Except.ok.inj hq ▸ h⟩
  | cons part rest ih =>
      obtain ⟨hpart, hrest⟩ := List.forall_mem_cons.1 hslash
      -- Both disks find the same link at the next part, or none.
      have hlinks : (if isName part then d'.linkAt? (p.goOn part).toText else none) =
          if isName part then d.linkAt? (p.goOn part).toText else none := by
        split_ifs with hname
        · rw [Path.goOn, if_pos hname]
          exact h.linkAt?_eq hsame ht hname hpart
        · rfl
      rw [Disk.settleParts, Disk.settleParts]
      simp only [hlinks]
      cases hlink : if isName part then d.linkAt? (p.goOn part).toText else none with
      | none =>
          refine ih hrest (h.goOn hpart fun hname => ?_)
          rw [← hlink, ← hlinks, if_pos hname]
      | some target =>
          obtain ⟨heq, hsettled⟩ := hleap ((p.goOn part).toText :: seen) p target h
          dsimp only
          rw [heq]
          by_cases hseen : seen.contains (p.goOn part).toText = true
          · simp only [hseen, if_true]
            exact ⟨trivial, fun q hq => by contradiction⟩
          · simp only [hseen, Bool.false_eq_true, if_false]
            cases hq : leap ((p.goOn part).toText :: seen) p target with
            | error stop => exact ⟨rfl, fun q hq => by contradiction⟩
            | ok q => exact ih hrest (hsettled q hq)

theorem settled_root (d d' : Disk) : Settled d d' ⟨['/'], []⟩ where
  tidy := .nil (.inr rfl)
  start := rfl
  unlinked before part hbefore := by simp at hbefore

/-- A link leads to the same path on both disks. -/
theorem Settled.settle (hsame : d.SameWays d') (ht : d.tree.Grounded) (depth : Nat)
    (seen : List Text) (h : Settled d d' p) (target : Text) :
    d'.settle depth seen p target = d.settle depth seen p target ∧
      ∀ q, d.settle depth seen p target = .ok q → Settled d d' q := by
  induction depth generalizing seen p target with
  | zero => exact ⟨rfl, fun q hq => by contradiction⟩
  | succ depth ih =>
      rw [Disk.settle, Disk.settle]
      refine Settled.settleParts hsame ht (fun seen p target hp => ih seen hp target) seen
        (fun part hpart => Text.not_mem_of_mem_fields hpart) ?_
      split_ifs
      · exact settled_root d d'
      · exact h

end Disk

end ShellDocs
