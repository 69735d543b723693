import ShellDocs.Files.Resolve
import ShellDocs.Proofs.Files.Resolution

/-!
# Paths and their spelling

Reading a path drops the parts that take no step, and puts a home directory in for a tilde and a
name at its first part. `Disk.expandHome_eq_error` says when there is none to put in, and
`Disk.seek_expandHome?` when nothing is lost: the path that was read leads where its text leads if
the text ends in a step and nothing stands before a tilde, and if the process can come to the
directory it is in. A text that ends otherwise leads to no file (`Disk.readBytes_ne_ok`).
-/

namespace ShellDocs

/-- Whether a user has no home directory that a path can start at: nobody has the name, or the home
directory starts with a tilde itself. -/
def User.Homeless (u : User) (name : Text) : Prop :=
  ∀ home, u.homeOf? name = some home → (Path.homeText home []).head? = some '~'

/-- Whether the home directories of all users can be the paths of files. -/
def User.HomesNamed (u : User) : Prop :=
  ∀ name home, u.homeOf? name = some home → u.canName home = true

namespace Path

variable {p q : Path} {u : User} {home rest t : Text} {part : Text}

/-- The root of the path is one that a text can start with. -/
def Rooted (p : Path) : Prop := p.root = [] ∨ p.root = ['/'] ∨ p.root = ['/', '/']

/-- The parts of the path can be the names of files. -/
def Named (u : User) (p : Path) : Prop := ∀ part ∈ p.parts, u.canName part = true

/-- The text of a path ends in a step. -/
def EndsInStep (t : Text) : Prop := (Text.fields '/' t).getLast?.any isStep = true

instance (t : Text) : Decidable (EndsInStep t) := inferInstanceAs (Decidable (_ = true))

/-- Whether a path starts at the home directory of a user that has none. -/
def NamesUnknown (u : User) (t : Text) : Prop :=
  ∃ name rest, ofText t = ⟨[], ('~' :: name) :: rest⟩ ∧ u.canName name = true ∧ u.Homeless name

/-- Whether a path starts at the home directory of a user for whom there is no name to look up. -/
def NamesNobody (u : User) (t : Text) : Prop :=
  ∃ name rest, ofText t = ⟨[], ('~' :: name) :: rest⟩ ∧ u.canName name = false

/-! ## Paths that are read -/

theorem rooted_ofText (t : Text) : (ofText t).Rooted := by
  simp only [Rooted, ofText]
  fun_cases rootOf t <;> simp

theorem slash_not_mem_ofText (h : part ∈ (ofText t).parts) : '/' ∉ part :=
  Text.not_mem_of_mem_fields (List.mem_of_mem_filter h)

/-- A text that can be a path is read as one whose parts can be names. -/
theorem named_ofText (h : u.canName t = true) : Named u (ofText t) := by
  intro part hpart
  refine List.all_eq_true.2 fun c hc => List.all_eq_true.1 h c ?_
  have hflat := List.mem_flatten_of_mem (List.mem_of_mem_filter hpart) hc
  rw [Text.flatten_fields] at hflat
  exact List.mem_of_mem_filter hflat

theorem canName_homeText (hhome : u.canName home = true) : u.canName (homeText home []) = true := by
  simp only [homeText, List.append_nil]
  split_ifs
  · exact u.canName_slash
  · refine List.all_eq_true.2 fun c hc => List.all_eq_true.1 hhome c ?_
    exact (Text.dropTail_isPrefix _ home).subset hc

/-- The written form of a path holds nothing else than the path, dots and slashes. -/
theorem Named.canName_toText (hroot : p.Rooted) (h : Named u p) : u.canName p.toText = true := by
  have hslashes : u.canName p.root = true := by
    rcases hroot with hroot | hroot | hroot <;>
      simp [hroot, User.canName, Locale.canPass, u.locale.has_slash]
  simp only [toText]
  split_ifs
  · exact u.canName_dot
  · rw [User.canName_append, hslashes, Bool.true_and]
    refine List.all_eq_true.2 fun c hc => ?_
    by_cases hslash : c = '/'
    · simp [hslash, u.locale.has_slash]
    · obtain ⟨part, hpart, hc⟩ := Text.exists_of_mem_join hc hslash
      exact List.all_eq_true.1 (h part hpart) c hc

/-! ## Home directories -/

/-- A path has a home directory put in for its first part, or it stays as it is. -/
theorem expandHome?_cases (h : p.expandHome? u = some q) :
    q = p ∨ ∃ name rest home, p.parts = ('~' :: name) :: rest ∧ u.homeOf? name = some home ∧
      q = (ofText (homeText home [])).append ⟨[], rest⟩ := by
  simp only [expandHome?] at h
  split at h
  · next name rest hroot hparts =>
      split at h
      · next home hhome =>
          split_ifs at h
          exact .inr ⟨name, rest, home, hparts, hhome, (Option.some.inj h).symm⟩
      · contradiction
  · exact .inl (Option.some.inj h).symm

theorem Rooted.append (hp : p.Rooted) (hq : q.Rooted) : (p.append q).Rooted := by
  rw [Path.append]
  split_ifs
  · exact hq
  · exact hp

theorem Rooted.expandHome? (hp : p.Rooted) (h : p.expandHome? u = some q) : q.Rooted := by
  rcases expandHome?_cases h with rfl | ⟨-, rest, -, -, -, rfl⟩
  · exact hp
  · exact (rooted_ofText _).append (.inl rfl)

theorem Named.append (hp : Named u p) (hq : Named u q) : Named u (p.append q) := by
  rw [Path.append]
  split_ifs
  · exact hq
  · exact List.forall_mem_append.2 ⟨hp, hq⟩

theorem Named.expandHome? (hhomes : u.HomesNamed) (hp : Named u p)
    (h : p.expandHome? u = some q) : Named u q := by
  rcases expandHome?_cases h with rfl | ⟨name, rest, home, hparts, hhome, rfl⟩
  · exact hp
  · refine (named_ofText (canName_homeText (hhomes name home hhome))).append ?_
    exact fun part hpart => hp part (hparts ▸ List.mem_cons_of_mem _ hpart)

end Path

namespace Tree

open ShellDocs.Path (isName isStep)

variable {t : Tree} {last : Bool} {links : Nat} {l m : Location} {part : Text}
  {parts rest rest' : List Text} {e : Entry} {jump : Location → List Text → Except Errno Spot}

/-! ## Parts that take no step -/

/-- A walk goes on the same way along parts that make the same walk from everywhere. -/
theorem advance_congr (before : List Text) (hempty : rest.isEmpty = rest'.isEmpty)
    (hjump : ∀ l before, jump l (before ++ rest) = jump l (before ++ rest'))
    (h : ∀ l, t.advance last jump l rest = t.advance last jump l rest') :
    t.advance last jump l (before ++ rest) = t.advance last jump l (before ++ rest') := by
  induction before generalizing l with
  | nil => exact h l
  | cons part before ih =>
      have hend : (before ++ rest).isEmpty = (before ++ rest').isEmpty := by
        cases before with
        | nil => exact hempty
        | cons _ _ => rfl
      rw [List.cons_append, List.cons_append, advance, advance]
      simp only [ih, hend, ← List.append_assoc, hjump]

/-- A walk cannot leave a directory that the process may not enter. -/
theorem advance_denied (hdir : t.find? l = some .directory) (hright : t.permits .enter l = false)
    (hlast : parts.getLast?.any isStep = true) :
    t.advance last jump l parts = .error .denied := by
  induction parts with
  | nil => contradiction
  | cons part rest ih =>
      by_cases hempty : part = []
      · subst hempty
        have hrest : rest ≠ [] := by
          rintro rfl
          contradiction
        rw [advance_skip hdir]
        exact ih (by rwa [List.getLast?_cons_of_ne_nil hrest] at hlast)
      · rw [advance, hdir]
        simp [hempty, hright]

/-- An empty part and a dot make no difference before a step. -/
theorem advance_of_not_isStep (h : isStep part = false) (hlast : rest.getLast?.any isStep = true) :
    t.advance last jump l (part :: rest) = t.advance last jump l rest := by
  obtain ⟨next, more, rfl⟩ := List.exists_cons_of_ne_nil (l := rest) (by rintro rfl; contradiction)
  rcases hhere : t.find? l with - | e
  · rw [advance, hhere, advance, hhere]
  · cases e with
    | file content => rw [advance, hhere, advance, hhere]
    | link target => rw [advance, hhere, advance, hhere]
    | directory =>
        rcases Path.eq_of_isStep_eq_false h with rfl | rfl
        · exact advance_skip hhere
        · cases hright : t.permits .enter l with
          | true => exact advance_dot hhere hright
          | false =>
              rw [advance_denied hhere hright hlast, advance, hhere]
              simp [hright]

theorem isEmpty_filter_isStep (hlast : parts.getLast?.any isStep = true) :
    parts.isEmpty = (parts.filter isStep).isEmpty := by
  rw [List.isEmpty_eq_false_iff.2 (Path.filter_isStep_ne_nil hlast), List.isEmpty_eq_false_iff]
  rintro rfl
  contradiction

theorem advance_filter_isStep
    (hjump : ∀ rest : List Text, rest.getLast?.any isStep = true → ∀ l before,
      jump l (before ++ rest) = jump l (before ++ rest.filter isStep))
    (hlast : parts.getLast?.any isStep = true) :
    t.advance last jump l parts = t.advance last jump l (parts.filter isStep) := by
  induction parts generalizing l with
  | nil => contradiction
  | cons part rest ih =>
      by_cases hrest : rest = []
      · subst hrest
        have hstep : isStep part = true := hlast
        simp [hstep]
      · rw [List.getLast?_cons_of_ne_nil hrest] at hlast
        cases hstep : isStep part with
        | true =>
            rw [List.filter_cons_of_pos hstep]
            exact advance_congr [part] (isEmpty_filter_isStep hlast) (hjump rest hlast)
              fun _ => ih hlast
        | false =>
            rw [List.filter_cons_of_neg (by simp [hstep]), advance_of_not_isStep hstep hlast]
            exact ih hlast

/-- Parts that take no step make no difference if the last part takes one. -/
theorem follow_filter_isStep (hlast : parts.getLast?.any isStep = true) :
    t.follow last links l parts = t.follow last links l (parts.filter isStep) := by
  -- What follows a link comes after the target of the link, so the claim is shown for parts that
  -- come after others.
  suffices h : ∀ rest : List Text, rest.getLast?.any isStep = true → ∀ l before,
      t.follow last links l (before ++ rest) =
        t.follow last links l (before ++ rest.filter isStep) from h parts hlast l []
  induction links with
  | zero =>
      intro rest hlast l before
      exact advance_congr before (isEmpty_filter_isStep hlast) (fun _ _ => rfl)
        fun _ => advance_filter_isStep (fun _ _ _ _ => rfl) hlast
  | succ links ih =>
      intro rest hlast l before
      exact advance_congr before (isEmpty_filter_isStep hlast) (ih rest hlast)
        fun _ => advance_filter_isStep ih hlast

/-- A walk from the root to a place in a directory passes the directory. -/
theorem follow_append {above : Location}
    (hdirs : ∀ m, m <+: above → t.find? (l ++ m) = some .directory)
    (hrights : ∀ m part, m ++ [part] <+: above → t.permits .enter (l ++ m) = true)
    (hnames : ∀ part ∈ above, isName part = true ∧ (Utf8.encode part).length ≤ nameLimit) :
    t.follow last links l (above ++ parts) = t.follow last links (l ++ above) parts := by
  induction above generalizing l with
  | nil => simp
  | cons part rest ih =>
      obtain ⟨⟨hname, hshort⟩, hrest⟩ := List.forall_mem_cons.1 hnames
      have hhere : t.LooksUp l part :=
        ⟨by simpa using hdirs [] List.nil_prefix, by simpa using hrights [] part (by simp), hname,
          hshort⟩
      have hpart : t.find? (l ++ [part]) = some .directory := hdirs [part] (by simp)
      obtain ⟨jump, hfollow⟩ := exists_advance t last links
      have hstep : t.follow last links l (part :: (rest ++ parts)) =
          t.follow last links (l ++ [part]) (rest ++ parts) := by
        rw [hfollow, advance_name hhere, hpart]
      rw [List.cons_append, hstep, ih _ _ hrest, List.append_assoc]
      · rfl
      · intro m hm
        simpa using hdirs (part :: m) (by simpa using hm)
      · intro m next hm
        simpa using hrights (part :: m) next (by simpa using hm)

/-- A walk that does not end in a step ends at a directory. -/
theorem Walks.eq_directory (h : t.Walks last links l parts (.taken m e)) (hne : parts ≠ [])
    (hlast : parts.getLast?.any isStep = false) : e = .directory := by
  generalize hspot : Spot.taken m e = spot at h
  induction h with
  | done _ => contradiction
  | @skip links l rest spot hdir hrest ih =>
      by_cases hmore : rest = []
      · subst hmore hspot
        cases hrest with
        | done he => exact Option.some.inj (he.symm.trans hdir)
      · exact ih hmore (by rwa [List.getLast?_cons_of_ne_nil hmore] at hlast) hspot
  | @dot links l rest spot hdir _ hrest ih =>
      by_cases hmore : rest = []
      · subst hmore hspot
        cases hrest with
        | done he => exact Option.some.inj (he.symm.trans hdir)
      · exact ih hmore (by rwa [List.getLast?_cons_of_ne_nil hmore] at hlast) hspot
  | @up links l rest spot _ _ _ ih =>
      have hmore : rest ≠ [] := by
        rintro rfl
        contradiction
      exact ih hmore (by rwa [List.getLast?_cons_of_ne_nil hmore] at hlast) hspot
  | @enter links l part rest e spot hname _ _ _ ih =>
      have hmore : rest ≠ [] := by
        rintro rfl
        exact absurd (Path.isStep_of_isName hname.name) (Bool.eq_false_iff.1 hlast)
      exact ih hmore (by rwa [List.getLast?_cons_of_ne_nil hmore] at hlast) hspot
  | free _ _ => contradiction
  | stop hname _ _ =>
      exact absurd (Path.isStep_of_isName hname.name) (Bool.eq_false_iff.1 hlast)
  | @leap links l part rest target spot hname _ _ _ ih =>
      have hmore : rest ≠ [] := by
        rintro rfl
        exact absurd (Path.isStep_of_isName hname.name) (Bool.eq_false_iff.1 hlast)
      refine ih (List.append_ne_nil_of_right_ne_nil _ hmore) ?_ hspot
      rwa [List.getLast?_cons_of_ne_nil hmore, ← List.getLast?_append_of_ne_nil _ hmore] at hlast

/-- The parts that take no step can be left out of a walk that ends at an entry. -/
theorem Walks.filter_isStep (before parts : List Text)
    (h : t.Walks true links l (before ++ parts) (.taken m e)) :
    t.Walks true links l (before ++ parts.filter isStep) (.taken m e) := by
  generalize hparts : before ++ parts = walked, hspot : Spot.taken m e = spot at h
  induction h generalizing before parts with
  | done he =>
      obtain ⟨rfl, rfl⟩ := List.append_eq_nil_iff.1 hparts
      exact .done he
  | @skip links l rest spot hdir _ ih =>
      cases before with
      | nil =>
          obtain rfl : parts = [] :: rest := hparts
          exact ih [] rest rfl hspot
      | cons part before =>
          obtain ⟨rfl, rfl⟩ := List.cons_eq_cons.1 hparts
          exact .skip hdir (ih before parts rfl hspot)
  | @dot links l rest spot hdir hright _ ih =>
      cases before with
      | nil =>
          obtain rfl : parts = ['.'] :: rest := hparts
          exact ih [] rest rfl hspot
      | cons part before =>
          obtain ⟨rfl, rfl⟩ := List.cons_eq_cons.1 hparts
          exact .dot hdir hright (ih before parts rfl hspot)
  | @up links l rest spot hdir hright _ ih =>
      cases before with
      | nil =>
          obtain rfl : parts = ['.', '.'] :: rest := hparts
          exact .up hdir hright (ih [] rest rfl hspot)
      | cons part before =>
          obtain ⟨rfl, rfl⟩ := List.cons_eq_cons.1 hparts
          exact .up hdir hright (ih before parts rfl hspot)
  | @enter links l part rest f spot hname hf hlink _ ih =>
      cases before with
      | nil =>
          obtain rfl : parts = part :: rest := hparts
          rw [List.nil_append, List.filter_cons_of_pos (Path.isStep_of_isName hname.name)]
          exact .enter hname hf hlink (ih [] rest rfl hspot)
      | cons part before =>
          obtain ⟨rfl, rfl⟩ := List.cons_eq_cons.1 hparts
          exact .enter hname hf hlink (ih before parts rfl hspot)
  | free _ _ => contradiction
  | stop _ _ hlast => contradiction
  | @leap links l part rest target spot hname htarget _ _ ih =>
      cases before with
      | nil =>
          obtain rfl : parts = part :: rest := hparts
          rw [List.nil_append, List.filter_cons_of_pos (Path.isStep_of_isName hname.name)]
          exact .leap hname htarget (.inr rfl) (ih (Text.fields '/' target) rest rfl hspot)
      | cons part before =>
          obtain ⟨rfl, rfl⟩ := List.cons_eq_cons.1 hparts
          have hwalk := ih (Text.fields '/' target ++ before) parts (List.append_assoc _ _ _) hspot
          rw [List.append_assoc] at hwalk
          exact .leap hname htarget (.inr rfl) hwalk

end Tree

namespace Disk

open ShellDocs.Path (isStep)

variable {d : Disk} {q : Path} {t : Text} {cause : Escape}

/-- A path has a home directory put in if the user that it starts with is looked up and found. -/
theorem expandHome_eq_ok : d.expandHome (.ofText t) = .ok q ↔
    ¬ Path.NamesNobody d.user t ∧ (Path.ofText t).expandHome? d.user = some q := by
  simp only [expandHome, Path.NamesNobody, Path.expandHome?]
  split
  · next name rest hroot hparts =>
      have hpath : Path.ofText t = ⟨[], ('~' :: name) :: rest⟩ := congrArg₂ Path.mk hroot hparts
      rw [hpath]
      by_cases hname : d.user.canName name = true
      · simp only [hname, Bool.not_true, Bool.false_eq_true, if_false]
        split <;> simp_all
      · simp [hname]
  · next hother =>
      simp only [Except.ok.injEq, Option.some.injEq, iff_and_self]
      rintro - ⟨name, rest, hpath, -⟩
      exact hother name rest (congrArg Path.root hpath) (congrArg Path.parts hpath)

/-- No home directory is put in just if a path starts at that of a user who cannot be looked up, or
has none. -/
theorem expandHome_eq_error : d.expandHome (.ofText t) = .error cause ↔
    Path.NamesNobody d.user t ∧ cause = .badPath ∨
      Path.NamesUnknown d.user t ∧ cause = .unknownUser := by
  simp only [expandHome, Path.NamesNobody, Path.NamesUnknown, Path.expandHome?]
  split
  · next name rest hroot hparts =>
      have hpath : Path.ofText t = ⟨[], ('~' :: name) :: rest⟩ := congrArg₂ Path.mk hroot hparts
      rw [hpath]
      by_cases hname : d.user.canName name = true
      · simp only [hname, Bool.not_true, Bool.false_eq_true, if_false]
        cases hhome : d.user.homeOf? name with
        | none => simp [User.Homeless, hhome, hname, @eq_comm _ cause]
        | some home => by_cases htilde : (Path.homeText home []).head? = some '~' <;>
            simp [User.Homeless, hhome, hname, htilde, @eq_comm _ cause]
      · simp [hname, @eq_comm _ cause]
  · next hother =>
      refine iff_of_false (by simp) ?_
      rintro (⟨⟨name, rest, hpath, -⟩, -⟩ | ⟨⟨name, rest, hpath, -⟩, -⟩) <;>
        exact hother name rest (congrArg Path.root hpath) (congrArg Path.parts hpath)

/-! ## What is spelled -/

/-- A path whose last part takes no step leads to no file. -/
theorem walk_ne_file (h : ¬ Path.EndsInStep t) (l : Location) (content : Bytes) :
    d.walk t ≠ .ok (.taken l (.file content)) := by
  have hlast : (Text.fields '/' t).getLast?.any isStep = false := Bool.eq_false_iff.2 h
  rw [walk]
  split_ifs
  · simp
  · exact Tree.walk_ne_file hlast (Text.fields_ne_nil '/' t) l content
  · exact Tree.walk_ne_file hlast (Text.fields_ne_nil '/' t) l content

/-- What a path leads to is a directory unless the path ends in a step. -/
theorem eq_directory_of_reach {last : Bool} {l : Location} {e : Entry} (h : ¬ Path.EndsInStep t)
    (hreach : d.reach last t = .ok (.taken l e)) : e = .directory := by
  obtain ⟨-, -, -, hwalk⟩ := reach_eq_ok.1 hreach
  exact (Tree.follow_eq_ok.1 hwalk).eq_directory (Text.fields_ne_nil '/' t)
    (Bool.eq_false_iff.2 h)

theorem readBytes_ne_ok (h : ¬ Path.EndsInStep t) (bytes : Bytes) : d.readBytes t ≠ .ok bytes := by
  intro hread
  obtain ⟨l, hseek, -⟩ := readBytes_eq_ok.1 hread
  have hdir := eq_directory_of_reach h hseek
  contradiction

/-- A path that the system takes leads along its parts. -/
theorem reach_eq_follow {last : Bool} (hne : t ≠ []) (h : d.Takes t) :
    d.reach last t = d.tree.follow last Tree.linkLimit
      (if t.head? = some '/' then [] else d.cwd) (Text.fields '/' t) := by
  rw [reach]
  simp [hne, h.named, Nat.not_le.2 h.short]

theorem seek_eq_follow (hne : t ≠ []) (h : d.Takes t) :
    d.seek t = d.tree.follow true Tree.linkLimit (if t.head? = some '/' then [] else d.cwd)
      (Text.fields '/' t) :=
  reach_eq_follow hne h

/-- A path that ends in a step leads along the parts that are read of it. -/
theorem seek_eq_of_endsInStep (hlast : Path.EndsInStep t) (h : d.Takes t) :
    d.seek t = d.tree.follow true Tree.linkLimit
      (if (Path.ofText t).isAbsolute then [] else d.cwd) (Path.ofText t).parts := by
  have hne : t ≠ [] := by
    rintro rfl
    contradiction
  rw [seek_eq_follow hne h, Tree.follow_filter_isStep hlast]
  simp only [Path.isAbsolute_ofText]
  rfl

/-- The written form of a path with a root leads along its parts from the root of the tree. -/
theorem seek_toText_of_root {p : Path} (hroot : p.root = ['/'] ∨ p.root = ['/', '/'])
    (hslash : ∀ part ∈ p.parts, '/' ∉ part) (h : d.Takes p.toText) :
    d.seek p.toText = d.tree.follow true Tree.linkLimit [] p.parts := by
  obtain ⟨root, parts⟩ := p
  have hempty (rest : List Text) : d.tree.follow true Tree.linkLimit [] ([] :: rest) =
      d.tree.follow true Tree.linkLimit [] rest :=
    Tree.advance_skip d.tree.find?_nil
  have hjoin : d.tree.follow true Tree.linkLimit [] (Text.fields '/' (Text.join ['/'] parts)) =
      d.tree.follow true Tree.linkLimit [] parts := by
    cases parts with
    | nil => exact hempty []
    | cons part rest => rw [Text.fields_join (List.cons_ne_nil part rest) hslash]
  rcases hroot with rfl | rfl
  · have htext : Path.toText ⟨['/'], parts⟩ = '/' :: Text.join ['/'] parts := rfl
    rw [htext] at h ⊢
    rw [seek_eq_follow (List.cons_ne_nil _ _) h, ← hjoin]
    exact hempty _
  · have htext : Path.toText ⟨['/', '/'], parts⟩ = '/' :: '/' :: Text.join ['/'] parts := rfl
    rw [htext] at h ⊢
    rw [seek_eq_follow (List.cons_ne_nil _ _) h, ← hjoin]
    exact (hempty _).trans (hempty _)

/-- Whether the process can come to the directory at a location from the root. -/
structure Reaches (d : Disk) (l : Location) : Prop extends d.HasDirectory l where
  permitted : ∀ above part, above ++ [part] <+: l → d.tree.permits .enter above = true

/-- A path as seen from the current directory leads along its parts. -/
theorem seek_append_toText (hcwd : d.Reaches d.cwd) (hroot : q.Rooted)
    (hslash : ∀ part ∈ q.parts, '/' ∉ part)
    (h : d.Takes ((⟨['/'], d.cwd⟩ : Path).append q).toText) :
    d.seek ((⟨['/'], d.cwd⟩ : Path).append q).toText =
      d.tree.follow true Tree.linkLimit (if q.isAbsolute then [] else d.cwd) q.parts := by
  rw [Path.append] at h ⊢
  cases habsolute : q.isAbsolute with
  | true =>
      have hne : q.root ≠ [] := by simpa [Path.isAbsolute] using habsolute
      rw [habsolute, if_pos rfl] at h
      simp only [if_true]
      exact seek_toText_of_root (hroot.resolve_left hne) hslash h
  | false =>
      have hparts : ∀ part ∈ d.cwd ++ q.parts, '/' ∉ part :=
        List.forall_mem_append.2 ⟨fun part hpart => (hcwd.names part hpart).2.2, hslash⟩
      have hpass : d.tree.follow true Tree.linkLimit [] (d.cwd ++ q.parts) =
          d.tree.follow true Tree.linkLimit ([] ++ d.cwd) q.parts :=
        Tree.follow_append hcwd.directories hcwd.permitted
          fun part hpart => ⟨(hcwd.names part hpart).1, (hcwd.names part hpart).2.1⟩
      rw [habsolute, if_neg Bool.false_ne_true] at h
      simp only [Bool.false_eq_true, if_false]
      rw [seek_toText_of_root (.inl rfl) hparts h, hpass, List.nil_append]

/-- A path with the home directory put in leads where its text leads with the home directory put
in, unless the text does not end in a step or something stands before a tilde. -/
theorem seek_expandHome? (hcwd : d.Reaches d.cwd)
    (hlast : Path.EndsInStep (Path.expandHomeText d.user t)) (htilde : Path.TildeFirst t)
    (h : (Path.ofText t).expandHome? d.user = some q)
    (hspelled : d.Takes (Path.expandHomeText d.user t))
    (hread : d.Takes ((⟨['/'], d.cwd⟩ : Path).append q).toText) :
    d.seek ((⟨['/'], d.cwd⟩ : Path).append q).toText =
      d.seek (Path.expandHomeText d.user t) := by
  obtain ⟨hparts, habsolute⟩ := Path.expandHome?_agrees htilde h
  have hslash : ∀ part ∈ q.parts, '/' ∉ part := by
    rw [hparts]
    exact fun part hpart => Path.slash_not_mem_ofText hpart
  rw [seek_append_toText hcwd ((Path.rooted_ofText t).expandHome? h) hslash hread,
    seek_eq_of_endsInStep hlast hspelled, hparts, habsolute]

end Disk

end ShellDocs
