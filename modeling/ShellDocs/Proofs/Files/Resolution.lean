import Mathlib.Data.List.Basic
import ShellDocs.Proofs.Files.Plain
import ShellDocs.Proofs.Text.Lines

/-!
# Paths and their resolved forms

Resolving a path undoes each `..` by the part before it, whether or not that part leads to a
directory; walking along the path goes up only from a directory. In a tree without links the two
agree on a path that is straight: it goes up only at its start and ends in a name.
`Disk.walk_resolve` is the main statement: such a path leads where its resolved form leads. The two
readings of a tilde agree too unless something stands before it (`Path.Straight.resolve_eq`).
-/

namespace ShellDocs

namespace Path

/-- Whether a part takes a step: it is neither empty nor a dot. -/
def isStep (part : Text) : Bool := !part.isEmpty && part != ['.']

/-- Whether the parts of a path go up only before the first name, and end in a name. -/
def isStraight : List Text → Bool
  | [] => false
  | part :: rest =>
      if isName part then !rest.contains ['.', '.'] && (part :: rest).getLast?.any isName
      else isStraight rest

theorem isStep_of_isName {part : Text} (h : isName part = true) : isStep part = true :=
  (Bool.and_eq_true_iff.1 h).1

theorem eq_of_isStep_eq_false {part : Text} (h : isStep part = false) :
    part = [] ∨ part = ['.'] := by
  by_contra hother
  simp only [not_or] at hother
  simp [isStep, hother] at h

/-- Parts that say something are names unless they go up. -/
theorem filter_eq_filter_isName {parts : List Text} (h : ['.', '.'] ∉ parts) :
    (parts.filter fun part => !part.isEmpty && part != ['.']) = parts.filter isName := by
  refine List.filter_congr fun part hpart => ?_
  have hup : part ≠ ['.', '.'] := by
    rintro rfl
    exact h hpart
  simp [isName, hup]

/-- A list that ends in a step has one. -/
theorem filter_isStep_ne_nil {parts : List Text} (h : parts.getLast?.any isStep = true) :
    parts.filter isStep ≠ [] := by
  obtain ⟨last, hlast, hstep⟩ := (Option.any_eq_true _ _).1 h
  exact List.ne_nil_of_mem (List.mem_filter.2 ⟨List.mem_of_getLast? hlast, hstep⟩)

/-- Nothing stands before a tilde that is read as the start of a home directory. -/
def TildeFirst (t : Text) : Prop :=
  ((ofText t).parts.head?.bind List.head?) = some '~' → t.head? = some '~' ∨ t.head? = some '/'

instance (t : Text) : Decidable (TildeFirst t) := inferInstanceAs (Decidable (_ → _))

/-- Whether the spelling of a path tells where the path leads: a tilde that stands for a home
directory is where the path starts, and the parts are straight. -/
structure Straight (u : User) (t : Text) : Prop where
  tilde : TildeFirst t
  parts : isStraight (Text.fields '/' (expandHomeText u t)) = true

/-! ## Undoing parts -/

/-- Goes on by one part from what the parts before it came to. -/
def undo (done : Location) (part : Text) : Location :=
  if part = ['.', '.'] then done.dropLast else done ++ [part]

theorem foldParents_append (parts more : List Text) :
    foldParents (parts ++ more) = more.foldl undo (foldParents parts) :=
  List.foldl_append

/-- Names are kept. -/
theorem foldl_undo_of_not_mem {parts : List Text} (h : ['.', '.'] ∉ parts) (here : Location) :
    parts.foldl undo here = here ++ parts := by
  induction parts generalizing here with
  | nil => simp
  | cons part rest ih =>
      simp only [List.mem_cons, not_or] at h
      rw [List.foldl_cons, undo, if_neg (Ne.symm h.1), ih h.2]
      simp

/-! ## Tildes -/

theorem isAbsolute_ofText {t : Text} : (ofText t).isAbsolute = true ↔ t.head? = some '/' := by
  simp only [ofText, isAbsolute]
  fun_cases rootOf t with
  | case1 => simp
  | case2 => simp
  | case3 => simp
  | case4 t _ _ hfirst =>
      refine iff_of_false (by simp) fun hhead => ?_
      obtain ⟨rest, rfl⟩ := List.head?_eq_some_iff.1 hhead
      exact hfirst rest rfl

/-- What is seen from the current directory does not depend on how the root is written. -/
theorem resolve_congr {p q : Path} (hparts : p.parts = q.parts)
    (habsolute : p.isAbsolute = q.isAbsolute) (cwd : Location) : p.resolve cwd = q.resolve cwd := by
  rw [resolve, resolve, hparts, habsolute]

/-- The parts of a path that say something. -/
theorem parts_ofText_append (t u : Text) :
    (ofText (t ++ '/' :: u)).parts = (ofText t).parts ++ (ofText u).parts := by
  simp only [ofText, Text.fields_append, List.filter_append]

/-- A path that starts with a tilde has its parts in two: the name after the tilde, and the rest. -/
theorem ofText_tilde (rest : Text) : ofText ('~' :: rest) =
    ⟨[], ('~' :: rest.takeWhile (· != '/')) :: (ofText (rest.dropWhile (· != '/'))).parts⟩ := by
  have hname : '/' ∉ '~' :: rest.takeWhile (· != '/') := by
    simp only [List.mem_cons, not_or]
    exact ⟨by decide, fun hmem => absurd (List.mem_takeWhile_imp hmem) (by decide)⟩
  have hrest : '~' :: rest = ('~' :: rest.takeWhile (· != '/')) ++ rest.dropWhile (· != '/') := by
    simp
  have hroot : rootOf ('~' :: rest) = [] := rfl
  refine congrArg₂ Path.mk hroot ?_
  rw [hrest]
  cases hafter : rest.dropWhile (· != '/') with
  | nil =>
      rw [List.append_nil, Text.fields_eq_singleton hname]
      rfl
  | cons c after =>
      obtain rfl : c = '/' := by
        have hhead := List.head?_dropWhile_not (· != '/') rest
        rw [hafter] at hhead
        simpa using hhead
      rw [Text.fields_append_sep hname]
      exact congrArg _ (parts_ofText_append [] after).symm

/-- What follows the home directory is a part of its own. -/
theorem ofText_homeText {home rest : Text} (hrest : rest = [] ∨ rest.head? = some '/') :
    (ofText (homeText home [])).parts ++ (ofText rest).parts = (ofText (homeText home rest)).parts ∧
      (ofText (homeText home [])).isAbsolute = (ofText (homeText home rest)).isAbsolute := by
  obtain rfl | hslash := hrest
  · exact ⟨List.append_nil _, rfl⟩
  · obtain ⟨after, rfl⟩ := List.head?_eq_some_iff.1 hslash
    have hafter : (ofText ('/' :: after)).parts = (ofText after).parts :=
      parts_ofText_append [] after
    have htext : homeText home ('/' :: after) = Text.dropTail (· == '/') home ++ '/' :: after := by
      simp [homeText]
    rw [hafter, htext, parts_ofText_append, Bool.eq_iff_iff, isAbsolute_ofText, isAbsolute_ofText]
    cases hhome : Text.dropTail (· == '/') home with
    | nil => simp [homeText, hhome, ofText, rootOf, Text.fields]
    | cons c more => simp [homeText, hhome]

/-- Both readings of a tilde at the start of a path continue the home directory. -/
theorem expandHome?_tilde {u : User} {rest : Text} {q : Path}
    (h : (ofText ('~' :: rest)).expandHome? u = some q) :
    q.parts = (ofText (expandHomeText u ('~' :: rest))).parts ∧
      q.isAbsolute = (ofText (expandHomeText u ('~' :: rest))).isAbsolute := by
  have hafter : rest.dropWhile (· != '/') = [] ∨
      (rest.dropWhile (· != '/')).head? = some '/' := by
    cases hrest : rest.dropWhile (· != '/') with
    | nil => exact .inl rfl
    | cons c after =>
        have hhead := List.head?_dropWhile_not (· != '/') rest
        rw [hrest] at hhead
        exact .inr (by simpa using hhead)
  rw [ofText_tilde, expandHome?] at h
  cases hhome : u.homeOf? (rest.takeWhile (· != '/')) with
  | none => simp [hhome] at h
  | some home =>
      simp only [hhome] at h
      split_ifs at h
      obtain rfl := Option.some.inj h
      obtain ⟨hparts, habsolute⟩ := @ofText_homeText home _ hafter
      simp only [expandHomeText, hhome]
      rw [← hparts, ← habsolute]
      exact ⟨rfl, rfl⟩

theorem expandHomeText_of_ne {t : Text} (h : t.head? ≠ some '~') (u : User) :
    expandHomeText u t = t := by
  cases t with
  | nil => rfl
  | cons c rest =>
      rw [expandHomeText]
      rintro rest' ⟨⟩
      exact h rfl

/-- The two readings of a tilde agree on the parts of a path, unless the tilde is the first part
and something stands before it. -/
theorem expandHome?_agrees {u : User} {t : Text} {q : Path} (htilde : TildeFirst t)
    (h : (ofText t).expandHome? u = some q) :
    q.parts = (ofText (expandHomeText u t)).parts ∧
      q.isAbsolute = (ofText (expandHomeText u t)).isAbsolute := by
  by_cases hfirst : t.head? = some '~'
  · obtain ⟨rest, rfl⟩ := List.head?_eq_some_iff.1 hfirst
    exact expandHome?_tilde h
  · rw [expandHomeText_of_ne hfirst]
    simp only [expandHome?] at h
    split at h
    · next name rest hroot hparts =>
        -- Such a path would be absolute.
        have hhead := htilde (by simp [hparts])
        have habsolute := isAbsolute_ofText.2 (hhead.resolve_left hfirst)
        simp [isAbsolute, hroot] at habsolute
    · rw [Option.some.inj h]
      exact ⟨rfl, rfl⟩

/-- The two readings of a tilde agree on where a straight path is. -/
theorem Straight.resolve_eq {u : User} {t : Text} (hstraight : Straight u t) {q : Path}
    (h : (ofText t).expandHome? u = some q) (cwd : Location) :
    q.resolve cwd = (ofText (expandHomeText u t)).resolve cwd := by
  obtain ⟨hparts, habsolute⟩ := expandHome?_agrees hstraight.tilde h
  exact resolve_congr hparts habsolute cwd

end Path

namespace Tree

open ShellDocs.Path (isName isStep isStraight undo)

variable {t : Tree} {here : Location} {part : Text} {parts rest : List Text}

/-! ## Walks along names -/

/-- An empty part and a dot make no difference before another part. -/
theorem walk_skip (h : part = [] ∨ part = ['.']) (hrest : rest ≠ []) :
    t.walk here (part :: rest) = t.walk here rest := by
  have hskip : (part.isEmpty || part == ['.']) = true := by
    rcases h with rfl | rfl <;> rfl
  obtain ⟨next, more, rfl⟩ := List.exists_cons_of_ne_nil hrest
  rw [walk]
  split
  · next hnone => rw [walk, hnone]
  · rw [if_pos hskip]
  · next e hother hhere =>
      rw [walk, hhere]
      cases e with
      | directory => exact (hother rfl).elim
      | file content => rfl
      | link target => rfl

/-- A walk goes on the same way along parts that make the same walk from everywhere. -/
theorem walk_cons_congr {rest' : List Text} (hempty : rest.isEmpty = rest'.isEmpty)
    (h : ∀ l, t.walk l rest = t.walk l rest') :
    t.walk here (part :: rest) = t.walk here (part :: rest') := by
  rw [walk, walk]
  simp only [h, hempty]

/-- A walk enters the directory that a name stands for. -/
theorem walk_enter (hhere : t.find? here = some .directory) (hname : isName part = true)
    (hshort : (Utf8.encode part).length ≤ nameLimit)
    (hpart : t.find? (here ++ [part]) = some .directory) :
    t.walk here (part :: rest) = t.walk (here ++ [part]) rest := by
  simp only [isName, Bool.and_eq_true, Bool.not_eq_true', bne_iff_ne, ne_eq] at hname
  obtain ⟨⟨hempty, hdot⟩, hup⟩ := hname
  rw [walk, hhere]
  simp [hempty, hdot, hup, Nat.not_lt.2 hshort, hpart]

/-- A walk from the root to a place in a directory passes the directory. -/
theorem walk_append {above : Location}
    (hdirs : ∀ l, l <+: above → t.find? (here ++ l) = some .directory)
    (hnames : ∀ part ∈ above, isName part = true ∧ (Utf8.encode part).length ≤ nameLimit) :
    t.walk here (above ++ parts) = t.walk (here ++ above) parts := by
  induction above generalizing here with
  | nil => simp
  | cons part rest ih =>
      obtain ⟨⟨hname, hshort⟩, hrest⟩ := List.forall_mem_cons.1 hnames
      have hhere : t.find? here = some .directory := by
        simpa using hdirs [] (List.nil_prefix)
      have hpart : t.find? (here ++ [part]) = some .directory :=
        hdirs [part] (by simp)
      rw [List.cons_append, walk_enter hhere hname hshort hpart, ih _ hrest]
      · simp
      · intro l hl
        simpa using hdirs (part :: l) (by simpa using hl)

/-- Parts that take no step make no difference if the last part takes one. -/
theorem walk_filter_isStep (hlast : parts.getLast?.any isStep = true) :
    t.walk here parts = t.walk here (parts.filter isStep) := by
  induction parts generalizing here with
  | nil => contradiction
  | cons part rest ih =>
      cases rest with
      | nil =>
          have hstep : isStep part = true := hlast
          simp [hstep]
      | cons next more =>
          have hlast' : (next :: more).getLast?.any isStep = true := by
            rwa [List.getLast?_cons_cons] at hlast
          have hwalk (l : Location) :
              t.walk l (next :: more) = t.walk l ((next :: more).filter isStep) := ih hlast'
          cases hstep : isStep part with
          | true =>
              rw [List.filter_cons_of_pos hstep]
              refine walk_cons_congr ?_ hwalk
              simp [List.isEmpty_eq_false_iff.2 (Path.filter_isStep_ne_nil hlast')]
          | false =>
              have hfilter : (part :: next :: more).filter isStep =
                  (next :: more).filter isStep := List.filter_cons_of_neg (by simp [hstep])
              rw [walk_skip (Path.eq_of_isStep_eq_false hstep) (List.cons_ne_nil next more), hwalk,
                hfilter]

/-- A walk whose last part takes no step leads to no file. -/
theorem walk_ne_file (hlast : parts.getLast?.any isStep = false) (hne : parts ≠ []) (l : Location)
    (content : Bytes) : t.walk here parts ≠ .ok (.taken l (.file content)) := by
  induction parts generalizing here with
  | nil => contradiction
  | cons part rest ih =>
      rw [walk]
      cases hhere : t.find? here with
      | none => simp
      | some entry =>
          cases entry with
          | file _ => simp
          | link _ => simp
          | directory =>
              cases rest with
              | nil =>
                  have hskip : (part.isEmpty || part == ['.']) = true := by
                    have hstep : isStep part = false := hlast
                    rcases Path.eq_of_isStep_eq_false hstep with rfl | rfl <;> rfl
                  simp only [hskip, if_true, walk, hhere]
                  simp
              | cons next more =>
                  have hrest (l' : Location) :
                      t.walk l' (next :: more) ≠ .ok (.taken l (.file content)) :=
                    ih (by rwa [List.getLast?_cons_cons] at hlast) (List.cons_ne_nil next more)
                  simp only [List.isEmpty_cons, Bool.false_eq_true, if_false]
                  split_ifs
                  · exact hrest here
                  · exact hrest here.dropLast
                  · simp
                  · split
                    · exact hrest (here ++ [part])
                    · simp

/-- Parts that name nothing make no difference if the last part is a name. -/
theorem walk_filter_isName (hup : ['.', '.'] ∉ parts)
    (hlast : parts.getLast?.any isName = true) :
    t.walk here parts = t.walk here (parts.filter isName) := by
  obtain ⟨last, hmem, hname⟩ := (Option.any_eq_true _ _).1 hlast
  have hstep : parts.getLast?.any isStep = true :=
    (Option.any_eq_true _ _).2 ⟨last, hmem, Path.isStep_of_isName hname⟩
  rw [walk_filter_isStep hstep]
  exact congrArg _ (Path.filter_eq_filter_isName hup)

/-- A walk along a straight path goes up to a directory above and then along names. -/
theorem exists_walk_eq (hdirs : ∀ l, l <+: here → t.find? l = some .directory)
    (h : isStraight parts = true) :
    ∃ above names, above <+: here ∧ (∀ n ∈ names, n ∈ parts) ∧
      (parts.filter fun part => !part.isEmpty && part != ['.']).foldl undo here =
        above ++ names ∧
      t.walk here parts = t.walk above names := by
  -- Up to the first name the walk stays on the way to `here`, where all is directories, so going up
  -- never fails; from the first name on there is no way up.
  induction parts generalizing here with
  | nil => contradiction
  | cons part rest ih =>
      rw [isStraight] at h
      cases hname : isName part with
      | true =>
          rw [hname, if_pos rfl, Bool.and_eq_true, Bool.not_eq_true'] at h
          obtain ⟨hrest, hlast⟩ := h
          have hup : ['.', '.'] ∉ part :: rest := by
            rw [List.mem_cons, not_or]
            refine ⟨?_, by simpa using hrest⟩
            rintro rfl
            contradiction
          refine ⟨here, (part :: rest).filter isName, List.prefix_rfl,
            fun n hn => List.mem_of_mem_filter hn, ?_, walk_filter_isName hup hlast⟩
          rw [Path.filter_eq_filter_isName hup]
          exact Path.foldl_undo_of_not_mem (fun hmem => hup (List.mem_of_mem_filter hmem)) here
      | false =>
          rw [hname, if_neg Bool.false_ne_true] at h
          have hrest : rest ≠ [] := by
            rintro rfl
            contradiction
          obtain hskip | rfl : (part = [] ∨ part = ['.']) ∨ part = ['.', '.'] :=
            or_assoc.2 (Path.eq_of_isName_eq_false hname)
          · obtain ⟨above, names, habove, hnames, hfold, hwalk⟩ := ih hdirs h
            refine ⟨above, names, habove, fun n hn => List.mem_cons_of_mem part (hnames n hn), ?_,
              (walk_skip hskip hrest).trans hwalk⟩
            rw [List.filter_cons_of_neg, hfold]
            rcases hskip with rfl | rfl <;> decide
          · have hhere : t.find? here = some .directory := hdirs here List.prefix_rfl
            obtain ⟨above, names, habove, hnames, hfold, hwalk⟩ :=
              ih (fun l hl => hdirs l (hl.trans (List.dropLast_prefix here))) h
            refine ⟨above, names, habove.trans (List.dropLast_prefix here),
              fun n hn => List.mem_cons_of_mem _ (hnames n hn), ?_, ?_⟩
            · rw [List.filter_cons_of_pos (by decide), List.foldl_cons]
              exact hfold
            · rw [← hwalk, walk, hhere]
              rfl

end Tree

namespace Disk

open ShellDocs.Path (isName isStraight undo)

variable {d : Disk} {path : Text}

/-- Whether a location is that of a directory: it consists of names, and it can be reached. -/
structure HasDirectory (d : Disk) (l : Location) : Prop where
  names : ∀ part ∈ l, isName part = true ∧ (Utf8.encode part).length ≤ Tree.nameLimit ∧ '/' ∉ part
  directories : ∀ above, above <+: l → d.tree.find? above = some .directory

/-- The written form of a path with a root leads along its parts from the root of the tree. -/
theorem walk_toText_of_root {root : Text} (hroot : root = ['/'] ∨ root = ['/', '/'])
    {parts : List Text} (h : ∀ part ∈ parts, '/' ∉ part) :
    d.walk (Path.toText ⟨root, parts⟩) = d.tree.walk [] parts := by
  have hempty (rest : List Text) : d.tree.walk [] ([] :: rest) = d.tree.walk [] rest := by
    rw [Tree.walk, Tree.find?_nil]
    rfl
  have hjoin : d.tree.walk [] (Text.fields '/' (Text.join ['/'] parts)) = d.tree.walk [] parts := by
    cases parts with
    | nil => exact hempty []
    | cons part rest => rw [Text.fields_join (List.cons_ne_nil part rest) h]
  rw [← hjoin]
  rcases hroot with rfl | rfl
  · have htext : Path.toText ⟨['/'], parts⟩ = '/' :: Text.join ['/'] parts := rfl
    rw [walk, htext]
    simp only [List.isEmpty_cons, Bool.false_eq_true, if_false, List.head?_cons, if_true,
      Text.fields]
    exact hempty _
  · have htext : Path.toText ⟨['/', '/'], parts⟩ = '/' :: '/' :: Text.join ['/'] parts := rfl
    rw [walk, htext]
    simp only [List.isEmpty_cons, Bool.false_eq_true, if_false, List.head?_cons, if_true,
      Text.fields]
    rw [hempty, hempty]

/-- The written form of an absolute path leads along its parts from the root. -/
theorem walk_toText {parts : List Text} (h : ∀ part ∈ parts, '/' ∉ part) :
    d.walk (Path.toText ⟨['/'], parts⟩) = d.tree.walk [] parts :=
  walk_toText_of_root (.inl rfl) h

/-- A straight walk from a directory leads where its parts come to. -/
theorem tree_walk_eq {start : Location} (hstart : d.HasDirectory start) {parts : List Text}
    (hslash : ∀ part ∈ parts, '/' ∉ part) (h : isStraight parts = true) :
    d.tree.walk start parts = d.walk (Path.toText ⟨['/'],
      (parts.filter fun part => !part.isEmpty && part != ['.']).foldl undo start⟩) := by
  obtain ⟨above, names, habove, hnames, hfold, hwalk⟩ :=
    Tree.exists_walk_eq hstart.directories h
  have hplain : ∀ part ∈ above ++ names, '/' ∉ part := by
    intro part hpart
    obtain hpart | hpart := List.mem_append.1 hpart
    · exact (hstart.names part (habove.subset hpart)).2.2
    · exact hslash part (hnames part hpart)
  have hpass : d.tree.walk [] (above ++ names) = d.tree.walk ([] ++ above) names :=
    Tree.walk_append (fun l hl => hstart.directories l (hl.trans habove))
      fun part hpart =>
        have hname := hstart.names part (habove.subset hpart)
        ⟨hname.1, hname.2.1⟩
  rw [hwalk, hfold, walk_toText hplain, hpass, List.nil_append]

/-- A straight path leads where its resolved form leads. -/
theorem walk_resolve (hcwd : d.HasDirectory d.cwd)
    (h : isStraight (Text.fields '/' path) = true) :
    d.walk path = d.walk ((Path.ofText path).resolve d.cwd).toText := by
  have hslash : ∀ part ∈ Text.fields '/' path, '/' ∉ part :=
    fun _ hpart => Text.not_mem_of_mem_fields hpart
  have hpath : path.isEmpty = false := by
    cases path with
    | nil => contradiction
    | cons c rest => rfl
  rw [walk, hpath, if_neg Bool.false_ne_true, Path.resolve]
  by_cases habsolute : path.head? = some '/'
  · -- The root is a directory on every disk.
    rw [if_pos habsolute, if_pos (Path.isAbsolute_ofText.2 habsolute)]
    exact tree_walk_eq ⟨by simp, fun l hl => by simp [List.prefix_nil.1 hl]⟩ hslash h
  · have hkept : Path.foldParents d.cwd = d.cwd := by
      refine Path.foldl_undo_of_not_mem (fun hmem => ?_) []
      have hup := (hcwd.names _ hmem).1
      contradiction
    rw [if_neg habsolute, if_neg (Path.isAbsolute_ofText.not.2 habsolute),
      Path.foldParents_append, hkept]
    exact tree_walk_eq hcwd hslash h

end Disk

end ShellDocs
