import Mathlib.Data.List.Induction
import Mathlib.Data.List.Nodup
import ShellDocs.Proofs.Files.Spelling

/-!
# Names in directories and the paths to them

In a proper tree everything is under names, and nothing is there twice; changes of a tree keep it
proper. What is listed in a directory is what a walk finds there by one more name (`Tree.mem_names`,
`Tree.walk_name`). A walk that ends at an entry takes its steps one after the other: it can be
stopped before the last one (`Tree.exists_walk_of_concat`) and the parts that take no step can be
left out or put in (`Tree.walk_filter_of_taken`, `Tree.walk_of_walk_filter`). So a text that leads
to an entry leads to it in the form of a path as well (`Disk.walk_toText_ofText`, and through links
`Disk.seek_toText_ofText`), and the other way round unless the entry is a file and the text does not
end in a step (`Disk.walk_of_walk_toText`).
-/

namespace ShellDocs

namespace Tree

open ShellDocs.Path (isName isStep)

variable {t : Tree} {here l l' : Location} {parts : List Text} {name part : Text} {e : Entry}

/-- Whether a part can be the name of something in a directory. -/
def IsEntryName (part : Text) : Prop :=
  isName part = true ∧ (Utf8.encode part).length ≤ nameLimit ∧ '/' ∉ part

instance (part : Text) : Decidable (IsEntryName part) := inferInstanceAs (Decidable (_ ∧ _))

theorem IsEntryName.ne_nil (h : IsEntryName part) : part ≠ [] := (Path.isName_iff.1 h.1).1

/-- Whether everything in the tree is under names, and nothing is there twice. -/
structure Proper (t : Tree) : Prop where
  names : ∀ x ∈ t.entries, ∀ part ∈ x.1, IsEntryName part
  distinct : (t.entries.map Prod.fst).Nodup

theorem proper_empty : empty.Proper := ⟨by simp [empty], by simp [empty]⟩

/-- An entry under names makes no tree improper. -/
theorem Proper.put (ht : t.Proper) (hl : ∀ part ∈ l, IsEntryName part) (e : Entry) :
    (t.put l e).Proper := by
  by_cases hthere : (t.entries.lookup l).isSome = true
  · have hentries : (t.put l e).entries =
        t.entries.map fun x => if x.1 = l then (x.1, e) else x := if_pos hthere
    have hkeys : (t.put l e).entries.map Prod.fst = t.entries.map Prod.fst := by
      rw [hentries, List.map_map]
      refine List.map_congr_left fun x _ => ?_
      by_cases hx : x.1 = l <;> simp [hx]
    refine ⟨fun x hx => ?_, hkeys ▸ ht.distinct⟩
    obtain ⟨y, hy, hfst⟩ := List.mem_map.1 (hkeys ▸ List.mem_map_of_mem hx)
    exact hfst ▸ ht.names y hy
  · have hentries : (t.put l e).entries = t.entries ++ [(l, e)] := if_neg hthere
    constructor
    · rw [hentries]
      exact List.forall_mem_append.2 ⟨ht.names, by simpa using hl⟩
    · rw [hentries, List.map_append, List.nodup_append]
      refine ⟨ht.distinct, by simp, fun m hm m' hm' => ?_⟩
      obtain rfl : m' = l := by simpa using hm'
      rintro rfl
      obtain ⟨x, hx, rfl⟩ := List.mem_map.1 hm
      exact hthere (by rw [Association.lookup_of_mem ht.distinct hx]; rfl)

/-- An entry is put under names together with the directories above it. -/
theorem Proper.plant (ht : t.Proper) (hl : ∀ part ∈ l, IsEntryName part) (e : Entry) :
    (t.plant l e).Proper := by
  refine Proper.put ?_ hl e
  refine List.foldlRecOn _ _ ht fun t ht above habove => ?_
  obtain ⟨n, -, rfl⟩ := List.mem_map.1 habove
  split_ifs
  · exact ht
  · exact ht.put (fun part hpart => hl part (List.mem_of_mem_take hpart)) _

theorem Proper.erase (ht : t.Proper) (l : Location) : (t.erase l).Proper :=
  ⟨fun x hx => ht.names x (List.mem_of_mem_filter hx),
    ht.distinct.sublist (List.filter_sublist.map Prod.fst)⟩

/-! ## Listed names -/

/-- The name that a directory lists for a location. -/
def nameIn? (directory location : Location) : Option Text :=
  if location.dropLast = directory && !location.isEmpty then location.getLast? else none

theorem nameIn?_eq_some {directory location : Location} :
    nameIn? directory location = some name ↔ location = directory ++ [name] := by
  rw [nameIn?]
  constructor
  · intro h
    split_ifs at h with hcond
    obtain ⟨rfl, -⟩ : location.dropLast = directory ∧ location ≠ [] := by simpa using hcond
    exact (List.dropLast_append_getLast? name h).symm
  · rintro rfl
    simp

theorem names_eq (t : Tree) (l : Location) :
    t.names l = (t.entries.map Prod.fst).filterMap (nameIn? l) := by
  rw [names, List.filterMap_map]
  rfl

/-- A directory lists the names under which something stands in it. -/
theorem mem_names : name ∈ t.names l ↔ ∃ e, t.find? (l ++ [name]) = some e := by
  have hlocation : (l ++ [name]).isEmpty = false := by simp
  rw [names_eq, List.mem_filterMap, find?, hlocation, if_neg Bool.false_ne_true,
    ← Option.isSome_iff_exists]
  constructor
  · rintro ⟨location, hmem, hname⟩
    obtain rfl := nameIn?_eq_some.1 hname
    by_contra hnone
    obtain ⟨x, hx, hfst⟩ := List.mem_map.1 hmem
    have hne := List.lookup_eq_none_iff.1 (Option.not_isSome_iff_eq_none.1 hnone) x hx
    simp [hfst] at hne
  · intro h
    obtain ⟨e, he⟩ := Option.isSome_iff_exists.1 h
    exact ⟨l ++ [name], List.mem_map_of_mem (Association.mem_of_lookup_eq_some he),
      nameIn?_eq_some.2 rfl⟩

theorem Proper.isEntryName (ht : t.Proper) (h : name ∈ t.names l) : IsEntryName name := by
  rw [names_eq, List.mem_filterMap] at h
  obtain ⟨location, hmem, hname⟩ := h
  obtain rfl := nameIn?_eq_some.1 hname
  obtain ⟨x, hx, hfst⟩ := List.mem_map.1 hmem
  exact ht.names x hx name (by simp [hfst])

/-- No name is listed twice. -/
theorem Proper.nodup_names (ht : t.Proper) (l : Location) : (t.names l).Nodup := by
  rw [names_eq]
  refine ht.distinct.filterMap fun location location' name hname hname' => ?_
  rw [nameIn?_eq_some.1 hname, nameIn?_eq_some.1 hname']

/-! ## Walks that end at an entry -/

/-- A walk along no part stays where it is. -/
theorem walk_nil_eq_ok : t.walk here [] = .ok (.taken l e) ↔ l = here ∧ t.find? here = some e := by
  rw [walk]
  cases he : t.find? here with
  | none => simp
  | some f => simp [eq_comm]

/-- A walk to a directory goes on from there. -/
theorem walk_append_of_taken (h : t.walk here parts = .ok (.taken l .directory))
    (more : List Text) : t.walk here (parts ++ more) = t.walk l more := by
  induction parts generalizing here with
  | nil =>
      obtain ⟨rfl, -⟩ := walk_nil_eq_ok.1 h
      rfl
  | cons part rest ih =>
      obtain ⟨hdir, h⟩ := walk_cons_eq_ok.1 h
      rw [List.cons_append, walk, hdir]
      split_ifs at h with hskip hup
      · simpa [hskip] using ih h
      · simpa [hskip, hup] using ih h
      · obtain ⟨hshort, ⟨e, he, hrest⟩ | ⟨-, -, hfree⟩⟩ := h
        · simpa [hskip, hup, hshort, he] using ih hrest
        · contradiction

/-- A walk goes on only from a directory, so before its last part it stands at one. -/
theorem exists_walk_of_concat (h : t.walk here (parts ++ [part]) = .ok (.taken l e)) :
    ∃ l', t.walk here parts = .ok (.taken l' .directory) ∧
      t.walk l' [part] = .ok (.taken l e) := by
  induction parts generalizing here with
  | nil =>
      obtain ⟨hdir, -⟩ := walk_cons_eq_ok.1 h
      exact ⟨here, walk_nil_eq_ok.2 ⟨rfl, hdir⟩, h⟩
  | cons first rest ih =>
      rw [List.cons_append] at h
      obtain ⟨hdir, h⟩ := walk_cons_eq_ok.1 h
      suffices hgo : ∃ next, t.walk next (rest ++ [part]) = .ok (.taken l e) ∧
          ∀ l', t.walk next rest = .ok (.taken l' .directory) →
            t.walk here (first :: rest) = .ok (.taken l' .directory) by
        obtain ⟨next, hnext, hback⟩ := hgo
        obtain ⟨l', hrest, hlast⟩ := ih hnext
        exact ⟨l', hback l' hrest, hlast⟩
      split_ifs at h with hskip hup
      · exact ⟨here, h, fun l' hl' => walk_cons_eq_ok.2 ⟨hdir, by simpa [hskip] using hl'⟩⟩
      · exact ⟨here.dropLast, h,
          fun l' hl' => walk_cons_eq_ok.2 ⟨hdir, by simpa [hskip, hup] using hl'⟩⟩
      · obtain ⟨hshort, ⟨f, hf, hrest⟩ | ⟨-, hnil, -⟩⟩ := h
        · refine ⟨here ++ [first], hrest, fun l' hl' => walk_cons_eq_ok.2 ⟨hdir, ?_⟩⟩
          rw [if_neg hskip, if_neg hup]
          exact ⟨hshort, .inl ⟨f, hf, hl'⟩⟩
        · simp at hnil

/-- A walk by one name leads to what the directory has under the name. -/
theorem walk_name (hname : isName name = true) (hshort : (Utf8.encode name).length ≤ nameLimit)
    (hdir : t.find? l = some .directory) :
    t.walk l [name] = .ok (.taken l' e) ↔ l' = l ++ [name] ∧ t.find? (l ++ [name]) = some e := by
  simp only [isName, Bool.and_eq_true, Bool.not_eq_true', bne_iff_ne, ne_eq] at hname
  obtain ⟨⟨hempty, hdot⟩, hup⟩ := hname
  rw [walk_cons_eq_ok]
  simp only [hdir, hempty, beq_eq_false_iff_ne.2 hdot, beq_eq_false_iff_ne.2 hup,
    Nat.not_lt.2 hshort, Bool.or_self, Bool.false_eq_true, if_false, not_false_eq_true, true_and,
    reduceCtorEq, and_false, or_false, walk_nil_eq_ok]
  constructor
  · rintro ⟨f, -, rfl, he⟩
    exact ⟨rfl, he⟩
  · rintro ⟨rfl, he⟩
    exact ⟨e, he, rfl, he⟩

/-- A walk to an entry ends there without the parts that take no step. -/
theorem walk_filter_of_taken (h : t.walk here parts = .ok (.taken l e)) :
    t.walk here (parts.filter isStep) = .ok (.taken l e) := by
  induction parts generalizing here with
  | nil => exact h
  | cons part rest ih =>
      obtain ⟨hdir, hgo⟩ := walk_cons_eq_ok.1 h
      split_ifs at hgo with hskip hup
      · have hstep : isStep part = false := by
          simpa [isStep, or_iff_not_imp_left] using hskip
        rw [List.filter_cons_of_neg (by simp [hstep])]
        exact ih hgo
      · obtain rfl := eq_of_beq hup
        rw [List.filter_cons_of_pos (by decide)]
        exact walk_cons_eq_ok.2 ⟨hdir, by simpa using ih hgo⟩
      · have hstep : isStep part = true := by
          simpa [isStep] using hskip
        obtain ⟨hshort, ⟨f, hf, hrest⟩ | ⟨-, -, hfree⟩⟩ := hgo
        · rw [List.filter_cons_of_pos hstep]
          refine walk_cons_eq_ok.2 ⟨hdir, ?_⟩
          rw [if_neg hskip, if_neg hup]
          exact ⟨hshort, .inl ⟨f, hf, ih hrest⟩⟩
        · contradiction

/-- Parts that take no step can be put into a walk to a directory. -/
theorem walk_of_walk_filter
    (h : t.walk here (parts.filter isStep) = .ok (.taken l .directory)) :
    t.walk here parts = .ok (.taken l .directory) := by
  -- A part that takes no step is passed only in a directory; the walk stands in one until its end.
  induction parts using List.reverseRecOn generalizing l with
  | nil => exact h
  | append_singleton rest part ih =>
      rw [List.filter_append] at h
      cases hstep : isStep part with
      | true =>
          rw [List.filter_cons_of_pos hstep, List.filter_nil] at h
          obtain ⟨l', hrest, hlast⟩ := exists_walk_of_concat h
          rw [walk_append_of_taken (ih hrest), hlast]
      | false =>
          rw [List.filter_cons_of_neg (by simp [hstep]), List.filter_nil, List.append_nil] at h
          have hrest := ih h
          have hdir : t.find? l = some .directory := find?_of_walk hrest
          have hskip : (part.isEmpty || part == ['.']) = true := by
            rcases Path.eq_of_isStep_eq_false hstep with rfl | rfl <;> rfl
          rw [walk_append_of_taken hrest]
          refine walk_cons_eq_ok.2 ⟨hdir, ?_⟩
          rw [if_pos hskip]
          exact walk_nil_eq_ok.2 ⟨rfl, hdir⟩

end Tree

namespace Path

variable {p : Path} {t u : Text}

/-! ## Reading a text in two -/

theorem rootOf_of_head?_ne (h : t.head? ≠ some '/') : rootOf t = [] := by
  simpa [isAbsolute, ofText] using mt isAbsolute_ofText.1 h

theorem head?_ne_of_not_mem (h : '/' ∉ t) : t.head? ≠ some '/' :=
  fun hhead => h (List.mem_of_mem_head? hhead)

theorem rootOf_slash (h : t.head? ≠ some '/') : rootOf ('/' :: t) = ['/'] := by
  cases t with
  | nil => rfl
  | cons c t =>
      have hc : c ≠ '/' := by simpa using h
      simp [rootOf, hc]

theorem rootOf_slashes (h : t.head? ≠ some '/') : rootOf ('/' :: '/' :: t) = ['/', '/'] := by
  cases t with
  | nil => rfl
  | cons c t =>
      have hc : c ≠ '/' := by simpa using h
      simp [rootOf, hc]

/-- The root of a path depends on the slashes at its start. -/
theorem rootOf_append (h : u.head? ≠ some '/' ∨ ∃ c ∈ t, c ≠ '/') :
    rootOf (t ++ u) = rootOf t := by
  have hhead {rest : Text} (hrest : ∀ more, rest = '/' :: more → False)
      (hne : u.head? ≠ some '/' ∨ ∃ c ∈ rest, c ≠ '/') : (rest ++ u).head? ≠ some '/' := by
    cases rest with
    | nil => simpa using hne
    | cons c more =>
        intro hc
        obtain rfl : c = '/' := by simpa using hc
        exact hrest more rfl
  fun_cases rootOf t with
  | case1 rest => rfl
  | case2 rest hrest => exact rootOf_slashes (hhead hrest (by simpa using h))
  | case3 rest _ hrest => exact rootOf_slash (hhead hrest (by simpa using h))
  | case4 t _ _ hfirst => exact rootOf_of_head?_ne (hhead hfirst h)

/-! ## Paths in written form -/

/-- Whether the path is in the form in which paths are read. -/
structure Plain (p : Path) : Prop where
  root : p.Rooted
  parts : ∀ part ∈ p.parts, isStep part = true ∧ '/' ∉ part

theorem plain_ofText (t : Text) : (ofText t).Plain :=
  ⟨rooted_ofText t, fun _ hpart =>
    ⟨(List.mem_filter.1 hpart).2, slash_not_mem_ofText hpart⟩⟩

theorem Plain.filter_parts (hp : p.Plain) : p.parts.filter isStep = p.parts :=
  List.filter_eq_self.2 fun part hpart => (hp.parts part hpart).1

/-- The written form of a path without a root, but with parts. -/
theorem toText_of_parts {parts : List Text} (h : parts ≠ []) :
    toText ⟨[], parts⟩ = Text.join ['/'] parts := by
  simp [toText, h]

/-- The written form of a path does not start with a slash if the path has no root. -/
theorem Plain.head?_toText (hp : p.Plain) (hroot : p.root = []) : p.toText.head? ≠ some '/' := by
  obtain ⟨root, parts⟩ := p
  obtain rfl : root = [] := hroot
  cases parts with
  | nil => decide
  | cons part rest =>
      obtain ⟨hstep, hslash⟩ := hp.parts part List.mem_cons_self
      obtain ⟨c, more, rfl⟩ : ∃ c more, part = c :: more := by
        refine List.exists_cons_of_ne_nil ?_
        rintro rfl
        contradiction
      have hc : c ≠ '/' := by
        rintro rfl
        simp at hslash
      rw [toText_of_parts (List.cons_ne_nil _ rest)]
      cases rest <;> simp [Text.join, hc]

/-- A path is read again from its written form. -/
theorem Plain.ofText_toText (hp : p.Plain) : ofText p.toText = p := by
  obtain ⟨root, parts⟩ := p
  have hparts : parts.filter isStep = parts := hp.filter_parts
  have hslash : ∀ part ∈ parts, '/' ∉ part := fun part hpart => (hp.parts part hpart).2
  have hread : (ofText (Text.join ['/'] parts)).parts = parts := by
    cases parts with
    | nil => rfl
    | cons part rest =>
        rw [ofText, Text.fields_join (List.cons_ne_nil part rest) hslash]
        exact hparts
  have hhead : (Text.join ['/'] parts).head? ≠ some '/' := by
    cases parts with
    | nil => simp [Text.join]
    | cons part rest =>
        rw [← toText_of_parts (List.cons_ne_nil part rest)]
        exact Plain.head?_toText ⟨.inl rfl, hp.parts⟩ rfl
  rcases hp.root with rfl | rfl | rfl
  · cases parts with
    | nil => rfl
    | cons part rest =>
        rw [toText_of_parts (List.cons_ne_nil part rest)]
        exact congrArg₂ Path.mk (rootOf_of_head?_ne hhead) hread
  · exact congrArg₂ Path.mk (rootOf_slash hhead) ((parts_ofText_append [] _).trans hread)
  · exact congrArg₂ Path.mk (rootOf_slashes hhead) ((parts_ofText_append ['/'] _).trans hread)

theorem Plain.toText_ne_nil (hp : p.Plain) : p.toText ≠ [] := by
  intro hnil
  have hread := hp.ofText_toText
  rw [hnil] at hread
  rw [← hread] at hnil
  exact absurd hnil (by decide)

/-- A path has a slash in its written form just if it has a root or more than one part. -/
theorem Plain.slash_mem_toText (hp : p.Plain) :
    '/' ∈ p.toText ↔ p.isAbsolute = true ∨ 1 < p.parts.length := by
  obtain ⟨root, parts⟩ := p
  by_cases hroot : root = []
  · subst hroot
    match parts, hp.parts with
    | [], _ => decide
    | [part], hparts =>
        have hslash := (hparts part List.mem_cons_self).2
        simp [toText, Text.join, isAbsolute, hslash]
    | part :: next :: rest, _ => simp [toText, Text.join, isAbsolute]
  · have hroot' : root.isEmpty = false := List.isEmpty_eq_false_iff.2 hroot
    have habsolute : isAbsolute ⟨root, parts⟩ = true := by simp [isAbsolute, hroot']
    rcases hp.root.resolve_left hroot with rfl | rfl <;> simp [toText, habsolute]

end Path

namespace Disk

open ShellDocs.Path (isStep)

variable {d : Disk} {p : Path} {t : Text} {l l' : Location} {e : Entry}

/-- The directory that a path starts in. -/
def origin (d : Disk) (p : Path) : Location := if p.isAbsolute then [] else d.cwd

theorem walk_eq (ht : t ≠ []) :
    d.walk t = d.tree.walk (d.origin (Path.ofText t)) (Text.fields '/' t) := by
  rw [walk, List.isEmpty_eq_false_iff.2 ht, if_neg Bool.false_ne_true, origin]
  simp only [Path.isAbsolute_ofText]

/-- A walk along a text starts in a directory. -/
theorem find?_origin_of_walk {spot : Tree.Spot} (h : d.walk t = .ok spot) :
    t ≠ [] ∧ d.tree.find? (d.origin (Path.ofText t)) = some .directory := by
  have ht : t ≠ [] := by
    rintro rfl
    contradiction
  obtain ⟨piece, rest, hfields⟩ := List.exists_cons_of_ne_nil (Text.fields_ne_nil '/' t)
  rw [walk_eq ht, hfields] at h
  exact ⟨ht, (Tree.walk_cons_eq_ok.1 h).1⟩

/-- The written form of a path leads along its parts. -/
theorem walk_toText_of_plain (hp : p.Plain)
    (hdir : d.tree.find? (d.origin p) = some .directory) :
    d.walk p.toText = d.tree.walk (d.origin p) p.parts := by
  obtain ⟨root, parts⟩ := p
  by_cases hroot : root = []
  · subst hroot
    have hhead := hp.head?_toText rfl
    have horigin : d.origin ⟨[], parts⟩ = d.cwd := rfl
    rw [horigin] at hdir ⊢
    cases parts with
    | nil =>
        have htext : Path.toText ⟨[], []⟩ = ['.'] := rfl
        simp only [htext, walk, List.isEmpty_cons, Bool.false_eq_true, if_false]
        simp [Text.fields, Tree.walk, hdir]
    | cons part rest =>
        have hslash : ∀ u ∈ part :: rest, '/' ∉ u := fun u hu => (hp.parts u hu).2
        rw [walk, List.isEmpty_eq_false_iff.2 hp.toText_ne_nil, if_neg Bool.false_ne_true,
          if_neg hhead, Path.toText_of_parts (List.cons_ne_nil part rest),
          Text.fields_join (List.cons_ne_nil part rest) hslash]
  · have habsolute : Path.isAbsolute ⟨root, parts⟩ = true := by simp [Path.isAbsolute, hroot]
    rw [origin, habsolute, if_pos rfl]
    exact walk_toText_of_root (hp.root.resolve_left hroot) fun u hu => (hp.parts u hu).2

/-- A text that leads to an entry leads there in the form of a path. -/
theorem walk_toText_ofText (h : d.walk t = .ok (.taken l e)) :
    d.walk (Path.ofText t).toText = .ok (.taken l e) := by
  obtain ⟨ht, hdir⟩ := find?_origin_of_walk h
  rw [walk_toText_of_plain (Path.plain_ofText t) hdir]
  rw [walk_eq ht] at h
  exact Tree.walk_filter_of_taken h

/-- The steps of a path that leads to an entry start in a directory and lead to the entry. -/
theorem walk_toText_eq_ok (hp : p.Plain) :
    d.walk p.toText = .ok (.taken l e) ↔ d.tree.find? (d.origin p) = some .directory ∧
      d.tree.walk (d.origin p) p.parts = .ok (.taken l e) := by
  constructor
  · intro h
    have hdir := (find?_origin_of_walk h).2
    rw [hp.ofText_toText] at hdir
    rw [walk_toText_of_plain hp hdir] at h
    exact ⟨hdir, h⟩
  · rintro ⟨hdir, h⟩
    rw [walk_toText_of_plain hp hdir, h]

/-- A text leads where the form of a path leads, to a file only if it ends in a step. -/
theorem walk_of_walk_toText (ht : t ≠ []) (hends : e = .directory ∨ Path.EndsInStep t)
    (h : d.walk (Path.ofText t).toText = .ok (.taken l e)) : d.walk t = .ok (.taken l e) := by
  obtain ⟨-, h⟩ := (walk_toText_eq_ok (Path.plain_ofText t)).1 h
  rw [walk_eq ht]
  rcases hends with rfl | hends
  · exact Tree.walk_of_walk_filter h
  · rw [Tree.walk_filter_isStep hends]
    exact h

/-- Texts of one path lead to one directory. -/
theorem walk_directory_congr {u : Text} (hu : u ≠ []) (hpath : Path.ofText t = Path.ofText u)
    (h : d.walk t = .ok (.taken l .directory)) : d.walk u = .ok (.taken l .directory) := by
  have hwalk := walk_toText_ofText h
  rw [hpath] at hwalk
  exact walk_of_walk_toText hu (.inl rfl) hwalk

/-- A path leads on from a directory by its last part. -/
theorem walk_toText_concat {root part : Text} {parts : List Text}
    (hp : Path.Plain ⟨root, parts ++ [part]⟩) :
    d.walk (Path.toText ⟨root, parts ++ [part]⟩) = .ok (.taken l e) ↔
      ∃ l', d.walk (Path.toText ⟨root, parts⟩) = .ok (.taken l' .directory) ∧
        d.tree.walk l' [part] = .ok (.taken l e) := by
  have habove : Path.Plain ⟨root, parts⟩ :=
    ⟨hp.root, fun u hu => hp.parts u (List.mem_append_left _ hu)⟩
  have horigin : d.origin ⟨root, parts ++ [part]⟩ = d.origin ⟨root, parts⟩ := rfl
  rw [walk_toText_eq_ok hp, horigin]
  constructor
  · rintro ⟨hdir, h⟩
    obtain ⟨l', hl', hlast⟩ := Tree.exists_walk_of_concat h
    exact ⟨l', (walk_toText_eq_ok habove).2 ⟨hdir, hl'⟩, hlast⟩
  · rintro ⟨l', hl', hlast⟩
    obtain ⟨hdir, hl'⟩ := (walk_toText_eq_ok habove).1 hl'
    exact ⟨hdir, (Tree.walk_append_of_taken hl' [part]).trans hlast⟩

/-- A text that leads to an entry leads there in the form of a path, through all links, if the
system takes that form. -/
theorem seek_toText_ofText (h : d.seek t = .ok (.taken l e))
    (htakes : d.Takes (Path.ofText t).toText) :
    d.seek (Path.ofText t).toText = .ok (.taken l e) := by
  obtain ⟨hne, -, -, hwalk⟩ := reach_eq_ok.1 h
  have hwalks := Tree.follow_eq_ok.1 hwalk
  have hsteps := hwalks.filter_isStep [] _
  rw [List.nil_append] at hsteps
  have hp := Path.plain_ofText t
  by_cases habsolute : t.head? = some '/'
  · have hroot : (Path.ofText t).root ≠ [] := by
      simpa [Path.isAbsolute] using Path.isAbsolute_ofText.2 habsolute
    rw [seek_toText_of_root (hp.root.resolve_left hroot) (fun u hu => (hp.parts u hu).2) htakes]
    rw [if_pos habsolute] at hsteps
    exact Tree.follow_eq_ok.2 hsteps
  · have hroot : (Path.ofText t).root = [] := Path.rootOf_of_head?_ne habsolute
    have hhead := hp.head?_toText hroot
    rw [seek_eq_follow hp.toText_ne_nil htakes, if_neg hhead]
    rw [if_neg habsolute] at hwalks hsteps
    by_cases hparts : (Path.ofText t).parts = []
    · -- The path is written as a dot, and there is one in the text, as it has no steps.
      have htext : (Path.ofText t).toText = ['.'] := by simp [Path.toText, hroot, hparts]
      obtain ⟨c, more, rfl⟩ := List.exists_cons_of_ne_nil hne
      have hc : c ≠ '/' := by simpa using habsolute
      obtain ⟨piece, rest, -, hfields⟩ := Text.fields_cons_of_ne hc more
      have hnone : ((c :: piece) :: rest).filter isStep = [] := hfields ▸ hparts
      have hfirst : isStep (c :: piece) = false :=
        Bool.eq_false_iff.2 (List.filter_eq_nil_iff.1 hnone _ List.mem_cons_self)
      have hdot : c :: piece = ['.'] :=
        (Path.eq_of_isStep_eq_false hfirst).resolve_left (List.cons_ne_nil c piece)
      rw [hfields, hdot] at hwalks
      rw [hfields, hnone] at hsteps
      cases hwalks with
      | dot hdir hright _ =>
          rw [htext]
          exact Tree.follow_eq_ok.2 (.dot hdir hright hsteps)
      | enter hname _ _ _ => exact absurd hname.name (by decide)
      | stop hname _ _ => exact absurd hname.name (by decide)
      | leap hname _ _ _ => exact absurd hname.name (by decide)
    · have htext : (Path.ofText t).toText = Text.join ['/'] (Path.ofText t).parts := by
        simp [Path.toText, hroot, hparts]
      rw [htext, Text.fields_join hparts fun u hu => (hp.parts u hu).2]
      exact Tree.follow_eq_ok.2 hsteps

/-! ## What stands at a path -/

/-- What a text leads to is a directory unless the text ends in a step. -/
theorem eq_directory_of_walk (ht : d.tree.Linkless) (hends : ¬ Path.EndsInStep t)
    (h : d.walk t = .ok (.taken l e)) : e = .directory := by
  cases e with
  | directory => rfl
  | file content => exact absurd h (walk_ne_file hends l content)
  | link target => exact absurd (find?_of_walk h) (ht l target)

end Disk

end ShellDocs
