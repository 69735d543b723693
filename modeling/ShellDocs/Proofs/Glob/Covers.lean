import Mathlib.Data.List.Forall2
import ShellDocs.Proofs.Glob.Cut

/-!
# What a pattern stands for

A part of a pattern stands for the names that it accepts, or for itself when no character of it has
a meaning (`Fits`). A pattern stands for the paths that it covers: they start where it does and fit
it part by part (`Covers`). A pattern that is cut in two covers a path in two.
-/

namespace ShellDocs.Glob

open ShellDocs.Path (isStep)

variable {pattern directory gap last name : Text}

/-! ## Lists side by side -/

theorem exists_append_of_forall₂ {α β : Type} {R : α → β → Prop} {as as' : List α} {bs : List β}
    (h : List.Forall₂ R (as ++ as') bs) :
    ∃ cs cs', bs = cs ++ cs' ∧ List.Forall₂ R as cs ∧ List.Forall₂ R as' cs' :=
  ⟨bs.take as.length, bs.drop as.length, (List.take_append_drop _ _).symm,
    (List.forall₂_take_append bs as as' h.flip).flip,
    (List.forall₂_drop_append bs as as' h.flip).flip⟩

theorem exists_of_mem_forall₂ {α β : Type} {R : α → β → Prop} {as : List α} {bs : List β}
    (h : List.Forall₂ R as bs) {b : β} (hb : b ∈ bs) : ∃ a ∈ as, R a b := by
  induction h with
  | nil => contradiction
  | @cons a b' _ _ hab _ ih =>
      obtain rfl | hb := List.mem_cons.1 hb
      · exact ⟨a, List.mem_cons_self, hab⟩
      · obtain ⟨a', ha', hR⟩ := ih hb
        exact ⟨a', List.mem_cons_of_mem a ha', hR⟩

/-! ## Parts of a pattern -/

/-- Whether a part of a path is one that a part of a pattern stands for. -/
def Fits (part name : Text) : Prop :=
  if hasMagic part then Tree.IsEntryName name ∧ acceptsName part name = true else name = part

/-- Whether a path is one that a pattern stands for: it starts where the pattern does, and the two
fit part by part. -/
structure Covers (pattern : Text) (p : Path) : Prop where
  root : p.root = Path.rootOf pattern
  parts : List.Forall₂ Fits (Path.ofText pattern).parts p.parts

theorem hasMagic_of_slashes {slashes : Text} (h : ∀ c ∈ slashes, c = '/') :
    hasMagic slashes = false := by
  refine List.any_eq_false.2 fun c hc => ?_
  obtain rfl := h c hc
  decide

theorem isStep_of_hasMagic (h : hasMagic name = true) : isStep name = true := by
  by_contra hskip
  rcases Path.eq_of_isStep_eq_false (Bool.eq_false_iff.2 hskip) with rfl | rfl <;> contradiction

/-- The parts of a pattern have no other characters than the pattern. -/
theorem hasMagic_of_mem_parts {part : Text} (h : hasMagic pattern = false)
    (hpart : part ∈ (Path.ofText pattern).parts) : hasMagic part = false := by
  refine List.any_eq_false.2 fun c hc => List.any_eq_false.1 h c ?_
  have hflat := List.mem_flatten_of_mem (List.mem_of_mem_filter hpart) hc
  rw [Text.flatten_fields] at hflat
  exact List.mem_of_mem_filter hflat

theorem Fits.eq {part : Text} (h : Fits part name) (hplain : hasMagic part = false) :
    name = part := by
  rwa [Fits, hplain, if_neg Bool.false_ne_true] at h

theorem Fits.of_plain (h : hasMagic name = false) : Fits name name := by
  rw [Fits, h, if_neg Bool.false_ne_true]

theorem fits_iff {part : Text} (h : hasMagic part = true) :
    Fits part name ↔ Tree.IsEntryName name ∧ acceptsName part name = true := by
  rw [Fits, if_pos h]

/-- A part with a character that has a meaning stands for one name. -/
theorem exists_of_fits {names : List Text} (hmagic : hasMagic last = true) (hlast : '/' ∉ last)
    (h : List.Forall₂ Fits (Path.ofText last).parts names) :
    ∃ name, names = [name] ∧ Tree.IsEntryName name ∧ acceptsName last name = true := by
  rw [ofText_of_isStep (isStep_of_hasMagic hmagic) hlast] at h
  simp only [List.forall₂_cons_left_iff, List.forall₂_nil_left_iff] at h
  obtain ⟨name, _, hfits, rfl, rfl⟩ := h
  obtain ⟨hname, haccepts⟩ := (fits_iff hmagic).1 hfits
  exact ⟨name, rfl, hname, haccepts⟩

/-- What fits a part takes a step as the part does, and has no slash if the part has none. -/
theorem Fits.plain {part : Text} (h : Fits part name) (hstep : isStep part = true)
    (hslash : '/' ∉ part) : isStep name = true ∧ '/' ∉ name := by
  rw [Fits] at h
  split_ifs at h
  · exact ⟨Path.isStep_of_isName h.1.1, h.1.2.2⟩
  · exact h ▸ ⟨hstep, hslash⟩

namespace Covers

variable {p : Path}

theorem plain (h : Covers pattern p) : p.Plain := by
  refine ⟨?_, fun name hname => ?_⟩
  · rw [Path.Rooted, h.root]
    exact Path.rooted_ofText pattern
  · obtain ⟨part, hpart, hfits⟩ := exists_of_mem_forall₂ h.parts hname
    obtain ⟨hstep, hslash⟩ := (Path.plain_ofText pattern).parts part hpart
    exact hfits.plain hstep hslash

/-- A pattern without characters that have a meaning stands for itself alone. -/
theorem eq_ofText (h : Covers pattern p) (hplain : hasMagic pattern = false) :
    p = Path.ofText pattern := by
  have hfits : List.Forall₂ (fun part name => hasMagic part = false ∧ Fits part name)
      (Path.ofText pattern).parts p.parts :=
    (List.forall₂_and_left _ _).2 ⟨fun _ hpart => hasMagic_of_mem_parts hplain hpart, h.parts⟩
  have hsame : (Path.ofText pattern).parts = p.parts := by
    rw [← List.forall₂_eq_eq_eq]
    exact hfits.imp fun part name hboth => (hboth.2.eq hboth.1).symm
  exact congrArg₂ Path.mk h.root hsame.symm

theorem of_plain (h : hasMagic pattern = false) : Covers pattern (Path.ofText pattern) :=
  ⟨rfl, List.forall₂_same.2 fun _ hpart => .of_plain (hasMagic_of_mem_parts h hpart)⟩

theorem append {names : List Text} (hcut : Cut directory gap last) (h : Covers directory p)
    (hnames : List.Forall₂ Fits (Path.ofText last).parts names) :
    Covers (directory ++ gap ++ last) ⟨p.root, p.parts ++ names⟩ := by
  have hpattern := hcut.ofText
  refine ⟨h.root.trans (congrArg Path.root hpattern).symm, ?_⟩
  rw [hpattern]
  exact List.rel_append h.parts hnames

/-- A path that a pattern stands for is in two parts where the pattern is. -/
theorem exists_append (hcut : Cut directory gap last) (h : Covers (directory ++ gap ++ last) p) :
    ∃ above names, p.parts = above ++ names ∧ Covers directory ⟨p.root, above⟩ ∧
      List.Forall₂ Fits (Path.ofText last).parts names := by
  have hpattern := hcut.ofText
  have hparts := h.parts
  rw [hpattern] at hparts
  obtain ⟨above, names, happend, habove, hnames⟩ := exists_append_of_forall₂ hparts
  exact ⟨above, names, happend, ⟨h.root.trans (congrArg Path.root hpattern), habove⟩, hnames⟩

end Covers

end ShellDocs.Glob
