import Mathlib.Data.List.Basic

/-!
# Association lists

Trees, tables and outlines are lists of keys with what stands under them. Replacing or taking away
what stands under one key changes what is found there and nothing else.
-/

namespace ShellDocs.Association

section

variable {α β : Type} [BEq α] [LawfulBEq α]

theorem lookup_cons_of_ne {k key : α} (h : k ≠ key) (b : β) (l : List (α × β)) :
    ((key, b) :: l).lookup k = l.lookup k := by
  rw [List.lookup_cons, beq_eq_false_iff_ne.2 h]

/-- Nothing is found under a key that does not occur. -/
theorem lookup_eq_none_of_not_mem {l : List (α × β)} {key : α} (h : key ∉ l.map Prod.fst) :
    l.lookup key = none := by
  rw [List.lookup_eq_none_iff]
  intro e he
  rw [bne_iff_ne]
  rintro rfl
  exact h (List.mem_map_of_mem he)

/-- What is found under a key stands there. -/
theorem mem_of_lookup_eq_some {l : List (α × β)} {key : α} {b : β} (h : l.lookup key = some b) :
    (key, b) ∈ l := by
  obtain ⟨before, after, rfl, -⟩ := List.lookup_eq_some_iff.1 h
  simp

/-- An entry is found under its key if no other has the same key. -/
theorem lookup_of_mem {l : List (α × β)} (hkeys : (l.map Prod.fst).Nodup) {e : α × β}
    (he : e ∈ l) : l.lookup e.1 = some e.2 := by
  induction l with
  | nil => contradiction
  | cons f rest ih =>
      obtain ⟨hnew, hrest⟩ := List.nodup_cons.1 hkeys
      obtain rfl | he := List.mem_cons.1 he
      · exact List.lookup_cons_self
      · have hne : e.1 ≠ f.1 := by
          intro heq
          exact hnew (heq ▸ List.mem_map_of_mem he)
        rw [lookup_cons_of_ne hne, ih hrest he]

end

variable {α β : Type} [BEq α] [LawfulBEq α] [DecidableEq α]

/-- Replacing what stands under some keys changes what is found there and nothing else. -/
theorem lookup_map_replace (l : List (α × β)) (p : α → Prop) [DecidablePred p] (k : α) (b : β) :
    (l.map fun e => if p e.1 then (e.1, b) else e).lookup k =
      if p k then (l.lookup k).map fun _ => b else l.lookup k := by
  induction l with
  | nil => by_cases h : p k <;> simp [h]
  | cons e rest ih =>
      obtain ⟨j, c⟩ := e
      by_cases hj : p j
      · rw [List.map_cons, if_pos hj]
        by_cases hkj : k = j
        · subst hkj
          simp [hj]
        · rw [lookup_cons_of_ne hkj, lookup_cons_of_ne hkj, ih]
      · rw [List.map_cons, if_neg hj]
        by_cases hkj : k = j
        · subst hkj
          simp [hj]
        · rw [lookup_cons_of_ne hkj, lookup_cons_of_ne hkj, ih]

/-- Taking away what stands under a key changes what is found there and nothing else. -/
theorem lookup_filter_ne (l : List (α × β)) (key k : α) :
    (l.filter fun e => decide (e.1 ≠ key)).lookup k =
      if k = key then none else l.lookup k := by
  induction l with
  | nil => simp
  | cons e rest ih =>
      obtain ⟨j, c⟩ := e
      by_cases hj : j = key
      · subst hj
        rw [List.filter_cons_of_neg (by simp), ih]
        split_ifs with hk
        · rfl
        · rw [lookup_cons_of_ne hk]
      · rw [List.filter_cons_of_pos (by simpa using hj)]
        by_cases hkj : k = j
        · subst hkj
          simp [hj]
        · rw [lookup_cons_of_ne hkj, lookup_cons_of_ne hkj, ih]

end ShellDocs.Association
