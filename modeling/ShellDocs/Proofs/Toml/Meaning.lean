import Mathlib.Data.List.Basic
import ShellDocs.Proofs.Association
import ShellDocs.Toml.Layout

/-!
# What a layout says

Each part of a layout changes the table that the parts before it describe: an entry gives a key its
value, a table goes on with the table under its name, and the tables of a list are added to the
list. `Layout.table` is the table after all parts, and `Layout.value?` what it holds under a key.
Only the parts of a key decide what it holds (`Layout.value?_eq_named`).
-/

namespace ShellDocs.Toml

namespace Table

/-- The table with another value under a key, which may depend on the old one. A new key comes
last. -/
def alter (key : Text) (f : Option Value → Value) : Table → Table
  | [] => [(key, f none)]
  | (k, v) :: rest => if k = key then (key, f (some v)) :: rest else (k, v) :: alter key f rest

/-- A change of the table that a value is, or of the last of a list of tables. Any other value
gives way to a new table. -/
def asTable (f : Table → Table) : Option Value → Value
  | some (.table t) => .table (f t)
  | some (.list items) =>
      match items.getLast? with
      | some (.table t) => .list (items.dropLast ++ [.table (f t)])
      | _ => .table (f [])
  | _ => .table (f [])

/-- The list that a value is, with more items. Any other value gives way to a new list. -/
def asList (more : List Value) : Option Value → Value
  | some (.list items) => .list (items ++ more)
  | _ => .list more

/-- A change of the table at the end of a path, with the tables along it made where they are
missing. -/
def under (f : Table → Table) : List Text → Table → Table
  | [], t => f t
  | key :: path, t => alter key (asTable (under f path)) t

/-- A change of the value at the end of a path, with the tables along it made where they are
missing. -/
def alterAt (f : Option Value → Value) : List Text → Table → Table
  | [], t => t
  | [key], t => alter key f t
  | key :: path, t => alter key (asTable (alterAt f path)) t

/-! ## Changes of one key -/

/-- A change under a key is seen there and nowhere else. -/
theorem lookup_alter (key : Text) (f : Option Value → Value) (t : Table) (k : Text) :
    (alter key f t).lookup k = if k = key then some (f (t.lookup key)) else t.lookup k := by
  induction t with
  | nil =>
      by_cases hk : k = key
      · simp [alter, hk]
      · simp [alter, Association.lookup_cons_of_ne hk, hk]
  | cons e rest ih =>
      obtain ⟨j, v⟩ := e
      by_cases hj : j = key
      · subst hj
        by_cases hk : k = j
        · simp [alter, hk]
        · simp [alter, Association.lookup_cons_of_ne hk, hk]
      · rw [alter, if_neg hj]
        by_cases hkj : k = j
        · subst hkj
          simp [hj]
        · rw [Association.lookup_cons_of_ne hkj, Association.lookup_cons_of_ne hkj,
            Association.lookup_cons_of_ne (Ne.symm hj), ih]

/-- A change under a new key adds an entry. -/
theorem alter_of_lookup_eq_none {key : Text} {t : Table} (h : t.lookup key = none)
    (f : Option Value → Value) : alter key f t = t ++ [(key, f none)] := by
  induction t with
  | nil => rfl
  | cons e rest ih =>
      obtain ⟨k, v⟩ := e
      have hne : k ≠ key := by
        rintro rfl
        simp at h
      rw [Association.lookup_cons_of_ne (Ne.symm hne)] at h
      simp [alter, hne, ih h]

/-- Two changes under one key are one change. -/
theorem alter_alter (key : Text) (f g : Option Value → Value) (t : Table) :
    alter key g (alter key f t) = alter key (fun old => g (some (f old))) t := by
  induction t with
  | nil => simp [alter]
  | cons e rest ih =>
      by_cases hkey : e.1 = key
      · simp [alter, hkey]
      · simp [alter, hkey, ih]

/-- Changes under two keys commute if the first key is there already. -/
theorem alter_comm {key k : Text} (hne : key ≠ k) (f g : Option Value → Value) {t : Table}
    (hthere : t.lookup key ≠ none) :
    alter key g (alter k f t) = alter k f (alter key g t) := by
  induction t with
  | nil => exact (hthere rfl).elim
  | cons e rest ih =>
      obtain ⟨j, v⟩ := e
      by_cases hkey : j = key
      · subst hkey
        simp [alter, hne]
      · by_cases hk : j = k
        · subst hk
          simp [alter, hkey]
        · rw [Association.lookup_cons_of_ne (Ne.symm hkey)] at hthere
          simp [alter, hkey, hk, ih hthere]

/-- A change to the value that is there already is none. -/
theorem alter_eq_self {key : Text} {f : Option Value → Value} {t : Table} {v : Value}
    (hv : t.lookup key = some v) (hf : f (some v) = v) : alter key f t = t := by
  induction t with
  | nil => contradiction
  | cons e rest ih =>
      obtain ⟨j, w⟩ := e
      by_cases hkey : j = key
      · subst hkey
        obtain rfl : w = v := by simpa using hv
        simp [alter, hf]
      · rw [Association.lookup_cons_of_ne (Ne.symm hkey)] at hv
        simp [alter, hkey, ih hv]

/-! ## Changes of tables inside tables -/

@[simp] theorem asTable_table (f : Table → Table) (t : Table) :
    asTable f (some (.table t)) = .table (f t) := rfl

@[simp] theorem asTable_list_concat (f : Table → Table) (items : List Value) (t : Table) :
    asTable f (some (.list (items ++ [.table t]))) = .list (items ++ [.table (f t)]) := by
  simp [asTable]

/-- A value is a table, or a list that ends in one, or it gives way. -/
theorem asTable_cases (old : Option Value) :
    (∃ t, old = some (.table t)) ∨ (∃ items t, old = some (.list (items ++ [.table t]))) ∨
      ∀ f, asTable f old = .table (f []) := by
  unfold asTable
  split
  · next t => exact .inl ⟨t, rfl⟩
  · next items =>
      split
      · next t hlast =>
          obtain ⟨init, rfl⟩ := List.getLast?_eq_some_iff.1 hlast
          exact .inr (.inl ⟨init, t, rfl⟩)
      · exact .inr (.inr fun _ => rfl)
  · exact .inr (.inr fun _ => rfl)

/-- Two changes of the table that a value is are one change. -/
theorem asTable_asTable (f g : Table → Table) (old : Option Value) :
    asTable g (some (asTable f old)) = asTable (fun t => g (f t)) old := by
  obtain ⟨t, rfl⟩ | ⟨items, t, rfl⟩ | hnew := asTable_cases old
  · rfl
  · simp
  · rw [hnew, hnew, asTable_table]

/-- A value is a list, or it gives way to one. -/
theorem asList_cases (old : Option Value) :
    (∃ items, old = some (.list items)) ∨ ∀ more, asList more old = .list more := by
  unfold asList
  split
  · next items => exact .inl ⟨items, rfl⟩
  · exact .inr fun _ => rfl

/-- Items that are added one after the other are added at once. -/
theorem asList_asList (more rest : List Value) (old : Option Value) :
    asList rest (some (asList more old)) = asList (more ++ rest) old := by
  obtain ⟨items, rfl⟩ | hnew := asList_cases old
  · simp [asList]
  · rw [hnew, hnew]
    rfl

/-- A change of the last table of a list that was just made longer. -/
theorem asTable_asList (f : Table → Table) (items : List Value) (t : Table) (old : Option Value) :
    asTable f (some (asList (items ++ [.table t]) old)) =
      asList (items ++ [.table (f t)]) old := by
  unfold asList
  split
  · rw [← List.append_assoc, asTable_list_concat, List.append_assoc]
  · rw [asTable_list_concat]

/-- Two changes at the end of one path are one change. -/
theorem under_under (f g : Table → Table) (path : List Text) (t : Table) :
    under g path (under f path t) = under (fun t => g (f t)) path t := by
  induction path generalizing t with
  | nil => rfl
  | cons key path ih =>
      rw [under, under, under, alter_alter]
      congr 1
      funext old
      rw [asTable_asTable]
      simp only [ih]

/-- A change at the end of a longer path is one below the table at the end of a shorter one. -/
theorem alterAt_append (f : Option Value → Value) (path : List Text) {key : List Text}
    (hkey : key ≠ []) (t : Table) : alterAt f (path ++ key) t = under (alterAt f key) path t := by
  induction path generalizing t with
  | nil => rfl
  | cons k path ih =>
      have hrest : alterAt f (path ++ key) = under (alterAt f key) path := funext ih
      have hne : path ++ key ≠ [] := by simp [hkey]
      obtain ⟨first, rest, hcons⟩ := List.exists_cons_of_ne_nil hne
      rw [List.cons_append, under, ← hrest, hcons, alterAt]
      simp

theorem alterAt_cons (f : Option Value → Value) (key : Text) {path : List Text}
    (hpath : path ≠ []) (t : Table) :
    alterAt f (key :: path) t = alter key (asTable (alterAt f path)) t :=
  alterAt_append f [key] hpath t

/-- A change of the table at the end of a path is a change of the value there. -/
theorem under_eq_alterAt (f : Table → Table) {path : List Text} (hpath : path ≠ []) (t : Table) :
    under f path t = alterAt (asTable f) path t := by
  induction path generalizing t with
  | nil => contradiction
  | cons key path ih =>
      cases path with
      | nil => rfl
      | cons next path =>
          have hrest : under f (next :: path) = alterAt (asTable f) (next :: path) :=
            funext (ih (by simp))
          rw [under, hrest, alterAt_cons _ _ (by simp)]

/-- Two changes at the end of one path are one change. -/
theorem alterAt_alterAt (f g : Option Value → Value) (path : List Text) (t : Table) :
    alterAt g path (alterAt f path t) = alterAt (fun old => g (some (f old))) path t := by
  induction path generalizing t with
  | nil => rfl
  | cons key path ih =>
      cases path with
      | nil => exact alter_alter key f g t
      | cons next path =>
          rw [alterAt_cons _ _ (by simp), alterAt_cons _ _ (by simp), alterAt_cons _ _ (by simp),
            alter_alter]
          congr 1
          funext old
          rw [asTable_asTable]
          simp only [ih]

/-- A change at the end of a path changes what stands under its first key. -/
theorem exists_alter_of_alterAt (f : Option Value → Value) (key : Text) (path : List Text) :
    ∃ g, alterAt f (key :: path) = alter key g := by
  cases path with
  | nil => exact ⟨_, funext fun _ => rfl⟩
  | cons next path => exact ⟨_, funext fun _ => rfl⟩

end Table

/-! ## Parts -/

mutual

/-- The table after a part that follows what describes `t`. -/
def Part.run : Part → Table → Table
  | .entry line, t => Table.alterAt (fun _ => line.value) line.key t
  | .table label _ parts, t =>
      Table.alter label.name (Table.asTable fun t => runParts parts t) t
  | .tables label items, t => Table.alter label.name (Table.asList (itemTables items)) t
  | _, t => t

/-- The table after several parts that follow what describes `t`. -/
def runParts : List Part → Table → Table
  | [], t => t
  | p :: ps, t => runParts ps (p.run t)

/-- The tables of a list. -/
def itemTables : List (Head × List Part) → List Value
  | [] => []
  | (_, parts) :: rest => .table (runParts parts []) :: itemTables rest

end

namespace Layout

/-- The table that a layout describes. -/
def table (l : Layout) : Table := runParts l []

/-- What a layout says for a key. -/
def value? (l : Layout) (key : Text) : Option Value := l.table.lookup key

/-- The parts of a key. -/
def named (l : Layout) (key : Text) : Layout := l.filter fun p => p.name? == some key

end Layout

theorem runParts_append (ps qs : List Part) (t : Table) :
    runParts (ps ++ qs) t = runParts qs (runParts ps t) := by
  induction ps generalizing t with
  | nil => rfl
  | cons p ps ih => rw [List.cons_append, runParts, runParts, ih]

/-- A part that belongs to no key says nothing. -/
theorem Part.run_of_name?_eq_none {p : Part} (h : p.name? = none) (t : Table) : p.run t = t := by
  cases p with
  | entry line =>
      have hkey : line.key = [] := List.head?_eq_none_iff.1 h
      rw [Part.run, hkey, Table.alterAt]
  | table label head parts => contradiction
  | tables label items => contradiction
  | space text => rfl
  | comment text => rfl
  | removed => rfl

/-- A part that belongs to a key changes what stands under it. -/
theorem Part.exists_alter {p : Part} {key : Text} (h : p.name? = some key) :
    ∃ f, p.run = Table.alter key f := by
  cases p with
  | entry line =>
      obtain ⟨path, hpath⟩ : ∃ path, line.key = key :: path := by
        obtain ⟨path, hpath⟩ := List.head?_eq_some_iff.1 h
        exact ⟨path, hpath⟩
      obtain ⟨f, hf⟩ := Table.exists_alter_of_alterAt (fun _ => line.value) key path
      exact ⟨f, funext fun t => by rw [Part.run, hpath, hf]⟩
  | table label head parts =>
      obtain rfl := Option.some.inj h
      exact ⟨_, funext fun t => by rw [Part.run]⟩
  | tables label items =>
      obtain rfl := Option.some.inj h
      exact ⟨_, funext fun t => by rw [Part.run]⟩
  | space text => contradiction
  | comment text => contradiction
  | removed => contradiction

/-- A part says nothing about the keys that it does not belong to. -/
theorem Part.lookup_run_of_ne {p : Part} {key : Text} (h : p.name? ≠ some key) (t : Table) :
    (p.run t).lookup key = t.lookup key := by
  cases hname : p.name? with
  | none => rw [Part.run_of_name?_eq_none hname]
  | some k =>
      obtain ⟨f, hf⟩ := Part.exists_alter hname
      rw [hf, Table.lookup_alter, if_neg]
      rintro rfl
      exact h hname

/-- What a part says about a key depends on what was said about that key. -/
theorem Part.lookup_run_congr (p : Part) {key : Text} {t u : Table}
    (h : t.lookup key = u.lookup key) : (p.run t).lookup key = (p.run u).lookup key := by
  by_cases hname : p.name? = some key
  · obtain ⟨f, hf⟩ := Part.exists_alter hname
    rw [hf, Table.lookup_alter, Table.lookup_alter, h]
  · rw [Part.lookup_run_of_ne hname, Part.lookup_run_of_ne hname, h]

/-- Only the parts of a key say something about it. -/
theorem lookup_runParts_named (l : Layout) (key : Text) {t u : Table}
    (h : t.lookup key = u.lookup key) :
    (runParts l t).lookup key = (runParts (l.named key) u).lookup key := by
  induction l generalizing t u with
  | nil => exact h
  | cons p ps ih =>
      by_cases hname : p.name? = some key
      · have hkept : Layout.named (p :: ps) key = p :: Layout.named ps key := by
          simp [Layout.named, hname]
        rw [hkept, runParts, runParts]
        exact ih (p.lookup_run_congr h)
      · have hleft : Layout.named (p :: ps) key = Layout.named ps key := by
          simp [Layout.named, hname]
        rw [hleft, runParts]
        exact ih ((Part.lookup_run_of_ne hname t).trans h)

theorem Layout.value?_eq_named (l : Layout) (key : Text) :
    l.value? key = (l.named key).value? key :=
  lookup_runParts_named l key rfl

/-- Parts that say the same one by one say the same together. -/
theorem runParts_congr {ps qs : List Part} (h : ps.map Part.run = qs.map Part.run) :
    runParts ps = runParts qs := by
  induction ps generalizing qs with
  | nil =>
      obtain rfl : qs = [] := by simpa using h
      rfl
  | cons p ps ih =>
      obtain ⟨q, qs', rfl, hq, hqs⟩ := List.map_eq_cons_iff.1 h.symm
      funext t
      rw [runParts, runParts, hq, ih hqs.symm]

end ShellDocs.Toml
