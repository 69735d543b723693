import Mathlib.Data.List.Basic
import ShellDocs.Proofs.Toml.Meaning
import ShellDocs.Toml.Document

/-!
# What a document says

The table of a document grows with each statement. What a statement adds does not depend on which
tables are closed: an entry changes the value at its path, and a header makes its table or adds one
to its list (`Item.run`). The table that is read is that of all statements, one after the other
(`table_of_read`).
-/

namespace ShellDocs.Toml

/-- Both steps of a computation that succeeds succeed. -/
theorem exists_of_bind_eq_ok {ε α β : Type} {x : Except ε α} {f : α → Except ε β} {b : β}
    (h : x >>= f = .ok b) : ∃ a, x = .ok a ∧ f a = .ok b := by
  cases x with
  | error e => contradiction
  | ok a => exact ⟨a, rfl, h⟩

/-! ## Finished outlines -/

theorem finishEntries_append (o o' : Outline) :
    finishEntries (o ++ o') = finishEntries o ++ finishEntries o' := by
  induction o with
  | nil => rfl
  | cons e rest ih => simp [finishEntries, ih]

theorem lookup_finishEntries (o : Outline) (key : Text) :
    (finishEntries o).lookup key = (o.lookup key).map Node.finish := by
  induction o with
  | nil => rfl
  | cons e rest ih =>
      obtain ⟨k, n⟩ := e
      by_cases hk : key = k
      · simp [finishEntries, hk]
      · simp [finishEntries, Association.lookup_cons_of_ne hk, ih]

theorem finishItems_append (items more : List (List (Text × Node))) :
    finishItems (items ++ more) = finishItems items ++ finishItems more := by
  induction items with
  | nil => rfl
  | cons e rest ih => simp [finishItems, ih]

/-- A node that is added under a new key is a new value there. -/
theorem finishEntries_concat {o : Outline} {key : Text} (h : o.lookup key = none) (n : Node)
    {f : Option Value → Value} (hf : f none = n.finish) :
    finishEntries (o ++ [(key, n)]) = Table.alter key f (finishEntries o) := by
  have hnew : (finishEntries o).lookup key = none := by
    rw [lookup_finishEntries, h]
    rfl
  rw [Table.alter_of_lookup_eq_none hnew, hf, finishEntries_append]
  rfl

/-- A node in place of another is another value there. -/
theorem finishEntries_replace {o : Outline} {key : Text} {old : Node}
    (h : o.lookup key = some old) (n : Node) {f : Option Value → Value}
    (hf : f (some old.finish) = n.finish) :
    finishEntries (o.replace key n) = Table.alter key f (finishEntries o) := by
  induction o with
  | nil => contradiction
  | cons e rest ih =>
      obtain ⟨k, m⟩ := e
      by_cases hk : k = key
      · subst hk
        obtain rfl : m = old := by simpa using h
        simp [Outline.replace, finishEntries, Table.alter, hf]
      · rw [Association.lookup_cons_of_ne (Ne.symm hk)] at h
        simp [Outline.replace, finishEntries, Table.alter, hk, ih h]

/-- A list of tables whose last one is changed. -/
theorem finish_tables_concat (items : List (List (Text × Node))) (last : Outline) :
    (Node.tables (items ++ [last])).finish =
      .list (finishItems items ++ [.table (finishEntries last)]) := by
  rw [Node.finish, finishItems_append]
  rfl

namespace Outline

/-- A change at the end of a path is a change of the table there. -/
theorem finishEntries_update {closed : Reason} {change : Outline → Except Reason Outline}
    {f : Table → Table}
    (hchange : ∀ sub sub', change sub = .ok sub' → finishEntries sub' = f (finishEntries sub))
    {path : List Text} {o o' : Outline} (h : update closed change path o = .ok o') :
    finishEntries o' = Table.under f path (finishEntries o) := by
  induction path generalizing o o' with
  | nil => exact hchange o o' h
  | cons key path ih =>
      rw [update] at h
      split at h
      · next hnone =>
          obtain ⟨sub, hsub, hdone⟩ := exists_of_bind_eq_ok h
          obtain rfl := Except.ok.inj hdone
          refine finishEntries_concat hnone _ ?_
          rw [Node.finish, ih hsub]
          rfl
      · next isClosed sub hold =>
          obtain ⟨sub', hsub, hdone⟩ := exists_of_bind_eq_ok h
          obtain rfl := Except.ok.inj hdone
          refine finishEntries_replace hold _ ?_
          rw [Node.finish, Node.finish, ih hsub]
          rfl
      · next items hold =>
          split at h
          · next last hlast =>
              obtain ⟨last', hsub, hdone⟩ := exists_of_bind_eq_ok h
              obtain rfl := Except.ok.inj hdone
              obtain ⟨init, rfl⟩ := List.getLast?_eq_some_iff.1 hlast
              refine finishEntries_replace hold _ ?_
              rw [List.dropLast_concat, finish_tables_concat, finish_tables_concat,
                Table.asTable_list_concat, ih hsub]
          · contradiction
      · contradiction

/-- A change at the last key of a path is a change of the value there. -/
theorem finishEntries_updateLast {closed : Reason}
    {change : Text → Outline → Except Reason Outline} {f : Option Value → Value}
    (hchange : ∀ key sub sub', change key sub = .ok sub' →
      finishEntries sub' = Table.alter key f (finishEntries sub))
    {path : List Text} {o o' : Outline} (h : updateLast closed path change o = .ok o') :
    finishEntries o' = Table.alterAt f path (finishEntries o) := by
  rw [updateLast] at h
  split at h
  · next key hkey =>
      obtain ⟨init, rfl⟩ := List.getLast?_eq_some_iff.1 hkey
      rw [List.dropLast_concat] at h
      rw [finishEntries_update (hchange key) h, Table.alterAt_append f init (by simp)]
      rfl
  · next hnone =>
      obtain rfl := Except.ok.inj h
      rw [List.getLast?_eq_none_iff.1 hnone]
      rfl

theorem finishEntries_insert {path : List Text} {v : Value} {o o' : Outline}
    (h : o.insert path v = .ok o') :
    finishEntries o' = Table.alterAt (fun _ => v) path (finishEntries o) := by
  refine finishEntries_updateLast (fun key sub sub' hsub => ?_) h
  split_ifs at hsub with hthere
  obtain rfl := Except.ok.inj hsub
  exact finishEntries_concat (Option.not_isSome_iff_eq_none.1 hthere) _ rfl

theorem finishEntries_openTable {path : List Text} {o o' : Outline}
    (h : o.openTable path = .ok o') :
    finishEntries o' = Table.alterAt (Table.asTable id) path (finishEntries o) := by
  refine finishEntries_updateLast (fun key sub sub' hsub => ?_) h
  split at hsub
  · next hnone =>
      obtain rfl := Except.ok.inj hsub
      exact finishEntries_concat hnone _ rfl
  · next entries hold =>
      obtain rfl := Except.ok.inj hsub
      exact finishEntries_replace hold _ rfl
  all_goals contradiction

theorem finishEntries_openTables {path : List Text} {o o' : Outline}
    (h : o.openTables path = .ok o') :
    finishEntries o' = Table.alterAt (Table.asList [.table []]) path (finishEntries o) := by
  refine finishEntries_updateLast (fun key sub sub' hsub => ?_) h
  split at hsub
  · next hnone =>
      obtain rfl := Except.ok.inj hsub
      exact finishEntries_concat hnone _ rfl
  · next items hold =>
      obtain rfl := Except.ok.inj hsub
      refine finishEntries_replace hold _ ?_
      rw [Node.finish, Node.finish, finishItems_append]
      rfl
  all_goals contradiction

/-! ## Closing tables -/

/-- Whether a table stands at a path; a list of tables on the way stands for its last one. -/
def HasTable : List Text → Outline → Prop
  | [], _ => True
  | key :: path, o =>
      match o.lookup key with
      | some (.table _ sub) => HasTable path sub
      | some (.tables items) =>
          match items.getLast? with
          | some last => HasTable path last
          | none => False
      | _ => False

theorem lookup_replace {o : Outline} {key : Text} {old : Node} (h : o.lookup key = some old)
    (n : Node) (k : Text) :
    (o.replace key n).lookup k = if k = key then some n else o.lookup k := by
  induction o with
  | nil => contradiction
  | cons e rest ih =>
      obtain ⟨j, m⟩ := e
      by_cases hj : j = key
      · subst hj
        by_cases hk : k = j
        · simp [replace, hk]
        · simp [replace, Association.lookup_cons_of_ne hk, hk]
      · rw [Association.lookup_cons_of_ne (Ne.symm hj)] at h
        by_cases hk : k = j
        · subst hk
          simp [replace, hj]
        · simp [replace, hj, Association.lookup_cons_of_ne hk, ih h]

/-- A path to a table leads through tables. -/
theorem HasTable.of_append {path rest : List Text} {o : Outline}
    (h : HasTable (path ++ rest) o) : HasTable path o := by
  induction path generalizing o with
  | nil => trivial
  | cons key path ih =>
      rw [List.cons_append, HasTable] at h
      rw [HasTable]
      split at h
      · exact ih h
      · split at h
        · exact ih h
        · contradiction
      · contradiction

/-- A node in place of another keeps the tables that it has itself. -/
theorem HasTable.replace {o : Outline} {key : Text} {old n : Node}
    (hold : o.lookup key = some old)
    (hkept : ∀ path, HasTable (key :: path) [(key, old)] → HasTable (key :: path) [(key, n)])
    {path : List Text} (h : HasTable path o) : HasTable path (o.replace key n) := by
  cases path with
  | nil => trivial
  | cons k path =>
      rw [HasTable, lookup_replace hold]
      by_cases hk : k = key
      · subst hk
        have hthere : HasTable (k :: path) [(k, old)] := by
          rw [HasTable, hold] at h
          simpa [HasTable] using h
        simpa [HasTable] using hkept path hthere
      · rw [if_neg hk]
        exact h

/-- A new key keeps the tables that are there. -/
theorem HasTable.concat {o : Outline} {path : List Text} (h : HasTable path o)
    (e : Text × Node) : HasTable path (o ++ [e]) := by
  cases path with
  | nil => trivial
  | cons key path =>
      rw [HasTable] at h ⊢
      rw [List.lookup_append]
      split at h
      · next hold =>
          rw [hold]
          exact h
      · next hold =>
          rw [hold]
          exact h
      · contradiction

/-- A change keeps the tables that are there if it does so where it is made. -/
theorem HasTable.update {closed : Reason} {change : Outline → Except Reason Outline}
    (hchange : ∀ sub sub', change sub = .ok sub' → ∀ q, HasTable q sub → HasTable q sub')
    {path : List Text} {o o' : Outline} (hdone : Outline.update closed change path o = .ok o')
    {q : List Text} (h : HasTable q o) : HasTable q o' := by
  induction path generalizing o o' q with
  | nil => exact hchange o o' hdone q h
  | cons key path ih =>
      rw [Outline.update] at hdone
      split at hdone
      · next hnone =>
          obtain ⟨sub, hsub, hdone⟩ := exists_of_bind_eq_ok hdone
          obtain rfl := Except.ok.inj hdone
          exact h.concat _
      · next isClosed sub hold =>
          obtain ⟨sub', hsub, hdone⟩ := exists_of_bind_eq_ok hdone
          obtain rfl := Except.ok.inj hdone
          refine HasTable.replace hold (fun path hpath => ?_) h
          simp only [HasTable, List.lookup_cons_self] at hpath ⊢
          exact ih hsub hpath
      · next items hold =>
          split at hdone
          · next last hlast =>
              obtain ⟨last', hsub, hdone⟩ := exists_of_bind_eq_ok hdone
              obtain rfl := Except.ok.inj hdone
              refine HasTable.replace hold (fun path hpath => ?_) h
              simp only [HasTable, List.lookup_cons_self, hlast, List.getLast?_concat] at hpath ⊢
              exact ih hsub hpath
          · contradiction
      · contradiction

/-- A change at the end of a path makes the tables along it. -/
theorem hasTable_of_update {closed : Reason} {change : Outline → Except Reason Outline}
    {path : List Text} {o o' : Outline} (h : update closed change path o = .ok o') :
    HasTable path o' := by
  induction path generalizing o o' with
  | nil => trivial
  | cons key path ih =>
      rw [update] at h
      split at h
      · next hnone =>
          obtain ⟨sub, hsub, hdone⟩ := exists_of_bind_eq_ok h
          obtain rfl := Except.ok.inj hdone
          rw [HasTable, List.lookup_append, hnone]
          simpa using ih hsub
      · next isClosed sub hold =>
          obtain ⟨sub', hsub, hdone⟩ := exists_of_bind_eq_ok h
          obtain rfl := Except.ok.inj hdone
          rw [HasTable, lookup_replace hold, if_pos rfl]
          exact ih hsub
      · next items hold =>
          split at h
          · next last hlast =>
              obtain ⟨last', hsub, hdone⟩ := exists_of_bind_eq_ok h
              obtain rfl := Except.ok.inj hdone
              rw [HasTable, lookup_replace hold, if_pos rfl]
              simpa using ih hsub
          · contradiction
      · contradiction

/-- Nothing is made where a table stands already. -/
theorem under_id_of_hasTable {path : List Text} {o : Outline} (h : HasTable path o) :
    Table.under id path (finishEntries o) = finishEntries o := by
  induction path generalizing o with
  | nil => rfl
  | cons key path ih =>
      rw [HasTable] at h
      split at h
      · next isClosed sub hold =>
          refine Table.alter_eq_self (v := .table (finishEntries sub)) ?_ ?_
          · rw [lookup_finishEntries, hold]
            rfl
          · rw [Table.asTable_table, ih h]
      · next items hold =>
          split at h
          · next last hlast =>
              obtain ⟨init, rfl⟩ := List.getLast?_eq_some_iff.1 hlast
              refine Table.alter_eq_self
                (v := .list (finishItems init ++ [.table (finishEntries last)])) ?_ ?_
              · rw [lookup_finishEntries, hold, Option.map_some, finish_tables_concat]
              · rw [Table.asTable_list_concat, ih h]
          · contradiction
      · contradiction

/-- Closing a table changes nothing of what an outline says, and keeps its tables. -/
theorem close_spec {path : List Text} {o : Outline} (h : HasTable path o) :
    finishEntries (close path o) = finishEntries o ∧
      ∀ q, HasTable q o → HasTable q (close path o) := by
  simp only [close]
  split
  · next o' hclosed =>
      rw [updateLast] at hclosed
      split at hclosed
      · next key hkey =>
          obtain ⟨init, rfl⟩ := List.getLast?_eq_some_iff.1 hkey
          rw [List.dropLast_concat] at hclosed
          constructor
          · refine (finishEntries_update (f := id) (fun sub sub' hsub => ?_) hclosed).trans
              (under_id_of_hasTable h.of_append)
            split at hsub
            · next isClosed entries hold =>
                obtain rfl := Except.ok.inj hsub
                rw [finishEntries_replace (f := fun _ => .table (finishEntries entries)) hold _ rfl]
                refine Table.alter_eq_self (v := .table (finishEntries entries)) ?_ rfl
                rw [lookup_finishEntries, hold]
                rfl
            · obtain rfl := Except.ok.inj hsub
              rfl
          · intro q hq
            refine hq.update (fun sub sub' hsub p hp => ?_) hclosed
            split at hsub
            · next isClosed entries hold =>
                obtain rfl := Except.ok.inj hsub
                refine hp.replace hold fun path hpath => ?_
                simpa [HasTable] using hpath
            · obtain rfl := Except.ok.inj hsub
              exact hp
      · obtain rfl := Except.ok.inj hclosed
        exact ⟨rfl, fun _ hq => hq⟩
  · exact ⟨rfl, fun _ hq => hq⟩

/-- Closing tables that are there changes nothing of what an outline says. -/
theorem finishEntries_closeAll {paths : List (List Text)} {o : Outline}
    (h : ∀ path ∈ paths, HasTable path o) :
    finishEntries (paths.foldl (fun o path => close path o) o) = finishEntries o := by
  induction paths generalizing o with
  | nil => rfl
  | cons path paths ih =>
      obtain ⟨hfinish, hkept⟩ := close_spec (h path List.mem_cons_self)
      have hrest : ∀ q ∈ paths, HasTable q (close path o) := fun q hq =>
        hkept q (h q (List.mem_cons_of_mem _ hq))
      rw [List.foldl_cons, ih hrest, hfinish]

/-- An insertion keeps the tables that are there. -/
theorem HasTable.insert {path q : List Text} {v : Value} {o o' : Outline}
    (hdone : o.insert path v = .ok o') (h : HasTable q o) : HasTable q o' := by
  rw [Outline.insert, updateLast] at hdone
  split at hdone
  · refine h.update (fun sub sub' hsub p hp => ?_) hdone
    split_ifs at hsub
    obtain rfl := Except.ok.inj hsub
    exact hp.concat _
  · obtain rfl := Except.ok.inj hdone
    exact h

/-- An insertion makes the tables along its path. -/
theorem hasTable_of_insert {path rest : List Text} (hrest : rest ≠ []) {v : Value}
    {o o' : Outline} (h : o.insert (path ++ rest) v = .ok o') : HasTable path o' := by
  obtain ⟨init, key, rfl⟩ := List.eq_nil_or_concat' rest |>.resolve_left hrest
  rw [Outline.insert, updateLast, ← List.append_assoc, List.getLast?_concat,
    List.dropLast_concat] at h
  exact (hasTable_of_update h).of_append

end Outline

/-! ## Statements -/

/-- What a header does to the table. -/
def Header.change (h : Header) : Option Value → Value :=
  if h.array then Table.asList [.table []] else Table.asTable id

/-- The table and the key of the last header, after a statement. -/
def Item.run (s : Table × List Text) : Item → Table × List Text
  | .blank _ => s
  | .comment _ => s
  | .entry line => (Table.alterAt (fun _ => line.value) (s.2 ++ line.key) s.1, s.2)
  | .header head => (Table.alterAt head.change head.key s.1, head.key)

/-- What the progress says so far. -/
def Progress.said (p : Progress) : Table × List Text := (finishEntries p.outline, p.header)

/-- The tables that are taken for opened by dotted keys are there. -/
def Progress.Sound (p : Progress) : Prop := ∀ path ∈ p.opened, p.outline.HasTable path

/-- One statement adds to the progress what the statement says. -/
theorem Progress.said_step {p p' : Progress} {item : Item} (hsound : p.Sound)
    (h : p.step item = .ok p') : p'.Sound ∧ p'.said = item.run p.said := by
  cases item with
  | blank text =>
      obtain rfl := Except.ok.inj h
      exact ⟨hsound, rfl⟩
  | comment text =>
      obtain rfl := Except.ok.inj h
      exact ⟨hsound, rfl⟩
  | entry line =>
      rw [Progress.step] at h
      split at h
      · contradiction
      · obtain ⟨outline, hinsert, hdone⟩ := exists_of_bind_eq_ok h
        obtain rfl := Except.ok.inj hdone
        constructor
        · intro path hpath
          obtain hold | hnew := List.mem_append.1 hpath
          · exact (hsound path hold).insert hinsert
          · obtain ⟨i, hi, rfl⟩ := List.mem_map.1 hnew
            have hlt : i < line.key.length - 1 := List.mem_range.1 hi
            have hsplit : p.header ++ line.key =
                (p.header ++ line.key.take (i + 1)) ++ line.key.drop (i + 1) := by
              rw [List.append_assoc, List.take_append_drop]
            rw [hsplit] at hinsert
            refine Outline.hasTable_of_insert ?_ hinsert
            rw [Ne, List.drop_eq_nil_iff]
            omega
        · simp only [Progress.said, Item.run, Outline.finishEntries_insert hinsert]
  | header head =>
      rw [Progress.step] at h
      simp only [Progress.said, Item.run, Header.change]
      split_ifs at h ⊢
      · obtain ⟨outline, hopen, hdone⟩ := exists_of_bind_eq_ok h
        obtain rfl := Except.ok.inj hdone
        refine ⟨fun _ hpath => (List.not_mem_nil hpath).elim, ?_⟩
        rw [Outline.finishEntries_openTables hopen, Outline.finishEntries_closeAll hsound]
      · obtain ⟨outline, hopen, hdone⟩ := exists_of_bind_eq_ok h
        obtain rfl := Except.ok.inj hdone
        refine ⟨fun _ hpath => (List.not_mem_nil hpath).elim, ?_⟩
        rw [Outline.finishEntries_openTable hopen, Outline.finishEntries_closeAll hsound]

/-- The progress after several statements is what they say one after the other. -/
theorem said_readItems {r : Reading} {fuel : Nat} {p p' : Progress} {t : Text} {doc : Document}
    (hsound : p.Sound) (h : readItems r fuel p t = .ok (doc, p')) :
    p'.said = doc.foldl Item.run p.said := by
  induction fuel generalizing p t doc with
  | zero =>
      obtain ⟨rfl, rfl⟩ := Prod.mk.inj (Except.ok.inj h)
      rfl
  | succ fuel ih =>
      rw [readItems] at h
      split_ifs at h with hempty
      · obtain ⟨rfl, rfl⟩ := Prod.mk.inj (Except.ok.inj h)
        rfl
      · obtain ⟨⟨item, after⟩, -, hitem⟩ := exists_of_bind_eq_ok h
        simp only at hitem
        split at hitem
        · contradiction
        · next q hstep =>
            obtain ⟨rest, -, hrest⟩ := exists_of_bind_eq_ok hitem
            obtain ⟨⟨items, p''⟩, hitems, hdone⟩ := exists_of_bind_eq_ok hrest
            obtain ⟨rfl, rfl⟩ := Prod.mk.inj (Except.ok.inj hdone)
            obtain ⟨hsound', hsaid⟩ := p.said_step hsound hstep
            rw [ih hsound' hitems, hsaid, List.foldl_cons]

/-! ## Keys of statements -/

/-- Whether the key of a statement has parts. -/
def Item.Keyed : Item → Prop
  | .entry line => line.key ≠ []
  | .header head => head.key ≠ []
  | _ => True

/-- A key that is read has parts. -/
theorem key_ne_nil {r : Reading} {t rest : Text} {parts : List Text}
    (h : key r t = .ok (parts, rest)) : parts ≠ [] := by
  rw [key] at h
  obtain ⟨⟨parts', rest'⟩, hparts, hdone⟩ := exists_of_bind_eq_ok h
  simp only at hdone
  split_ifs at hdone
  obtain ⟨rfl, rfl⟩ := Prod.mk.inj (Except.ok.inj hdone)
  rw [keyParts] at hparts
  obtain ⟨⟨part, after⟩, -, hpart⟩ := exists_of_bind_eq_ok hparts
  simp only at hpart
  split at hpart
  · obtain ⟨⟨more, after'⟩, -, hmore⟩ := exists_of_bind_eq_ok hpart
    obtain ⟨rfl, -⟩ := Prod.mk.inj (Except.ok.inj hmore)
    simp
  · obtain ⟨rfl, -⟩ := Prod.mk.inj (Except.ok.inj hpart)
    simp

theorem keyed_of_readItem {r : Reading} {t : Text} {item : Item} {after : Except Fault Text}
    (h : readItem r t = .ok (item, after)) : item.Keyed := by
  rw [readItem] at h
  split at h
  · obtain ⟨rfl, -⟩ := Prod.mk.inj (Except.ok.inj h)
    trivial
  · obtain ⟨rfl, -⟩ := Prod.mk.inj (Except.ok.inj h)
    trivial
  · obtain ⟨rfl, -⟩ := Prod.mk.inj (Except.ok.inj h)
    trivial
  · rw [readHeader] at h
    obtain ⟨⟨parts, rest⟩, hkey, hdone⟩ := exists_of_bind_eq_ok h
    obtain ⟨rfl, -⟩ := Prod.mk.inj (Except.ok.inj hdone)
    exact key_ne_nil hkey
  · split_ifs at h
    rw [readEntry] at h
    obtain ⟨⟨parts, rest⟩, hkey, hentry⟩ := exists_of_bind_eq_ok h
    obtain ⟨_, -, hvalue⟩ := exists_of_bind_eq_ok hentry
    obtain ⟨⟨_, _⟩, -, hdone⟩ := exists_of_bind_eq_ok hvalue
    obtain ⟨rfl, -⟩ := Prod.mk.inj (Except.ok.inj hdone)
    exact key_ne_nil hkey

theorem keyed_of_readItems {r : Reading} {fuel : Nat} {p p' : Progress} {t : Text}
    {doc : Document} (h : readItems r fuel p t = .ok (doc, p')) : ∀ item ∈ doc, item.Keyed := by
  induction fuel generalizing p t doc with
  | zero =>
      obtain ⟨rfl, -⟩ := Prod.mk.inj (Except.ok.inj h)
      simp
  | succ fuel ih =>
      rw [readItems] at h
      split_ifs at h with hempty
      · obtain ⟨rfl, -⟩ := Prod.mk.inj (Except.ok.inj h)
        simp
      · obtain ⟨⟨item, after⟩, hread, hitem⟩ := exists_of_bind_eq_ok h
        simp only at hitem
        split at hitem
        · contradiction
        · obtain ⟨rest, -, hrest⟩ := exists_of_bind_eq_ok hitem
          obtain ⟨⟨items, _⟩, hitems, hdone⟩ := exists_of_bind_eq_ok hrest
          obtain ⟨rfl, rfl⟩ := Prod.mk.inj (Except.ok.inj hdone)
          exact List.forall_mem_cons.2 ⟨keyed_of_readItem hread, ih hitems⟩

/-- The table that is read is what the statements say one after the other. -/
theorem table_of_read {r : Reading} {t : Text} {doc : Document} {table : Table}
    (h : read r t = .ok (doc, table)) :
    table = (doc.foldl Item.run ([], [])).1 ∧ ∀ item ∈ doc, item.Keyed := by
  rw [read] at h
  obtain ⟨⟨items, p⟩, hitems, hdone⟩ := exists_of_bind_eq_ok h
  obtain ⟨rfl, rfl⟩ := Prod.mk.inj (Except.ok.inj hdone)
  have hsaid := said_readItems (fun _ hpath => (List.not_mem_nil hpath).elim) hitems
  exact ⟨congrArg Prod.fst hsaid, keyed_of_readItems hitems⟩

end ShellDocs.Toml
