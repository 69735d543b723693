import Mathlib.Data.List.Basic
import ShellDocs.Proofs.Toml.Meaning
import ShellDocs.Proofs.Toml.Outline

/-!
# The layout of a document says what the document says

A layout puts tables where they belong, wherever the text has them: below other tables, and
together if they are tables of one list. Adding a part to a layout still says what the layout and
then the part say (`runParts_add`), and so the layout that is built from a document describes the
table that the document describes (`table_ofDocument`).
-/

namespace ShellDocs.Toml

/-! ## Adding a part -/

/-- No later number has a property that the search from above has found for one. -/
theorem eq_false_of_find?_reverse_range {f : Nat → Bool} {n i : Nat}
    (h : (List.range n).reverse.find? f = some i) :
    i < n ∧ f i = true ∧ ∀ j, i < j → j < n → f j = false := by
  obtain ⟨hi, above, below, hrange, habove⟩ := List.find?_eq_some_iff_append.1 h
  have hmem : i ∈ (List.range n).reverse := hrange ▸ by simp
  refine ⟨by simpa using hmem, hi, fun j hij hjn => ?_⟩
  have hj : j ∈ above ++ i :: below := hrange ▸ by simpa using hjn
  have hsorted : (above ++ i :: below).Pairwise (· > ·) :=
    hrange ▸ List.pairwise_reverse.2 List.pairwise_lt_range
  obtain hj | hj := List.mem_append.1 hj
  · simpa using habove j hj
  · obtain rfl | hj := List.mem_cons.1 hj
    · omega
    · have hlt := (List.pairwise_cons.1 (List.pairwise_append.1 hsorted).2.1).1 j hj
      omega

/-- The part of a key that comes last, with the parts around it. -/
theorem exists_of_lastIndex? {l : Layout} {name : Text} {i : Nat}
    (h : l.lastIndex? name = some i) :
    ∃ before p after, l = before ++ p :: after ∧ before.length = i ∧ p.name? = some name ∧
      ∀ q ∈ after, q.name? ≠ some name := by
  obtain ⟨hlt, hname, hlater⟩ := eq_false_of_find?_reverse_range h
  refine ⟨l.take i, l[i], l.drop (i + 1), by simp, List.length_take_of_le (Nat.le_of_lt hlt), ?_,
    fun q hq => ?_⟩
  · simpa [hlt] using hname
  · obtain ⟨j, hj, rfl⟩ := List.getElem_of_mem hq
    have hbound : i + 1 + j < l.length := by
      simp only [List.length_drop] at hj
      omega
    have hfalse := hlater (i + 1 + j) (by omega) hbound
    rw [List.getElem_drop]
    simpa [hbound] using hfalse

/-- A change under a key that is there may be made before or after what other keys say. -/
theorem runParts_alter {key : Text} (f : Option Value → Value) {ps : List Part}
    (hps : ∀ q ∈ ps, q.name? ≠ some key) {t : Table} (ht : t.lookup key ≠ none) :
    runParts ps (Table.alter key f t) = Table.alter key f (runParts ps t) := by
  induction ps generalizing t with
  | nil => rfl
  | cons p ps ih =>
      obtain ⟨hp, hrest⟩ := List.forall_mem_cons.1 hps
      have hstep : p.run (Table.alter key f t) = Table.alter key f (p.run t) := by
        cases hname : p.name? with
        | none => rw [Part.run_of_name?_eq_none hname, Part.run_of_name?_eq_none hname]
        | some k =>
            obtain ⟨g, hg⟩ := Part.exists_alter hname
            have hne : key ≠ k := fun heq => hp (heq ▸ hname)
            rw [hg, Table.alter_comm hne g f ht]
      have ht' : (p.run t).lookup key ≠ none := by rwa [Part.lookup_run_of_ne hp]
      rw [runParts, runParts, hstep, ih hrest ht']

/-- A part that is exchanged for one that says more says it for the whole layout, if no later part
belongs to its key. -/
theorem runParts_set {before after : Layout} {old new more : Part} {key : Text}
    (hold : old.name? = some key) (hmore : more.name? = some key)
    (hafter : ∀ q ∈ after, q.name? ≠ some key) (hnew : ∀ t, new.run t = more.run (old.run t))
    (t : Table) :
    runParts ((before ++ old :: after).set before.length new) t =
      more.run (runParts (before ++ old :: after) t) := by
  obtain ⟨f, hf⟩ := Part.exists_alter hmore
  obtain ⟨g, hg⟩ := Part.exists_alter hold
  have hthere : (old.run (runParts before t)).lookup key ≠ none := by
    rw [hg, Table.lookup_alter, if_pos rfl]
    simp
  rw [List.set_append_right _ _ (Nat.le_refl _), Nat.sub_self, List.set_cons_zero,
    runParts_append, runParts_append, runParts, runParts, hnew, hf,
    runParts_alter f hafter hthere]

theorem runParts_concat (l : Layout) (p : Part) (t : Table) :
    runParts (l ++ [p]) t = p.run (runParts l t) := by
  rw [runParts_append]
  rfl

theorem itemTables_append (items more : List (Head × List Part)) :
    itemTables (items ++ more) = itemTables items ++ itemTables more := by
  induction items with
  | nil => rfl
  | cons e rest ih =>
      obtain ⟨head, parts⟩ := e
      simp [itemTables, ih]

theorem run_indented (step : Text) (p : Part) : (p.indented step).run = p.run := by
  cases p with
  | table label head parts =>
      funext t
      rw [Part.indented, Part.run, Part.run]
  | _ => rfl

theorem runParts_changeOnly (l : Layout) (name? : Option Text) (step : Text) :
    runParts (l.changeOnly name? (Part.indented step)) = runParts l := by
  rw [Layout.changeOnly]
  split_ifs
  · refine runParts_congr ?_
    rw [List.map_map]
    refine List.map_congr_left fun p _ => ?_
    rw [Function.comp_apply]
    split_ifs
    · exact run_indented step p
    · rfl
  · rfl

mutual

/-- A layout with a part added says what the layout says and then what the part says. -/
theorem runParts_add (l : Layout) (t : Table) :
    ∀ p : Part, runParts (l.add p) t = p.run (runParts l t)
  | .table label head parts => by
      rw [Layout.add]
      split
      · exact runParts_concat l _ t
      · next i hi =>
          obtain ⟨before, old, after, rfl, rfl, hname, hafter⟩ := exists_of_lastIndex? hi
          simp only [List.getElem?_append_right (Nat.le_refl _), Nat.sub_self,
            List.getElem?_cons_zero]
          split
          · next label' items hold =>
              obtain rfl := Option.some.inj hold
              split
              · next first own hlast =>
                  obtain ⟨init, rfl⟩ := List.getLast?_eq_some_iff.1 hlast
                  refine runParts_set hname rfl hafter (fun t => ?_) t
                  have hsame : label'.name = label.name := Option.some.inj hname
                  rw [Part.run, Part.run, Part.run, hsame, Table.alter_alter, List.dropLast_concat]
                  congr 1
                  funext value
                  simp only [itemTables_append, itemTables, Table.asTable_asList,
                    runParts_addBelow first.step own [] parts]
              · exact runParts_concat _ _ t
          · next label' first own hold =>
              obtain rfl := Option.some.inj hold
              split_ifs
              · refine runParts_set hname rfl hafter (fun t => ?_) t
                have hsame : label'.name = label.name := Option.some.inj hname
                rw [Part.run, Part.run, Part.run, hsame, Table.alter_alter]
                congr 1
                funext value
                rw [Table.asTable_asTable]
                congr 1
                funext t
                rw [runParts_addBelow first.step own t parts]
              · exact runParts_concat _ _ t
          · exact runParts_concat _ _ t
  | .tables label items => by
      rw [Layout.add]
      split
      · exact runParts_concat l _ t
      · next i hi =>
          obtain ⟨before, old, after, rfl, rfl, hname, hafter⟩ := exists_of_lastIndex? hi
          simp only [List.getElem?_append_right (Nat.le_refl _), Nat.sub_self,
            List.getElem?_cons_zero]
          split
          · next label' own hold =>
              obtain rfl := Option.some.inj hold
              refine runParts_set hname rfl hafter (fun t => ?_) t
              have hsame : label'.name = label.name := Option.some.inj hname
              rw [Part.run, Part.run, Part.run, hsame, Table.alter_alter, itemTables_append]
              congr 1
              funext value
              rw [Table.asList_asList]
          · exact runParts_concat _ _ t
  | .space text => runParts_concat l _ t
  | .comment text => runParts_concat l _ t
  | .removed => runParts_concat l _ t
  | .entry line => runParts_concat l _ t

/-- The parts of a table with others added say what the parts and then the others say. -/
theorem runParts_addBelow (step : Text) (l : Layout) (t : Table) :
    ∀ ps : List Part, runParts (Layout.addBelow step l ps) t = runParts ps (runParts l t)
  | [] => by rw [Layout.addBelow, runParts]
  | p :: ps => by
      rw [Layout.addBelow, runParts_addBelow step _ t ps, runParts_changeOnly,
        runParts_add l t p, runParts]

end

/-! ## Passages -/

theorem map_name_labels (title : Text) (key : List Text) :
    (labels title key).map Label.name = key := by
  induction key generalizing title with
  | nil => rfl
  | cons name names ih =>
      rw [labels]
      split
      · rw [List.map_cons, ih]
      · rw [List.map_cons, ih]

/-- A part inside tables without headers of their own changes the value at the end of a path. -/
theorem exists_nested {inner : Label → Part} {change : Option Value → Value}
    (hinner : ∀ label t, (inner label).run t = Table.alter label.name change t) (head : Head)
    (lead : Text) {path : List Label} (hpath : path ≠ []) :
    ∃ part, nested lead head inner path = some part ∧
      ∀ t, part.run t = Table.alterAt change (path.map Label.name) t := by
  induction path generalizing lead with
  | nil => contradiction
  | cons label path ih =>
      cases path with
      | nil => exact ⟨inner label, rfl, hinner label⟩
      | cons next path =>
          obtain ⟨part, hpart, hrun⟩ := ih head.lead (by simp)
          refine ⟨.table label { head with lead := lead, title := none, implied := true } [part],
            ?_, fun t => ?_⟩
          · rw [nested, hpart]
            · rfl
            · simp
          · have hparts : (fun t => runParts [part] t) =
                Table.alterAt change ((next :: path).map Label.name) :=
              funext fun t => hrun t
            rw [Part.run, hparts]
            rfl

namespace Passage

/-- What a passage does to the value at its key. -/
def change (p : Passage) : Option Value → Value :=
  if p.header.array then Table.asList [.table (runParts p.parts [])]
  else Table.asTable (runParts p.parts)

/-- What a passage says in the table at a path above its key. -/
def run (path : List Text) (t : Table) (p : Passage) : Table :=
  Table.alterAt p.change (p.header.key.drop path.length) t

end Passage

/-- A change of the table that a header has opened. -/
theorem asTable_header (f : Table → Table) (h : Header) (old : Option Value) :
    Table.asTable f (some (h.change old)) =
      (if h.array then Table.asList [.table (f [])] else Table.asTable f) old := by
  rw [Header.change]
  split_ifs
  · exact Table.asTable_asList f [] [] old
  · exact Table.asTable_asTable id f old

theorem runParts_spaceBefore (text : Text) (parts : List Part) :
    runParts (spaceBefore text parts) = runParts parts := by
  unfold spaceBefore
  split <;> rfl

/-- What a document says is what its passages say one after the other. -/
theorem run_passages {doc : Document} (hdoc : ∀ item ∈ doc, item.Keyed) {t : Table}
    {path : List Text} (hpath : Table.under id path t = t) :
    (doc.foldl Item.run (t, path)).1 =
      (passages doc).2.foldl (Passage.run []) (Table.under (runParts (passages doc).1) path t) := by
  induction doc generalizing t path with
  | nil => exact hpath.symm
  | cons item rest ih =>
      obtain ⟨hitem, hrest⟩ := List.forall_mem_cons.1 hdoc
      rw [List.foldl_cons]
      cases item with
      | blank text =>
          rw [Item.run, ih hrest hpath, ← runParts_spaceBefore text]
          rfl
      | comment text =>
          rw [Item.run, ih hrest hpath]
          rfl
      | entry line =>
          have hkept : Table.under id path
              (Table.alterAt (fun _ => line.value) (path ++ line.key) t) =
              Table.alterAt (fun _ => line.value) (path ++ line.key) t := by
            rw [Table.alterAt_append _ _ hitem, Table.under_under]
            rfl
          rw [Item.run, ih hrest hkept, Table.alterAt_append _ _ hitem, Table.under_under]
          rfl
      | header head =>
          have hopened (f : Table → Table) :
              Table.under f head.key (Table.alterAt head.change head.key t) =
                Table.alterAt (if head.array then Table.asList [.table (f [])]
                  else Table.asTable f) head.key t := by
            rw [Table.under_eq_alterAt f hitem, Table.alterAt_alterAt]
            simp only [asTable_header]
          have hkept : Table.under id head.key (Table.alterAt head.change head.key t) =
              Table.alterAt head.change head.key t := hopened id
          rw [Item.run, ih hrest hkept, hopened]
          have hstart : Table.under (runParts []) path t = t := hpath
          simp only [passages, List.foldl_cons, hstart]
          rfl

theorem keyed_passages {doc : Document} (hdoc : ∀ item ∈ doc, item.Keyed) :
    ∀ p ∈ (passages doc).2, p.header.key ≠ [] := by
  induction doc with
  | nil => simp [passages]
  | cons item rest ih =>
      obtain ⟨hitem, hrest⟩ := List.forall_mem_cons.1 hdoc
      cases item with
      | header head => exact List.forall_mem_cons.2 ⟨hitem, ih hrest⟩
      | _ => exact ih hrest

/-! ## Growing a layout -/

/-- A key below a path goes on from there. -/
theorem exists_of_isBelow {path key : List Text} (h : isBelow path key = true) :
    ∃ rest, rest ≠ [] ∧ key = path ++ rest := by
  rw [isBelow, Bool.and_eq_true, List.isPrefixOf_iff_prefix, decide_eq_true_iff] at h
  obtain ⟨⟨rest, rfl⟩, hlt⟩ := h
  refine ⟨rest, ?_, rfl⟩
  rintro rfl
  simp at hlt

/-- A passage below a key, seen from above the key, changes the table at the key. -/
theorem Passage.run_append {path below : List Text} (hbelow : below ≠ []) {p : Passage}
    (h : isBelow (path ++ below) p.header.key = true) (t : Table) :
    p.run path t = Table.alterAt (Table.asTable fun t => p.run (path ++ below) t) below t := by
  obtain ⟨rest, hrest, hkey⟩ := exists_of_isBelow h
  have hshort : p.header.key.drop (path ++ below).length = rest := by rw [hkey, List.drop_left]
  have hlong : p.header.key.drop path.length = below ++ rest := by
    rw [hkey, List.append_assoc, List.drop_left]
  rw [Passage.run, hlong, Table.alterAt_append _ _ hrest, Table.under_eq_alterAt _ hbelow]
  simp only [Passage.run, hshort]

/-- Passages below a key that follow a change of the table there change that table further. -/
theorem foldl_run_asTable {path below : List Text} (hbelow : below ≠ []) {ps : List Passage}
    (hps : ∀ p ∈ ps, isBelow (path ++ below) p.header.key = true) (f : Table → Table) (t : Table) :
    ps.foldl (Passage.run path) (Table.alterAt (Table.asTable f) below t) =
      Table.alterAt (Table.asTable fun t => ps.foldl (Passage.run (path ++ below)) (f t))
        below t := by
  induction ps generalizing f with
  | nil => rfl
  | cons p ps ih =>
      obtain ⟨hp, hrest⟩ := List.forall_mem_cons.1 hps
      rw [List.foldl_cons, Passage.run_append hbelow hp, Table.alterAt_alterAt]
      simp only [Table.asTable_asTable]
      rw [ih hrest]
      rfl

/-- Passages below a key that follow another table of a list there change that table. -/
theorem foldl_run_asList {path below : List Text} (hbelow : below ≠ []) {ps : List Passage}
    (hps : ∀ p ∈ ps, isBelow (path ++ below) p.header.key = true) (items : List Value)
    (own t : Table) :
    ps.foldl (Passage.run path) (Table.alterAt (Table.asList (items ++ [.table own])) below t) =
      Table.alterAt
        (Table.asList (items ++ [.table (ps.foldl (Passage.run (path ++ below)) own)]))
        below t := by
  induction ps generalizing own with
  | nil => rfl
  | cons p ps ih =>
      obtain ⟨hp, hrest⟩ := List.forall_mem_cons.1 hps
      rw [List.foldl_cons, Passage.run_append hbelow hp, Table.alterAt_alterAt]
      simp only [Table.asTable_asList]
      rw [ih hrest]
      rfl

theorem isPrefix_of_isBelow {path key : List Text} (h : isBelow path key = true) :
    path <+: key := by
  obtain ⟨rest, -, rfl⟩ := exists_of_isBelow h
  exact List.prefix_append path rest

theorem isBelow_of_isPrefix {path below key : List Text} (hbelow : below ≠ [])
    (h : path ++ below <+: key) : isBelow path key = true := by
  obtain ⟨rest, rfl⟩ := h
  have hlength : 0 < below.length := List.length_pos_iff.2 hbelow
  rw [isBelow, List.append_assoc, Bool.and_eq_true, List.isPrefixOf_iff_prefix, decide_eq_true_iff]
  refine ⟨List.prefix_append _ _, ?_⟩
  simp only [List.length_append]
  omega

/-- What growing a layout does: it takes the passages below a path, as many as there are, and the
layout then says what they say. -/
structure Grown (path : List Text) (l : Layout) (ps : List Passage) (l' : Layout)
    (rest : List Passage) : Prop where
  exists_used : ∃ used, ps = used ++ rest ∧ (∀ p ∈ used, isBelow path p.header.key = true) ∧
    ∀ t, runParts l' t = used.foldl (Passage.run path) (runParts l t)
  stops : ∀ p more, rest = p :: more → isBelow path p.header.key = false

/-- What taking further tables of a list does: it takes passages, and the tables are what these
add to the list. -/
def Repeated (key : List Text) (ps : List Passage) (more : List (Head × List Part))
    (rest : List Passage) : Prop :=
  ∃ used, ps = used ++ rest ∧ (∀ p ∈ used, key <+: p.header.key) ∧
    ∀ path below, below ≠ [] → key = path ++ below → ∀ items t,
      used.foldl (Passage.run path) (Table.alterAt (Table.asList items) below t) =
        Table.alterAt (Table.asList (items ++ itemTables more)) below t

theorem Repeated.nil (key : List Text) (ps : List Passage) : Repeated key ps [] ps :=
  ⟨[], rfl, by simp, fun _ _ _ _ _ _ => by simp [itemTables]⟩

/-- A table of a list with the passages below it, and the tables that follow, are what their
passages add to the list. -/
theorem exists_used_of_repeated {p : Passage} (harray : p.header.array = true)
    {ps rest rest' : List Passage} {own : Layout} {more : List (Head × List Part)}
    (hown : Grown p.header.key p.parts ps own rest)
    (hmore : Repeated p.header.key rest more rest') :
    ∃ used, ps = used ++ rest' ∧ (∀ q ∈ used, p.header.key <+: q.header.key) ∧
      ∀ path below, below ≠ [] → p.header.key = path ++ below → ∀ items t,
        used.foldl (Passage.run path) (p.run path (Table.alterAt (Table.asList items) below t)) =
          Table.alterAt
            (Table.asList (items ++ .table (runParts own []) :: itemTables more)) below t := by
  obtain ⟨used, rfl, hused, hrun⟩ := hown.exists_used
  obtain ⟨used', rfl, hused', hlist⟩ := hmore
  refine ⟨used ++ used', (List.append_assoc _ _ _).symm, ?_, ?_⟩
  · intro q hq
    obtain hq | hq := List.mem_append.1 hq
    · exact isPrefix_of_isBelow (hused q hq)
    · exact hused' q hq
  · intro path below hbelow hkey items t
    have hdrop : p.header.key.drop path.length = below := by rw [hkey, List.drop_left]
    have hadded : p.run path (Table.alterAt (Table.asList items) below t) =
        Table.alterAt (Table.asList (items ++ [.table (runParts p.parts [])])) below t := by
      rw [Passage.run, Passage.change, harray, hdrop, if_pos rfl, Table.alterAt_alterAt]
      simp only [Table.asList_asList]
    rw [hkey] at hused hrun
    rw [hadded, List.foldl_append, foldl_run_asList hbelow hused, ← hrun,
      hlist path below hbelow hkey, List.append_assoc]
    rfl

/-- A table with the passages below it, and the further tables of its list, say what the passages
say one after the other. -/
theorem exists_used_of_grown {path below : List Text} (hbelow : below ≠ []) {p : Passage}
    (hkey : p.header.key = path ++ below) {ps rest rest' : List Passage} {own : Layout}
    {more : List (Head × List Part)} (hown : Grown p.header.key p.parts ps own rest)
    (hmore : Repeated p.header.key rest more rest')
    (hsingle : p.header.array = false → more = [] ∧ rest' = rest) :
    ∃ used, ps = used ++ rest' ∧ (∀ q ∈ used, isBelow path q.header.key = true) ∧
      ∀ t, used.foldl (Passage.run path) (p.run path t) =
        Table.alterAt (if p.header.array then
            Table.asList (.table (runParts own []) :: itemTables more)
          else Table.asTable (runParts own)) below t := by
  have hdrop : p.header.key.drop path.length = below := by rw [hkey, List.drop_left]
  cases harray : p.header.array with
  | false =>
      obtain ⟨rfl, rfl⟩ := hsingle harray
      obtain ⟨used, hps, hused, hrun⟩ := hown.exists_used
      refine ⟨used, hps, fun q hq => ?_, fun t => ?_⟩
      · exact isBelow_of_isPrefix hbelow (hkey ▸ isPrefix_of_isBelow (hused q hq))
      · rw [hkey] at hused hrun
        have hown : runParts own =
            fun t => used.foldl (Passage.run (path ++ below)) (runParts p.parts t) := funext hrun
        simp only [Passage.run, Passage.change, harray, hdrop, Bool.false_eq_true, if_false]
        rw [foldl_run_asTable hbelow hused, hown]
  | true =>
      obtain ⟨used, hps, hused, hlist⟩ := exists_used_of_repeated harray hown hmore
      refine ⟨used, hps, fun q hq => isBelow_of_isPrefix hbelow (hkey ▸ hused q hq), fun t => ?_⟩
      -- A list that is made longer may as well be made first.
      have hstart : p.run path t = p.run path (Table.alterAt (Table.asList []) below t) := by
        rw [Passage.run, Passage.run, Passage.change, harray, hdrop, if_pos rfl,
          Table.alterAt_alterAt]
        simp only [Table.asList_asList, List.nil_append]
      rw [hstart, hlist path below hbelow hkey, if_pos rfl, List.nil_append]

theorem Grown.length_le {path : List Text} {l l' : Layout} {ps rest : List Passage}
    (h : Grown path l ps l' rest) : rest.length ≤ ps.length := by
  obtain ⟨used, rfl, -⟩ := h.exists_used
  simp

theorem Repeated.length_le {key : List Text} {ps rest : List Passage}
    {more : List (Head × List Part)} (h : Repeated key ps more rest) :
    rest.length ≤ ps.length := by
  obtain ⟨used, rfl, -⟩ := h
  simp

/-- The part for a table, inside the tables along a path, says what the table and the further
tables of its list say. -/
theorem exists_part (p : Passage) {below : List Label} (hbelow : below ≠ []) (own : Layout)
    (more : List (Head × List Part)) :
    ∃ part, nested [] p.head (fun label =>
        if p.header.array then .tables label ((p.head, own) :: more)
        else .table label p.head own) below = some part ∧
      ∀ t, part.run t = Table.alterAt (if p.header.array then
          Table.asList (.table (runParts own []) :: itemTables more)
        else Table.asTable (runParts own)) (below.map Label.name) t := by
  refine exists_nested (fun label t => ?_) p.head [] hbelow
  split_ifs
  · rw [Part.run, itemTables]
  · rw [Part.run]

/-- Growth by one table, with all that belongs to it, and then by the passages that are left. -/
theorem Grown.cons {path below : List Text} (hbelow : below ≠ []) {p : Passage}
    (hkey : p.header.key = path ++ below) {ps rest rest' rest'' : List Passage}
    {l own l' : Layout} {more : List (Head × List Part)} {part : Part}
    (hown : Grown p.header.key p.parts ps own rest)
    (hmore : Repeated p.header.key rest more rest')
    (hsingle : p.header.array = false → more = [] ∧ rest' = rest)
    (hpart : ∀ t, part.run t = Table.alterAt (if p.header.array then
        Table.asList (.table (runParts own []) :: itemTables more)
      else Table.asTable (runParts own)) below t)
    (hlast : Grown path (l.add part) rest' l' rest'') : Grown path l (p :: ps) l' rest'' := by
  obtain ⟨used, rfl, hused, hrun⟩ := exists_used_of_grown hbelow hkey hown hmore hsingle
  obtain ⟨used', rfl, hused', hrun'⟩ := hlast.exists_used
  have hp : isBelow path p.header.key = true :=
    isBelow_of_isPrefix hbelow (hkey ▸ List.prefix_rfl)
  refine ⟨⟨p :: used ++ used', by simp, ?_, fun t => ?_⟩, hlast.stops⟩
  · intro q hq
    rw [List.cons_append, List.mem_cons, List.mem_append] at hq
    obtain rfl | hq | hq := hq
    · exact hp
    · exact hused q hq
    · exact hused' q hq
  · rw [hrun', runParts_add, hpart, ← hrun, List.cons_append, List.foldl_cons, List.foldl_append]

section

variable {fuel : Nat}
  (hgrow : ∀ path l ps, ps.length < fuel →
    Grown path l ps (grow fuel path l ps).1 (grow fuel path l ps).2)
  (hrepeated : ∀ key ps, ps.length < fuel →
    Repeated key ps (repeated fuel key ps).1 (repeated fuel key ps).2)

include hgrow hrepeated

/-- One passage below a path, with all that it takes, is taken before the others. -/
theorem grown_succ (path : List Text) (l : Layout) {ps : List Passage}
    (hfuel : ps.length < fuel + 1) :
    Grown path l ps (grow (fuel + 1) path l ps).1 (grow (fuel + 1) path l ps).2 := by
  cases ps with
  | nil => exact ⟨⟨[], rfl, by simp, fun _ => rfl⟩, fun p rest h => by simp [grow] at h⟩
  | cons p ps =>
      have hps : ps.length < fuel := by simpa using hfuel
      rw [grow]
      by_cases hb : isBelow path p.header.key = true
      · simp only [hb, Bool.not_true, Bool.false_eq_true, if_false]
        obtain ⟨below, hbelow, hkey⟩ := exists_of_isBelow hb
        have hown := hgrow p.header.key p.parts ps hps
        generalize grow fuel p.header.key p.parts ps = grown at hown
        obtain ⟨own, rest⟩ := grown
        have hrest : rest.length < fuel := Nat.lt_of_le_of_lt hown.length_le hps
        have hnames : ((labels p.header.title p.header.key).drop path.length).map
            Label.name = below := by
          rw [List.map_drop, map_name_labels, hkey, List.drop_left]
        generalize (labels p.header.title p.header.key).drop path.length = labels at hnames
        have hlabels : labels ≠ [] := by
          rintro rfl
          exact hbelow hnames.symm
        generalize hrepeats : (if p.header.array && labels.length == 1 then
          repeated fuel p.header.key rest else ([], rest)) = repeats
        obtain ⟨more, rest'⟩ := repeats
        have hmore : Repeated p.header.key rest more rest' := by
          split_ifs at hrepeats
          · have hlist := hrepeated p.header.key rest hrest
            rwa [hrepeats] at hlist
          · obtain ⟨rfl, rfl⟩ := Prod.mk.inj hrepeats
            exact Repeated.nil _ _
        have hsingle : p.header.array = false → more = [] ∧ rest' = rest := by
          intro hfalse
          rw [hfalse, Bool.false_and, if_neg Bool.false_ne_true] at hrepeats
          exact ⟨(Prod.mk.inj hrepeats).1.symm, (Prod.mk.inj hrepeats).2.symm⟩
        obtain ⟨part, hnested, hpart⟩ := exists_part p hlabels own more
        simp only [hnested, Option.elim_some]
        exact .cons hbelow hkey hown hmore hsingle (hnames ▸ hpart)
          (hgrow path _ rest' (Nat.lt_of_le_of_lt hmore.length_le hrest))
      · simp only [hb, Bool.not_false, if_true]
        exact ⟨⟨[], rfl, by simp, fun _ => rfl⟩, by rintro _ _ ⟨⟩; simpa using hb⟩

/-- One table of a list, with all that it takes, is taken before the others. -/
theorem repeated_succ (key : List Text) {ps : List Passage} (hfuel : ps.length < fuel + 1) :
    Repeated key ps (repeated (fuel + 1) key ps).1 (repeated (fuel + 1) key ps).2 := by
  cases ps with
  | nil => exact Repeated.nil key []
  | cons p ps =>
      have hps : ps.length < fuel := by simpa using hfuel
      rw [repeated]
      by_cases hp : (p.header.array && p.header.key == key) = true
      · rw [if_pos hp]
        obtain ⟨harray, hkey⟩ := Bool.and_eq_true_iff.1 hp
        obtain rfl := beq_iff_eq.1 hkey
        have hown := hgrow p.header.key p.parts ps hps
        have hmore := hrepeated p.header.key _ (Nat.lt_of_le_of_lt hown.length_le hps)
        obtain ⟨used, hsplit, hused, hlist⟩ := exists_used_of_repeated harray hown hmore
        exact ⟨p :: used, congrArg (p :: ·) hsplit,
          List.forall_mem_cons.2 ⟨List.prefix_rfl, hused⟩, hlist⟩
      · rw [if_neg hp]
        exact Repeated.nil key (p :: ps)

end

/-- With enough fuel, growing a layout takes all passages below the path, and taking further tables
of a list takes passages of that list. -/
theorem grown_and_repeated (fuel : Nat) :
    (∀ path l ps, ps.length < fuel →
      Grown path l ps (grow fuel path l ps).1 (grow fuel path l ps).2) ∧
      ∀ key ps, ps.length < fuel →
        Repeated key ps (repeated fuel key ps).1 (repeated fuel key ps).2 := by
  induction fuel with
  | zero =>
      exact ⟨fun _ _ _ h => absurd h (Nat.not_lt_zero _),
        fun _ _ h => absurd h (Nat.not_lt_zero _)⟩
  | succ fuel ih =>
      obtain ⟨hgrow, hrepeated⟩ := ih
      exact ⟨fun path l _ hfuel => grown_succ hgrow hrepeated path l hfuel,
        fun key _ hfuel => repeated_succ hgrow hrepeated key hfuel⟩

/-- The layout of a document describes the table that the document describes. -/
theorem table_ofDocument {r : Reading} {t : Text} {doc : Document} {table : Table}
    (h : read r t = .ok (doc, table)) : (Layout.ofDocument doc).table = table := by
  obtain ⟨htable, hkeyed⟩ := table_of_read h
  have hgrown := (grown_and_repeated ((passages doc).2.length + 1)).1 [] (passages doc).1
    (passages doc).2 (Nat.lt_succ_self _)
  obtain ⟨used, hused, -, hrun⟩ := hgrown.exists_used
  have hall : used = (passages doc).2 := by
    cases hrest : (grow ((passages doc).2.length + 1) [] (passages doc).1 (passages doc).2).2 with
    | nil => rw [hused, hrest, List.append_nil]
    | cons p rest =>
        have hkey : p.header.key ≠ [] := by
          refine keyed_passages hkeyed p ?_
          rw [hused, hrest]
          simp
        have hbelow : isBelow [] p.header.key = true :=
          isBelow_of_isPrefix hkey (List.prefix_refl p.header.key)
        rw [hgrown.stops p rest hrest] at hbelow
        contradiction
  rw [htable, run_passages hkeyed rfl, ← hall]
  exact hrun []

end ShellDocs.Toml
