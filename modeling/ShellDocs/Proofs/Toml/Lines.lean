import Mathlib.Data.List.TakeWhile
import ShellDocs.Proofs.Text.Lines
import ShellDocs.Proofs.Toml.Outline
import ShellDocs.Proofs.Toml.Setting
import ShellDocs.Proofs.Toml.Written

/-!
# Plain lines

A layout is read back if its text describes a table that holds what the layout says
(`Layout.ReadsBack`). This holds of every layout of plain lines, which are comments and plain
entries as they are written, if the keys differ (`Layout.Plain.readsBack`). A key that is set to a
plain value leaves such a layout plain (`Layout.Plain.set?`).
-/

namespace ShellDocs.Toml

/-- The line of an entry that has a written form. -/
def entryText (e : Text × Value) : Text :=
  writtenKey e.1 ++ " = " ++ e.2.written?.getD [] ++ ['\n']

/-- The part that an entry becomes. -/
def entryPart (e : Text × Value) : Part := newEntry (Label.of e.1) e.2 (e.2.written?.getD [])

/-! ## Reading a line -/

/-- A key is written as it is if it has letters, digits, dashes and underscores only, and as a text
if not. -/
theorem writtenKey_cases (name : Text) :
    (∃ c cs, name = c :: cs ∧ (∀ d ∈ c :: cs, isBareKeyChar d = true) ∧
      writtenKey name = c :: cs) ∨ writtenKey name = writtenText name := by
  rw [writtenKey]
  split_ifs with hbare
  · obtain ⟨hne, hall⟩ : name ≠ [] ∧ ∀ c ∈ name, isBareKeyChar c = true := by
      simpa using hbare
    obtain ⟨c, cs, rfl⟩ := List.exists_cons_of_ne_nil hne
    exact .inl ⟨c, cs, rfl, hall, rfl⟩
  · exact .inr rfl

/-- A key is read back from its written form. -/
theorem key_written (name rest : Text) :
    key .exact (writtenKey name ++ ' ' :: '=' :: rest) = .ok ([name], '=' :: rest) := by
  have hpart : keyPart .exact (writtenKey name ++ ' ' :: '=' :: rest) =
      .ok (name, ' ' :: '=' :: rest) := by
    rcases writtenKey_cases name with ⟨c, cs, rfl, hall, hbare⟩ | hquoted
    · rw [hbare, List.cons_append, keyPart, if_pos (hall c List.mem_cons_self), bareKey,
        ← List.cons_append, List.takeWhile_append_of_pos hall, List.dropWhile_append_of_pos hall]
      simp [isBareKeyChar]
    · have hread := basicString_written_of_length name (' ' :: '=' :: rest)
      have hsplit : writtenText name ++ ' ' :: '=' :: rest =
          '\x22' :: (name.flatMap writtenChar ++ '\x22' :: ' ' :: '=' :: rest) := by
        simp [writtenText]
      rw [hquoted, hsplit, keyPart, hread]
      rfl
  rw [key, keyParts, hpart]
  rfl

/-- A written key starts as a key does. -/
theorem exists_writtenKey (name : Text) :
    ∃ c t, writtenKey name = c :: t ∧ isKeyStart c = true := by
  rcases writtenKey_cases name with ⟨c, cs, rfl, hall, hbare⟩ | hquoted
  · exact ⟨c, cs, hbare, by simp [isKeyStart, hall c List.mem_cons_self]⟩
  · exact ⟨'\x22', _, hquoted, rfl⟩

/-- No blank stands before a plain value. -/
theorem skipBlanks_written {v : Value} (hv : v.Plain) {written : Text}
    (hwritten : v.written? = some written) (rest : Text) :
    Text.skipBlanks (written ++ rest) = written ++ rest := by
  obtain ⟨c, t, rfl, hc⟩ : ∃ c t, written = c :: t ∧ Text.isBlank c = false := by
    cases hv with
    | bool b =>
        cases b with
        | true => exact ⟨'t', _, (Option.some.inj hwritten).symm, rfl⟩
        | false => exact ⟨'f', _, (Option.some.inj hwritten).symm, rfl⟩
    | int n =>
        rw [Value.written?] at hwritten
        split_ifs at hwritten
        obtain ⟨c, t, hcons, hc⟩ := exists_ofInt n
        refine ⟨c, t, (Option.some.inj hwritten).symm.trans hcons, ?_⟩
        by_contra hblank
        simp only [Text.isBlank, Bool.not_eq_false, Bool.or_eq_true, beq_iff_eq] at hblank
        obtain rfl | rfl := hblank <;> revert hc <;> decide
    | text t => exact ⟨'\x22', _, (Option.some.inj hwritten).symm, rfl⟩
    | texts ts =>
        rw [Value.written?, writtenItems?_texts] at hwritten
        exact ⟨'[', _, (Option.some.inj hwritten).symm, rfl⟩
  exact Text.skipBlanks_cons hc (t ++ rest)

/-- The line of a plain entry is read back. -/
theorem exists_readItem_entryText {e : Text × Value} (hv : e.2.Plain)
    (hwritten : e.2.written?.isSome) (rest : Text) :
    ∃ line : Line, readItem .exact (entryText e ++ rest) = .ok (.entry line, .ok rest) ∧
      line.key = [e.1] ∧ line.value = e.2 := by
  obtain ⟨name, v⟩ := e
  obtain ⟨written, hw⟩ := Option.isSome_iff_exists.1 hwritten
  obtain ⟨c, tail, hname, hc⟩ := exists_writtenKey name
  have hplain : [' ', '\t', '\n', '#', '['].any isKeyStart = false := by decide
  have hne {d : Char} (hd : d ∈ [' ', '\t', '\n', '#', '[']) : c ≠ d := by
    rintro rfl
    exact List.any_eq_false.1 hplain c hd hc
  have hblank : Text.isBlank c = false := by
    simp [Text.isBlank, hne (d := ' ') (by simp), hne (d := '\t') (by simp)]
  have hline : entryText (name, v) ++ rest =
      writtenKey name ++ ' ' :: '=' :: ' ' :: (written ++ '\n' :: rest) := by
    simp [entryText, hw]
  have hstart : entryText (name, v) ++ rest =
      c :: (tail ++ ' ' :: '=' :: ' ' :: (written ++ '\n' :: rest)) := by
    rw [hline, hname, List.cons_append]
  have hskip : Text.skipBlanks (entryText (name, v) ++ rest) = entryText (name, v) ++ rest := by
    rw [hstart]
    exact Text.skipBlanks_cons hblank _
  have hsign : equalsSign ('=' :: ' ' :: (written ++ '\n' :: rest)) =
      .ok (written ++ '\n' :: rest) :=
    congrArg Except.ok (skipBlanks_written hv hw ('\n' :: rest))
  have hentry : readItem .exact (entryText (name, v) ++ rest) =
      readEntry .exact (entryText (name, v) ++ rest) := by
    rw [readItem, hskip, hstart]
    split
    · next heq => exact absurd heq (List.cons_ne_nil _ _)
    · next heq => exact absurd (List.cons.inj heq).1 (hne (by simp))
    · next heq => exact absurd (List.cons.inj heq).1 (hne (by simp))
    · next heq => exact absurd (List.cons.inj heq).1 (hne (by simp))
    · next heq =>
        obtain ⟨rfl, -⟩ := List.cons.inj heq
        rw [if_pos hc]
  have hend : lineEnd ('\n' :: rest) = .ok rest := rfl
  rw [hentry, readEntry]
  simp only [hskip]
  rw [hline]
  simp only [key_written, ok_bind, hsign, value_written hv hw, hend]
  exact ⟨_, rfl, rfl, rfl⟩

/-- A comment line is read back. -/
theorem exists_readItem_comment {body : Text} (hbody : ∀ c ∈ body, isIllegal c = false)
    (rest : Text) : ∃ text,
      readItem .exact ('#' :: body ++ ['\n'] ++ rest) = .ok (.comment text, .ok rest) := by
  have hline : '#' :: body ++ ['\n'] ++ rest = '#' :: (body ++ '\n' :: rest) := by simp
  have hskip : Text.skipBlanks ('#' :: (body ++ '\n' :: rest)) = '#' :: (body ++ '\n' :: rest) :=
    Text.skipBlanks_cons (by decide) _
  have hdrop : (body ++ '\n' :: rest).dropWhile (!isIllegal ·) = '\n' :: rest := by
    rw [List.dropWhile_append_of_pos (by simpa using hbody)]
    rfl
  have hend : lineEnd ('#' :: (body ++ '\n' :: rest)) = .ok rest := by
    rw [lineEnd, hskip, skipComment, hdrop]
    rfl
  simp only [hline, readItem, hskip, hend]
  exact ⟨_, rfl⟩

/-! ## Carriage returns -/

/-- A text without carriage returns is read as it stands. -/
theorem joinCarriageReturns_of_not_mem {t : Text} (h : '\r' ∉ t) :
    Text.joinCarriageReturns t = t := by
  induction t with
  | nil => rfl
  | cons c t ih =>
      obtain ⟨hc, ht⟩ : '\r' ≠ c ∧ '\r' ∉ t := by simpa using h
      rw [Text.joinCarriageReturns, ih ht]
      rintro more rfl
      exact absurd rfl hc

theorem not_mem_join {c : Char} {sep : Text} (hsep : c ∉ sep) {ts : List Text}
    (hts : ∀ t ∈ ts, c ∉ t) : c ∉ Text.join sep ts := by
  induction ts with
  | nil => simp [Text.join]
  | cons t ts ih =>
      obtain ⟨ht, hrest⟩ := List.forall_mem_cons.1 hts
      cases ts with
      | nil => exact ht
      | cons u ts => simp [Text.join, ht, hsep, ih hrest]

theorem return_not_mem_writtenText (t : Text) : '\r' ∉ writtenText t := by
  have hchar (c : Char) : '\r' ∉ writtenChar c := by
    obtain ⟨d, hwritten, hshort, -⟩ | ⟨hcontrol, hwritten⟩ | ⟨hwritten, -, -, hlegal⟩ :=
      writtenChar_cases c
    · rw [hwritten, List.mem_pair, not_or]
      refine ⟨by decide, ?_⟩
      rintro rfl
      exact absurd hshort (by simp [shortEscape?])
    · obtain ⟨-, hall, -⟩ := hex_control c.toNat (by omega) hcontrol
      rw [hwritten, List.mem_cons, List.mem_cons, not_or, not_or]
      refine ⟨by decide, by decide, fun hmem => ?_⟩
      exact absurd (List.all_eq_true.1 hall _ hmem) (by decide)
    · rw [hwritten, List.mem_singleton]
      rintro rfl
      exact absurd hlegal (by decide)
  simp only [writtenText, List.mem_append, List.mem_cons, List.mem_flatMap]
  simp [hchar]

theorem return_not_mem_written {v : Value} (hv : v.Plain) : '\r' ∉ v.written?.getD [] := by
  cases hv with
  | bool b => cases b <;> decide
  | int n =>
      rw [Value.written?]
      split_ifs
      · simp
      · have hdigits (m : Nat) : '\r' ∉ Text.ofNat m := fun hmem =>
          absurd (isDigit_of_mem_ofNat hmem) (by decide)
        cases n <;> simp [Text.ofInt, hdigits]
  | text t => exact return_not_mem_writtenText t
  | texts ts =>
      have hitems : ∀ t ∈ ts.map writtenText, '\r' ∉ t :=
        List.forall_mem_map.2 fun t _ => return_not_mem_writtenText t
      have hjoin : '\r' ∉ Text.join [',', ' '] (ts.map writtenText) :=
        not_mem_join (by decide) hitems
      rw [Value.written?, writtenItems?_texts]
      simp [hjoin]

/-- No carriage return stands in the line of a plain entry. -/
theorem return_not_mem_entryText {e : Text × Value} (he : e.2.Plain) : '\r' ∉ entryText e := by
  have hkey : '\r' ∉ writtenKey e.1 := by
    rw [writtenKey]
    split_ifs with hbare
    · intro hmem
      have hall : ∀ c ∈ e.1, isBareKeyChar c = true := by
        simpa using (Bool.and_eq_true_iff.1 hbare).2
      exact absurd (hall _ hmem) (by decide)
    · exact return_not_mem_writtenText e.1
  simp [entryText, hkey, return_not_mem_written he]

/-! ## Plain layouts -/

/-- The lines that are sure to be read back: comments, and plain entries as they are written. -/
inductive Part.IsPlain : Part → Prop where
  | comment {body : Text} (hbody : ∀ c ∈ body, isIllegal c = false) :
      IsPlain (.comment ('#' :: body ++ ['\n']))
  | entry {e : Text × Value} (he : e.2.Plain) (hwritten : e.2.written?.isSome) :
      IsPlain (entryPart e)

/-- The entry that a part is. -/
def Part.entry? : Part → Option (Text × Value)
  | .entry line => line.key.head?.map fun key => (key, line.value)
  | _ => none

namespace Layout

/-- The entries of a layout that stand on lines of their own. -/
def entries (l : Layout) : Table := l.filterMap Part.entry?

/-- A layout of plain lines with different keys. -/
structure Plain (l : Layout) : Prop where
  lines : ∀ p ∈ l, p.IsPlain
  keys : (l.entries.map Prod.fst).Nodup

end Layout

/-! ## Reading plain lines -/

/-- The outline of entries that were written in place. -/
def outlineOf (entries : Table) : Outline := entries.map fun e => (e.1, .value e.2)

theorem finishEntries_outlineOf (entries : Table) :
    finishEntries (outlineOf entries) = entries := by
  induction entries with
  | nil => rfl
  | cons e entries ih =>
      rw [outlineOf, List.map_cons, finishEntries, Node.finish, ← outlineOf, ih]

/-- One statement is read, and the statements after it. -/
theorem readItems_cons {r : Reading} {fuel : Nat} {p q s : Progress} {t rest : Text} {item : Item}
    {doc : Document} (ht : t ≠ []) (hitem : readItem r t = .ok (item, .ok rest))
    (hstep : p.step item = .ok q) (hrest : readItems r fuel q rest = .ok (doc, s)) :
    readItems r (fuel + 1) p t = .ok (item :: doc, s) := by
  have hempty : t.isEmpty = false := List.isEmpty_eq_false_iff.2 ht
  rw [readItems, hempty]
  simp only [Bool.false_eq_true, if_false, hitem, ok_bind, hstep, hrest]
  rfl

/-- An entry with a key of one part that is new comes last in the table. -/
theorem step_entry {before : Table} {line : Line} {e : Text × Value} (hkey : line.key = [e.1])
    (hvalue : line.value = e.2) (hnew : e.1 ∉ before.map Prod.fst) :
    Progress.step ⟨outlineOf before, [], []⟩ (.entry line) =
      .ok ⟨outlineOf (before ++ [e]), [], []⟩ := by
  have hnone : (outlineOf before).lookup e.1 = none :=
    Association.lookup_eq_none_of_not_mem (by simpa [outlineOf] using hnew)
  have hconcat : outlineOf (before ++ [e]) = outlineOf before ++ [(e.1, .value e.2)] := by
    simp [outlineOf]
  simp [Progress.step, openedBy, hkey, hvalue, Outline.insert, Outline.updateLast, Outline.update,
    hnone, hconcat]

/-- The key of an entry is none of the keys before it. -/
theorem nodup_cons_entries {before : Table} {e : Text × Value} {l : Layout}
    (h : ((before ++ Layout.entries (entryPart e :: l)).map Prod.fst).Nodup) :
    e.1 ∉ before.map Prod.fst ∧ ((before ++ [e] ++ Layout.entries l).map Prod.fst).Nodup := by
  have hentries : Layout.entries (entryPart e :: l) = [e] ++ Layout.entries l := rfl
  rw [hentries] at h
  refine ⟨fun hmem => ?_, by rwa [List.append_assoc]⟩
  rw [List.map_append, List.nodup_append] at h
  exact h.2.2 e.1 hmem e.1 (by simp) rfl

/-- Plain lines are read back as their entries. -/
theorem readItems_plain {l : Layout} (hl : ∀ p ∈ l, p.IsPlain) {before : Table}
    (hkeys : ((before ++ l.entries).map Prod.fst).Nodup) {fuel : Nat} (hfuel : l.length ≤ fuel) :
    ∃ doc, readItems .exact fuel ⟨outlineOf before, [], []⟩ (l.flatMap (Part.text [])) =
      .ok (doc, ⟨outlineOf (before ++ l.entries), [], []⟩) := by
  induction l generalizing before fuel with
  | nil =>
      refine ⟨[], ?_⟩
      rw [Layout.entries, List.filterMap_nil, List.append_nil]
      cases fuel <;> rfl
  | cons p l ih =>
      obtain ⟨hp, hrest⟩ := List.forall_mem_cons.1 hl
      obtain ⟨fuel, rfl⟩ := Nat.exists_eq_add_of_le' (Nat.lt_of_lt_of_le (Nat.zero_lt_succ _) hfuel)
      replace hfuel : l.length ≤ fuel := by simpa using hfuel
      rw [List.flatMap_cons]
      cases hp with
      | comment hbody =>
          obtain ⟨text, hitem⟩ := exists_readItem_comment hbody (l.flatMap (Part.text []))
          obtain ⟨doc, hdoc⟩ := ih hrest hkeys hfuel
          exact ⟨_, readItems_cons (by simp [Part.text]) hitem rfl hdoc⟩
      | @entry e he hwritten =>
          obtain ⟨line, hitem, hkey, hvalue⟩ :=
            exists_readItem_entryText he hwritten (l.flatMap (Part.text []))
          obtain ⟨hnew, hnext⟩ := nodup_cons_entries hkeys
          obtain ⟨doc, hdoc⟩ := ih hrest hnext hfuel
          rw [List.append_assoc] at hdoc
          exact ⟨_, readItems_cons (by simp [Part.text, entryPart, newEntry, Line.text]) hitem
            (step_entry hkey hvalue hnew) hdoc⟩

/-- Plain lines say what their entries say. -/
theorem runParts_plain {l : Layout} (hl : ∀ p ∈ l, p.IsPlain) {before : Table}
    (hkeys : ((before ++ l.entries).map Prod.fst).Nodup) :
    runParts l before = before ++ l.entries := by
  induction l generalizing before with
  | nil => simp [runParts, Layout.entries]
  | cons p l ih =>
      obtain ⟨hp, hrest⟩ := List.forall_mem_cons.1 hl
      rw [runParts]
      cases hp with
      | comment hbody => exact ih hrest hkeys
      | @entry e he hwritten =>
          obtain ⟨hnew, hnext⟩ := nodup_cons_entries hkeys
          have hrun : (entryPart e).run before = before ++ [e] :=
            Table.alter_of_lookup_eq_none (Association.lookup_eq_none_of_not_mem hnew) _
          rw [hrun, ih hrest hnext, List.append_assoc]
          rfl

namespace Layout

/-- Whether the text of a layout, as it is read from a file, describes a table that holds under
each key what the layout says. -/
def ReadsBack (l : Layout) : Prop :=
  ∃ t, tableOf (Text.joinCarriageReturns l.text) = .ok t ∧ ∀ key, t.lookup key = l.value? key

/-- Plain lines are written one after the other. -/
theorem text_of_plain {l : Layout} (hl : ∀ p ∈ l, p.IsPlain) :
    l.text = l.flatMap (Part.text []) := by
  have hfold (out : Text) : l.foldl (fun out p => out ++ p.gapAfter out ++ p.text []) out =
      out ++ l.flatMap (Part.text []) := by
    induction l generalizing out with
    | nil => simp
    | cons p l ih =>
        obtain ⟨hp, hrest⟩ := List.forall_mem_cons.1 hl
        have hgap : p.gapAfter out = [] := by cases hp <;> rfl
        rw [List.foldl_cons, ih hrest, hgap, List.flatMap_cons]
        simp
  exact hfold []

/-- There are no more plain lines than characters. -/
theorem length_le_of_plain {l : Layout} (hl : ∀ p ∈ l, p.IsPlain) :
    l.length ≤ (l.flatMap (Part.text [])).length := by
  induction l with
  | nil => simp
  | cons p l ih =>
      obtain ⟨hp, hrest⟩ := List.forall_mem_cons.1 hl
      have hfirst : 0 < (p.text []).length := by
        cases hp with
        | comment hbody => simp [Part.text]
        | entry he hwritten =>
            simp only [Part.text, entryPart, newEntry, Line.text, List.length_append,
              List.length_singleton]
            omega
      have hothers := ih hrest
      simp only [List.length_cons, List.flatMap_cons, List.length_append]
      omega

/-- A plain layout is read back. -/
theorem Plain.readsBack {l : Layout} (hl : l.Plain) : l.ReadsBack := by
  have hreturn : '\r' ∉ l.flatMap (Part.text []) := by
    rw [List.mem_flatMap]
    rintro ⟨p, hp, hmem⟩
    cases hl.lines p hp with
    | comment hbody =>
        have hlegal : '\r' ∉ _ := fun hmem => absurd (hbody _ hmem) (by decide)
        simp [Part.text, hlegal] at hmem
    | entry he hwritten => exact return_not_mem_entryText he hmem
  obtain ⟨doc, hread⟩ := @readItems_plain l hl.lines [] hl.keys _ (length_le_of_plain hl.lines)
  refine ⟨l.entries, ?_, fun key => ?_⟩
  · rw [text_of_plain hl.lines, joinCarriageReturns_of_not_mem hreturn, tableOf, read]
    have hstart : (⟨[], [], []⟩ : Progress) = ⟨outlineOf [], [], []⟩ := rfl
    rw [hstart, hread]
    exact congrArg Except.ok (finishEntries_outlineOf l.entries)
  · rw [value?, table, @runParts_plain l hl.lines [] hl.keys, List.nil_append]

/-! ## Editing plain layouts -/

/-- After plain lines a new entry comes last. -/
theorem addEntry_of_plain {l : Layout} (hl : ∀ p ∈ l, p.IsPlain) (entry : Part) :
    l.addEntry entry = l ++ [entry] := by
  have hplace : l.entryPlace = l.length := by
    have htop : l.takeWhile (!·.isHeaded) = l :=
      List.takeWhile_eq_self_iff.2 fun p hp => by cases hl p hp <;> rfl
    have hspace : l.reverse.takeWhile (fun p => p.isSpace || p.isRemoved) = [] := by
      cases hlast : l.reverse with
      | nil => rfl
      | cons p rest =>
          have hp := hl p (List.mem_reverse.1 (hlast ▸ List.mem_cons_self))
          cases hp <;> rfl
    simp only [entryPlace, htop, hspace]
    rfl
  rw [addEntry, hplace, List.take_length, List.drop_length]
  cases hlast : l.getLast? with
  | none => simp [List.getLast?_eq_none_iff.1 hlast]
  | some last =>
      obtain ⟨init, rfl⟩ := List.getLast?_eq_some_iff.1 hlast
      have hnewline : last.withNewline = last := by
        cases hl last (by simp) with
        | comment hbody => simp [Part.withNewline]
        | entry he hwritten => rfl
      simp [hnewline]

theorem name?_of_isPlain {p : Part} (hp : p.IsPlain) : p.name? = p.entry?.map Prod.fst := by
  cases hp <;> rfl

/-- A key that no plain line has is the key of no entry. -/
theorem not_mem_keys {l : Layout} (hl : ∀ p ∈ l, p.IsPlain) {key : Text} :
    key ∉ l.entries.map Prod.fst ↔ ∀ p ∈ l, p.name? ≠ some key := by
  simp only [entries, List.map_filterMap, List.mem_filterMap, not_exists, not_and]
  refine forall₂_congr fun p hp => ?_
  rw [name?_of_isPlain (hl p hp)]

theorem without_of_forall_ne {l : Layout} {key : Text} (h : ∀ p ∈ l, p.name? ≠ some key) :
    l.without key = l := by
  refine (List.map_congr_left fun p hp => ?_).trans l.map_id
  rw [if_neg (h p hp), id]

/-- A plain entry keeps its line when it gets another value. -/
theorem replaceAt_entryPart (before after : Layout) (e : Text × Value) (v : Value) :
    replaceAt (before ++ entryPart e :: after) before.length (entryPart e) (entryPart (e.1, v)) =
      before ++ entryPart (e.1, v) :: after := by
  simp [replaceAt, entryPart, newEntry, Line.isDotted, List.set_append_right]

/-- A plain layout in which a key is set to a plain value stays plain. -/
theorem Plain.set? {l m : Layout} (hl : l.Plain) {key : Text} {v : Value} (hv : v.Plain)
    (h : l.set? key v = some m) : m.Plain := by
  obtain ⟨written, hwritten, hcases⟩ := set?_cases hv.isHeaded h
  have hentry : newEntry (Label.of key) v written = entryPart (key, v) := by
    rw [entryPart, hwritten]
    rfl
  have hline : (entryPart (key, v)).IsPlain := .entry hv (by rw [hwritten]; rfl)
  rw [hentry] at hcases
  obtain ⟨hnone, rfl⟩ | ⟨before, old, after, rfl, hname, rfl⟩ := hcases
  · rw [addEntry_of_plain hl.lines]
    constructor
    · simpa [or_imp, forall_and, hline] using hl.lines
    · have hnew := (not_mem_keys hl.lines).2 hnone
      have hentries : entries (l ++ [entryPart (key, v)]) = l.entries ++ [(key, v)] := by
        simp [entries, entryPart, newEntry, Part.entry?, Label.of]
      rw [hentries, List.map_append]
      refine List.nodup_append.2 ⟨hl.keys, by simp, ?_⟩
      rintro k hk _ hkey rfl
      obtain rfl : k = key := by simpa using hkey
      exact hnew hk
  · cases hl.lines old (by simp) with
    | comment hbody => contradiction
    | @entry e he hold =>
        obtain rfl : e.1 = key := Option.some.inj hname
        have hentries (e : Text × Value) : entries (before ++ entryPart e :: after) =
            entries before ++ e :: entries after := by
          simp [entries, entryPart, newEntry, Part.entry?, Label.of]
        have hkeys := hl.keys
        rw [hentries, List.map_append, List.map_cons] at hkeys
        obtain ⟨-, hlast, hdisjoint⟩ := List.nodup_append.1 hkeys
        have hbefore : without before e.1 = before := without_of_forall_ne <|
          (not_mem_keys fun p hp => hl.lines p (by simp [hp])).1
            fun hmem => hdisjoint e.1 hmem e.1 List.mem_cons_self rfl
        have hafter : without after e.1 = after := without_of_forall_ne <|
          (not_mem_keys fun p hp => hl.lines p (by simp [hp])).1 (List.nodup_cons.1 hlast).1
        rw [hbefore, hafter, replaceAt_entryPart]
        constructor
        · have hlines := hl.lines
          simp only [List.mem_append, List.mem_cons, or_imp, forall_and, forall_eq] at hlines ⊢
          exact ⟨hlines.1, hline, hlines.2.2⟩
        · rwa [hentries, List.map_append, List.map_cons]

end Layout

end ShellDocs.Toml
