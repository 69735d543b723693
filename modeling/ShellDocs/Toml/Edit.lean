import ShellDocs.Toml.Layout
import ShellDocs.Toml.Printer

/-!
# Editing a layout

`Layout.set?` gives a top-level key a value and leaves everything else as it is written. A key
that is there keeps its line, with only the value replaced; a new one gets a line of its own after
the last line that stands before the first header. A table, or a list of tables, is written under
headers of its own, at the end or where the key had its headers before.
-/

namespace ShellDocs.Toml

/-- The label that a key gets when it is written. -/
def Label.of (key : Text) : Label := ⟨key, writtenKey key⟩

/-- A new entry on a line of its own. -/
def newEntry (label : Label) (v : Value) (written : Text) : Part :=
  .entry
    { lead := []
      keyText := label.written
      key := [label.name]
      sign := " = "
      valueText := written
      value := v
      trail := ['\n'] }

namespace Part

/-- The part with a newline before its first header. -/
def withBreak : Part → Part
  | .table label head parts => .table label { head with lead := '\n' :: head.lead } parts
  | .tables label ((head, parts) :: rest) =>
      .tables label (({ head with lead := '\n' :: head.lead }, parts) :: rest)
  | p => p

/-- The part with an empty line before it, if it is a table that has none yet. -/
def setApart : Part → Part
  | .table label head parts =>
      if head.lead.contains '\n' then .table label head parts
      else .table label { head with lead := '\n' :: head.lead } parts
  | p => p

/-- The part with a newline at its end. An entry whose key has more than two parts is left as it
is. -/
def withNewline : Part → Part
  | .comment t => .comment (if t.contains '\n' then t else t ++ ['\n'])
  | .entry line =>
      if line.trail.contains '\n' || 2 < line.key.length then .entry line
      else .entry { line with trail := line.trail ++ ['\n'] }
  | p => p

/-- Tables with an empty line before each but the first, which has one if it is to stand
`apart`. -/
def withBreaks (apart : Bool) : List Part → List Part
  | [] => []
  | p :: ps => (if apart then p.withBreak else p) :: ps.map withBreak

/-- The parts of a table in the order in which they are written: entries, lists of tables, tables.
An empty line stands before a table that has anything before it, and before a list of tables that
was not given before all entries. -/
def arranged (parts : List Part) : List Part :=
  let isList (p : Part) : Bool := p.isHeaded && !p.isSingleTable
  let entries := parts.filter (!·.isHeaded)
  let lists := parts.filter isList
  let tables := parts.filter fun p => p.isHeaded && p.isSingleTable
  let listFirst := (parts.find? fun p => !p.isHeaded || isList p).any isList
  entries ++ withBreaks (!listFirst) lists ++ withBreaks (!(entries ++ lists).isEmpty) tables

end Part

/-- The header line of a new table that holds `parts`. -/
def newHead (parts : List Part) : Head :=
  ⟨[], none, ['\n'], !parts.isEmpty && parts.all Part.isHeaded⟩

/-- The tables of a list with an empty line before the first one if it is to stand `apart`, and
before every one that follows a table with entries. -/
def spaced (apart : Bool) : List (Head × List Part) → List (Head × List Part)
  | [] => []
  | (head, parts) :: rest =>
      let head := if apart then { head with lead := '\n' :: head.lead } else head
      (head, parts) :: spaced (!parts.isEmpty) rest

mutual

/-- A value as a part with a label. -/
def partOf? (label : Label) : Value → Option Part
  | .table entries => do
      let parts ← partsOf? entries
      let parts := Part.arranged parts
      pure (.table label (newHead parts) parts)
  | .list items =>
      if isTableList items then do
        let items ← itemsOf? items
        pure (.tables label (spaced false items))
      else do
        let t ← (Value.list items).written?
        pure (newEntry label (.list items) t)
  | v => do
      let t ← v.written?
      pure (newEntry label v t)

/-- The entries of a table as parts. -/
def partsOf? : List (Text × Value) → Option (List Part)
  | [] => some []
  | (key, v) :: rest => do
      let part ← partOf? (Label.of key) v
      let parts ← partsOf? rest
      pure (part :: parts)

/-- Tables as the items of a list. -/
def itemsOf? : List Value → Option (List (Head × List Part))
  | [] => some []
  | .table entries :: rest => do
      let parts ← partsOf? entries
      let items ← itemsOf? rest
      pure ((⟨[], none, ['\n'], false⟩, Part.arranged parts) :: items)
  | _ :: _ => none

end

namespace Layout

/-- Where a new entry goes: after the last part before the first header that is neither white
space nor taken away. -/
def entryPlace (l : Layout) : Nat :=
  let top := l.takeWhile (!·.isHeaded)
  top.length - (top.reverse.takeWhile fun p => p.isSpace || p.isRemoved).length

/-- The layout with a new entry. The part before it ends its line, and a table after it is set
apart. -/
def addEntry (l : Layout) (entry : Part) : Layout :=
  let before := l.take l.entryPlace
  let before := match before.getLast? with
    | some last => before.dropLast ++ [last.withNewline]
    | none => []
  let after := match l.drop l.entryPlace with
    | next :: rest => next.setApart :: rest
    | [] => []
  before ++ [entry] ++ after

/-- The layout with a new table, or list of tables, at its end. -/
def addTable (l : Layout) (table : Part) : Layout :=
  let last := l.reverse.find? (!·.isRemoved)
  if l.isEmpty || last.any (fun p => p.isSpace || p.endsInSpace) then l ++ [table]
  else l ++ [table.withBreak]

/-- The layout with a new part. -/
def addNew (l : Layout) (p : Part) : Layout := if p.isHeaded then l.addTable p else l.addEntry p

/-- The layout with an empty line at the end of the table at an index, unless the table is the
last part or white space stands there already. -/
def closeTable (l : Layout) (i : Nat) : Layout :=
  match l[i]? with
  | some (.table label head parts) =>
      let isLast := (l.drop (i + 1)).all Part.isRemoved
      let isSpaced := l[i + 1]?.any Part.isSpace || (Part.table label head parts).endsInSpace
      if isLast || isSpaced then l
      else l.set i (.table label head (parts ++ [.space ['\n']]))
  | _ => l

/-- The layout with a part taken away. -/
def remove (l : Layout) (i : Nat) : Layout := l.set i .removed

/-- The layout with a table in place of the part at an index, which does not stand under a header:
it goes before the next table after that part, or to the end if there is none. -/
def moveTable (l : Layout) (i : Nat) (table : Part) : Layout :=
  let l := l.remove i
  let skipped := (l.drop i).takeWhile (!·.isTable)
  let j := i + skipped.length
  if j < l.length then closeTable (l.take j ++ [table] ++ l.drop j) j else l.addTable table

/-- The layout with the part at an index replaced by a new part for the same key. What stands
around the old value, or around the title of the old table, stays. -/
def replaceAt (l : Layout) (i : Nat) (old new : Part) : Layout :=
  match old, new with
  | .entry line, .entry fresh =>
      if line.isDotted then (l.remove i).addEntry new
      else
        l.set i (.entry { line with value := fresh.value, valueText := fresh.valueText })
  | .entry line, .table _ head _ =>
      if line.isDotted && head.implied then closeTable (l.set i new) i else l.moveTable i new
  | .entry _, _ => l.moveTable i new
  | .table _ first _, .table label head parts =>
      let head := { head with lead := first.lead, trail := first.trail }
      closeTable (l.set i (.table label head parts)) i
  | .tables _ _, .table label head parts =>
      closeTable (l.set i (.table label { head with trail := [] } parts)) i
  | _, .tables _ _ => l.set i new
  | _, _ => (l.remove i).addEntry new

/-- The layout with all parts of a key but the one at an index taken away. -/
def keepOnly (l : Layout) (key : Text) (i : Nat) : Layout :=
  (l.zip (List.range l.length)).map fun (p, j) =>
    if j ≠ i ∧ p.name? = some key then .removed else p

/-- The layout with a top-level key set to a value that has a written form. -/
def set? (l : Layout) (key : Text) (v : Value) : Option Layout :=
  match l.findIdx? (·.name? == some key) with
  | none => (partOf? (Label.of key) v).map l.addNew
  | some i =>
      match l[i]? with
      | some old => do
          let kept := if v.isHeaded then old.label? else none
          let new ← partOf? (kept.getD (Label.of key)) v
          pure ((l.keepOnly key i).replaceAt i old new)
      | none => none

end Layout

end ShellDocs.Toml
