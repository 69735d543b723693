import ShellDocs.Text.Space
import ShellDocs.Toml.Reader

/-!
# Documents

A document is read into items that keep every character: blank lines, comments, entries and
table headers, so that the written form of what was read is the text itself. The table that the
document describes grows with each item, and an item that it has no place for is refused.
-/

namespace ShellDocs.Toml

/-- An entry with everything around its key and its value. -/
structure Line where
  /-- The blanks before the key. -/
  lead : Text
  /-- The key as written. -/
  keyText : Text
  key : List Text
  /-- The equals sign with the blanks around it. -/
  sign : Text
  /-- The value as written. -/
  valueText : Text
  value : Value
  /-- The rest of the line: blanks, a comment and the newline. -/
  trail : Text

/-- A table header with everything around its key. -/
structure Header where
  /-- The blanks before the brackets. -/
  lead : Text
  /-- What stands between the brackets. -/
  title : Text
  key : List Text
  /-- Whether the brackets are double, which adds a table to a list. -/
  array : Bool
  /-- The rest of the line: blanks, a comment and the newline. -/
  trail : Text

/-- One statement of a document. -/
inductive Item where
  /-- White space, up to and including a newline. -/
  | blank (text : Text)
  | comment (text : Text)
  | entry (line : Line)
  | header (head : Header)

/-- The items of a document in order. -/
abbrev Document := List Item

/-- The characters of an entry. -/
def Line.text (l : Line) : Text := l.lead ++ l.keyText ++ l.sign ++ l.valueText ++ l.trail

/-- The text after the rest of a line: blanks, a comment, and the newline unless the text ends
there. -/
def lineEnd (t : Text) : Except Fault Text := do
  let rest ← skipComment (Text.skipBlanks t)
  match rest with
  | [] => pure []
  | '\n' :: rest => pure rest
  | _ => .error ⟨.statementEnd, rest⟩

/-- A statement and the text after it, or the fault in what ends the statement. -/
abbrev Statement := Item × Except Fault Text

/-- What a line has after `t`, when `after` is what follows the line. -/
def trailOf (t : Text) (after : Except Fault Text) : Text :=
  match after with
  | .ok rest => Text.consumed t rest
  | .error _ => []

/-- An entry, from the blanks before it. -/
def readEntry (r : Reading) (t : Text) : Except Fault Statement := do
  let atKey := Text.skipBlanks t
  let (key, afterKey) ← key r atKey
  let keyText := Text.dropTailBlanks (Text.consumed atKey afterKey)
  let atValue ← equalsSign afterKey
  let (value, afterValue) ← readValue r atValue
  let after := lineEnd afterValue
  pure (.entry
    { lead := Text.consumed t atKey
      keyText := keyText
      key := key
      sign := (Text.consumed atKey atValue).drop keyText.length
      valueText := Text.consumed atValue afterValue
      value := value
      trail := trailOf afterValue after }, after)

/-- The text after the brackets that close a header. -/
def closing (array : Bool) (t : Text) : Except Fault Text :=
  match array, t with
  | true, ']' :: ']' :: rest => .ok rest
  | true, _ => .error ⟨.tableArrayEnd, t⟩
  | false, ']' :: rest => .ok rest
  | false, _ => .error ⟨.tableEnd, t⟩

/-- A table header, from the blanks before it. -/
def readHeader (r : Reading) (t : Text) : Except Fault Statement := do
  let opened := (Text.skipBlanks t).drop 1
  let (array, inner) := match opened with
    | '[' :: inner => (true, inner)
    | inner => (false, inner)
  let (key, atClosing) ← key r (Text.skipBlanks inner)
  let closed := closing array atClosing
  let after := closed.bind lineEnd
  pure (.header
    { lead := t.takeWhile Text.isBlank
      title := Text.consumed inner atClosing
      key := key
      array := array
      trail := closed.toOption.elim [] (trailOf · after) }, after)

/-- One statement of a document. -/
def readItem (r : Reading) (t : Text) : Except Fault Statement :=
  match Text.skipBlanks t with
  | [] => .ok (.blank t, .ok [])
  | '\n' :: rest => .ok (.blank (Text.consumed t rest), .ok rest)
  | '#' :: rest =>
      let after := lineEnd ('#' :: rest)
      .ok (.comment (trailOf t after), after)
  | '[' :: _ => readHeader r t
  | c :: rest => if isKeyStart c then readEntry r t else .error ⟨.statement, c :: rest⟩

/-- The table under construction, the header it is at, and the tables that dotted keys opened
since that header. -/
structure Progress where
  outline : Outline
  header : List Text
  opened : List (List Text)

/-- The paths of the tables that a dotted key opens, from the header on. -/
def openedBy (header key : List Text) : List (List Text) :=
  (List.range (key.length - 1)).map fun i => header ++ key.take (i + 1)

/-- The progress after one statement. The tables that dotted keys opened stay open up to the next
header. -/
def Progress.step (p : Progress) : Item → Except Reason Progress
  | .blank _ => .ok p
  | .comment _ => .ok p
  | .entry line => do
      let opened := openedBy p.header line.key
      match opened.find? (Outline.isClosedAt · p.outline) with
      | some path => .error (.redefined path)
      | none => do
          let outline ← p.outline.insert (p.header ++ line.key) line.value
          pure { p with outline := outline, opened := p.opened ++ opened }
  | .header head => do
      let outline := p.opened.foldl (fun o path => Outline.close path o) p.outline
      let outline ← if head.array then outline.openTables head.key else outline.openTable head.key
      pure ⟨outline, head.key, []⟩

/-- How much of an item stands before the place at which it is refused. -/
def Item.refusedAt : Item → Nat
  | .entry line => line.text.length - line.trail.length
  | .header head => head.lead.length + (if head.array then 2 else 1) + head.title.length
  | _ => 0

/-- The statements of a text, at most `fuel` of them, with the progress after the last one. What a
statement says is checked before what ends it. -/
def readItems (r : Reading) : Nat → Progress → Text → Except Fault (Document × Progress)
  | 0, p, _ => .ok ([], p)
  | fuel + 1, p, t =>
      if t.isEmpty then .ok ([], p)
      else do
        let (item, after) ← readItem r t
        match p.step item with
        | .error reason => .error ⟨reason, t.drop item.refusedAt⟩
        | .ok p => do
            let rest ← after
            let (items, p) ← readItems r fuel p rest
            pure (item :: items, p)

/-- The document that a text writes, and the table that it describes. -/
def read (r : Reading) (t : Text) : Except Fault (Document × Table) := do
  let (d, p) ← readItems r t.length ⟨[], [], []⟩ t
  pure (d, finishEntries p.outline)

/-- The table that a text describes, read exactly. -/
def tableOf (t : Text) : Except Fault Table := (read .exact t).map Prod.snd

end ShellDocs.Toml
