import ShellDocs.Toml.Tidy

/-!
# Layouts

A layout is a document as it is edited: a list of parts that can be moved, replaced and removed,
each with its characters. Tables stand inside the tables that they are below, and the tables of a
list stand together, wherever the text had them. `Layout.ofDocument` builds the layout of a
document and `Layout.text` writes it.
-/

namespace ShellDocs.Toml

/-- One part of a key, and how it is written. -/
structure Label where
  name : Text
  written : Text
  deriving Repr

/-- The line that starts a table. -/
structure Head where
  /-- What stands before the brackets. -/
  lead : Text
  /-- What stands between the brackets, unless that follows from the labels. -/
  title : Option Text
  /-- The rest of the line. -/
  trail : Text
  /-- Whether the line is left out, because nothing but other tables stands in the table. -/
  implied : Bool
  deriving Repr

/-- One part of a layout. -/
inductive Part where
  | space (text : Text)
  | comment (text : Text)
  /-- The place of a part that was taken away. -/
  | removed
  /-- An entry; one with a dotted key stands for a table. -/
  | entry (line : Line)
  | table (label : Label) (head : Head) (parts : List Part)
  /-- The tables of a list, one after the other. -/
  | tables (label : Label) (items : List (Head × List Part))

/-- The parts of a document in order. -/
abbrev Layout := List Part

/-- Whether an entry has a dotted key. -/
def Line.isDotted (l : Line) : Bool := 1 < l.key.length

namespace Part

/-- The key of the document that the part belongs to. -/
def name? : Part → Option Text
  | .entry line => line.key.head?
  | .table label _ _ => some label.name
  | .tables label _ => some label.name
  | _ => none

/-- Whether the part is white space. -/
def isSpace : Part → Bool
  | .space _ => true
  | _ => false

/-- Whether the part was taken away. -/
def isRemoved : Part → Bool
  | .removed => true
  | _ => false

/-- Whether the part starts with a header. -/
def isHeaded : Part → Bool
  | .table .. => true
  | .tables .. => true
  | _ => false

/-- Whether the part stands for a table or a list of tables. -/
def isTable : Part → Bool
  | .entry line => line.isDotted
  | p => p.isHeaded

/-- Whether the part stands for a single table. -/
def isSingleTable : Part → Bool
  | .tables .. => false
  | p => p.isTable

/-- The label of a part that starts with a header. -/
def label? : Part → Option Label
  | .table label _ _ => some label
  | .tables label _ => some label
  | _ => none

/-- Whether the part is a table that ends in white space. -/
def endsInSpace : Part → Bool
  | .table _ _ parts => (parts.reverse.find? (!·.isRemoved)).any isSpace
  | _ => false

end Part

/-- A header line with a title, before `parts`; a newline is put before the first of their keys if
the line has none. A header that is left out may leave an empty line. -/
def Head.text (h : Head) (title : Text) (parts : List Part) : Text :=
  if h.implied then (if h.lead = ['\n'] then ['\n'] else [])
  else
    let gap : Text :=
      if h.trail.contains '\n' || parts.all (·.name?.isNone) then [] else ['\n']
    h.lead ++ ['['] ++ title ++ [']'] ++ h.trail ++ gap

mutual

/-- The characters of a part below the tables that `path` names, with a point after each. -/
def Part.text (path : Text) : Part → Text
  | .space t => t
  | .comment t => t
  | .removed => []
  | .entry line => line.text
  | .table label head parts =>
      let title := head.title.getD (path ++ label.written)
      head.text title parts ++ partsText (title ++ ['.']) parts
  | .tables label items => itemsText (path ++ label.written) items

/-- The characters of parts one after the other. -/
def partsText (path : Text) : List Part → Text
  | [] => []
  | p :: ps => p.text path ++ partsText path ps

/-- The characters of the tables of a list, all under the same title. -/
def itemsText (title : Text) : List (Head × List Part) → Text
  | [] => []
  | (head, parts) :: rest =>
      head.lead ++ ("[[" : Text) ++ title ++ ("]]" : Text) ++ head.trail ++
        partsText (title ++ ['.']) parts ++ itemsText title rest

end

/-- The newline that a table needs after the text `out`, unless it brings one itself. -/
def Part.gapAfter (out : Text) : Part → Text
  | .table _ head _ =>
      let line := Text.trim (· == ' ') out
      if line.isEmpty || line.getLast? == some '\n' || head.lead.contains '\n' then [] else ['\n']
  | _ => []

namespace Layout

/-- The characters of a layout. -/
def text (l : Layout) : Text :=
  l.foldl (fun out p => out ++ p.gapAfter out ++ p.text []) []

/-- The index of the last part that belongs to a key. -/
def lastIndex? (l : Layout) (name : Text) : Option Nat :=
  (List.range l.length).reverse.find? fun i => (l[i]?.bind Part.name?) == some name

/-- The key of the last single table. -/
def lastTable? (l : Layout) : Option Text :=
  (l.reverse.find? Part.isSingleTable).bind Part.name?

/-- The layout with the one part of a key changed, if the key has just one. -/
def changeOnly (l : Layout) (name? : Option Text) (f : Part → Part) : Layout :=
  if l.countP (·.name? == name?) == 1 then l.map fun p => if p.name? == name? then f p else p
  else l

end Layout

/-- The spaces that a header gives the tables which are put below it later. -/
def Head.step (h : Head) : Text := (h.lead.dropWhile (· != ' ')).takeWhile (· == ' ')

/-- The part with more spaces before its header. -/
def Part.indented (step : Text) : Part → Part
  | .table label head parts =>
      let before := head.lead.takeWhile (· != ' ')
      let after := head.lead.dropWhile (· != ' ')
      .table label { head with lead := before ++ step ++ after } parts
  | p => p

mutual

/-- The layout with a table added where the text has it. Tables of one list are put together, and
so are tables below a table without a header of its own, if no other table stands between them.
A table below a list of tables belongs to the last of them. -/
def Layout.add (l : Layout) : Part → Layout
  | .table label head parts =>
      match l.lastIndex? label.name with
      | none => l ++ [.table label head parts]
      | some i =>
          match l[i]? with
          | some (.tables old items) =>
              match items.getLast? with
              | some (first, own) =>
                  let last := (first, Layout.addBelow first.step own parts)
                  l.set i (.tables old (items.dropLast ++ [last]))
              | none => l ++ [.table label head parts]
          | some (.table old first own) =>
              if first.implied && head.implied && l.lastTable? == some label.name then
                l.set i (.table old first (Layout.addBelow first.step own parts))
              else l ++ [.table label head parts]
          | _ => l ++ [.table label head parts]
  | .tables label items =>
      match l.lastIndex? label.name with
      | none => l ++ [.tables label items]
      | some i =>
          match l[i]? with
          | some (.tables old own) => l.set i (.tables old (own ++ items))
          | _ => l ++ [.tables label items]
  | p => l ++ [p]

/-- The parts of a table with several others added, each indented by a step. -/
def Layout.addBelow (step : Text) (l : Layout) : List Part → Layout
  | [] => l
  | p :: ps =>
      Layout.addBelow step (Layout.changeOnly (l.add p) p.name? (Part.indented step)) ps

end

/-- A header with the parts up to the next header. -/
structure Passage where
  header : Header
  parts : List Part

/-- White space in front of parts, put together with the space that they start with. -/
def spaceBefore (t : Text) : List Part → List Part
  | .space u :: rest => .space (t ++ u) :: rest
  | parts => .space t :: parts

/-- The parts before the first header, and the passages from there on. -/
def passages : Document → List Part × List Passage
  | [] => ([], [])
  | item :: rest =>
      let (parts, found) := passages rest
      match item with
      | .blank t => (spaceBefore t parts, found)
      | .comment t => (.comment t :: parts, found)
      | .entry line => (.entry line.tidy :: parts, found)
      | .header head => ([], ⟨head, parts⟩ :: found)

/-- The header line of a passage. -/
def Passage.head (p : Passage) : Head :=
  ⟨p.header.lead, some p.header.title, p.header.trail, false⟩

/-- The labels of a key, whose parts are written in `title`. -/
def labels (title : Text) : List Text → List Label
  | [] => []
  | name :: names =>
      match keyPart .tolerant (Text.skipBlanks title) with
      | .ok (_, rest) =>
          let rest := Text.skipBlanks rest
          ⟨name, Text.consumed title rest⟩ :: labels (rest.drop 1) names
      | .error _ => ⟨name, title⟩ :: labels [] names

/-- A table at the end of a path, inside tables without headers of their own. Before the header of
the first would stand `lead`, and before the others what stands before `head`. -/
def nested (lead : Text) (head : Head) (inner : Label → Part) : List Label → Option Part
  | [] => none
  | [label] => some (inner label)
  | label :: path => do
      let part ← nested head.lead head inner path
      pure (.table label { head with lead := lead, title := none, implied := true } [part])

/-- Whether a key lies below a path. -/
def isBelow (path key : List Text) : Bool := path.isPrefixOf key && path.length < key.length

mutual

/-- The layout with the passages added that lie below a path, and the passages from the first one
on that does not. At most `fuel` passages are read. -/
def grow : Nat → List Text → Layout → List Passage → Layout × List Passage
  | 0, _, l, rest => (l, rest)
  | _ + 1, _, l, [] => (l, [])
  | fuel + 1, path, l, p :: rest =>
      if !isBelow path p.header.key then (l, p :: rest)
      else
        let (own, rest) := grow fuel p.header.key p.parts rest
        let below := (labels p.header.title p.header.key).drop path.length
        let (more, rest) :=
          if p.header.array && below.length == 1 then repeated fuel p.header.key rest
          else ([], rest)
        let inner (label : Label) : Part :=
          if p.header.array then .tables label ((p.head, own) :: more)
          else .table label p.head own
        grow fuel path ((nested [] p.head inner below).elim l l.add) rest

/-- The tables that follow with the same key, each with the passages below it. -/
def repeated : Nat → List Text → List Passage → List (Head × List Part) × List Passage
  | 0, _, rest => ([], rest)
  | _ + 1, _, [] => ([], [])
  | fuel + 1, key, p :: rest =>
      if p.header.array && p.header.key == key then
        let (own, rest) := grow fuel key p.parts rest
        let (more, rest) := repeated fuel key rest
        ((p.head, own) :: more, rest)
      else ([], p :: rest)

end

/-- The layout of a document. -/
def Layout.ofDocument (d : Document) : Layout :=
  let (top, found) := passages d
  (grow (found.length + 1) [] top found).1

end ShellDocs.Toml
