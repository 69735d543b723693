import ShellDocs.Render.Style

/-!
# Rendered documentation

Lines of documentation become one text: the indentation they share in the code is removed, blank
lines at the end are dropped, each line is styled and indented, and a title and a description may
stand above them. Lines between two fence lines are code and are shown in italics as they are.
-/

namespace ShellDocs.Render

/-- How documentation is laid out. -/
structure Options where
  title : Option Text := none
  description : Option Text := none
  /-- Whether the first line of the documentation is its description. -/
  describeFromBody : Bool := false
  indent : Int := 2
  headingWords : List Text

/-- The words that start a heading unless others are chosen. -/
def defaultHeadingWords : List Text :=
  ["Usage", "Option", "Command", "Example", "Note", "Notable", "Patterns"]

/-- How many white-space characters a line starts with. -/
def indentation (line : Text) : Nat := (line.takeWhile Text.isSpace).length

/-- The least indentation of the lines that are not blank. -/
def commonIndent? (lines : List Text) : Option Nat :=
  ((lines.filter (!Text.isVoid ·)).map indentation).min?

/-- The lines without the indentation that all but the first share. The first line follows an
opening quote in the code and is left alone, and blank lines do not count. -/
def dropCommonIndent : List Text → List Text
  | [] => []
  | first :: rest =>
      match commonIndent? rest with
      | some n => first :: rest.map (·.drop n)
      | none => first :: rest

/-- The lines without the blank ones at the end. -/
def dropTailVoid (lines : List Text) : List Text :=
  (lines.reverse.dropWhile Text.isVoid).reverse

/-- A fence line starts with three backticks, which blanks may precede. -/
def isFence (line : Text) : Bool :=
  match Text.skipBlanks line with
  | '\x60' :: '\x60' :: '\x60' :: _ => true
  | _ => false

/-- The blanks in front of every line. -/
def Options.lead (o : Options) : Text := List.replicate o.indent.toNat ' '

/-- The lines styled and indented; `inFence` tells that an odd number of fence lines stands before
them. -/
def styleBodyFrom (o : Options) (inFence : Bool) : List Text → List Text
  | [] => []
  | line :: rest =>
      if isFence line then (o.lead ++ line) :: styleBodyFrom o (!inFence) rest
      else
        let shown :=
          if inFence then (if line.isEmpty then line else styled [.italic] line)
          else styleLine o.headingWords line
        (o.lead ++ shown) :: styleBodyFrom o inFence rest

/-- The lines styled and indented. -/
def styleBody (o : Options) (lines : List Text) : List Text := styleBodyFrom o false lines

/-- A text that is there and not empty. -/
def nonEmpty? (t : Option Text) : Option Text := t.filter (!·.isEmpty)

/-- The documentation as one text without a final newline, except that a title stands between
empty lines. -/
def page (o : Options) (lines : List Text) : Text :=
  let body := dropTailVoid (dropCommonIndent lines)
  let (description, body) :=
    match o.describeFromBody, body with
    | true, first :: rest => (some first, rest)
    | _, _ => (o.description, body)
  let shown := styleBody o body
  match nonEmpty? o.title, nonEmpty? description with
  | some title, description =>
      let heading := '\n' :: o.lead ++ styled [.bold, .underline] title
      let heading := match description with
        | some d => heading ++ " : " ++ d
        | none => heading
      Text.joinNewlines (heading :: shown ++ [[]])
  | none, some d => Text.joinNewlines ((o.lead ++ d) :: shown)
  | none, none => Text.joinNewlines shown

end ShellDocs.Render
