import ShellDocs.Failure
import ShellDocs.Toml.Edit

/-!
# TOML libraries

A configuration is read by one library and edited by another. What the program asks of the two is a
`Library`: a reader of tables, and documents that can be parsed, changed key by key and written
again. `builtin` is the one of this project.
-/

namespace ShellDocs.Toml

/-- Why a text is not read as a table: it is not TOML, or the reader ends for another cause. -/
inductive Refusal where
  | malformed (document : Text) (fault : Fault)
  | other (cause : Escape)

/-- A reader of tables and an editor of documents. -/
structure Library where
  /-- The table that a text describes. -/
  read : Text → Except Refusal Table
  /-- Documents as they are edited. -/
  Document : Type
  /-- The document that a text writes. -/
  parse : Text → Except Escape Document
  /-- The document that a new file starts with. -/
  fresh : Document
  /-- The document with a top-level key set to a value. -/
  assign : Document → Text → Value → Except Escape Document
  /-- The text of a document. -/
  dump : Document → Text

namespace Library

/-- The document with several keys set, in order. -/
def assignAll (lib : Library) (doc : lib.Document) (entries : Table) :
    Except Escape lib.Document :=
  entries.foldlM (fun doc e => lib.assign doc e.1 e.2) doc

end Library

/-- Why a text is not read as a table. Limits of the reader are no faults of form. -/
def refusal (document : Text) (fault : Fault) : Refusal :=
  match fault.reason with
  | .tooManyDigits => .other .longNumber
  | .tooDeep => .other .deepNesting
  | _ => .malformed document fault

/-- The table that a text describes, once its line ends are joined. -/
def readText (t : Text) : Except Refusal Table :=
  let document := Text.joinCarriageReturns t
  (tableOf document).mapError (refusal document)

/-- The comment that a new file starts with. -/
def newLayout : Layout := [.comment "# docsh configuration\n"]

/-- The layout of a text, which must describe a table. -/
def layoutOf (t : Text) : Except Escape Layout :=
  match read .tolerant t with
  | .ok (document, _) => .ok (Layout.ofDocument document)
  | .error _ => .error .uneditable

/-- The layout with a top-level key set to a value. A value without a written form holds an integer
of too many digits, or else nothing that a file can hold. -/
def Layout.assign (l : Layout) (key : Text) (v : Value) : Except Escape Layout :=
  match l.set? key v with
  | some m => .ok m
  | none => .error (if v.holdsLong then .longNumber else .uneditable)

/-- The reader and the editor of this project. -/
def Library.builtin : Library where
  read := readText
  Document := Layout
  parse := layoutOf
  fresh := newLayout
  assign := Layout.assign
  dump := Layout.text

end ShellDocs.Toml
