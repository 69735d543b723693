import ShellDocs.Block.Opening
import ShellDocs.Docstring

/-!
# Scanning a body for documentation

The scan reads blocks from the head of a body: blank lines between blocks are skipped, and the
first line that starts no block ends the scan. Besides the blocks it records what a reader would
want to know, as `Notice`s, and it fails only on a malformed here-document, with the blocks read
before it kept.
-/

namespace ShellDocs.Block

/-- What the scan remarks. Lines are counted from one, the signature being the first. -/
inductive Notice where
  | guardSkipped (line : Text)
  | stopped (number : Nat) (line : Text)
  | hereDocOpen (marker : Text)
  | quoteOpen
  deriving DecidableEq, Repr

/-- A here-document without a readable marker, with the number of its line. -/
structure Malformed where
  line : Text
  number : Nat
  deriving DecidableEq, Repr

/-- The lines up to the marker, the lines after it, and whether the marker was there. -/
def takeHereDoc (marker : Text) : List Text → List Text × List Text × Bool
  | [] => ([], [], false)
  | line :: rest =>
      if Text.skipBlanks line = marker then ([], rest, true)
      else
        let (body, after, closed) := takeHereDoc marker rest
        (line :: body, after, closed)

/-- Whether a line ends a string: the quote and a semicolon end it, and on the last line of a
body the quote alone. -/
def closes (quote : Quote) (last : Bool) (line : Text) : Bool :=
  let content := Text.dropTailBlanks line
  Text.endsIn [quote.char, ';'] content || (last && Text.endsIn [quote.char] content)

/-- A line that ends a string, without the quote and what follows it. -/
def cutClosing (quote : Quote) (line : Text) : Text :=
  let content := Text.dropTailBlanks line
  if Text.endsIn [quote.char, ';'] content then content.dropLast.dropLast else content.dropLast

/-- The lines of a string up to the one that ends it, the lines after it, and whether there was
one that ends it. -/
def takeQuoted (quote : Quote) : List Text → List Text × List Text × Bool
  | [] => ([], [], false)
  | line :: rest =>
      if closes quote rest.isEmpty line then ([cutClosing quote line], rest, true)
      else
        let (body, after, closed) := takeQuoted quote rest
        (line :: body, after, closed)

/-- A block read off the head of some lines, the lines after it, and what was remarked. -/
structure Reading where
  block : Block
  rest : List Text
  notices : List Notice

/-- The here-document whose first line was read; one without its marker takes all lines. -/
def readHereDoc (marker : Text) (lines : List Text) : Reading :=
  let (body, rest, closed) := takeHereDoc marker lines
  ⟨.hereDoc marker body, rest, if closed then [] else [.hereDocOpen marker]⟩

/-- The quoted block that starts with `first` after its quote; one that is never closed takes
all lines. -/
def readQuoted (quote : Quote) (first : Text) (lines : List Text) : Reading :=
  if closes quote lines.isEmpty first then
    ⟨.quoted quote (unquote quote (cutClosing quote first)) false, lines, []⟩
  else
    let (body, rest, closed) := takeQuoted quote lines
    let text := Text.joinNewlines ((first :: body).map (unquote quote))
    ⟨.quoted quote text true, rest, if closed then [] else [.quoteOpen]⟩

/-- The blocks found, what was remarked, and the malformed line that ended the scan, if any. -/
structure Scan where
  blocks : List Block
  notices : List Notice
  malformed : Option Malformed
  deriving Repr

theorem takeHereDoc_rest_length (marker : Text) (lines : List Text) :
    (takeHereDoc marker lines).2.1.length ≤ lines.length := by
  induction lines with
  | nil => simp [takeHereDoc]
  | cons line rest ih =>
      by_cases h : Text.skipBlanks line = marker
      · simp [takeHereDoc, h]
      · simp only [takeHereDoc, h, if_false, List.length_cons]
        exact Nat.le_succ_of_le ih

theorem takeQuoted_rest_length (quote : Quote) (lines : List Text) :
    (takeQuoted quote lines).2.1.length ≤ lines.length := by
  induction lines with
  | nil => simp [takeQuoted]
  | cons line rest ih =>
      by_cases h : closes quote rest.isEmpty line
      · simp [takeQuoted, h]
      · simp only [takeQuoted, h, Bool.false_eq_true, if_false, List.length_cons]
        exact Nat.le_succ_of_le ih

theorem readHereDoc_rest_length (marker : Text) (lines : List Text) :
    (readHereDoc marker lines).rest.length ≤ lines.length :=
  takeHereDoc_rest_length marker lines

theorem readQuoted_rest_length (quote : Quote) (first : Text) (lines : List Text) :
    (readQuoted quote first lines).rest.length ≤ lines.length := by
  unfold readQuoted
  split
  · exact Nat.le_refl _
  · exact takeQuoted_rest_length quote lines

/-- The scan of `lines`, of which the first has the given number. -/
def scanFrom (renderer : Text) (number : Nat) (lines : List Text) : Scan :=
  match lines with
  | [] => ⟨[], [], none⟩
  | line :: rest =>
      if Text.isVoid line then scanFrom renderer (number + 1) rest
      else
        let continued (r : Reading) (tail : Scan) : Scan :=
          ⟨r.block :: tail.blocks, r.notices ++ tail.notices, tail.malformed⟩
        match Opening.of? renderer rest.isEmpty line with
        | none => ⟨[], [.stopped number (Text.strip line)], none⟩
        | some .malformed => ⟨[], [], some ⟨line, number⟩⟩
        | some (.plain text) =>
            continued ⟨.plain text, rest, []⟩ (scanFrom renderer (number + 1) rest)
        | some (.hereDoc marker) =>
            let r := readHereDoc marker rest
            continued r (scanFrom renderer (number + 1 + (rest.length - r.rest.length)) r.rest)
        | some (.quoted quote first) =>
            let r := readQuoted quote first rest
            continued r (scanFrom renderer (number + 1 + (rest.length - r.rest.length)) r.rest)
termination_by lines.length
decreasing_by
  · simp
  · simp
  · have := readHereDoc_rest_length marker rest
    simp only [List.length_cons]
    omega
  · have := readQuoted_rest_length quote first rest
    simp only [List.length_cons]
    omega

/-- The scan of a body, which starts on the third line of its definition and may begin with a
guard. -/
def scanBody (renderer : Text) (body : List Text) : Scan :=
  match body with
  | line :: rest =>
      if isGuard line then
        let tail := scanFrom renderer 4 rest
        { tail with notices := .guardSkipped (Text.strip line) :: tail.notices }
      else scanFrom renderer 3 body
  | [] => scanFrom renderer 3 []

/-- The documentation in the blocks of a scan. -/
def Scan.docstring (s : Scan) : Docstring := ⟨s.blocks.flatMap docLines⟩

end ShellDocs.Block

namespace ShellDocs.Definition

/-- The scan of a definition; `renderer` is the command whose quoted argument is documentation
too. -/
def scan (renderer : Text) (d : Definition) : Block.Scan := Block.scanBody renderer d.body

end ShellDocs.Definition
