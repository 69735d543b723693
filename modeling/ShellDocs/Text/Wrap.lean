import ShellDocs.Text.Cells

/-!
# Wrapping to a width

Text printed for a terminal is broken into lines of a given number of cells. A word keeps the
white space after it; a line ends before the word that does not fit, and a word wider than a
whole line is cut at the width. White space that would stand beyond the width is dropped.
-/

namespace ShellDocs.Text

/-- The words of a line, each with the white space around it: the first one with what stands
before it, and every one with what follows. White space alone is no word. -/
def words (t : Text) : List Text :=
  go t.length t
where
  /-- The words of `t`, which has at most `fuel` of them. -/
  go : Nat → Text → List Text
    | 0, _ => []
    | fuel + 1, t =>
        let lead := t.takeWhile isSpace
        let rest := t.dropWhile isSpace
        let body := rest.takeWhile (!isSpace ·)
        let gap := (rest.dropWhile (!isSpace ·)).takeWhile isSpace
        let tail := (rest.dropWhile (!isSpace ·)).dropWhile isSpace
        if body.isEmpty then [] else (lead ++ body ++ gap) :: go fuel tail

/-- The text cut between its clusters into pieces that fit `limit` cells each. -/
def chop (limit : Nat) (t : Text) : List Text :=
  go [] 0 (clusters t)
where
  /-- The pieces when `piece` is read already and takes `used` cells. -/
  go (piece : Text) (used : Nat) : List Cluster → List Text
    | [] => [piece]
    | k :: ks =>
        if used + k.cells > limit then piece :: go k.text k.cells ks
        else go (piece ++ k.text) (used + k.cells) ks

/-- The words placed on lines of `limit` cells; `line` is the line begun so far, which takes
`used` cells, and `lead` tells that nothing was placed yet. -/
def placeWords (limit : Nat) (lead : Bool) (line : Text) (used : Nat) : List Text → List Text
  | [] => [line]
  | w :: ws =>
      let size := width (stripEnd w)
      if used + size ≤ limit then placeWords limit false (line ++ w) (used + width w) ws
      else if limit < size then
        let pieces := if lead then (chop limit w).dropWhile List.isEmpty else chop limit w
        let last := pieces.getLast?.getD []
        let done := if lead then [] else [line]
        done ++ pieces.dropLast ++ placeWords limit false last (width last) ws
      else if used ≠ 0 ∧ !lead then line :: placeWords limit false w (width w) ws
      else placeWords limit false (line ++ w) used ws

/-- A line without the trailing white space that stands beyond `limit` characters. -/
def dropExcessSpace (limit : Nat) (line : Text) : Text :=
  let excess := line.length - limit
  let spaces := (line.reverse.takeWhile isSpace).length
  line.take (line.length - min spaces excess)

/-- The longest beginning of a line that fits `limit` cells, filled with a blank when the cut
splits a wide character. -/
def truncate (limit : Nat) (line : Text) : Text :=
  if width line ≤ limit then line else go 0 (clusters line)
where
  /-- The part that fits when `used` cells are taken already. -/
  go (used : Nat) : List Cluster → Text
    | [] => []
    | k :: ks =>
        if used + k.cells ≤ limit then k.text ++ go (used + k.cells) ks
        else List.replicate (limit - used) ' '

/-- A line with its tabs turned into blanks, each reaching to the next multiple of eight
cells. -/
def expandTabs (t : Text) : Text :=
  go 0 (fields '\t' t)
where
  /-- The pieces between the tabs, the first of which stands `column` cells from the start. -/
  go (column : Nat) : List Text → Text
    | [] => []
    | [piece] => piece
    | piece :: rest =>
        let piece := piece ++ [' ']
        let reached := column + width piece
        let gap := (8 - reached % 8) % 8
        piece ++ List.replicate gap ' ' ++ go (reached + gap) rest

/-- One line broken into lines of at most `limit` cells. -/
def wrapLine (limit : Nat) (line : Text) : List Text :=
  let line := expandTabs line
  let placed := match words line with
    | [] => [line]
    | ws => placeWords limit true [] 0 ws
  placed.map fun l => truncate limit (dropExcessSpace limit l)

/-- The characters that a terminal message leaves out: bell, backspace, vertical tab, form feed
and carriage return. -/
def isTerminalControl (c : Char) : Bool :=
  let n := c.toNat
  n == 7 || n == 8 || n == 11 || n == 12 || n == 13

/-- A message as printed on a terminal of `limit` cells, with a newline after each of its lines.
Nothing can be shown on a terminal without cells. -/
def wrap (limit : Nat) (message : Text) : Text :=
  if limit = 0 then []
  else
    let shown := message.filter (!isTerminalControl ·)
    ((splitNewlines shown).flatMap (wrapLine limit)).flatMap (· ++ ['\n'])

end ShellDocs.Text
