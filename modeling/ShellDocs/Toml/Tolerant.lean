import ShellDocs.Text.Digit
import ShellDocs.Toml.Scalar

/-!
# Numbers, dates and times read tolerantly

A document that is only to be edited need not be read as strictly as one whose values are used. A
scalar is then everything up to the next blank, newline, comment, comma or closing bracket. It may
have the digits of any script and white space of any kind after it, a signed infinity may be
spelled out, and a year may have any number of digits.
-/

namespace ShellDocs.Toml

/-- The characters that end a scalar. -/
def endsScalar (c : Char) : Bool :=
  isGap c || c == '\r' || c == '#' || c == ',' || c == ']' || c == '\x7d'

/-- The text without the underscores that stand between two digits. -/
def dropUnderscores (isDigit : Char → Bool) : Text → Text
  | c :: '_' :: d :: rest =>
      if isDigit c && isDigit d then c :: dropUnderscores isDigit (d :: rest)
      else c :: '_' :: dropUnderscores isDigit (d :: rest)
  | c :: rest => c :: dropUnderscores isDigit rest
  | [] => []

/-- A decimal without needless zeros in front and with a digit after its point. -/
def regular (t : Text) : Text :=
  let rest := t.dropWhile (· == '0')
  let rest := if rest.length < t.length && !rest.head?.any Char.isDigit then '0' :: rest else rest
  if rest.getLast? == some '.' then rest ++ ['0'] else rest

/-- The value of a number in ASCII digits and lower-case letters, without its sign. -/
def plainNumber? (negative signed : Bool) (t : Text) : Option Value :=
  match basedNumber? t with
  | some (v, rest) => if rest.isEmpty && !signed then some v else none
  | none =>
      let t := regular t
      let whole := if negative then '-' :: t else if signed then '+' :: t else t
      if t == "infinity".toList && signed then some (.float (.infinite negative))
      else
        match decimalNumber? whole <|> namedFloat? whole with
        | some (v, rest) =>
            match rest, limited whole (v, rest) with
            | [], .ok (v, _) => some v
            | _, _ => none
        | none => none

/-- Whether the digits of a number are placed as they may be: no zero stands in front of another
digit, and a point stands between digits. -/
def isWellPlaced (signed : Bool) (t : Text) : Bool :=
  let leadingZero := match t with
    | '0' :: c :: _ => !(['.', 'o', 'x', 'b', 'e'].contains c)
    | _ => false
  let leadingPoint := signed && t.head? == some '.'
  let mantissa := if t.take 2 == ['0', 'x'] then [] else t.takeWhile fun c => c != 'e' && c != 'E'
  !leadingZero && !leadingPoint && t.getLast? != some '.' && mantissa.getLast? != some '.'

/-- The value of a number that is written with a sign or starts with a digit. -/
def tolerantNumber? (t : Text) : Option Value :=
  let (negative, body) := signOf t
  let signed := body.length < t.length
  if !isWellPlaced signed body then none
  else
    let isDigit := match body with
      | '0' :: 'b' :: _ => fun c => c == '0' || c == '1'
      | '0' :: 'o' :: _ => fun c => '0' ≤ c && c ≤ '7'
      | '0' :: 'x' :: _ => isHexDigit
      | _ => Char.isDigit
    let clean := (dropUnderscores isDigit body).map Char.toLower
    if clean.contains '_' then none
    else plainNumber? negative signed (Text.plainDigits (Text.dropTail Text.isNumberSpace clean))

/-- A date that the calendar has. -/
def tolerantDate? (t : Text) : Option (Date × Text) := do
  let year := t.takeWhile Char.isDigit
  let (date, rest) ← dateIn? (numberOf 10 year) (t.dropWhile Char.isDigit)
  if year.isEmpty || 9999 < date.year || !date.isValid then none else pure (date, rest)

/-- A whole text as a date with a time. -/
def wholeMoment? (t : Text) : Option Value := do
  let (date, rest) ← tolerantDate? t
  let ((time, offset), rest) ← timeAfterDate? rest
  if rest.isEmpty then pure (.moment date time offset) else none

/-- A whole text as a time of day. -/
def wholeTime? (t : Text) : Option Value := do
  let (time, rest) ← time? t
  if rest.isEmpty then pure (.time time) else none

/-- A date alone, or with a time after a blank; `rest` is the text after the date. White space of
any kind but tabs and newlines is read with it. -/
def dateThenTime (t : Text) (date : Date) (rest : Text) : Except Fault (Value × Text) :=
  let more := rest.takeWhile fun c => c == ' ' || !endsScalar c
  let time := Text.stripEnd more
  let after := rest.drop more.length
  if time.isEmpty then .ok (.date date, after)
  else
    match wholeMoment? (Text.consumed t rest ++ time) with
    | some v => .ok (v, after)
    | none => .error ⟨.date, t⟩

/-- A number, a date, a time or a named floating-point value. -/
def tolerantScalar (t : Text) : Except Fault (Value × Text) :=
  let token := t.takeWhile (!endsScalar ·)
  let rest := t.drop token.length
  let found (v : Option Value) : Except Fault (Value × Text) :=
    match v with
    | some v => .ok (v, rest)
    | none => .error ⟨.value, t⟩
  match token with
  | [] => .error ⟨.value, t⟩
  | c :: _ =>
      if c = '+' ∨ c = '-' then found (tolerantNumber? token)
      else if token = "inf".toList ∨ token = "nan".toList then
        found ((namedFloat? token).map Prod.fst)
      else if c.isDigit then
        match tolerantDate? token with
        | some (date, []) => dateThenTime t date rest
        | _ => found (wholeMoment? token <|> wholeTime? token <|> tolerantNumber? token)
      else .error ⟨.value, t⟩

end ShellDocs.Toml
