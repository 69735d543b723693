import ShellDocs.Decimal.Shortest
import ShellDocs.Text.Quoted

/-!
# Values of a configuration file

The values of the TOML format, with `null` for a value that is given and empty. `Value.literal`
shows a value in messages as a literal; `Value.display` does the same but leaves a text and a date
as they are.
-/

namespace ShellDocs.Toml

/-- A day of the calendar. -/
structure Date where
  year : Nat
  month : Nat
  day : Nat
  deriving DecidableEq, Repr

/-- A time of day, exact to the microsecond. -/
structure Time where
  hour : Nat
  minute : Nat
  second : Nat
  micros : Nat
  deriving DecidableEq, Repr

/-- A value of a configuration file. A table keeps the order in which its keys were given. -/
inductive Value where
  | null
  | bool (b : Bool)
  | int (n : Int)
  | float (x : Binary64)
  | text (t : Text)
  | date (d : Date)
  | time (t : Time)
  /-- A date with a time, and the offset from universal time in minutes if it is known. -/
  | moment (d : Date) (t : Time) (offset : Option Int)
  | list (items : List Value)
  | table (entries : List (Text × Value))
  deriving Repr, Inhabited

/-- A table's keys with their values. -/
abbrev Table := List (Text × Value)

/-- The parts of a time in a literal; microseconds, and seconds before them, are left out when
they are zero. -/
def Time.literalParts (t : Time) : List Nat :=
  [t.hour, t.minute] ++
    (if t.micros ≠ 0 then [t.second, t.micros] else if t.second ≠ 0 then [t.second] else [])

/-- Numbers separated by commas. -/
def commaNumbers (ns : List Nat) : Text := Text.join ", " (ns.map Text.ofNat)

/-- An offset of some minutes as a literal; one before universal time counts from the day
before. -/
def offsetLiteral (minutes : Int) : Text :=
  if minutes = 0 then "datetime.timezone.utc"
  else
    let days : Text := if minutes < 0 then "days=-1, " else []
    let seconds := (if minutes < 0 then minutes + 1440 else minutes) * 60
    ("datetime.timezone(datetime.timedelta(" : Text) ++ days ++ "seconds=" ++
      Text.ofInt seconds ++ "))"

/-- A date as a literal. -/
def Date.parts (d : Date) : List Nat := [d.year, d.month, d.day]

/-- A moment as a literal. -/
def momentLiteral (d : Date) (t : Time) (offset : Option Int) : Text :=
  let zone : Text := match offset with
    | some minutes => (", tzinfo=" : Text) ++ offsetLiteral minutes
    | none => []
  ("datetime.datetime(" : Text) ++ commaNumbers (d.parts ++ t.literalParts) ++ zone ++ ")"

/-- The date with dashes. -/
def Date.display (d : Date) : Text :=
  Text.padZeros 4 (Text.ofNat d.year) ++ "-" ++ Text.padZeros 2 (Text.ofNat d.month) ++ "-" ++
    Text.padZeros 2 (Text.ofNat d.day)

/-- The time with colons. -/
def Time.display (t : Time) : Text :=
  let micros : Text :=
    if t.micros = 0 then [] else '.' :: Text.padZeros 6 (Text.ofNat t.micros)
  Text.padZeros 2 (Text.ofNat t.hour) ++ ":" ++ Text.padZeros 2 (Text.ofNat t.minute) ++ ":" ++
    Text.padZeros 2 (Text.ofNat t.second) ++ micros

/-- The offset with a sign, hours and minutes. -/
def offsetDisplay (minutes : Int) : Text :=
  let size := minutes.natAbs
  (if minutes < 0 then '-' else '+') :: Text.padZeros 2 (Text.ofNat (size / 60)) ++ ":" ++
    Text.padZeros 2 (Text.ofNat (size % 60))

/-- The moment with `divider` between date and time. -/
def momentDisplay (divider : Char) (d : Date) (t : Time) (offset : Option Int) : Text :=
  d.display ++ divider :: t.display ++ (offset.map offsetDisplay).getD []

namespace Value

mutual

/-- The value as a literal. -/
def literal : Value → Text
  | .null => "None"
  | .bool true => "True"
  | .bool false => "False"
  | .int n => Text.ofInt n
  | .float x => x.text
  | .text t => Text.quoted t
  | .date d => ("datetime.date(" : Text) ++ commaNumbers d.parts ++ ")"
  | .time t => ("datetime.time(" : Text) ++ commaNumbers t.literalParts ++ ")"
  | .moment d t offset => momentLiteral d t offset
  | .list items => ("[" : Text) ++ Text.join ", " (literals items) ++ "]"
  | .table entries => '\x7b' :: Text.join ", " (entryLiterals entries) ++ ['\x7d']

/-- Each of the values as a literal. -/
def literals : List Value → List Text
  | [] => []
  | v :: vs => literal v :: literals vs

/-- Each key with its value as literals. -/
def entryLiterals : List (Text × Value) → List Text
  | [] => []
  | (key, v) :: rest => (Text.quoted key ++ ": " ++ literal v) :: entryLiterals rest

end

/-- The value as it stands in running text. -/
def display : Value → Text
  | .text t => t
  | .date d => d.display
  | .time t => t.display
  | .moment d t offset => momentDisplay ' ' d t offset
  | v => literal v

/-- The members of a value that has any: the items of a list, the keys of a table and the
characters of a text. -/
def members? : Value → Option (List Value)
  | .list items => some items
  | .table entries => some (entries.map fun e => .text e.1)
  | .text t => some (t.map fun c => .text [c])
  | _ => none

/-- The text that a value is. -/
def text? : Value → Option Text
  | .text t => some t
  | _ => none

end Value

end ShellDocs.Toml
