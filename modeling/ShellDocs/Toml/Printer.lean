import ShellDocs.Toml.Reader

/-!
# Writing values

Every value but `null` and an integer of too many digits has a written form: a text in double
quotes with its escapes, a list on one line, and a table inside a list as an inline table, in which
tables come last.
-/

namespace ShellDocs.Toml

/-- One character of a text in double quotes. -/
def writtenChar (c : Char) : Text :=
  if c = '\x22' ∨ c = '\x5c' then ['\x5c', c]
  else if c = '\x08' then ['\x5c', 'b']
  else if c = '\t' then ['\x5c', 't']
  else if c = '\n' then ['\x5c', 'n']
  else if c = '\x0c' then ['\x5c', 'f']
  else if c = '\r' then ['\x5c', 'r']
  else if c.toNat < 0x20 ∨ c.toNat = 0x7F then '\x5c' :: 'u' :: Text.hex 4 c.toNat
  else [c]

/-- A text in double quotes. -/
def writtenText (t : Text) : Text := '\x22' :: t.flatMap writtenChar ++ ['\x22']

/-- A key, in quotes unless it needs none. -/
def writtenKey (t : Text) : Text :=
  if !t.isEmpty && t.all isBareKeyChar then t else writtenText t

/-- A moment in its written form, where universal time is a `Z`. -/
def writtenMoment (d : Date) (t : Time) (offset : Option Int) : Text :=
  if offset = some 0 then momentDisplay 'T' d t none ++ "Z" else momentDisplay 'T' d t offset

/-- Whether an integer has more digits than are written. -/
def isLong (n : Int) : Bool := digitLimit < (Text.ofNat n.natAbs).length

/-- Whether a value is a table. -/
def Value.isTable : Value → Bool
  | .table _ => true
  | _ => false

/-- Whether a list is one of tables: it has items, and all are tables. -/
def isTableList (items : List Value) : Bool := !items.isEmpty && items.all Value.isTable

/-- Whether a value is written under headers of its own. -/
def Value.isHeaded : Value → Bool
  | .table _ => true
  | .list items => isTableList items
  | _ => false

/-- The entries of a table with the tables among them last. -/
def tablesLast (entries : List (α × Bool)) : List α :=
  (entries.filter (!·.2)).map Prod.fst ++ (entries.filter (·.2)).map Prod.fst

namespace Value

mutual

/-- The written form of a value that holds no `null` and no integer of too many digits. -/
def written? : Value → Option Text
  | .null => none
  | .bool true => some "true"
  | .bool false => some "false"
  | .int n => if isLong n then none else some (Text.ofInt n)
  | .float x => some x.text
  | .text t => some (writtenText t)
  | .date d => some d.display
  | .time t => some t.display
  | .moment d t offset => some (writtenMoment d t offset)
  | .list items => do
      let items ← writtenItems? items
      pure (("[" : Text) ++ Text.join ", " items ++ "]")
  | .table entries => do
      let entries ← writtenEntries? entries
      pure ('\x7b' :: Text.join ", " (tablesLast entries) ++ ['\x7d'])

/-- The written form of each value. -/
def writtenItems? : List Value → Option (List Text)
  | [] => some []
  | v :: vs => do
      let t ← written? v
      let ts ← writtenItems? vs
      pure (t :: ts)

/-- The written form of each entry, marked if it is a table. -/
def writtenEntries? : List (Text × Value) → Option (List (Text × Bool))
  | [] => some []
  | (key, v) :: rest => do
      let t ← written? v
      let ts ← writtenEntries? rest
      pure ((writtenKey key ++ " = " ++ t, v.isTable) :: ts)

end

mutual

/-- Whether a value holds an integer of too many digits. -/
def holdsLong : Value → Bool
  | .int n => isLong n
  | .list items => anyLong items
  | .table entries => anyLongEntry entries
  | _ => false

/-- Whether one of the values holds an integer of too many digits. -/
def anyLong : List Value → Bool
  | [] => false
  | v :: vs => holdsLong v || anyLong vs

/-- Whether one of the entries holds an integer of too many digits. -/
def anyLongEntry : List (Text × Value) → Bool
  | [] => false
  | (_, v) :: rest => holdsLong v || anyLongEntry rest

end

end Value

end ShellDocs.Toml
