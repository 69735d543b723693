import ShellDocs.Toml.Fault
import ShellDocs.Toml.Value

/-!
# Tables under construction

While a document is read, tables grow: a header opens one, a dotted key opens those along its
path, and a header in double brackets adds one to a list. An `Outline` is the state in between. It
knows of each table whether it is closed, that is, whether it may still be opened by a header or a
dotted key; values that were written out in place can never be added to.
-/

namespace ShellDocs.Toml

/-- What a key of a table under construction holds. -/
inductive Node where
  /-- A value written in place, to which nothing can be added. -/
  | value (v : Value)
  /-- A table; a closed one cannot be opened again. -/
  | table (closed : Bool) (entries : List (Text × Node))
  /-- A list of tables, of which the last is the one that grows. -/
  | tables (items : List (List (Text × Node)))

/-- The keys of a table under construction. -/
abbrev Outline := List (Text × Node)

namespace Outline

/-- The table with a key given another node in its place. -/
def replace (key : Text) (n : Node) : Outline → Outline
  | [] => []
  | e :: rest => if e.1 = key then (key, n) :: rest else e :: replace key n rest

/-- The refusal to add below a value; `closed` is the reason for a list or a table. -/
def refuse (closed : Reason) : Value → Reason
  | .list _ => closed
  | .table _ => closed
  | _ => .overwritten

/-- The outline with `change` made in the table at a path. Missing tables along the path are
created open, and a list of tables stands for its last one. A list or a table that is written in
place is refused for the reason `closed`. -/
def update (closed : Reason) (change : Outline → Except Reason Outline) :
    List Text → Outline → Except Reason Outline
  | [], o => change o
  | key :: path, o =>
      match o.lookup key with
      | none => do
          let sub ← update closed change path []
          pure (o ++ [(key, .table false sub)])
      | some (.table isClosed sub) => do
          let sub ← update closed change path sub
          pure (o.replace key (.table isClosed sub))
      | some (.tables items) =>
          match items.getLast? with
          | some last => do
              let last ← update closed change path last
              pure (o.replace key (.tables (items.dropLast ++ [last])))
          | none => .error .overwritten
      | some (.value v) => .error (refuse closed v)

/-- The node at a path; a list of tables on the way stands for its last one. -/
def node? : List Text → Outline → Option Node
  | [], _ => none
  | [key], o => o.lookup key
  | key :: next :: path, o =>
      match o.lookup key with
      | some (.table _ sub) => node? (next :: path) sub
      | some (.tables items) => node? (next :: path) (items.getLast?.getD [])
      | _ => none

/-- Whether the table at a path may not be opened by a dotted key. -/
def isClosedAt (path : List Text) (o : Outline) : Bool :=
  match node? path o with
  | some (.table closed _) => closed
  | some (.tables _) => true
  | _ => false

/-- The change at the last key of a path that has one. -/
def updateLast (closed : Reason) (path : List Text)
    (change : Text → Outline → Except Reason Outline) (o : Outline) : Except Reason Outline :=
  match path.getLast? with
  | some key => update closed (change key) path.dropLast o
  | none => .ok o

/-- The outline with a value added at a path, which must be new. -/
def insert (path : List Text) (v : Value) (o : Outline) : Except Reason Outline :=
  updateLast (.immutable path.dropLast) path (fun key sub =>
    if (sub.lookup key).isSome then .error .overwritten else .ok (sub ++ [(key, .value v)])) o

/-- The outline of an inline table with a value added at a path, which must be new. -/
def insertInline (path : List Text) (v : Value) (o : Outline) : Except Reason Outline :=
  updateLast (.immutable path) path (fun key sub =>
    match sub.lookup key with
    | none => .ok (sub ++ [(key, .value v)])
    | some (.value (.list _)) => .error (.immutable path)
    | some (.value (.table _)) => .error (.immutable path)
    | some _ => .error (.duplicateKey key)) o

/-- The outline with a table opened by a header, which closes it. -/
def openTable (path : List Text) (o : Outline) : Except Reason Outline :=
  updateLast (.declaredTwice path) path (fun key sub =>
    match sub.lookup key with
    | none => .ok (sub ++ [(key, .table true [])])
    | some (.table false entries) => .ok (sub.replace key (.table true entries))
    | some (.table true _) => .error (.declaredTwice path)
    | some (.tables _) => .error (.declaredTwice path)
    | some (.value (.list _)) => .error (.declaredTwice path)
    | some (.value (.table _)) => .error (.declaredTwice path)
    | some (.value _) => .error .overwritten) o

/-- The outline with another table added to a list of tables. -/
def openTables (path : List Text) (o : Outline) : Except Reason Outline :=
  updateLast (.immutable path) path (fun key sub =>
    match sub.lookup key with
    | none => .ok (sub ++ [(key, .tables [[]])])
    | some (.tables items) => .ok (sub.replace key (.tables (items ++ [[]])))
    | some (.table _ _) => .error .overwritten
    | some (.value v) => .error (refuse (.immutable path) v)) o

/-- The outline with the table at a path closed, if there is one. -/
def close (path : List Text) (o : Outline) : Outline :=
  let closed := updateLast .overwritten path (fun key sub =>
    match sub.lookup key with
    | some (.table _ entries) => .ok (sub.replace key (.table true entries))
    | _ => .ok sub) o
  match closed with
  | .ok o => o
  | .error _ => o

end Outline

mutual

/-- The finished value of a node. -/
def Node.finish : Node → Value
  | .value v => v
  | .table _ entries => .table (finishEntries entries)
  | .tables items => .list (finishItems items)

/-- The finished entries of a table. -/
def finishEntries : List (Text × Node) → List (Text × Value)
  | [] => []
  | (key, n) :: rest => (key, n.finish) :: finishEntries rest

/-- The finished tables of a list. -/
def finishItems : List (List (Text × Node)) → List Value
  | [] => []
  | entries :: rest => .table (finishEntries entries) :: finishItems rest

end

end ShellDocs.Toml
