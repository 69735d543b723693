import ShellDocs.Text.Digit

/-!
# Environment variables

The variables that the program reads: where the configuration is, whether colors are forbidden,
and how wide the terminal is.
-/

namespace ShellDocs

/-- The variables that are set, with their values. -/
abbrev Environment := List (Text × Text)

namespace Environment

/-- The value of a variable that is set and not empty. -/
def value? (e : Environment) (name : Text) : Option Text :=
  (e.lookup name).filter (!·.isEmpty)

/-- The configuration file that the environment names. -/
def configFile? (e : Environment) : Option Text := e.value? "DOCSH_CONFIG"

/-- Whether the environment forbids colors. -/
def forbidsColor (e : Environment) : Bool := (e.value? "NO_COLOR").isSome

/-- The width of the terminal in cells: a number in decimal digits, or else eighty. -/
def columns (e : Environment) : Nat :=
  match e.value? "COLUMNS" with
  | some t =>
      if t.all fun c => (Text.digit? c).isSome then Text.decimal (Text.plainDigits t) else 80
  | none => 80

end Environment

end ShellDocs
