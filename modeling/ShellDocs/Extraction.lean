import ShellDocs.Traced

/-!
# Extraction of documentation

The documentation of a definition is what the blocks at the head of its body hold. A malformed
here-document is a failure; a body without blocks has no documentation, which is remarked.
-/

namespace ShellDocs.Definition

/-- The documentation of a definition. -/
def documentation (renderer : Text) (d : Definition) : Traced Docstring := do
  let scan := d.scan renderer
  Traced.notes (scan.notices.map .scan)
  match scan.malformed with
  | some fault => .fail (.malformedHereDoc fault)
  | none => do
      if !scan.docstring.found then Traced.note (.undocumented d.name)
      pure scan.docstring

end ShellDocs.Definition
