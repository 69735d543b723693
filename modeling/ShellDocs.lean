import ShellDocs.Block.Basic
import ShellDocs.Block.Opening
import ShellDocs.Block.Scan
import ShellDocs.Catalog
import ShellDocs.Command.Arguments
import ShellDocs.Command.Collect
import ShellDocs.Command.Help
import ShellDocs.Command.Run
import ShellDocs.Config.Basic
import ShellDocs.Config.Store
import ShellDocs.Decimal.Binary64
import ShellDocs.Decimal.Shortest
import ShellDocs.Definition
import ShellDocs.Docstring
import ShellDocs.Environment
import ShellDocs.Extraction
import ShellDocs.Failure
import ShellDocs.Files.Disk
import ShellDocs.Files.Glob
import ShellDocs.Files.Path
import ShellDocs.Files.Resolve
import ShellDocs.Files.Tree
import ShellDocs.Files.User
import ShellDocs.Main
import ShellDocs.Proofs.Association
import ShellDocs.Proofs.Block.Announcement
import ShellDocs.Proofs.Block.Continuation
import ShellDocs.Proofs.Block.DocLines
import ShellDocs.Proofs.Block.Escape
import ShellDocs.Proofs.Block.Independence
import ShellDocs.Proofs.Block.LastStatement
import ShellDocs.Proofs.Block.Malformed
import ShellDocs.Proofs.Block.Opening
import ShellDocs.Proofs.Block.Piecewise
import ShellDocs.Proofs.Block.Reads
import ShellDocs.Proofs.Block.Recognition
import ShellDocs.Proofs.Block.RoundTrip
import ShellDocs.Proofs.Block.Scanned
import ShellDocs.Proofs.Block.Semicolon
import ShellDocs.Proofs.Block.Tiling
import ShellDocs.Proofs.Block.Truncation
import ShellDocs.Proofs.Block.Verbatim
import ShellDocs.Proofs.Block.Written
import ShellDocs.Proofs.Catalog
import ShellDocs.Proofs.Catalog.Reread
import ShellDocs.Proofs.Catalog.Script
import ShellDocs.Proofs.Command.Documented
import ShellDocs.Proofs.Command.Lookup
import ShellDocs.Proofs.Command.NewConfig
import ShellDocs.Proofs.Command.Outcome
import ShellDocs.Proofs.Command.Words
import ShellDocs.Proofs.Config.Accepted
import ShellDocs.Proofs.Config.Loading
import ShellDocs.Proofs.Config.RoundTrip
import ShellDocs.Proofs.Config.Saving
import ShellDocs.Proofs.Docstring
import ShellDocs.Proofs.Files.Disk
import ShellDocs.Proofs.Files.Names
import ShellDocs.Proofs.Files.Plain
import ShellDocs.Proofs.Files.Replaced
import ShellDocs.Proofs.Files.Resolution
import ShellDocs.Proofs.Files.Settled
import ShellDocs.Proofs.Files.Spelling
import ShellDocs.Proofs.Files.Tree
import ShellDocs.Proofs.Files.Unlinked
import ShellDocs.Proofs.Files.Walk
import ShellDocs.Proofs.Glob.Covers
import ShellDocs.Proofs.Glob.Cut
import ShellDocs.Proofs.Glob.Match
import ShellDocs.Proofs.Glob.Order
import ShellDocs.Proofs.Glob.Reached
import ShellDocs.Proofs.Library
import ShellDocs.Proofs.Printout
import ShellDocs.Proofs.Provider
import ShellDocs.Proofs.Reference.Lookup
import ShellDocs.Proofs.Reference.Outcome
import ShellDocs.Proofs.Reference.Written
import ShellDocs.Proofs.Render.Adorned
import ShellDocs.Proofs.Render.CommonIndent
import ShellDocs.Proofs.Render.Fence
import ShellDocs.Proofs.Render.Indentation
import ShellDocs.Proofs.Render.InlineCode
import ShellDocs.Proofs.Render.StyledLine
import ShellDocs.Proofs.Text.Lines
import ShellDocs.Proofs.Text.Order
import ShellDocs.Proofs.Text.Utf8
import ShellDocs.Proofs.Toml.Layout
import ShellDocs.Proofs.Toml.Library
import ShellDocs.Proofs.Toml.Lines
import ShellDocs.Proofs.Toml.Meaning
import ShellDocs.Proofs.Toml.Outline
import ShellDocs.Proofs.Toml.Setting
import ShellDocs.Proofs.Toml.Written
import ShellDocs.Proofs.Traced
import ShellDocs.Provider
import ShellDocs.Reference
import ShellDocs.Render.Page
import ShellDocs.Render.Style
import ShellDocs.Text.Basic
import ShellDocs.Text.Cells
import ShellDocs.Text.Digit
import ShellDocs.Text.Quoted
import ShellDocs.Text.Space
import ShellDocs.Text.Utf8
import ShellDocs.Text.Word
import ShellDocs.Text.Wrap
import ShellDocs.Toml.Document
import ShellDocs.Toml.Edit
import ShellDocs.Toml.Fault
import ShellDocs.Toml.Layout
import ShellDocs.Toml.Library
import ShellDocs.Toml.Outline
import ShellDocs.Toml.Printer
import ShellDocs.Toml.Reader
import ShellDocs.Toml.Scalar
import ShellDocs.Toml.Tidy
import ShellDocs.Toml.Tolerant
import ShellDocs.Toml.Value
import ShellDocs.Traced
