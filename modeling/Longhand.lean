import Longhand.Json.Printer
import Longhand.Json.Reader
import Longhand.Value.Merge
import Longhand.Pointer
import Longhand.KeyPath.Expand
import Longhand.Namespace
import Longhand.Schema
import Longhand.Settings.Reader
import Longhand.Compile
import Longhand.Context.Describe
import Longhand.CommandLine.Run
import Longhand.Main
import Longhand.Proofs.Chain
import Longhand.Proofs.Outcome
import Longhand.Proofs.Value.Merge
import Longhand.Proofs.Value.Related
import Longhand.Proofs.Value.Overlay
import Longhand.Proofs.Value.Reordered
import Longhand.Proofs.Value.Layers
import Longhand.Proofs.KeyPath.LastWrite
import Longhand.Proofs.KeyPath.Plain
import Longhand.Proofs.KeyPath.Overwrite
import Longhand.Proofs.KeyPath.Strict
import Longhand.Proofs.KeyPath.Order
import Longhand.Proofs.Unchanged
import Longhand.Proofs.Fragment.Substitution
import Longhand.Proofs.Fragment.Alike
import Longhand.Proofs.Fragment.Failure
import Longhand.Proofs.Fragment.Cycle
import Longhand.Proofs.Schema.Structure
import Longhand.Proofs.Schema.Alike
import Longhand.Proofs.Definition.Substitution
import Longhand.Proofs.Definition.Idempotence
import Longhand.Proofs.Definition.Failure
import Longhand.Proofs.Definition.Cycle
import Longhand.Proofs.Definition.Sources
import Longhand.Proofs.Unreferenced
import Longhand.Proofs.Depth
import Longhand.Proofs.Compile.Expanded
import Longhand.Proofs.Compile.Idempotence
import Longhand.Proofs.Compile.Respelling
import Longhand.Proofs.Compile.Unreferenced
import Longhand.Proofs.Compile.Depth
import Longhand.Proofs.Compile.Filtered
import Longhand.Proofs.Compile.Additions
import Longhand.Proofs.Namespace.Rank
import Longhand.Proofs.Pointer
import Longhand.Proofs.Schema.Located
import Longhand.Proofs.Schema.Positions
import Longhand.Proofs.Schema.Idempotence
import Longhand.Proofs.Plugin
import Longhand.Proofs.CommandLine.Override
import Longhand.Proofs.Files.Path
import Longhand.Proofs.Files.Library
import Longhand.Proofs.Files.Identity
import Longhand.Proofs.Json.Cursor
import Longhand.Proofs.Json.Number
import Longhand.Proofs.Json.Text
import Longhand.Proofs.Json.Parts
import Longhand.Proofs.Json.Reading
import Longhand.Proofs.Json.Spelling
import Longhand.Proofs.Json.Writing
import Longhand.Proofs.Settings.Reading
import Longhand.Proofs.Branch
import Longhand.Proofs.Fragment.Branches
import Longhand.Proofs.Definition.Branches
import Longhand.Proofs.Schema.Routes
import Longhand.Proofs.KeyPath.Written
import Longhand.Proofs.KeyPath.Spelling
import Longhand.Proofs.KeyPath.Idempotence
import Longhand.Proofs.KeyPath.KeyOrder
import Longhand.Proofs.KeyPath.Clash
