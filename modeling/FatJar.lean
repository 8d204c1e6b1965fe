/-
FatJar — merging archives into one executable archive.
-/
import FatJar.Archive.Basic
import FatJar.Archive.Source
import FatJar.Bundle.Bundler
import FatJar.Bundle.Error
import FatJar.Bundle.Event
import FatJar.Bundle.Merge
import FatJar.Bundle.Options
import FatJar.Bundle.Policy
import FatJar.Bundle.Pool
import FatJar.Bundle.Reading
import FatJar.Bundle.Writing
import FatJar.Command.Arguments
import FatJar.Command.Bundle
import FatJar.Command.Failure
import FatJar.Command.Footprint
import FatJar.Command.Help
import FatJar.Command.Inspect
import FatJar.Command.Parameter
import FatJar.Command.Run
import FatJar.Command.Style
import FatJar.Digest
import FatJar.FileTree.Basic
import FatJar.FileTree.Change
import FatJar.FileTree.Path
import FatJar.Glob.Match
import FatJar.Glob.Pattern
import FatJar.Log.Directive
import FatJar.Log.Filter
import FatJar.Log.Level
import FatJar.Main
import FatJar.Manifest.Basic
import FatJar.Manifest.Printer
import FatJar.Manifest.Reader
import FatJar.Project.Config
import FatJar.Project.Init
import FatJar.Project.Root
import FatJar.Project.Store
import FatJar.Proofs.Archive.Below
import FatJar.Proofs.Archive.Directory
import FatJar.Proofs.Archive.Preorder
import FatJar.Proofs.Bundle.Atomic
import FatJar.Proofs.Bundle.Cleanup
import FatJar.Proofs.Bundle.Delivery
import FatJar.Proofs.Bundle.Listing
import FatJar.Proofs.Bundle.Options
import FatJar.Proofs.Bundle.Signature
import FatJar.Proofs.Bundle.Staged
import FatJar.Proofs.Bundle.Unpacking
import FatJar.Proofs.Command.ExitCode
import FatJar.Proofs.Command.Inspection
import FatJar.Proofs.FileTree.Ancestors
import FatJar.Proofs.FileTree.Components
import FatJar.Proofs.FileTree.Creation
import FatJar.Proofs.FileTree.Directories
import FatJar.Proofs.FileTree.Joining
import FatJar.Proofs.FileTree.Listing
import FatJar.Proofs.FileTree.Place
import FatJar.Proofs.FileTree.Walk
import FatJar.Proofs.FileTree.Write
import FatJar.Proofs.Glob.Matching
import FatJar.Proofs.Manifest.Folding
import FatJar.Proofs.Manifest.LogicalLine
import FatJar.Proofs.Manifest.PhysicalLine
import FatJar.Proofs.Manifest.RoundTrip
import FatJar.Proofs.Manifest.Setting
import FatJar.Proofs.Merge.Accounting
import FatJar.Proofs.Merge.Exclusion
import FatJar.Proofs.Merge.Lockstep
import FatJar.Proofs.Merge.Origin
import FatJar.Proofs.Merge.Policy
import FatJar.Proofs.Merge.Refusal
import FatJar.Proofs.Merge.Resolution
import FatJar.Proofs.Merge.Reversal
import FatJar.Proofs.Merge.Step
import FatJar.Proofs.Merge.Validity
import FatJar.Proofs.Outcome
import FatJar.Proofs.Project.Checking
import FatJar.Proofs.Project.Failure
import FatJar.Proofs.Project.Init
import FatJar.Proofs.Project.Root
import FatJar.Proofs.Project.Store
import FatJar.Proofs.Reading.Pool
import FatJar.Proofs.Reading.Schedule
import FatJar.Proofs.Text.ByteOrder
import FatJar.Proofs.Text.Lossy
import FatJar.Proofs.Text.Split
import FatJar.Proofs.Text.Utf8
import FatJar.Proofs.Toml.Document
import FatJar.Proofs.Toml.Text
import FatJar.Proofs.Toml.Value
import FatJar.Proofs.Zip.Container
import FatJar.Text.Alphanumeric
import FatJar.Text.Blank
import FatJar.Text.Case
import FatJar.Text.CodePage
import FatJar.Text.Displayed
import FatJar.Text.Number
import FatJar.Text.Quoted
import FatJar.Text.Split
import FatJar.Text.Utf8
import FatJar.Text.Visible
import FatJar.Toml.Document
import FatJar.Toml.Printer
import FatJar.Toml.Scalar
import FatJar.Toml.Scan
import FatJar.Toml.Text
import FatJar.Toml.Value
import FatJar.Tool
import FatJar.Zip.Checksum
import FatJar.Zip.CodeLength
import FatJar.Zip.Deflate
import FatJar.Zip.Inflate
import FatJar.Zip.Member
import FatJar.Zip.Reader
import FatJar.Zip.Record
import FatJar.Zip.Repetition
import FatJar.Zip.Writer
