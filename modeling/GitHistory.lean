import GitHistory.Commit.Batch
import GitHistory.FileStats.Json
import GitHistory.FileStats.Steps
import GitHistory.Main
import GitHistory.Session
import GitHistory.Proofs.Json.Acceptance
import GitHistory.Proofs.Json.Document
import GitHistory.Proofs.Json.Spelling
import GitHistory.Proofs.Json.Reading
import GitHistory.Proofs.Json.Records
import GitHistory.Proofs.Json.Skipping
import GitHistory.Proofs.Commit.Fragment
import GitHistory.Proofs.Commit.Stream
import GitHistory.Proofs.Commit.WireFormat
import GitHistory.Proofs.Json.Verbatim
import GitHistory.Proofs.Commit.Expansion
import GitHistory.Proofs.Commit.Verbatim
import GitHistory.Proofs.Executable.Plan
import GitHistory.Proofs.Revision.Range
import GitHistory.Proofs.Executable.Guard
import GitHistory.Proofs.Executable.Reply
import GitHistory.Proofs.FileStats.Entries
import GitHistory.Proofs.FileStats.Numstat
import GitHistory.Proofs.FileStats.Changes
import GitHistory.Proofs.InProcess.Guard
import GitHistory.Proofs.Manager.Guard
import GitHistory.Proofs.Heap
import GitHistory.Proofs.Store.Ancestry
import GitHistory.Proofs.Store.Order
import GitHistory.Proofs.Store.Hiding
import GitHistory.Proofs.Store.Advance
import GitHistory.Proofs.Store.History
import GitHistory.Proofs.InProcess.History
import GitHistory.Proofs.Executable.Init
import GitHistory.Proofs.Manager.Child
import GitHistory.Proofs.Context
import GitHistory.Proofs.Files.Directories
import GitHistory.Proofs.Manager.Cancelled
import GitHistory.Proofs.Commit.Batch
import GitHistory.Proofs.Context.Tokens
import GitHistory.Proofs.InProcess.Init
import GitHistory.Proofs.Manager.Init
import GitHistory.Proofs.Json.Layout
import GitHistory.Proofs.Json.Taking
import GitHistory.Proofs.Commit.Printed
import GitHistory.Proofs.FileStats.Printed
import GitHistory.Proofs.FileStats.Totals
import GitHistory.Proofs.CommandLine.Output
import GitHistory.Proofs.Json.Compact
import GitHistory.Proofs.Json.Order
import GitHistory.Proofs.Request
import GitHistory.Proofs.ReadBack
import GitHistory.Proofs.Store.Tags
import GitHistory.Proofs.Store.Identified
import GitHistory.Proofs.InProcess.Reference
import GitHistory.Proofs.Time.Calendar
import GitHistory.Proofs.Time.Rfc3339
import GitHistory.Proofs.InProcess.HandedOut
import GitHistory.Proofs.InProcess.Dates
import GitHistory.Proofs.InProcess.Texts
import GitHistory.Proofs.Text.Trimmed
import GitHistory.Proofs.Text.Lines
import GitHistory.Proofs.Text.Counts
import GitHistory.Proofs.FileStats.Rows
import GitHistory.Proofs.CommandLine.Totals
import GitHistory.Proofs.Time.Days
import GitHistory.Proofs.Commit.Dated
import GitHistory.Proofs.Process.Complaint
import GitHistory.Proofs.Revision.Notation
import GitHistory.Proofs.Manager.OwnChanges
import GitHistory.Proofs.Json.Passed
import GitHistory.Proofs.Json.Derived
import GitHistory.Proofs.Commit.Decoded
import GitHistory.Proofs.Executable.Nothing
import GitHistory.Proofs.FileStats.Records
import GitHistory.Proofs.FileStats.Lines
import GitHistory.Proofs.FileStats.Pieces
import GitHistory.Proofs.FileStats.Steps
import GitHistory.Proofs.Checkout
import GitHistory.Proofs.Files.Walks
import GitHistory.Proofs.Files.Places
import GitHistory.Proofs.InProcess.Metadata
import GitHistory.Proofs.Checkout.Overlooked
import GitHistory.Proofs.InProcess.Openable
import GitHistory.Proofs.Manager.Reopened
import GitHistory.Proofs.Store.Foremost
import GitHistory.Proofs.Manager.Replied
import GitHistory.Proofs.InProcess.Kept
import GitHistory.Proofs.Session
