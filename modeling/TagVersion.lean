import TagVersion.Cache.Threads
import TagVersion.Git.Edit
import TagVersion.History
import TagVersion.Main
import TagVersion.Proofs.Describe.FirstParents
import TagVersion.Proofs.Reading
import TagVersion.Proofs.Text.ByteOrder
import TagVersion.Status
import TagVersion.Proofs.Tag
import TagVersion.Proofs.Describe.Plan
import TagVersion.Proofs.Describe.Nearest
import TagVersion.Proofs.History.Built
import TagVersion.Proofs.Cache.Slots
import TagVersion.Proofs.Cache.Turns
import TagVersion.Proofs.Cache.Locks
import TagVersion.Proofs.Cache.Once
import TagVersion.Proofs.Cache.Calls
import TagVersion.Proofs.Resolve.Plan
import TagVersion.Proofs.Resolve.Failure
import TagVersion.Proofs.ObjectId
import TagVersion.Proofs.Resolve.Version
import TagVersion.Proofs.Cache.Keeper
import TagVersion.Proofs.Cache.Recall
import TagVersion.Proofs.Resolve.Session
import TagVersion.Proofs.Cache.Cells
import TagVersion.Proofs.Resolve.Sharing
import TagVersion.Proofs.Resolve.Marks
import TagVersion.Proofs.Describe.Narrowing
import TagVersion.Proofs.History.Anchored
import TagVersion.Proofs.Resolve.Steps
import TagVersion.Proofs.Resolve.Growth
import TagVersion.Proofs.Resolve.Irrelevance
import TagVersion.Proofs.Config.Load
import TagVersion.Proofs.CommandLine.Faults
import TagVersion.Proofs.Cache.Progress
import TagVersion.Proofs.Resolve.Dirty
import TagVersion.Proofs.Log.Trimming
import TagVersion.Proofs.Config.Usable
import TagVersion.Proofs.Cache.Plain
import TagVersion.Proofs.Describe.Stop
import TagVersion.Proofs.Git.Tagger
import TagVersion.Proofs.Describe.Candidates
import TagVersion.Proofs.Git.Following
import TagVersion.Proofs.Git.Candidates
import TagVersion.Proofs.Resolve.Calls
import TagVersion.Proofs.Config.Chosen
import TagVersion.Proofs.Config.Accepted
import TagVersion.Proofs.History.Allocated
import TagVersion.Proofs.Cache.Counting
import TagVersion.Proofs.Prefix.Grammar
import TagVersion.Proofs.CommandLine.Spelling
import TagVersion.Proofs.Status
import TagVersion.Proofs.Toml.Strings
import TagVersion.Proofs.Config.Scopes
import TagVersion.Proofs.Json.Grammar
import TagVersion.Proofs.Json.Printed
import TagVersion.ObjectId.Json
import TagVersion.Proofs.ObjectId.Canonical
