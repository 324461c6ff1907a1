import GuestStorage.Bytes
import GuestStorage.Config.Logging
import GuestStorage.Config.Tool
import GuestStorage.Error
import GuestStorage.Host.Disk
import GuestStorage.Host.Node
import GuestStorage.Host.PathText
import GuestStorage.Host.Preparing
import GuestStorage.Main
import GuestStorage.Memory.Guarded
import GuestStorage.Memory.Store
import GuestStorage.Path
import GuestStorage.Proofs.Host.Counterparts
import GuestStorage.Proofs.Host.Creation
import GuestStorage.Proofs.Host.Faithful
import GuestStorage.Proofs.Host.Ground
import GuestStorage.Proofs.Host.Held
import GuestStorage.Proofs.Host.Links
import GuestStorage.Proofs.Host.Mapped
import GuestStorage.Proofs.Host.Mounts
import GuestStorage.Proofs.Host.Outside
import GuestStorage.Proofs.Host.Requests
import GuestStorage.Proofs.Host.Resolve
import GuestStorage.Proofs.Host.Shown
import GuestStorage.Proofs.Host.Sound
import GuestStorage.Proofs.Host.Totals
import GuestStorage.Proofs.Host.Transfers
import GuestStorage.Proofs.Host.Trees
import GuestStorage.Proofs.Host.Twins
import GuestStorage.Proofs.Host.Views
import GuestStorage.Proofs.Host.Walks
import GuestStorage.Proofs.Keyed
import GuestStorage.Proofs.Memory.Accepting
import GuestStorage.Proofs.Memory.Build
import GuestStorage.Proofs.Memory.Changes
import GuestStorage.Proofs.Memory.Clear
import GuestStorage.Proofs.Memory.Compare
import GuestStorage.Proofs.Memory.Copy
import GuestStorage.Proofs.Memory.Creation
import GuestStorage.Proofs.Memory.Depth
import GuestStorage.Proofs.Memory.Domain
import GuestStorage.Proofs.Memory.Effects
import GuestStorage.Proofs.Memory.Entries
import GuestStorage.Proofs.Memory.Failures
import GuestStorage.Proofs.Memory.Follow
import GuestStorage.Proofs.Memory.Ground
import GuestStorage.Proofs.Memory.Locked
import GuestStorage.Proofs.Memory.Move
import GuestStorage.Proofs.Memory.Nodes
import GuestStorage.Proofs.Memory.Paths
import GuestStorage.Proofs.Memory.Refusals
import GuestStorage.Proofs.Memory.Renaming
import GuestStorage.Proofs.Memory.Shapes
import GuestStorage.Proofs.Memory.Sound
import GuestStorage.Proofs.Memory.Stored
import GuestStorage.Proofs.Memory.Survivors
import GuestStorage.Proofs.Memory.Undo
import GuestStorage.Proofs.Memory.Upkeep
import GuestStorage.Proofs.Path
import GuestStorage.Proofs.PathMap.Changes
import GuestStorage.Proofs.PathMap.Errands
import GuestStorage.Proofs.PathMap.Faithful
import GuestStorage.Proofs.PathMap.Keys
import GuestStorage.Proofs.PathMap.Machine
import GuestStorage.Proofs.PathMap.Queries
import GuestStorage.Proofs.PathMap.Renames
import GuestStorage.Proofs.PathMap.Runs
import GuestStorage.Proofs.PathMap.Shows
import GuestStorage.Proofs.Projection.Containment
import GuestStorage.Proofs.Projection.Explorer
import GuestStorage.Proofs.Projection.Mount
import GuestStorage.Proofs.Projection.Queries
import GuestStorage.Proofs.Projection.Refusal
import GuestStorage.Proofs.Projection.Transparency
import GuestStorage.Proofs.Projection.Validation
import GuestStorage.Proofs.Save.Isolation
import GuestStorage.Proofs.Save.Location
import GuestStorage.Proofs.Save.Names
import GuestStorage.Proofs.Save.Readers
import GuestStorage.Proofs.Save.Runs
import GuestStorage.Proofs.Save.Schema
import GuestStorage.Proofs.Save.Sources
import GuestStorage.Proofs.Session.Addressing
import GuestStorage.Proofs.Session.Client
import GuestStorage.Proofs.Session.Handles
import GuestStorage.Proofs.Session.Locked
import GuestStorage.Proofs.Session.Padding
import GuestStorage.Proofs.Session.Paging
import GuestStorage.Proofs.Session.Region
import GuestStorage.Proofs.Session.Registry
import GuestStorage.Proofs.Session.Relocation
import GuestStorage.Proofs.Session.Table
import GuestStorage.Proofs.Text.Joined
import GuestStorage.Proofs.Text.Numerals
import GuestStorage.Proofs.Text.Runs
import GuestStorage.Proofs.Text.Spelling
import GuestStorage.Proofs.Text.Splitting
import GuestStorage.Proofs.Text.Utf8
import GuestStorage.Proofs.Tool.Commands
import GuestStorage.Proofs.Tree.Addressing
import GuestStorage.Proofs.Tree.Arboreal
import GuestStorage.Proofs.Tree.Asking
import GuestStorage.Proofs.Tree.Attempts
import GuestStorage.Proofs.Tree.Ground
import GuestStorage.Proofs.Tree.Loops
import GuestStorage.Proofs.Tree.Plain
import GuestStorage.Proofs.Tree.Region
import GuestStorage.Proofs.Tree.Renaming
import GuestStorage.Proofs.Tree.Shelves
import GuestStorage.Proofs.Tree.Volumes
import GuestStorage.Proofs.Tree.Ways
import GuestStorage.Proofs.Wire.Entries
import GuestStorage.Proofs.Wire.Records
import GuestStorage.Save.Enumeration
import GuestStorage.Service.Controller
import GuestStorage.Service.Prepared
import GuestStorage.Service.Roots
import GuestStorage.Service.Server
import GuestStorage.Session.Client
import GuestStorage.Session.Cursor
import GuestStorage.Session.File
import GuestStorage.Session.Table
import GuestStorage.Text.Digits
import GuestStorage.Text.Quoted
import GuestStorage.Text.Utf8
import GuestStorage.Toml.Document
import GuestStorage.Toml.Scan
import GuestStorage.Toml.Value
import GuestStorage.Tool.Arguments
import GuestStorage.Tool.Commands
import GuestStorage.Tool.Program
import GuestStorage.Tree.Backing
import GuestStorage.Tree.Desk
import GuestStorage.Tree.Mount
import GuestStorage.Tree.Shelf
import GuestStorage.Tree.View
import GuestStorage.Tree.Walk
import GuestStorage.Wire.Coded
import GuestStorage.Wire.Ids
import GuestStorage.Wire.Record
