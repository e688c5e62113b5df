import Classwright.Backend.Basic
import Classwright.Backend.Java
import Classwright.Backend.ObjectiveC
import Classwright.Backend.Swift
import Classwright.Command.Arguments
import Classwright.Command.Basic
import Classwright.Command.Host
import Classwright.Json.Number
import Classwright.Json.Reader
import Classwright.Json.Scan
import Classwright.Json.Value
import Classwright.Language
import Classwright.Main
import Classwright.Project.Config
import Classwright.Project.Disk
import Classwright.Render.Backend
import Classwright.Render.Budget
import Classwright.Render.Names
import Classwright.Schema.Basic
import Classwright.Schema.ClassDef
import Classwright.Schema.Document
import Classwright.Schema.Merge
import Classwright.Schema.ValueType
import Classwright.Schema.Walk
import Classwright.Settings.Basic
import Classwright.Settings.Rule
import Classwright.Text.Identifier
import Classwright.Text.Literal
import Classwright.Text.NameSupply
import Classwright.Text.Sheet
import Classwright.Text.Words
import Classwright.Proofs.Schema.Occurrence
import Classwright.Proofs.Schema.Sound
import Classwright.Proofs.Schema.FirstFault
import Classwright.Proofs.Schema.Unfolding
import Classwright.Proofs.Schema.Merge
import Classwright.Proofs.Json.Scan
import Classwright.Proofs.Json.Reader
import Classwright.Proofs.Schema.Document
import Classwright.Proofs.Schema.Orders
import Classwright.Proofs.Render.Outcome
import Classwright.Proofs.Render.Names
import Classwright.Proofs.Render.Budget
import Classwright.Proofs.Render.Support
import Classwright.Proofs.Render.Faults
import Classwright.Proofs.Text.Sheet
import Classwright.Proofs.Render.Limits
import Classwright.Proofs.Text.Identifier
import Classwright.Proofs.Render.TypeNaming
import Classwright.Proofs.Render.MemberNaming
import Classwright.Proofs.Text.Literal
import Classwright.Proofs.Render.SourceFile
import Classwright.Proofs.Settings
import Classwright.Proofs.Text.Entry
import Classwright.Proofs.Declaration.Java
import Classwright.Proofs.Declaration.ObjectiveC
import Classwright.Proofs.Declaration.Swift
import Classwright.Proofs.Render.Keys
import Classwright.Proofs.Schema.Widening
import Classwright.Proofs.Schema.Accommodation
import Classwright.Proofs.Schema.Observation
import Classwright.Proofs.Schema.Traversal
import Classwright.Proofs.Schema.ParentsFirst
import Classwright.Proofs.Options
import Classwright.Proofs.Declaration.References
import Classwright.Proofs.Declaration.Interfaces
import Classwright.Proofs.Declaration.Messages
import Classwright.Proofs.Render.DeclaredFirst
import Classwright.Proofs.Render.Declarations
import Classwright.Proofs.Render.Orderly
import Classwright.Proofs.Declaration.Types
import Classwright.Proofs.Render.Layouts
import Classwright.Proofs.Render.FileNames
import Classwright.Proofs.Project.Disk
import Classwright.Proofs.Project.Delivery
import Classwright.Proofs.Command.Options
import Classwright.Proofs.Command.Files
import Classwright.Proofs.Command.Plan
import Classwright.Proofs.Command.Build
import Classwright.Proofs.Schema.Levels
import Classwright.Proofs.Schema.Blocks
import Classwright.Proofs.Declaration.Accessors
import Classwright.Proofs.Declaration.Members
import Classwright.Proofs.Render.Readability
import Classwright.Proofs.Declaration.Selectors
import Classwright.Proofs.Declaration.Coding
import Classwright.Proofs.Declaration.Dictionaries
import Classwright.Proofs.Declaration.Boxes
import Classwright.Proofs.Render.Imports
import Classwright.Proofs.Expressible
import Classwright.Proofs.Command.Reachable
import Classwright.Proofs.Text.Requests
import Classwright.Proofs.Text.Segmentation
import Classwright.Proofs.Text.Detached
