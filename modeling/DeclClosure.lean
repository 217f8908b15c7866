import DeclClosure.Closure.Compilation
import DeclClosure.Closure.Declare
import DeclClosure.Closure.Drain
import DeclClosure.Closure.Enrichment.Basic
import DeclClosure.Closure.Enrichment.Compositions
import DeclClosure.Closure.Enrichment.Members
import DeclClosure.Closure.Enrichment.Types
import DeclClosure.Closure.Filter
import DeclClosure.Closure.State
import DeclClosure.Config.Manager
import DeclClosure.Config.Settings
import DeclClosure.Event
import DeclClosure.Hash.Xxh64
import DeclClosure.Json.Literal
import DeclClosure.Json.Reader
import DeclClosure.Json.Text
import DeclClosure.Json.Value
import DeclClosure.Listener.Registry
import DeclClosure.Number.Binary64
import DeclClosure.Number.Shortest
import DeclClosure.Proofs.Closure.Acts
import DeclClosure.Proofs.Closure.Aliases
import DeclClosure.Proofs.Closure.Ancestors
import DeclClosure.Proofs.Closure.Announcements
import DeclClosure.Proofs.Closure.Arrivals
import DeclClosure.Proofs.Closure.Bindings
import DeclClosure.Proofs.Closure.Callables
import DeclClosure.Proofs.Closure.Changes
import DeclClosure.Proofs.Closure.Completeness
import DeclClosure.Proofs.Closure.Compositions
import DeclClosure.Proofs.Closure.Declarations
import DeclClosure.Proofs.Closure.Denotation
import DeclClosure.Proofs.Closure.Dispatches
import DeclClosure.Proofs.Closure.Documentation
import DeclClosure.Proofs.Closure.Emptied
import DeclClosure.Proofs.Closure.EnumMembers
import DeclClosure.Proofs.Closure.Fields
import DeclClosure.Proofs.Closure.Foreign
import DeclClosure.Proofs.Closure.Headers
import DeclClosure.Proofs.Closure.History
import DeclClosure.Proofs.Closure.Judgement
import DeclClosure.Proofs.Closure.Keeping
import DeclClosure.Proofs.Closure.Lineage
import DeclClosure.Proofs.Closure.Listings
import DeclClosure.Proofs.Closure.Names
import DeclClosure.Proofs.Closure.Origins
import DeclClosure.Proofs.Closure.Overlooking
import DeclClosure.Proofs.Closure.Payload
import DeclClosure.Proofs.Closure.Pruning
import DeclClosure.Proofs.Closure.QualifiedNames
import DeclClosure.Proofs.Closure.Recordings
import DeclClosure.Proofs.Closure.Reseeding
import DeclClosure.Proofs.Closure.Seeds
import DeclClosure.Proofs.Closure.Steps
import DeclClosure.Proofs.Closure.StillVerdicts
import DeclClosure.Proofs.Closure.Superclass
import DeclClosure.Proofs.Closure.Termination
import DeclClosure.Proofs.Closure.UnitContent
import DeclClosure.Proofs.Config.Changing
import DeclClosure.Proofs.Config.Histories
import DeclClosure.Proofs.Config.Layers
import DeclClosure.Proofs.Config.Members
import DeclClosure.Proofs.Config.Precedence
import DeclClosure.Proofs.Config.Saving
import DeclClosure.Proofs.Config.Settings
import DeclClosure.Proofs.Json.Writing
import DeclClosure.Proofs.Moves
import DeclClosure.Proofs.Symbol.Unions
import DeclClosure.Proofs.Text.Decoded
import DeclClosure.Proofs.Text.Lines
import DeclClosure.Proofs.Text.Outside
import DeclClosure.Proofs.Text.Replacing
import DeclClosure.Proofs.Tracker.Indexes
import DeclClosure.Proofs.Tracker.Registrations
import DeclClosure.Proofs.Tree.Badges
import DeclClosure.Proofs.Tree.Broods
import DeclClosure.Proofs.Tree.Comments
import DeclClosure.Proofs.Tree.Contents
import DeclClosure.Proofs.Tree.Enclosing
import DeclClosure.Proofs.Tree.Headlines
import DeclClosure.Proofs.Tree.Indexed
import DeclClosure.Proofs.Tree.Lookup
import DeclClosure.Proofs.Tree.Nesting
import DeclClosure.Proofs.Tree.Offspring
import DeclClosure.Proofs.Tree.Outwards
import DeclClosure.Proofs.Tree.ParamGroups
import DeclClosure.Proofs.Tree.ParamReading
import DeclClosure.Proofs.Tree.Placement
import DeclClosure.Proofs.Tree.Places
import DeclClosure.Proofs.Tree.Remarks
import DeclClosure.Proofs.Tree.Removal
import DeclClosure.Proofs.Tree.Sound
import DeclClosure.Proofs.Tree.Views
import DeclClosure.Proofs.Tree.Walking
import DeclClosure.Proofs.Unit.Membership
import DeclClosure.Proofs.World.Afresh
import DeclClosure.Proofs.World.Barred
import DeclClosure.Proofs.World.Classes
import DeclClosure.Proofs.World.Declaring
import DeclClosure.Proofs.World.Evolution
import DeclClosure.Proofs.World.Parts
import DeclClosure.Proofs.World.Spelling
import DeclClosure.Proofs.World.Standard
import DeclClosure.Proofs.World.Still
import DeclClosure.Proofs.World.Twins
import DeclClosure.Reflection.Documentation
import DeclClosure.Reflection.Members
import DeclClosure.Reflection.Naming
import DeclClosure.Reflection.Places
import DeclClosure.Reflection.Records
import DeclClosure.Reflection.Resolve
import DeclClosure.Reflection.Signature
import DeclClosure.Reflection.Sources
import DeclClosure.Reflection.TypeText
import DeclClosure.SourceUnit
import DeclClosure.Symbol.Name
import DeclClosure.Symbol.Set
import DeclClosure.Symbol.Snapshot
import DeclClosure.Table
import DeclClosure.Text.Blank
import DeclClosure.Text.Decoded
import DeclClosure.Text.DigitClass
import DeclClosure.Text.Lines
import DeclClosure.Text.LowerCase
import DeclClosure.Text.Printable
import DeclClosure.Text.Quoted
import DeclClosure.Text.Ranges
import DeclClosure.Text.Replace
import DeclClosure.Text.Sorted
import DeclClosure.Text.WordChar
import DeclClosure.Tracker.Definitions
import DeclClosure.Tracker.Mixins
import DeclClosure.Tree.Basic
import DeclClosure.Tree.Description
import DeclClosure.Tree.Listing
import DeclClosure.Tree.Node
import DeclClosure.Tree.Params
import DeclClosure.Tree.View
import DeclClosure.Universe.Attribute
import DeclClosure.Universe.Declaration.Class
import DeclClosure.Universe.Declaration.Enumeration
import DeclClosure.Universe.Declaration.Expression
import DeclClosure.Universe.Declaration.Record
import DeclClosure.Universe.Declaration.Universe
import DeclClosure.Universe.Entity
import DeclClosure.Universe.Equality
import DeclClosure.Universe.Form
import DeclClosure.Universe.Import
import DeclClosure.Universe.Linearization
import DeclClosure.Universe.Object
import DeclClosure.Universe.Package
import DeclClosure.Universe.Population
import DeclClosure.Universe.Standard.Basic
import DeclClosure.Universe.Standard.Classes
import DeclClosure.Universe.Standard.Names
import DeclClosure.Universe.World
import DeclClosure.Universe.Written
import DeclClosure.Yaml.Reader
import DeclClosure.Yaml.Scalar
import DeclClosure.Yaml.Writer
