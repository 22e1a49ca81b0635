import LayeredConfig.Calendar.Date
import LayeredConfig.Calendar.Iso
import LayeredConfig.Collaborator
import LayeredConfig.Entries
import LayeredConfig.Event
import LayeredConfig.Failure
import LayeredConfig.FileSystem
import LayeredConfig.Forest
import LayeredConfig.Loader.Basic
import LayeredConfig.Loader.Derivation
import LayeredConfig.Loader.Source
import LayeredConfig.Loader.Threads
import LayeredConfig.Loader.Views
import LayeredConfig.Node.Basic
import LayeredConfig.Node.Cursor
import LayeredConfig.Node.Operation
import LayeredConfig.Number.Binary64
import LayeredConfig.Number.Numeral
import LayeredConfig.Number.Shortest
import LayeredConfig.Proofs.Exceptions
import LayeredConfig.Proofs.Forest.Carrying
import LayeredConfig.Proofs.Forest.Cells
import LayeredConfig.Proofs.Forest.Descent
import LayeredConfig.Proofs.Forest.Freezing
import LayeredConfig.Proofs.Forest.Merging
import LayeredConfig.Proofs.Forest.Overlap
import LayeredConfig.Proofs.Forest.Ownership
import LayeredConfig.Proofs.Forest.Placement
import LayeredConfig.Proofs.Forest.Refusing
import LayeredConfig.Proofs.Forest.Writing
import LayeredConfig.Proofs.Loader.Calm
import LayeredConfig.Proofs.Loader.Composing
import LayeredConfig.Proofs.Loader.Databases
import LayeredConfig.Proofs.Loader.Defaults
import LayeredConfig.Proofs.Loader.Deriving
import LayeredConfig.Proofs.Loader.Discretion
import LayeredConfig.Proofs.Loader.Environments
import LayeredConfig.Proofs.Loader.Escaping
import LayeredConfig.Proofs.Loader.Factories
import LayeredConfig.Proofs.Loader.Failing
import LayeredConfig.Proofs.Loader.Filling
import LayeredConfig.Proofs.Loader.Functional
import LayeredConfig.Proofs.Loader.Gaps
import LayeredConfig.Proofs.Loader.Indifference
import LayeredConfig.Proofs.Loader.Interleaving
import LayeredConfig.Proofs.Loader.Keeping
import LayeredConfig.Proofs.Loader.Loading
import LayeredConfig.Proofs.Loader.Parsing
import LayeredConfig.Proofs.Loader.Postponing
import LayeredConfig.Proofs.Loader.Predicates
import LayeredConfig.Proofs.Loader.Probing
import LayeredConfig.Proofs.Loader.Promises
import LayeredConfig.Proofs.Loader.Rebuilding
import LayeredConfig.Proofs.Loader.Repeating
import LayeredConfig.Proofs.Loader.Retrying
import LayeredConfig.Proofs.Loader.Revalidating
import LayeredConfig.Proofs.Loader.Revealing
import LayeredConfig.Proofs.Loader.Secrets
import LayeredConfig.Proofs.Loader.Sections
import LayeredConfig.Proofs.Loader.Sharing
import LayeredConfig.Proofs.Loader.Snapshot
import LayeredConfig.Proofs.Loader.Succeeding
import LayeredConfig.Proofs.Loader.Supply
import LayeredConfig.Proofs.Loader.Twins
import LayeredConfig.Proofs.Loader.Visiting
import LayeredConfig.Proofs.Node.Carrying
import LayeredConfig.Proofs.Node.Comparing
import LayeredConfig.Proofs.Node.Converting
import LayeredConfig.Proofs.Node.Copying
import LayeredConfig.Proofs.Node.Drafting
import LayeredConfig.Proofs.Node.Exporting
import LayeredConfig.Proofs.Node.Freezing
import LayeredConfig.Proofs.Node.Iterating
import LayeredConfig.Proofs.Node.Layering
import LayeredConfig.Proofs.Node.Likeness
import LayeredConfig.Proofs.Node.Materializing
import LayeredConfig.Proofs.Node.Merging
import LayeredConfig.Proofs.Node.Overlap
import LayeredConfig.Proofs.Node.Ownership
import LayeredConfig.Proofs.Node.Reading
import LayeredConfig.Proofs.Node.Refusing
import LayeredConfig.Proofs.Node.Remaining
import LayeredConfig.Proofs.Node.RoundTrip
import LayeredConfig.Proofs.Node.Run
import LayeredConfig.Proofs.Node.Running
import LayeredConfig.Proofs.Outcome
import LayeredConfig.Proofs.Rule.Checking
import LayeredConfig.Proofs.Rule.Environments
import LayeredConfig.Proofs.Rule.Harmless
import LayeredConfig.Proofs.Rule.Interpreting
import LayeredConfig.Proofs.Rule.Likeness
import LayeredConfig.Proofs.Rule.Meaning
import LayeredConfig.Proofs.Rule.Passing
import LayeredConfig.Proofs.Rule.Representing
import LayeredConfig.Proofs.Rule.Seeing
import LayeredConfig.Proofs.Rule.Violation
import LayeredConfig.Proofs.Secret.Blocks
import LayeredConfig.Proofs.Secret.Declining
import LayeredConfig.Proofs.Secret.Sealing
import LayeredConfig.Proofs.Server.Agreeing
import LayeredConfig.Proofs.Server.Answering
import LayeredConfig.Proofs.Server.Connecting
import LayeredConfig.Proofs.Server.Staging
import LayeredConfig.Proofs.Server.Wording
import LayeredConfig.Proofs.Template.Constant
import LayeredConfig.Proofs.Template.Filling
import LayeredConfig.Proofs.Text.Base64
import LayeredConfig.Proofs.Tree.Anonymous
import LayeredConfig.Proofs.Tree.Blueprint
import LayeredConfig.Proofs.Tree.Comparing
import LayeredConfig.Proofs.Tree.Content
import LayeredConfig.Proofs.Tree.Documents
import LayeredConfig.Proofs.Tree.Equality
import LayeredConfig.Proofs.Tree.Layering
import LayeredConfig.Proofs.Tree.Materializing
import LayeredConfig.Proofs.Tree.Merging
import LayeredConfig.Proofs.Tree.Opening
import LayeredConfig.Proofs.Tree.Overlap
import LayeredConfig.Proofs.Tree.Overlay
import LayeredConfig.Proofs.Tree.Paths
import LayeredConfig.Proofs.Tree.Secrets
import LayeredConfig.Proofs.Tree.Storing
import LayeredConfig.Proofs.Tree.Supplying
import LayeredConfig.Proofs.Value.Meaning
import LayeredConfig.Proofs.Version.Consulting
import LayeredConfig.Proofs.Yaml.Plain
import LayeredConfig.Rule.Basic
import LayeredConfig.Rule.Katello
import LayeredConfig.Secret.Aes
import LayeredConfig.Secret.Gcm
import LayeredConfig.Secret.Password
import LayeredConfig.Server.Connection
import LayeredConfig.Server.Deployment
import LayeredConfig.Server.Endpoint
import LayeredConfig.Server.Fault
import LayeredConfig.Server.Request
import LayeredConfig.Setting.Logging
import LayeredConfig.Setting.Profile
import LayeredConfig.Setting.Shipped
import LayeredConfig.Setting.Variable
import LayeredConfig.Template.Datum
import LayeredConfig.Template.Expression
import LayeredConfig.Template.Fill
import LayeredConfig.Template.Part
import LayeredConfig.Template.Test
import LayeredConfig.Template.Token
import LayeredConfig.Template.Word
import LayeredConfig.Text.Alphanumeric
import LayeredConfig.Text.Base64
import LayeredConfig.Text.Blank
import LayeredConfig.Text.CaseMap
import LayeredConfig.Text.CommaList
import LayeredConfig.Text.Printable
import LayeredConfig.Text.Quoted
import LayeredConfig.Text.RangeTable
import LayeredConfig.Text.Search
import LayeredConfig.Tree
import LayeredConfig.Value
import LayeredConfig.Version
import LayeredConfig.World
import LayeredConfig.Yaml.Document
import LayeredConfig.Yaml.Node
import LayeredConfig.Yaml.Reader
import LayeredConfig.Yaml.Scalar
import LayeredConfig.Yaml.Schema
import LayeredConfig.Yaml.Token
