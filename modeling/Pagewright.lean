import Pagewright.Assembly.Collection
import Pagewright.Assembly.IncludeTag
import Pagewright.Assembly.Inclusion
import Pagewright.Assembly.Inheritance
import Pagewright.Assembly.Section
import Pagewright.Console.Arguments
import Pagewright.Console.Command
import Pagewright.Console.Table
import Pagewright.Desk
import Pagewright.Digest.Sha256
import Pagewright.Directive.Block
import Pagewright.Directive.Bracket
import Pagewright.Directive.Occurrence
import Pagewright.Failure
import Pagewright.Html.Escape
import Pagewright.Html.Reference
import Pagewright.Html.Unescape
import Pagewright.Json.Read
import Pagewright.Json.Write
import Pagewright.Kit
import Pagewright.Library
import Pagewright.Library.Path
import Pagewright.Library.Tree
import Pagewright.Lowering.Conditional
import Pagewright.Lowering.Guard
import Pagewright.Lowering.IncludeDirective
import Pagewright.Lowering.Loop
import Pagewright.Lowering.Mapping
import Pagewright.Lowering.Marker
import Pagewright.Lowering.Transform
import Pagewright.Main
import Pagewright.Memo
import Pagewright.Number.Binary
import Pagewright.Number.Fixed
import Pagewright.Number.Modulo
import Pagewright.Number.Read
import Pagewright.Number.Shortest
import Pagewright.Problem
import Pagewright.Proofs.Assembly.Acyclic
import Pagewright.Proofs.Assembly.Asking
import Pagewright.Proofs.Assembly.Attribute
import Pagewright.Proofs.Assembly.Boundary
import Pagewright.Proofs.Assembly.Candidate
import Pagewright.Proofs.Assembly.Capture
import Pagewright.Proofs.Assembly.Chain
import Pagewright.Proofs.Assembly.Course
import Pagewright.Proofs.Assembly.Expansion
import Pagewright.Proofs.Assembly.Fallback
import Pagewright.Proofs.Assembly.Forest
import Pagewright.Proofs.Assembly.Frame
import Pagewright.Proofs.Assembly.Gaps
import Pagewright.Proofs.Assembly.Handed
import Pagewright.Proofs.Assembly.Hop
import Pagewright.Proofs.Assembly.Inserted
import Pagewright.Proofs.Assembly.Item
import Pagewright.Proofs.Assembly.Layered
import Pagewright.Proofs.Assembly.Layout
import Pagewright.Proofs.Assembly.Link
import Pagewright.Proofs.Assembly.LinkTag
import Pagewright.Proofs.Assembly.Marker
import Pagewright.Proofs.Assembly.Mute
import Pagewright.Proofs.Assembly.NestedTag
import Pagewright.Proofs.Assembly.Nesting
import Pagewright.Proofs.Assembly.OnceOrder
import Pagewright.Proofs.Assembly.OncePage
import Pagewright.Proofs.Assembly.OnceRun
import Pagewright.Proofs.Assembly.Partner
import Pagewright.Proofs.Assembly.Sealed
import Pagewright.Proofs.Assembly.Section
import Pagewright.Proofs.Assembly.Slot
import Pagewright.Proofs.Assembly.Stack
import Pagewright.Proofs.Assembly.Stretch
import Pagewright.Proofs.Assembly.Tiling
import Pagewright.Proofs.Assembly.Untagged
import Pagewright.Proofs.Assembly.Yield
import Pagewright.Proofs.Desk.Comment
import Pagewright.Proofs.Desk.Coupled
import Pagewright.Proofs.Desk.Run
import Pagewright.Proofs.Desk.Stash
import Pagewright.Proofs.Desk.Visit
import Pagewright.Proofs.Digest.Fingerprint
import Pagewright.Proofs.Directive.Balance
import Pagewright.Proofs.Directive.Block
import Pagewright.Proofs.Directive.Entry
import Pagewright.Proofs.Directive.Essence
import Pagewright.Proofs.Directive.Free
import Pagewright.Proofs.Directive.Nested
import Pagewright.Proofs.Directive.Outline
import Pagewright.Proofs.Directive.Pairing
import Pagewright.Proofs.Directive.Part
import Pagewright.Proofs.Directive.Rewrite
import Pagewright.Proofs.Directive.Scan
import Pagewright.Proofs.Directive.Span
import Pagewright.Proofs.Directive.Split
import Pagewright.Proofs.Html.Escape
import Pagewright.Proofs.Kit.Acyclic
import Pagewright.Proofs.Kit.Chain
import Pagewright.Proofs.Kit.Doubled
import Pagewright.Proofs.Kit.Fork
import Pagewright.Proofs.Kit.Independence
import Pagewright.Proofs.Kit.Single
import Pagewright.Proofs.Kit.Termination
import Pagewright.Proofs.Kit.Verbatim
import Pagewright.Proofs.Kit.Window
import Pagewright.Proofs.Library.Folder
import Pagewright.Proofs.Library.Path
import Pagewright.Proofs.Library.Reference
import Pagewright.Proofs.Lowering.Carried
import Pagewright.Proofs.Lowering.Converted
import Pagewright.Proofs.Lowering.Doubled
import Pagewright.Proofs.Lowering.Draft
import Pagewright.Proofs.Lowering.EmptyBranch
import Pagewright.Proofs.Lowering.Fair
import Pagewright.Proofs.Lowering.FairMapping
import Pagewright.Proofs.Lowering.FairTags
import Pagewright.Proofs.Lowering.Genuine
import Pagewright.Proofs.Lowering.Header
import Pagewright.Proofs.Lowering.LoopDepth
import Pagewright.Proofs.Lowering.Marking
import Pagewright.Proofs.Lowering.Numbered
import Pagewright.Proofs.Lowering.Once
import Pagewright.Proofs.Lowering.Passes
import Pagewright.Proofs.Lowering.Placeholder
import Pagewright.Proofs.Lowering.Plain
import Pagewright.Proofs.Lowering.RawBlock
import Pagewright.Proofs.Lowering.Restored
import Pagewright.Proofs.Lowering.Settled
import Pagewright.Proofs.Lowering.SharedMemo
import Pagewright.Proofs.Lowering.Trace
import Pagewright.Proofs.Lowering.Translation
import Pagewright.Proofs.Lowering.Twice
import Pagewright.Proofs.Lowering.Unmistakable
import Pagewright.Proofs.Lowering.Verbatim
import Pagewright.Proofs.Memo.Account
import Pagewright.Proofs.Memo.Lookup
import Pagewright.Proofs.Number.Sign
import Pagewright.Proofs.Settings.Merge
import Pagewright.Proofs.Settings.Override
import Pagewright.Proofs.Settings.Substitution
import Pagewright.Proofs.Template.Data
import Pagewright.Proofs.Template.Fork
import Pagewright.Proofs.Template.Opening
import Pagewright.Proofs.Template.Pieces
import Pagewright.Proofs.Template.Press
import Pagewright.Proofs.Template.Statement
import Pagewright.Proofs.Text.Letters
import Pagewright.Proofs.Text.Named
import Pagewright.Proofs.Text.Parted
import Pagewright.Proofs.Text.Replace
import Pagewright.Proofs.Text.Revision
import Pagewright.Proofs.Text.Scan
import Pagewright.Proofs.Text.Words
import Pagewright.Session
import Pagewright.Settings.Basic
import Pagewright.Settings.Check
import Pagewright.Settings.Load
import Pagewright.Settings.Substitution
import Pagewright.Template.Check
import Pagewright.Template.Condition
import Pagewright.Template.Evaluate
import Pagewright.Template.Filter
import Pagewright.Template.Filter.Basic
import Pagewright.Template.Filter.Sequence
import Pagewright.Template.Filter.Text
import Pagewright.Template.Function
import Pagewright.Template.Member
import Pagewright.Template.Operation
import Pagewright.Template.Parse
import Pagewright.Template.Press
import Pagewright.Template.Scope
import Pagewright.Template.Store
import Pagewright.Template.Token
import Pagewright.Template.Tokenize
import Pagewright.Template.Tree
import Pagewright.Text.Basic
import Pagewright.Text.Character
import Pagewright.Text.Named
import Pagewright.Text.Quoted
import Pagewright.Text.Scan
import Pagewright.Text.Search
import Pagewright.Text.Similarity
import Pagewright.Text.Table
import Pagewright.Text.Utf8
import Pagewright.Value.Arithmetic
import Pagewright.Value.Basic
import Pagewright.Value.Call
import Pagewright.Value.ClassList
import Pagewright.Value.Compare
import Pagewright.Value.Percent
import Pagewright.Value.Print
import Pagewright.Value.TextMethod
import Pagewright.Yaml.Cursor
import Pagewright.Yaml.Data
import Pagewright.Yaml.Node
import Pagewright.Yaml.Scalar
import Pagewright.Yaml.Tag
import Pagewright.Yaml.Token
