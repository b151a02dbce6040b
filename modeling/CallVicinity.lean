import CallVicinity.Main
import CallVicinity.Proofs.Draft.Enclosing
import CallVicinity.Proofs.Draft.Passes
import CallVicinity.Proofs.Graph.Owners
import CallVicinity.Proofs.Graph.Freeze
import CallVicinity.Proofs.Graph.Ownership
import CallVicinity.Proofs.Graph.Ids
import CallVicinity.Proofs.Graph.CallEdges
import CallVicinity.Proofs.Graph.Callers
import CallVicinity.Proofs.Selection.Coherent
import CallVicinity.Proofs.Selection.Distance
import CallVicinity.Proofs.Selection.Tokens
import CallVicinity.Proofs.Document.Shown
import CallVicinity.Proofs.Document.Growth
import CallVicinity.Proofs.Graph.IdForms
import CallVicinity.Proofs.Document.SeedsAgain
import CallVicinity.Proofs.Tree.Preorder
import CallVicinity.Proofs.Graph.SourceOrder
import CallVicinity.Proofs.Document.InOrder
import CallVicinity.Proofs.Graph.PassOrder
import CallVicinity.Proofs.Tree.Lowered
import CallVicinity.Proofs.Graph.Lowered
import CallVicinity.Proofs.Json.Words
import CallVicinity.Proofs.Json.Layout
import CallVicinity.Proofs.Document.Lossless
import CallVicinity.Proofs.CommandLine.ExitCodes
import CallVicinity.Proofs.Selection.Search
import CallVicinity.Proofs.Selection.Closure
import CallVicinity.Proofs.Document.References
import CallVicinity.Proofs.Graph.Declared
import CallVicinity.Proofs.Graph.ClassOwners
import CallVicinity.Proofs.Text.Parts
import CallVicinity.Proofs.Text.Lines
import CallVicinity.Proofs.Graph.Restrict
import CallVicinity.Proofs.Reindent.Lines
import CallVicinity.Proofs.Reindent.Literals
import CallVicinity.Proofs.Graph.GivenIds
import CallVicinity.Proofs.Document.AnySelection
import CallVicinity.Proofs.Selection.Fragments
import CallVicinity.Proofs.Json.Replaced
import CallVicinity.Proofs.Prompt.Defaults
import CallVicinity.Proofs.Prompt.Alignment
import CallVicinity.Proofs.Toml.Values
import CallVicinity.Proofs.Toml.Sections
import CallVicinity.Proofs.Settings.SavedLoaded
import CallVicinity.Proofs.Json.Templates
import CallVicinity.Proofs.Declaration.ParameterLine
import CallVicinity.Proofs.Draft.Edges
