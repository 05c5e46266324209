import SourceScribe.Asdl.Json
import SourceScribe.Asdl.Page
import SourceScribe.Asdl.Parser
import SourceScribe.Command.Programs
import SourceScribe.Conversion.Source
import SourceScribe.Main
import SourceScribe.Markup.Document
import SourceScribe.Page.Viewer
import SourceScribe.Tasks.Lists
import SourceScribe.Proofs.Conversion.Steps
import SourceScribe.Proofs.Conversion.Ledger
import SourceScribe.Proofs.Conversion.Writing
import SourceScribe.Proofs.Conversion.Arguments
import SourceScribe.Proofs.Conversion.Expressions
import SourceScribe.Proofs.Conversion.Statements
import SourceScribe.Proofs.Tree.Sorts
import SourceScribe.Proofs.Conversion.Sorted
import SourceScribe.Proofs.Conversion.Conservation
import SourceScribe.Proofs.Markup.Reading
import SourceScribe.Proofs.Markup.Newlines
import SourceScribe.Proofs.Markup.Document
import SourceScribe.Proofs.RoundTrip
import SourceScribe.Proofs.Conversion.Parentheses
import SourceScribe.Proofs.Conversion.Balance
import SourceScribe.Proofs.Tree.Chain
import SourceScribe.Proofs.Conversion.Attribution
import SourceScribe.Proofs.Markup.Skeleton
import SourceScribe.Proofs.Conversion.Agreement
import SourceScribe.Proofs.Conversion.Skeleton.Expressions
import SourceScribe.Proofs.Conversion.Skeleton.Statements
import SourceScribe.Proofs.Conversion.Formatting
import SourceScribe.Proofs.Conversion.Outstanding.Basic
import SourceScribe.Proofs.Conversion.Outstanding.Expressions
import SourceScribe.Proofs.Conversion.Outstanding.Statements
import SourceScribe.Proofs.Conversion.Leftover
import SourceScribe.Proofs.Text.Quoted
import SourceScribe.Proofs.Tree.Dump
import SourceScribe.Proofs.Tree.Lookup
import SourceScribe.Proofs.Page.Settling
import SourceScribe.Proofs.Page.Recorded
import SourceScribe.Proofs.Text.Split
import SourceScribe.Proofs.Text.Trail
import SourceScribe.Proofs.Asdl.Notation
import SourceScribe.Proofs.Asdl.Definitions
import SourceScribe.Proofs.Asdl.Grouping
import SourceScribe.Proofs.Asdl.Reading
import SourceScribe.Proofs.Text.Narrow
import SourceScribe.Proofs.Conversion.InStep.Basic
import SourceScribe.Proofs.Conversion.InStep.Parts
import SourceScribe.Proofs.Conversion.InStep.Expressions
import SourceScribe.Proofs.Conversion.InStep.Statements
import SourceScribe.Proofs.Conversion.InStep.Trees
import SourceScribe.Proofs.Conversion.Narrowing
import SourceScribe.Proofs.Token.Leads
import SourceScribe.Proofs.Conversion.Layout
import SourceScribe.Proofs.Conversion.Subscripts
import SourceScribe.Proofs.Conversion.NameLists
import SourceScribe.Proofs.Conversion.IdleGaps
import SourceScribe.Proofs.Token.Continuation
import SourceScribe.Proofs.Text.Seam
import SourceScribe.Proofs.Asdl.Outline
import SourceScribe.Proofs.Asdl.Lines
import SourceScribe.Proofs.Asdl.Builtins
import SourceScribe.Proofs.Asdl.Boxes
import SourceScribe.Proofs.Asdl.Display
import SourceScribe.Proofs.Asdl.Respacing
import SourceScribe.Proofs.Asdl.Joining
import SourceScribe.Proofs.Asdl.Comments
import SourceScribe.Proofs.Asdl.Colours
import SourceScribe.Proofs.Tree.Evaluation
import SourceScribe.Proofs.Page.Ascent
import SourceScribe.Proofs.Page.Scanning
import SourceScribe.Proofs.Page.Template
import SourceScribe.Proofs.Page.Repeating
import SourceScribe.Proofs.Tree.Places
import SourceScribe.Proofs.Tree.Preorder
import SourceScribe.Proofs.Conversion.Starts
import SourceScribe.Proofs.Conversion.Fragment
import SourceScribe.Proofs.Page.Rounds
import SourceScribe.Proofs.Text.Cuts
import SourceScribe.Proofs.Asdl.Cutting
import SourceScribe.Proofs.Conversion.Enclosed
import SourceScribe.Proofs.Conversion.Strings
