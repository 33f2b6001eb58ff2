import ColonScript.CommandLine.FileTree
import ColonScript.Main
import ColonScript.Proofs.Reading.Success
import ColonScript.Proofs.Reading.Phrase
import ColonScript.Proofs.Precedence
import ColonScript.Proofs.Reading.Written
import ColonScript.Proofs.Reading.Clause
import ColonScript.Proofs.Reading.Sentence
import ColonScript.Proofs.Environment
import ColonScript.Proofs.Reading.Everywhere
import ColonScript.Proofs.Reading.Balance
import ColonScript.Proofs.Settling
import ColonScript.Proofs.Mentions
import ColonScript.Proofs.Reading.Inside
import ColonScript.Proofs.Reading.Placeless
import ColonScript.Proofs.Reading.Testing
import ColonScript.Proofs.Constants
import ColonScript.Proofs.Agreement
import ColonScript.Proofs.Rules
import ColonScript.Proofs.WellTyped
import ColonScript.Proofs.Placement
import ColonScript.Proofs.Runs
import ColonScript.Proofs.Reading.Stems
import ColonScript.Proofs.Calls
import ColonScript.Proofs.Functions
import ColonScript.Proofs.Reading.Kept
import ColonScript.Proofs.Reading.Typed
import ColonScript.Proofs.Reading.Points
import ColonScript.Proofs.Lexing
import ColonScript.Proofs.Soundness
import ColonScript.Proofs.Reading.Tame
import ColonScript.Proofs.Reading.TameExpression
import ColonScript.Proofs.Spans
import ColonScript.Proofs.Reading.TameStatement
import ColonScript.Proofs.Progress
import ColonScript.Proofs.FaultPlaces
import ColonScript.Proofs.Nesting
import ColonScript.Proofs.Histories
import ColonScript.Proofs.FunctionRecords
import ColonScript.Proofs.Shadowing
import ColonScript.Proofs.Memory
import ColonScript.Proofs.Instances
import ColonScript.Proofs.Lexemes
import ColonScript.Proofs.Pieces
import ColonScript.Proofs.Borders
import ColonScript.Proofs.Words
import ColonScript.Proofs.Reading.Positions
import ColonScript.Proofs.Layout
import ColonScript.Proofs.Unification
import ColonScript.Proofs.Reading.Mirroring
import ColonScript.Proofs.Reading.Splicing
import ColonScript.Proofs.Reading.Horizon
import ColonScript.Proofs.Appending
import ColonScript.Proofs.Reading.Pools
import ColonScript.Proofs.Printing.Tokens
import ColonScript.Proofs.Reading.Facing
import ColonScript.Proofs.Returning
import ColonScript.Proofs.Printing.ReadBack
import ColonScript.Proofs.Fillings
import ColonScript.Proofs.Signatures
import ColonScript.Proofs.Unknowns
import ColonScript.Proofs.Following
import ColonScript.Proofs.Reading.Completed
import ColonScript.Proofs.Completion
import ColonScript.Proofs.Adding
import ColonScript.Proofs.Gathering
import ColonScript.Proofs.Ordering
import ColonScript.Proofs.Restoring
import ColonScript.Proofs.LongestMatch
import ColonScript.Proofs.Printing.TypeTexts
import ColonScript.Proofs.Compound
import ColonScript.Proofs.Caret
import ColonScript.Proofs.Printing.ScriptTokens
import ColonScript.Proofs.Printing.Sourced
import ColonScript.Proofs.Printing.ScriptTexts
import ColonScript.Proofs.Printing.Clauses
import ColonScript.Proofs.Printing.Returned
import ColonScript.Proofs.Printing.Sentences
import ColonScript.Proofs.Printing.Undotted
import ColonScript.Proofs.Printing.RoundTrip
