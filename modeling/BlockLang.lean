import BlockLang.Main
import BlockLang.Proofs.Token.Form
import BlockLang.Proofs.Token.Meaning
import BlockLang.Proofs.Grammar.Written
import BlockLang.Proofs.Grammar.Reading
import BlockLang.Proofs.Grammar.Soundness
import BlockLang.Proofs.Grammar.Acceptance
import BlockLang.Proofs.Grammar.Completeness
import BlockLang.Proofs.Token.Spelling
import BlockLang.Proofs.Token.Tiling
import BlockLang.Proofs.Grammar.RoundTrip
import BlockLang.Proofs.Grammar.Productions
import BlockLang.Proofs.Grammar.Language
import BlockLang.Proofs.Typing.Lexical
import BlockLang.Proofs.Aligned
import BlockLang.Proofs.Typing.Judgment
import BlockLang.Proofs.Typing.Tables
import BlockLang.Proofs.Typing.Soundness
import BlockLang.Proofs.Typing.ProgramSoundness
import BlockLang.Proofs.Run.Erasure
import BlockLang.Proofs.Run.Conformance
import BlockLang.Proofs.Run.Invariant
import BlockLang.Proofs.Run.Steps
import BlockLang.Proofs.Run.Soundness
import BlockLang.Proofs.Run.ProgramSoundness
import BlockLang.Proofs.Run.Checked
import BlockLang.Proofs.Value.Containment
import BlockLang.Proofs.Value.Equality
import BlockLang.Proofs.Run.Changes
import BlockLang.Proofs.Run.Reachable
import BlockLang.Proofs.Run.Acyclic
import BlockLang.Proofs.Typing.LocalNames
import BlockLang.Proofs.Typing.Walk
import BlockLang.Proofs.Typing.RuntimeNames
import BlockLang.Proofs.Typing.Capture
import BlockLang.Proofs.Java.Reading
import BlockLang.Proofs.Java.Legible
import BlockLang.Proofs.Java.Image
import BlockLang.Proofs.Java.Words
import BlockLang.Proofs.Java.Grouping
import BlockLang.Proofs.Grammar.Viable
import BlockLang.Proofs.Grammar.Mirroring
import BlockLang.Proofs.Grammar.Earliest
import BlockLang.Proofs.Grammar.NodeTree
import BlockLang.Proofs.Grammar.Numbering
import BlockLang.Proofs.Token.Quoted
import BlockLang.Proofs.Token.Fault
import BlockLang.Proofs.Java.Quotation
import BlockLang.Proofs.Table.Exactness
import BlockLang.Proofs.Table.Consistency
import BlockLang.Proofs.Table.Renaming
import BlockLang.Proofs.Run.Truncation
import BlockLang.Proofs.Typing.Order
import BlockLang.Proofs.Run.Termination
import BlockLang.Proofs.Layout.Irrelevance
import BlockLang.Proofs.Typing.Confinement
import BlockLang.Proofs.Typing.Restoration
import BlockLang.Proofs.Decimal.Division
import BlockLang.Proofs.Decimal.Exact
import BlockLang.Proofs.Token.Number
import BlockLang.Proofs.Token.Relexing
import BlockLang.Proofs.Java.Numbers
import BlockLang.Proofs.Run.Footprint
import BlockLang.Proofs.Run.Locality
import BlockLang.Proofs.Run.Constants
import BlockLang.Proofs.Run.Arithmetic
import BlockLang.Proofs.Run.Comparison
import BlockLang.Proofs.Run.Assignment
import BlockLang.Proofs.Typing.DistinctNames
import BlockLang.Proofs.Java.Brackets
import BlockLang.Proofs.Java.Printer
import BlockLang.Proofs.Java.Balance
import BlockLang.Proofs.Run.Frames
import BlockLang.Proofs.Run.SpareScopes
import BlockLang.Proofs.Run.ScopeStacks
import BlockLang.Proofs.Run.Endings
import BlockLang.Proofs.Run.Upholding
import BlockLang.Proofs.Run.Unmentioned
import BlockLang.Proofs.Run.SwitchChain
import BlockLang.Proofs.Grammar.Progress
import BlockLang.Proofs.Grammar.WrittenLists
import BlockLang.Proofs.Run.ListIdentity
import BlockLang.Proofs.Text.Cursors
