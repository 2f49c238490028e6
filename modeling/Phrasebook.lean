import Phrasebook.Main
import Phrasebook.Proofs.CallSite
import Phrasebook.Proofs.MessageFunction
import Phrasebook.Proofs.Splice.Kept
import Phrasebook.Proofs.Substitution
import Phrasebook.Proofs.Exempt
import Phrasebook.Proofs.Script.Gap
import Phrasebook.Proofs.Script.Literal
import Phrasebook.Proofs.Script.Spelling
import Phrasebook.Proofs.Script.Complete
import Phrasebook.Proofs.Script.Alone
import Phrasebook.Proofs.Slice
import Phrasebook.Proofs.Revision
import Phrasebook.Proofs.Reapplication
import Phrasebook.Proofs.Workers
import Phrasebook.Proofs.Pass
import Phrasebook.Proofs.Pass.Conservation
import Phrasebook.Proofs.Pass.Order
import Phrasebook.Proofs.Uncommented
import Phrasebook.Proofs.LeadingComments
import Phrasebook.Proofs.Mapping.Links
import Phrasebook.Proofs.Dictionary
import Phrasebook.Proofs.Pass.Writing
import Phrasebook.Proofs.Splice.Reference
import Phrasebook.Proofs.Template
import Phrasebook.Proofs.Config
import Phrasebook.Proofs.Exhaustion
import Phrasebook.Proofs.Script.Fold
import Phrasebook.Proofs.StringLiteral
import Phrasebook.Proofs.CallObject
import Phrasebook.Proofs.Doc.Marks
import Phrasebook.Proofs.Doc.Layout
import Phrasebook.Proofs.Scope
import Phrasebook.Proofs.Mapping.Format
import Phrasebook.Proofs.Unparsed
import Phrasebook.Proofs.ParamLine
import Phrasebook.Proofs.Sources.Include
import Phrasebook.Proofs.RuntimeId
import Phrasebook.Proofs.RuntimeImport
import Phrasebook.Proofs.Sources.Tests
import Phrasebook.Proofs.Config.Nearest
import Phrasebook.Proofs.Pass.Failure
import Phrasebook.Proofs.Store.Interned
import Phrasebook.Proofs.Doc.ClosingOffset
import Phrasebook.Proofs.Mapping.Words
import Phrasebook.Proofs.IdTable.Salt
