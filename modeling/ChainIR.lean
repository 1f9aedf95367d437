import ChainIR.Command.FileTree
import ChainIR.Main
import ChainIR.Token.Stream
import ChainIR.Proofs.Binary64.Decimal
import ChainIR.Proofs.Binary64.Numeral
import ChainIR.Proofs.Bodies
import ChainIR.Proofs.Chain
import ChainIR.Proofs.Outline.Basic
import ChainIR.Proofs.Outline.Builtin
import ChainIR.Proofs.Outline.Reread
import ChainIR.Proofs.Outline.Spelling
import ChainIR.Proofs.Reading.Again
import ChainIR.Proofs.Reading.Invariant
import ChainIR.Proofs.Reading.Text
import ChainIR.Proofs.Reading.Safety
import ChainIR.Proofs.Reading.Apart
import ChainIR.Proofs.Reading.Reprint
import ChainIR.Proofs.Reading.Callees
import ChainIR.Proofs.Reading.Rebuilt
import ChainIR.Proofs.Reading.Chains
import ChainIR.Proofs.Reading.Checked
import ChainIR.Proofs.Token.Rendering
import ChainIR.Proofs.Text.Encoded
import ChainIR.Proofs.Overloads
import ChainIR.Proofs.Types.Lookup
import ChainIR.Proofs.Cursors
import ChainIR.Proofs.Reading.Jumps
import ChainIR.Proofs.Operands
import ChainIR.Proofs.Reading.Relaid
import ChainIR.Proofs.Reading.Hoisting
import ChainIR.Proofs.Reading.Rejected
import ChainIR.Proofs.Token.Delivery
import ChainIR.Proofs.Reading.Stream
import ChainIR.Proofs.Walk
import ChainIR.Proofs.EntityValues
import ChainIR.Proofs.Reading.Redeclared
