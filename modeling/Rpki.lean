import Rpki.Clock
import Rpki.FileTree
import Rpki.Main
import Rpki.Manifest.Draft
import Rpki.Manifest.Json
import Rpki.Manifest.Signed
import Rpki.Roa.Json
import Rpki.Transfer.Item
import Rpki.Proofs.Der.Header
import Rpki.Proofs.Der.Value
import Rpki.Proofs.Der.Element
import Rpki.Proofs.Error
import Rpki.Proofs.Der.Sequence
import Rpki.Proofs.Calendar
import Rpki.Proofs.Decimal
import Rpki.Proofs.Time.Basic
import Rpki.Proofs.Time.Generalized
import Rpki.Proofs.Der.Encoded
import Rpki.Proofs.Manifest.Number
import Rpki.Proofs.SignedObject
import Rpki.Proofs.Manifest.Entry
import Rpki.Proofs.Manifest.Content
import Rpki.Proofs.Manifest.Draft
import Rpki.Proofs.Transfer.Reader
import Rpki.Proofs.Manifest.Transfer
import Rpki.Proofs.Manifest.Signed
import Rpki.Proofs.Roa.Prefix
import Rpki.Proofs.Roa.Transfer
import Rpki.Proofs.Der.Integer
import Rpki.Proofs.Roa.Attestation
import Rpki.Proofs.Roa.Content
import Rpki.Proofs.Manifest.Verdict
import Rpki.Proofs.Manifest.Progress
import Rpki.Proofs.Transfer.Delimited
import Rpki.Proofs.Path
import Rpki.Proofs.Manifest.Fields
import Rpki.Proofs.Manifest.Names
import Rpki.Proofs.Manifest.Obtained
import Rpki.Proofs.Manifest.HashCheck
import Rpki.Proofs.Roa.Signed
import Rpki.Proofs.Roa.Shape
import Rpki.Proofs.Machine.Operation
import Rpki.Proofs.Machine.Text
import Rpki.Proofs.Machine.Content
import Rpki.Proofs.Machine.Prefix
import Rpki.Proofs.Machine.RoaContent
import Rpki.Proofs.Machine.Reader
import Rpki.Proofs.Machine.Decoders
import Rpki.Proofs.Traversal
import Rpki.Proofs.Text.Split
import Rpki.Proofs.Roa.Obtained
import Rpki.Proofs.Time.Internet
import Rpki.Proofs.IpAddress
import Rpki.Proofs.Json.Parts
import Rpki.Proofs.Json.RoundTrip
import Rpki.Proofs.Manifest.HashReport
import Rpki.Proofs.Validity.Classification
import Rpki.Proofs.Calendar.Order
import Rpki.Proofs.Time.Order
import Rpki.Proofs.Time.Correspondence
import Rpki.Proofs.Der.Nesting
import Rpki.Proofs.Der.Delimited
import Rpki.Proofs.Manifest.Range
import Rpki.Proofs.Der.Fault
import Rpki.Proofs.Manifest.FileList
import Rpki.Proofs.Version
import Rpki.Proofs.Attribution
import Rpki.Proofs.Transfer.Item
import Rpki.Proofs.Manifest.Stated
import Rpki.Proofs.Roa.PrefixLength
import Rpki.Proofs.Transfer.Effort
import Rpki.Proofs.Hex
import Rpki.Proofs.Machine.InPlace
import Rpki.Proofs.Manifest.Value
