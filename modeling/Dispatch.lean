import Dispatch.Bytes
import Dispatch.Decimal
import Dispatch.Text.Printable
import Dispatch.Text.Utf8
import Dispatch.Text.Quoted
import Dispatch.Kind
import Dispatch.Value
import Dispatch.Failure
import Dispatch.Symbol
import Dispatch.Method
import Dispatch.MethodTable
import Dispatch.Builtin
import Dispatch.Log
import Dispatch.Machine
import Dispatch.Wire.Head
import Dispatch.Wire.Item
import Dispatch.Wire.Envelope
import Dispatch.Wire.Transfer
import Dispatch.Behaviour
import Dispatch.Session
import Dispatch.Path
import Dispatch.FileTree
import Dispatch.Toml.Source
import Dispatch.Toml.Quotation
import Dispatch.Toml.Scalar
import Dispatch.Toml.Statement
import Dispatch.Toml.Document
import Dispatch.Settings.Basic
import Dispatch.Settings.Decode
import Dispatch.Settings.Load
import Dispatch.Settings.LogFile
import Dispatch.Proofs.BootInvariant
import Dispatch.Proofs.Reachable
import Dispatch.Proofs.BuiltinFacts
import Dispatch.Proofs.BuiltinEndings
import Dispatch.Proofs.SendOutcomes
import Dispatch.Proofs.NameDispatch
import Dispatch.Proofs.RoundTrip
import Dispatch.Proofs.Framing
import Dispatch.Proofs.Nesting
import Dispatch.Proofs.ListDecoding
import Dispatch.Proofs.Spellings
import Dispatch.Proofs.SymbolRuns
import Dispatch.Proofs.TableRuns
import Dispatch.Proofs.FailureOrigins
import Dispatch.Proofs.EqualValues
import Dispatch.Proofs.Storage
import Dispatch.Proofs.Isolation
import Dispatch.Proofs.BuiltinSends
import Dispatch.Proofs.FixnumArithmetic
import Dispatch.Proofs.Slicing
import Dispatch.Proofs.Equality
import Dispatch.Proofs.ValueOrder
import Dispatch.Proofs.Expressions
import Dispatch.Proofs.StringAlgebra
import Dispatch.Proofs.Utf8Facts
import Dispatch.Proofs.Quoting
import Dispatch.Proofs.StringIdentity
import Dispatch.Proofs.Tracing
import Dispatch.Proofs.Numerals
import Dispatch.Proofs.InspectForms
import Dispatch.Proofs.StringBuilding
import Dispatch.Proofs.SecondPass
import Dispatch.Proofs.DecodingTargets
import Dispatch.Proofs.DecoderAgreement
import Dispatch.Proofs.DirectInvocation
import Dispatch.Proofs.PathFacts
import Dispatch.Proofs.SettingsPlaces
import Dispatch.Proofs.TomlReading
import Dispatch.Proofs.TomlBlocks
import Dispatch.Proofs.SettingsSheets
