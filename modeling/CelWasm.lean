import CelWasm.Runtime.LogicTree
import CelWasm.Runtime.MapIndexSound
import CelWasm.Compiler.EarlyExit
import CelWasm.Compiler.EntryMerge
import CelWasm.Compiler.ExpressionDepth
import CelWasm.Compiler.ConstAggregate
import CelWasm.Compiler.OptionalEntries
import CelWasm.Eval.HostMembership
import CelWasm.Eval.ValueEquality
import CelWasm.Compiler.MessageLiteral
import CelWasm.Eval.Marshal
import CelWasm.Eval.FieldSources
import CelWasm.Runtime.Optionals
import CelWasm.Compiler.MapIterator
import CelWasm.Eval.ActivationSpans
import CelWasm.Eval.AnyUnpack
import CelWasm.Eval.ProtoRead
import CelWasm.Eval.IntegerFields
import CelWasm.Compiler.GateSound
import CelWasm.Eval.RunMeaning
import CelWasm.Eval.BindMeaning
import CelWasm.Eval.ExternrefTable
import CelWasm.Library.OneEntryCache
import CelWasm.Library.ByteMemory
import CelWasm.Runtime.Arena
import CelWasm.Eval.History
import CelWasm.Library.Region
import CelWasm.Runtime.ArenaRuns
import CelWasm.Runtime.MapRuns
import CelWasm.Compiler.LayoutPass
import CelWasm.Eval.HostSnapshot
import CelWasm.Compiler.Presize
import CelWasm.Eval.Exhaustion
import CelWasm.Compiler.IdentRewrite
import CelWasm.Compiler.TypeIdents
import CelWasm.Eval.TypeOf
import CelWasm.Compiler.FunctionLibrary
import CelWasm.Compiler.OverloadTable
import CelWasm.Compiler.WasmModule
import CelWasm.Compiler.HostCalls
import CelWasm.Runtime.KeyCells
import CelWasm.Abi.WasmBinary
import CelWasm.Abi.CustomSections
import CelWasm.Eval.AttributePattern
import CelWasm.Eval.RequiredFnCheck
import CelWasm.Compiler.OrderingCalls
import CelWasm.Compiler.OverloadIds
import CelWasm.Compiler.LexicalScoping
import CelWasm.Compiler.AttributePaths
import CelWasm.Eval.HostCallback
import CelWasm.Compiler.StorageForwarding
import CelWasm.Runtime.SlotAliasing
import CelWasm.Runtime.ExactArithmetic
import CelWasm.Runtime.SignedOverflow
import CelWasm.Runtime.ListMembership
import CelWasm.Runtime.NumericOrder
import CelWasm.Runtime.SubstringSearch
import CelWasm.Runtime.SplitJoin
import CelWasm.Eval.ListIndex
import CelWasm.Eval.WellFormedStrings
import CelWasm.Eval.FormatStack
import CelWasm.Compiler.ContainerOrigins
import CelWasm.Runtime.Slicing
import CelWasm.Runtime.Quoting
import CelWasm.Runtime.TimeArithmetic
import CelWasm.Runtime.Civil
import CelWasm.Eval.HostTime
import CelWasm.Eval.DurationTexts
import CelWasm.Eval.TimeHistory
import CelWasm.Runtime.NetCidr
import CelWasm.Eval.FormatCache
import CelWasm.Eval.ContainerTexts
import CelWasm.Abi.VarSpecs
import CelWasm.Runtime.UnknownSets
import CelWasm.Abi.WordReads
import CelWasm.Library.BoundedScan
import CelWasm.Runtime.DoubleText
import CelWasm.Runtime.AddressTexts
import CelWasm.Eval.FieldExtensions
