import ArtRuntime.Foundation.NatBits
import ArtRuntime.Foundation.TracedMemory
import ArtRuntime.Foundation.RangeCount
import ArtRuntime.Foundation.Inevitable
import ArtRuntime.Foundation.BitField
import ArtRuntime.Foundation.WordStore
import ArtRuntime.Foundation.ByteBuffer
import ArtRuntime.Base.BitUtils
import ArtRuntime.Base.BitVector
import ArtRuntime.Base.HashSet
import ArtRuntime.Base.Leb128
import ArtRuntime.Base.Leb128RoundTrip
import ArtRuntime.Base.BitString
import ArtRuntime.Dex.Utf
import ArtRuntime.Dex.UtfCompare
import ArtRuntime.Dex.CompactOffsetTable
import ArtRuntime.Dex.Instruction
import ArtRuntime.Dex.Verifier.Basic
import ArtRuntime.Dex.Verifier.StringData
import ArtRuntime.Verifier.MethodVerifier
import ArtRuntime.Entrypoints.FillArrayData
import ArtRuntime.Runtime.IndirectReferenceTable
import ArtRuntime.Runtime.JniEnvExt
import ArtRuntime.Runtime.ClassHierarchy
import ArtRuntime.Runtime.SubtypeCheckInfo
import ArtRuntime.Runtime.SubtypeCheck
import ArtRuntime.Runtime.SubtypeCheckInvariant
import ArtRuntime.Runtime.SubtypeCheckSoundness
import ArtRuntime.BinaryAnalyzer.CodeImage
import ArtRuntime.BinaryAnalyzer.AnalyzeCfg
import ArtRuntime.Compiler.Location
import ArtRuntime.Compiler.Graph
import ArtRuntime.Compiler.InstructionSimplifier
import ArtRuntime.Compiler.TypeConversion
import ArtRuntime.Compiler.InductionVarAnalysis
import ArtRuntime.Compiler.IvSimplifier
import ArtRuntime.Compiler.InductionVarRange
import ArtRuntime.Foundation.SignedIntervals
import ArtRuntime.Compiler.RangeValue
import ArtRuntime.Foundation.WordLoop
import ArtRuntime.Compiler.LoopOptimization
import ArtRuntime.Compiler.LiveInterval
import ArtRuntime.Compiler.BoundsCheckElimination
import ArtRuntime.Compiler.MonotonicValueRange
import ArtRuntime.Compiler.ParallelMove
import ArtRuntime.Compiler.ParallelMoveResolverWithSwap
import ArtRuntime.Compiler.ParallelMoveResolverNoSwap
import ArtRuntime.Foundation.InvariantDivision
import ArtRuntime.Compiler.CodeGeneratorUtils
import ArtRuntime.Foundation.SetBits
import ArtRuntime.Runtime.SpaceBitmap
import ArtRuntime.Runtime.CardTable
import ArtRuntime.Foundation.CellHeap
import ArtRuntime.Compiler.Gvn.ValueSet
import ArtRuntime.Compiler.Gvn.BucketLoops
import ArtRuntime.Compiler.Gvn.Refinement
import ArtRuntime.Compiler.Gvn.Ownership
import ArtRuntime.Base.Leb128Update
import ArtRuntime.Runtime.TypeLookupTable
import ArtRuntime.Runtime.TypeLookupTableCreate
import ArtRuntime.Runtime.TypeLookupTableLookup
import ArtRuntime.Foundation.LittleEndian
import ArtRuntime.Foundation.X86Operand
import ArtRuntime.Compiler.X8664.Address
import ArtRuntime.Compiler.X8664.Label
import ArtRuntime.Compiler.X8664.LabelResolution
import ArtRuntime.Foundation.CyclicIndex
import ArtRuntime.Base.HashSetProbing
import ArtRuntime.Base.HashSetErase
import ArtRuntime.Base.HashSetRefinement
import ArtRuntime.Compiler.ParallelMoveSemantics
import ArtRuntime.Compiler.ParallelMoveResolverWithSwapCorrectness
import ArtRuntime.Compiler.ParallelMoveResolverNoSwapCorrectness
import ArtRuntime.Foundation.TwosComplement
import ArtRuntime.Foundation.X86
import ArtRuntime.Compiler.X8664.DivRem
import ArtRuntime.Compiler.X8664.DivRemSequences
import ArtRuntime.Compiler.X8664.DivRemCorrectness
import ArtRuntime.Compiler.X86.DivRem
