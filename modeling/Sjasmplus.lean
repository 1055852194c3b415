import Sjasmplus.NumericLiteral
import Sjasmplus.Literal
import Sjasmplus.CharConst
import Sjasmplus.Labels
import Sjasmplus.Expression
import Sjasmplus.ExpressionFuel
import Sjasmplus.ExpressionTree
import Sjasmplus.ExpressionArithmetic
import Sjasmplus.ExpressionRoundTrip
import Sjasmplus.Relocation
import Sjasmplus.Device
import Sjasmplus.Emit
import Sjasmplus.Displacement
import Sjasmplus.Crc32c
import Sjasmplus.Lib.Program
import Sjasmplus.Nex
import Sjasmplus.NexChecksum
import Sjasmplus.Assembler
import Sjasmplus.Structure
import Sjasmplus.StructureInstance
import Sjasmplus.ParseLabel
import Sjasmplus.Statements
import Sjasmplus.Evaluation
import Sjasmplus.Runs
import Sjasmplus.AddressClass
import Sjasmplus.DefinitionClass
import Sjasmplus.Lib.Layout
import Sjasmplus.StructureLayout
import Sjasmplus.StructureLabels
import Sjasmplus.Movement
import Sjasmplus.StructureSize
import Sjasmplus.Mapping
import Sjasmplus.MappedMemory
import Sjasmplus.Tape
import Sjasmplus.TapeOut
import Sjasmplus.SaveRegions
import Sjasmplus.LabelPages
import Sjasmplus.NexMemory
import Sjasmplus.RelocationTable
import Sjasmplus.NexBanks
import Sjasmplus.HexOutput
import Sjasmplus.PagePointer
import Sjasmplus.Defines
import Sjasmplus.TemporaryLabels
import Sjasmplus.Hobeta
import Sjasmplus.Snapshot
import Sjasmplus.CdtTape
import Sjasmplus.CdtSnapshot
import Sjasmplus.MacroLabels
import Sjasmplus.Lib.Abstraction
import Sjasmplus.ReadLine
import Sjasmplus.ReadBlocks
import Sjasmplus.Lib.Restoration
import Sjasmplus.MacroEmit
import Sjasmplus.MacroRestore
import Sjasmplus.IncludeBinary
import Sjasmplus.DeviceDefinition
import Sjasmplus.NumericOverflow
import Sjasmplus.Lib.Mirror
import Sjasmplus.ExpressionSyntax
import Sjasmplus.Lib.Brackets
import Sjasmplus.MemoryAccess
import Sjasmplus.Include
import Sjasmplus.Lib.Levels
import Sjasmplus.SizeTracking
import Sjasmplus.Lib.Z80
import Sjasmplus.Registers
import Sjasmplus.LoadInstructions
import Sjasmplus.ArithmeticInstructions
import Sjasmplus.FakeInstructions
import Sjasmplus.PageOffset
import Sjasmplus.StructureTable
import Sjasmplus.Lib.Guardian
import Sjasmplus.RepeatStack
import Sjasmplus.WhileGuardian
import Sjasmplus.DefineOrder
import Sjasmplus.MacroArguments
import Sjasmplus.NamedArguments
import Sjasmplus.DefArray
import Sjasmplus.Lib.Patches
import Sjasmplus.TapSnapshot
import Sjasmplus.IfChain
import Sjasmplus.Lib.Passes
import Sjasmplus.DupRepeat
import Sjasmplus.RepeatBodies
import Sjasmplus.ReplaceDefine
import Sjasmplus.SubstitutionBuffers
import Sjasmplus.ListingWidth
import Sjasmplus.Lib.Areas
import Sjasmplus.Lib.Decisions
import Sjasmplus.TrdImage
import Sjasmplus.TrdAddFile
import Sjasmplus.TrdCatalogue
import Sjasmplus.TrdTarget
import Sjasmplus.TrdWrite
import Sjasmplus.TrdPreservation
import Sjasmplus.TrdIncFile
import Sjasmplus.Lib.Z80Instructions
import Sjasmplus.Lib.RelatedProcessors
import Sjasmplus.JumpInstructions
import Sjasmplus.MachineInstructions
import Sjasmplus.OpCodeTable
import Sjasmplus.InstructionCode
import Sjasmplus.MachineCode
import Sjasmplus.LoadCode
import Sjasmplus.LineCode
import Sjasmplus.SyntaxOptions
import Sjasmplus.SyntaxStack
import Sjasmplus.ProgramCode
