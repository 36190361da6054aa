import RoomScript.Bytes
import RoomScript.Numeral
import RoomScript.Generation
import RoomScript.Room
import RoomScript.Room.Draft
import RoomScript.Message.Markup
import RoomScript.Message.Table
import RoomScript.Effect
import RoomScript.Cells
import RoomScript.RoomState
import RoomScript.Problem
import RoomScript.FunctionTable
import RoomScript.Instruction
import RoomScript.Language.Basic
import RoomScript.Language.Symbols
import RoomScript.Language.Re1Scd
import RoomScript.Language.Re1Event
import RoomScript.Language.Re2
import RoomScript.Language.Re3
import RoomScript.Language
import RoomScript.Cursor
import RoomScript.Walk
import RoomScript.Settings
import RoomScript.Execution
import RoomScript.Listing
import RoomScript.ScriptSection
import RoomScript.Json
import RoomScript.Json.Lexeme
import RoomScript.Json.Tree
import RoomScript.Settings.File
import RoomScript.Json.Reports
import RoomScript.CommandLine.Files
import RoomScript.CommandLine.FileTree
import RoomScript.CommandLine.Command
import RoomScript.CommandLine.Engine
import RoomScript.CommandLine.Info
import RoomScript.CommandLine.Program
import RoomScript.Main
import RoomScript.Proofs.Decoding
import RoomScript.Proofs.Trace
import RoomScript.Proofs.Outline
import RoomScript.Proofs.Playback
import RoomScript.Proofs.Ceiling
import RoomScript.Proofs.Placement
import RoomScript.Proofs.Coverage
import RoomScript.Proofs.Selection
import RoomScript.Proofs.Assembly
import RoomScript.Proofs.RoundTrip
import RoomScript.Proofs.Effects
import RoomScript.Proofs.Gating
import RoomScript.Proofs.StructuredRun
import RoomScript.Proofs.EndMarker
import RoomScript.Proofs.Relocation
import RoomScript.Proofs.TableEntries
import RoomScript.Proofs.SectionTable
import RoomScript.Proofs.TablePacking
import RoomScript.Proofs.Packing
import RoomScript.Proofs.Additions
import RoomScript.Proofs.Indifference
import RoomScript.Proofs.ByteListing
import RoomScript.Proofs.Pairing
import RoomScript.Proofs.Messages
import RoomScript.Proofs.Persistence
import RoomScript.Proofs.MessageEnds
import RoomScript.Proofs.FunctionPacking
import RoomScript.Proofs.Nesting
import RoomScript.Proofs.EventFrame
import RoomScript.Proofs.Bounds
import RoomScript.Proofs.Truncation
import RoomScript.Proofs.Embedding
import RoomScript.Proofs.Replay
import RoomScript.Proofs.Confinement
import RoomScript.Proofs.DisplayOptions
import RoomScript.Proofs.PrintedLines
import RoomScript.Proofs.Calls
import RoomScript.Proofs.MessageCuts
import RoomScript.Proofs.Tokenwise
import RoomScript.Proofs.Captions
import RoomScript.Proofs.CaptionedLines
import RoomScript.Proofs.OperationLines
import RoomScript.Proofs.FlagStore
import RoomScript.Proofs.Arithmetic
import RoomScript.Proofs.CursorMoves
import RoomScript.Proofs.BoundedReads
import RoomScript.Proofs.JsonTexts
import RoomScript.Proofs.JsonPrinting
import RoomScript.Proofs.SettingsTexts
