import InterfaceGen.Batch.Convert
import InterfaceGen.Batch.Report
import InterfaceGen.Batch.Session
import InterfaceGen.Batch.Update
import InterfaceGen.Decimal.Binary64
import InterfaceGen.Decimal.Shortest
import InterfaceGen.Decimal.Text
import InterfaceGen.Declaration
import InterfaceGen.Declaration.Printer
import InterfaceGen.Engine
import InterfaceGen.Files.Error
import InterfaceGen.Files.Glob
import InterfaceGen.Files.Path
import InterfaceGen.Files.Source
import InterfaceGen.Files.Tree
import InterfaceGen.Graph
import InterfaceGen.Imports.Path
import InterfaceGen.Imports.Resolver
import InterfaceGen.Json.Bytes
import InterfaceGen.Json.Reader
import InterfaceGen.Json.Value
import InterfaceGen.Memo
import InterfaceGen.Memo.Fingerprint
import InterfaceGen.Service
import InterfaceGen.Service.Body
import InterfaceGen.Service.Directories
import InterfaceGen.Service.Message
import InterfaceGen.Service.Route
import InterfaceGen.Service.Serving
import InterfaceGen.Service.Sources
import InterfaceGen.Service.Target
import InterfaceGen.Source.Annotation
import InterfaceGen.Source.Comment
import InterfaceGen.Source.Constant
import InterfaceGen.Source.EnumBody
import InterfaceGen.Source.Failure
import InterfaceGen.Source.FieldList
import InterfaceGen.Source.FieldType
import InterfaceGen.Source.Header
import InterfaceGen.Source.Literal
import InterfaceGen.Text.Alphanumeric
import InterfaceGen.Text.Blank
import InterfaceGen.Text.Hexadecimal
import InterfaceGen.Text.Infix
import InterfaceGen.Text.Lines
import InterfaceGen.Text.Pattern
import InterfaceGen.Text.Percent
import InterfaceGen.Text.Printable
import InterfaceGen.Text.Quoted
import InterfaceGen.Text.Split
import InterfaceGen.Text.Utf16
import InterfaceGen.Text.Utf32
import InterfaceGen.Text.Utf8
import InterfaceGen.Text.Word
import InterfaceGen.Types.Dependencies
import InterfaceGen.Types.Generic
import InterfaceGen.Types.Mapping
import InterfaceGen.Types.Overrides
import InterfaceGen.Types.System
import InterfaceGen.Types.Wildcard
import InterfaceGen.Proofs.Batch.Blocks
import InterfaceGen.Proofs.Batch.Declared
import InterfaceGen.Proofs.Batch.Entries
import InterfaceGen.Proofs.Batch.Header
import InterfaceGen.Proofs.Batch.Linked
import InterfaceGen.Proofs.Batch.Mirror
import InterfaceGen.Proofs.Batch.Passes
import InterfaceGen.Proofs.Batch.Runs
import InterfaceGen.Proofs.Batch.Served
import InterfaceGen.Proofs.Batch.Update
import InterfaceGen.Proofs.Batch.Verdicts
import InterfaceGen.Proofs.Batch.Written
import InterfaceGen.Proofs.Declaration.Lines
import InterfaceGen.Proofs.Declaration.Reader
import InterfaceGen.Proofs.Declaration.Sentinel
import InterfaceGen.Proofs.Engine.Closed
import InterfaceGen.Proofs.Engine.Comments
import InterfaceGen.Proofs.Engine.Enums
import InterfaceGen.Proofs.Engine.Headers
import InterfaceGen.Proofs.Engine.Invariants
import InterfaceGen.Proofs.Engine.Locations
import InterfaceGen.Proofs.Engine.Outcomes
import InterfaceGen.Proofs.Engine.Prologue
import InterfaceGen.Proofs.Engine.Reading
import InterfaceGen.Proofs.Engine.Session
import InterfaceGen.Proofs.Engine.Transparency
import InterfaceGen.Proofs.Files.Finding
import InterfaceGen.Proofs.Files.Location
import InterfaceGen.Proofs.Files.Making
import InterfaceGen.Proofs.Files.Outline
import InterfaceGen.Proofs.Files.Reaching
import InterfaceGen.Proofs.Files.Text
import InterfaceGen.Proofs.Files.WellFormed
import InterfaceGen.Proofs.Graph
import InterfaceGen.Proofs.Graph.Session
import InterfaceGen.Proofs.Imports.Keys
import InterfaceGen.Proofs.Imports.Path
import InterfaceGen.Proofs.Imports.Resolution
import InterfaceGen.Proofs.Memo
import InterfaceGen.Proofs.Memo.Polynomial
import InterfaceGen.Proofs.Service.Outcomes
import InterfaceGen.Proofs.Source.AnnotationReading
import InterfaceGen.Proofs.Source.Blanking
import InterfaceGen.Proofs.Source.Brackets
import InterfaceGen.Proofs.Source.Characters
import InterfaceGen.Proofs.Source.ClassHeader
import InterfaceGen.Proofs.Source.Constants
import InterfaceGen.Proofs.Source.Declarators
import InterfaceGen.Proofs.Source.EnumBraces
import InterfaceGen.Proofs.Source.EnumExtraction
import InterfaceGen.Proofs.Source.EnumHeader
import InterfaceGen.Proofs.Source.EnumLiterals
import InterfaceGen.Proofs.Source.EnumReading
import InterfaceGen.Proofs.Source.EnumSpelling
import InterfaceGen.Proofs.Source.FieldContexts
import InterfaceGen.Proofs.Source.FieldExtraction
import InterfaceGen.Proofs.Source.FieldInvariants
import InterfaceGen.Proofs.Source.FieldLiterals
import InterfaceGen.Proofs.Source.FieldNames
import InterfaceGen.Proofs.Source.FieldPasses
import InterfaceGen.Proofs.Source.FieldReading
import InterfaceGen.Proofs.Source.FieldSpelling
import InterfaceGen.Proofs.Source.FieldWalls
import InterfaceGen.Proofs.Source.LastHeader
import InterfaceGen.Proofs.Source.Lexemes
import InterfaceGen.Proofs.Source.Offsets
import InterfaceGen.Proofs.Source.Reading
import InterfaceGen.Proofs.Source.Segments
import InterfaceGen.Proofs.Source.Splitting
import InterfaceGen.Proofs.Source.TypeReading
import InterfaceGen.Proofs.Text.Cutting
import InterfaceGen.Proofs.Text.Matches
import InterfaceGen.Proofs.Text.Matching
import InterfaceGen.Proofs.Text.Occurring
import InterfaceGen.Proofs.Text.Reads
import InterfaceGen.Proofs.Text.Scanning
import InterfaceGen.Proofs.Text.Stored
import InterfaceGen.Proofs.Text.Trimming
import InterfaceGen.Proofs.Text.Walls
import InterfaceGen.Proofs.Text.Words
import InterfaceGen.Proofs.Types.Arguments
import InterfaceGen.Proofs.Types.Characters
import InterfaceGen.Proofs.Types.Cleaning
import InterfaceGen.Proofs.Types.Depth
import InterfaceGen.Proofs.Types.Fixpoints
import InterfaceGen.Proofs.Types.Grammar
import InterfaceGen.Proofs.Types.Grouping
import InterfaceGen.Proofs.Types.Layers
import InterfaceGen.Proofs.Types.Mentions
import InterfaceGen.Proofs.Types.Pieces
import InterfaceGen.Proofs.Types.Plausible
import InterfaceGen.Proofs.Types.Qualifiers
import InterfaceGen.Proofs.Types.References
import InterfaceGen.Proofs.Types.Remains
import InterfaceGen.Proofs.Types.Shapes
import InterfaceGen.Proofs.Types.Spelling
import InterfaceGen.Proofs.Types.Splitting
import InterfaceGen.Proofs.Types.Target
import InterfaceGen.Proofs.Types.Term
import InterfaceGen.Proofs.Types.Tightening
import InterfaceGen.Proofs.Types.Translation
import InterfaceGen.Proofs.Types.Walk
