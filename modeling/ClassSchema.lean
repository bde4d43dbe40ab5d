import ClassSchema.Json.Printer
import ClassSchema.Main
import ClassSchema.Proofs.Outcome
import ClassSchema.Proofs.Reference
import ClassSchema.Proofs.FlatUnions
import ClassSchema.Proofs.Printing
import ClassSchema.Proofs.Nesting
import ClassSchema.Proofs.Agreement
import ClassSchema.Proofs.Trimming
import ClassSchema.Proofs.TypeScan
import ClassSchema.Proofs.TaggedType
import ClassSchema.Proofs.TagLines
import ClassSchema.Proofs.TypeEnd
import ClassSchema.Proofs.CutType
import ClassSchema.Proofs.Repeats
import ClassSchema.Proofs.PropertyForms
import ClassSchema.Proofs.StepValues
import ClassSchema.Proofs.Expandable
import ClassSchema.Proofs.FirstDefect
import ClassSchema.Proofs.OpenClasses
import ClassSchema.Proofs.InPlace
import ClassSchema.Proofs.DescentRules
import ClassSchema.Proofs.PassedSites
import ClassSchema.Proofs.PathText
import ClassSchema.Proofs.Cycles
import ClassSchema.Proofs.SideBySide
import ClassSchema.Proofs.DepthLimit
import ClassSchema.Proofs.Tuples
import ClassSchema.Proofs.Reports
import ClassSchema.Proofs.TupleNames
import ClassSchema.Proofs.Inlining
import ClassSchema.Proofs.OutputLanguage
import ClassSchema.Proofs.Grammar
import ClassSchema.Proofs.Spelling
import ClassSchema.Proofs.Reading
import ClassSchema.Proofs.ClosedGenerics
import ClassSchema.Proofs.ReadTo
import ClassSchema.Proofs.Language
import ClassSchema.Proofs.Beginnings
import ClassSchema.Proofs.TokenOffsets
import ClassSchema.Proofs.FirstFault
import ClassSchema.Proofs.FaultPosition
import ClassSchema.Proofs.SeveralArguments
import ClassSchema.Proofs.JsonTokens
import ClassSchema.Proofs.Gathering
import ClassSchema.Proofs.Decoding
import ClassSchema.Proofs.JsonScalars
import ClassSchema.Proofs.JsonText
import ClassSchema.Proofs.CompactText
import ClassSchema.Proofs.FileDecoding
import ClassSchema.Proofs.Loading
import ClassSchema.Proofs.FileFormat
import ClassSchema.Proofs.Declarations
import ClassSchema.Proofs.Checking
