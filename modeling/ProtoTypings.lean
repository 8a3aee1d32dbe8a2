import ProtoTypings.Main
import ProtoTypings.CommandLine.Machine
import ProtoTypings.Proofs.CommentLines
import ProtoTypings.Proofs.CommentPlaces
import ProtoTypings.Proofs.DescriptorWalk
import ProtoTypings.Proofs.DirectImports
import ProtoTypings.Proofs.FaithfulText
import ProtoTypings.Proofs.FileExtension
import ProtoTypings.Proofs.ImportBlock
import ProtoTypings.Proofs.NameCapture
import ProtoTypings.Proofs.OutputNames
import ProtoTypings.Proofs.RememberedAnswers
import ProtoTypings.Proofs.WriteThenCheck
import ProtoTypings.Proofs.WrittenFiles
import ProtoTypings.Proofs.CatalogExact
import ProtoTypings.Proofs.ImportNames
import ProtoTypings.Proofs.OverlappingSets
import ProtoTypings.Proofs.HiddenNames
import ProtoTypings.Proofs.RepeatedNames
import ProtoTypings.Proofs.ScopedLookup
import ProtoTypings.Proofs.FieldFaults
import ProtoTypings.Proofs.KeyFields
import ProtoTypings.Proofs.MapValues
import ProtoTypings.Proofs.MemberNames
import ProtoTypings.Proofs.LineComments
import ProtoTypings.Proofs.ConfinedPaths
import ProtoTypings.Proofs.ParameterTexts
import ProtoTypings.Proofs.EnumAliases
import ProtoTypings.Proofs.CamelCase
import ProtoTypings.Proofs.TypedNames
import ProtoTypings.Proofs.FailedFields
import ProtoTypings.Proofs.EnclosingSearch
import ProtoTypings.Proofs.EndingRuns
