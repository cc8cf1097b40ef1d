import NetImage.Main
import NetImage.Example.Nets
import NetImage.Build.Compile
import NetImage.Build.Journal
import NetImage.Build.Layout
import NetImage.Build.Squeeze
import NetImage.Sample
import NetImage.Model.Bundle
import NetImage.Image
import NetImage.Model.Record
import NetImage.Region
import NetImage.Graph.Manual
import NetImage.Graph.Parser
import NetImage.Graph.Printer
import NetImage.Graph.Value
import NetImage.Number.Fixed
import NetImage.Number.Literal
import NetImage.Number.Q15
import NetImage.Text.Paragraph
import NetImage.Text.Quoted
import NetImage.Proofs.Passes
import NetImage.Proofs.Config
import NetImage.Proofs.Sample
import NetImage.Proofs.Sample.Limits
import NetImage.Proofs.Sample.Records
import NetImage.Proofs.Model.Reader
import NetImage.Proofs.Model.Decoding
import NetImage.Proofs.Graph.Reading
import NetImage.Proofs.Graph.ElementCount
import NetImage.Proofs.Build.Folding
import NetImage.Proofs.Build.Squeeze
import NetImage.Proofs.Build.Steps
import NetImage.Proofs.Build.Numbering
import NetImage.Proofs.Build.Indexing
import NetImage.Proofs.Build.Rotation
import NetImage.Proofs.Build.Encoding
import NetImage.Proofs.Build.Placement
import NetImage.Proofs.Region
import NetImage.Proofs.Build.Compile
import NetImage.Proofs.Image
import NetImage.Proofs.Assembly
import NetImage.Proofs.Build.Capacity
import NetImage.Proofs.Build.ReservedHead
import NetImage.Proofs.Build.Refusal
import NetImage.Proofs.Build.StoredConstants
import NetImage.Proofs.Build.DataFlow
import NetImage.Proofs.Build.FieldWidths
import NetImage.Proofs.Build.Liveness
import NetImage.Proofs.Build.Operands
import NetImage.Proofs.Build.Attributes
import NetImage.Proofs.Build.Lifetimes
import NetImage.Proofs.Build.DeclaredBeforeUse
import NetImage.Proofs.Build.ConvSplit
import NetImage.Proofs.Build.ConstantUses
import NetImage.Proofs.Build.SampleShapes
import NetImage.Proofs.Build.TestSet
import NetImage.Proofs.Build.Quantizer
import NetImage.Proofs.Build.SampleCount
import NetImage.Proofs.Build.SampleLayout
import NetImage.Proofs.Graph.Printing
import NetImage.Proofs.Graph.Appending
import NetImage.Proofs.Example.Calls
import NetImage.Proofs.Example.Names
import NetImage.Proofs.Text.Paragraph
import NetImage.Proofs.Source.Appending
import NetImage.Proofs.Source.Joining
import NetImage.Proofs.Source.Companion
import NetImage.Proofs.Source.Constants
import NetImage.Proofs.Model.IndexArray
import NetImage.Proofs.Variant.FileData
import NetImage.Proofs.Variant.Interleaving
import NetImage.Proofs.Variant.Renaming
