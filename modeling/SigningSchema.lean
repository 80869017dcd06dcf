import SigningSchema.Demo
import SigningSchema.Main
import SigningSchema.Proofs.Table
import SigningSchema.Proofs.Wire.Primitive
import SigningSchema.Proofs.Wire.Scalar
import SigningSchema.Proofs.Wire.Conformance
import SigningSchema.Proofs.Wire.Reader
import SigningSchema.Proofs.Wire.RoundTrip
import SigningSchema.Proofs.Corpus.Reachability
import SigningSchema.Proofs.Registry.Shape
import SigningSchema.Proofs.Registry.Walk
import SigningSchema.Proofs.Registry.Survey
import SigningSchema.Proofs.Registry.Derivation
import SigningSchema.Proofs.Encoder.Typing
import SigningSchema.Proofs.Encoder.Layout
import SigningSchema.Proofs.Encoder.Soundness
import SigningSchema.Proofs.Registry.Collision
import SigningSchema.Proofs.Registry.Rearrangement
import SigningSchema.Proofs.Registry.Independence
import SigningSchema.Proofs.Coercion.Paths
import SigningSchema.Proofs.Encoder.Meaning
import SigningSchema.Proofs.Wire.Standard
import SigningSchema.Proofs.Encoder.Native
import SigningSchema.Proofs.Encoder.Output
import SigningSchema.Proofs.Encoder.Agreement
import SigningSchema.Proofs.Encoder.Reordering
import SigningSchema.Proofs.Encoder.Payload
import SigningSchema.Proofs.Encoder.Separation
import SigningSchema.Proofs.Source.Layout
import SigningSchema.Proofs.Source.Openings
import SigningSchema.Proofs.Source.Headers
import SigningSchema.Proofs.Source.Blocks
import SigningSchema.Proofs.Source.Grammar
import SigningSchema.Proofs.Source.Clauses
import SigningSchema.Proofs.Source.Messages
import SigningSchema.Proofs.Source.Declarations
import SigningSchema.Proofs.Source.Calls
import SigningSchema.Proofs.Source.Packages
import SigningSchema.Proofs.Source.Printing
import SigningSchema.Proofs.Coercion.Faults
import SigningSchema.Proofs.Wire.Writing
import SigningSchema.Proofs.Encoder.Planning
import SigningSchema.Proofs.Generation.Stages
import SigningSchema.Proofs.Registry.Unfolding
import SigningSchema.Proofs.Sorting
import SigningSchema.Proofs.Files.PathOrder
import SigningSchema.Proofs.Corpus.Assembly
import SigningSchema.Proofs.Corpus.Agreement
import SigningSchema.Proofs.Corpus.Sources
import SigningSchema.Proofs.Generation.Distribution
import SigningSchema.Proofs.Corpus.Extension
import SigningSchema.Proofs.Registry.Agreement
import SigningSchema.Proofs.Wire.Relocation
import SigningSchema.Proofs.Encoder.Sharing
import SigningSchema.Proofs.Generation.Extension
import SigningSchema.Proofs.Text
import SigningSchema.Proofs.Spelling
import SigningSchema.Proofs.Naming
import SigningSchema.Proofs.Builder.Entries
import SigningSchema.Proofs.Builder.Constructors
import SigningSchema.Proofs.Builder.Union
import SigningSchema.Proofs.Corpus.Listing
import SigningSchema.Proofs.Encoder.Dispatch
import SigningSchema.Proofs.Registry.Durations
import SigningSchema.Proofs.Config.Loads
import SigningSchema.Proofs.Json.Printing
import SigningSchema.Proofs.Json.Decoding
import SigningSchema.Proofs.Registry.Document
import SigningSchema.Proofs.Files.Places
import SigningSchema.Proofs.Files.Tree
import SigningSchema.Proofs.Files.Directories
import SigningSchema.Proofs.Files.Publishing
import SigningSchema.Proofs.Generation.Publication
import SigningSchema.Proofs.Source.Rewording
import SigningSchema.Proofs.Source.Statements
import SigningSchema.Proofs.Source.Bodies
import SigningSchema.Proofs.Source.Sites
import SigningSchema.Proofs.Source.Literals
import SigningSchema.Proofs.Corpus.Closure
import SigningSchema.Proofs.Corpus.References
import SigningSchema.Proofs.Source.Braces
import SigningSchema.Proofs.Source.Aggregates
import SigningSchema.Proofs.Source.Spacing
import SigningSchema.Proofs.Source.Reflow
import SigningSchema.Proofs.Source.LineLayout
import SigningSchema.Proofs.Wire.Reporting
import SigningSchema.Proofs.Encoder.Fullness
import SigningSchema.Proofs.Encoder.Culprits
import SigningSchema.Proofs.Encoder.Respelling
import SigningSchema.Proofs.Encoder.Omission
import SigningSchema.Proofs.Encoder.Relaxation
import SigningSchema.Proofs.Encoder.Inhabitation
import SigningSchema.Proofs.Number.Magnitude
import SigningSchema.Proofs.Json.Integers
import SigningSchema.Proofs.Coercion.Integers
import SigningSchema.Proofs.Coercion.Moments
import SigningSchema.Proofs.Wire.Appending
import SigningSchema.Proofs.Source.Comments
import SigningSchema.Proofs.Source.Bytes
import SigningSchema.Proofs.Identifiers
import SigningSchema.Proofs.Builder.Legality
import SigningSchema.Proofs.Source.Items
import SigningSchema.Proofs.Wire.Varint
import SigningSchema.Proofs.Generation.Demo
