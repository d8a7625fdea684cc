import Spatial.Number.Angle
import Spatial.Number.Binary
import Spatial.Plane
import Spatial.Projection
import Spatial.Viewing
import Spatial.Decomposition
import Spatial.Number.Numeral
import Spatial.Layout
import Spatial.Text
import Spatial.Number.Tolerance
import Spatial.Json.Library
import Spatial.Json.Record
import Spatial.Columns
import Spatial.Operation
import Spatial.Proofs.Plane
import Spatial.Proofs.Composition
import Spatial.Proofs.Decomposition
import Spatial.Proofs.Acceptance
import Spatial.Proofs.Conjugation
import Spatial.Proofs.Singular
import Spatial.Proofs.Promotion
import Spatial.Proofs.Embedding
import Spatial.Proofs.Interpolation
import Spatial.Proofs.Antipodes
import Spatial.Proofs.AxisAngle
import Spatial.Proofs.Viewing
import Spatial.Proofs.Projection
import Spatial.Proofs.Memory
import Spatial.Proofs.Json.Grammar
import Spatial.Proofs.Binary.Nearest
import Spatial.Proofs.Binary.Estimate
import Spatial.Proofs.Decimal.Shortest
import Spatial.Proofs.Decimal.Gap
import Spatial.Proofs.Json.Library
import Spatial.Proofs.Json.Members
import Spatial.Proofs.Json.Records
import Spatial.Proofs.Json.Computed
import Spatial.Proofs.Json.Numerals
import Spatial.Proofs.Json.Beginnings
import Spatial.Proofs.Json.Rules
import Spatial.Proofs.Json.Presentation
import Spatial.Proofs.Json.Truncation
import Spatial.Proofs.Json.Wide
import Spatial.Proofs.Json.RoundTrip
import Spatial.Proofs.Binary.Order
import Spatial.Proofs.Binary.Signed
import Spatial.Proofs.Undefined
import Spatial.Proofs.Binary.Monotone
import Spatial.Proofs.Reduction
import Spatial.Proofs.Tolerance
import Spatial.Proofs.Reports
import Spatial.Proofs.QuarterTurn
import Spatial.Proofs.Binary.QuarterTurn
import Spatial.Proofs.Binary.Defined
import Spatial.Proofs.Perspective
import Spatial.Proofs.Center
import Spatial.Proofs.Billboard
import Spatial.Proofs.Binary.Error
import Spatial.Proofs.Binary.Interpolation
import Spatial.Proofs.Binary.Relative
import Spatial.Proofs.Binary.Plane
import Spatial.Proofs.Collineation
import Spatial.Proofs.Division
import Spatial.Proofs.Product
import Spatial.Proofs.Binary.Amount
import Spatial.Proofs.Identity
import Spatial.Proofs.Translation
import Spatial.Proofs.Binary.Length
import Spatial.Proofs.Binary.Normalization
import Spatial.Proofs.Binary.AxisAngle
import Spatial.Proofs.Binary.Clamp
import Spatial.Proofs.Vertices
