import DocQuery.Client.Config
import DocQuery.Client.Query
import DocQuery.Command.Run
import DocQuery.Extraction
import DocQuery.Field
import DocQuery.Main
import DocQuery.Proofs.Client.Headers
import DocQuery.Proofs.Client.Querying
import DocQuery.Proofs.Extraction.Each
import DocQuery.Proofs.Field.Collection
import DocQuery.Proofs.Field.Listing
import DocQuery.Proofs.Query.PageOptions
import DocQuery.Proofs.Query.PathLiteral
import DocQuery.Proofs.Query.Piecewise
import DocQuery.Proofs.Query.Unambiguous
import DocQuery.Proofs.Shape.Decoding
import DocQuery.Proofs.Shape.RoundTrip
import DocQuery.Proofs.Shape.Stability
import DocQuery.Proofs.Value.PlainReading
import DocQuery.Proofs.Value.Reading
import DocQuery.Proofs.Value.Rereading
import DocQuery.Proofs.Value.RoundTrip
import DocQuery.Proofs.Value.Timestamps
import DocQuery.Query.Form
import DocQuery.Response
import DocQuery.Value.Wire
import DocQuery.Proofs.Client.Settings
import DocQuery.Proofs.Calendar.CivilTime
