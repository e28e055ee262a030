import Subtitles.Description
import Subtitles.Main
import Subtitles.Session
import Subtitles.Proofs.Stream.Faithful
import Subtitles.Proofs.Geometry
import Subtitles.Proofs.Stream.Acquire
import Subtitles.Proofs.Session.Cached
import Subtitles.Proofs.TallyBackend
import Subtitles.Proofs.Bisect
import Subtitles.Proofs.Canvas
import Subtitles.Proofs.TextBackend.Changes
import Subtitles.Proofs.TextBackend.Recall
import Subtitles.Proofs.Stream.Reading
import Subtitles.Proofs.Stream.InOrder
import Subtitles.Proofs.Stream.Steady
import Subtitles.Proofs.Stream.Beside
import Subtitles.Proofs.Session.ChangeNumbers
import Subtitles.Proofs.Cache.Balance
import Subtitles.Proofs.Cache.Exchange
import Subtitles.Proofs.Session.Transparent
import Subtitles.Proofs.Cache.Bounds
import Subtitles.Proofs.Cache.Lookup
import Subtitles.Proofs.Session.Underway
import Subtitles.Proofs.Session.Rest
import Subtitles.Proofs.Session.Enduring
import Subtitles.Proofs.Session.SingleFlight
import Subtitles.Proofs.TextBackend.Store
import Subtitles.Proofs.TextBackend.Visible
import Subtitles.Proofs.PictureBackend.Newest
import Subtitles.Proofs.Stream.Inlet
import Subtitles.Proofs.Session.Ingestion
import Subtitles.Proofs.Session.Recent
import Subtitles.Proofs.Session.Preload
import Subtitles.Proofs.Session.Alignment
import Subtitles.Proofs.Cache.Times
import Subtitles.Proofs.Session.SteadyPlayback
import Subtitles.Proofs.TextBackend.Indicator
import Subtitles.Proofs.PictureBackend.Indicator
import Subtitles.Proofs.Part
import Subtitles.Proofs.PictureBackend.SourceSize
import Subtitles.Proofs.PictureBackend.Payload
import Subtitles.Proofs.Binary64.Quotients
import Subtitles.Proofs.AnyBackend
import Subtitles.Proofs.Stream.OnDemand
import Subtitles.Proofs.Player.Run
import Subtitles.Proofs.Player.OnDemand
import Subtitles.Proofs.Cache.Lane
import Subtitles.Proofs.Stream.Ahead
import Subtitles.Proofs.Stream.Lined
import Subtitles.Proofs.Player.Schedule
import Subtitles.Proofs.Player.Ahead
import Subtitles.Proofs.Player.Pictures
import Subtitles.Proofs.Player.Ending
import Subtitles.Proofs.Program
import Subtitles.Proofs.Cache.Passing
import Subtitles.Proofs.Cache.Cascade
import Subtitles.Proofs.TextBackend.Agreement
import Subtitles.Proofs.Binary64.Products
import Subtitles.Proofs.TextBackend.Cells
import Subtitles.Proofs.Premultiplied
import Subtitles.Proofs.TextBackend.Resends
import Subtitles.Proofs.TextBackend.Placement
import Subtitles.Proofs.TextBackend.Limits
import Subtitles.Proofs.TextBackend.Steps
import Subtitles.Proofs.Session.Backpressure
import Subtitles.Proofs.Session.VideoChanges
import Subtitles.Proofs.Cache.Handles
