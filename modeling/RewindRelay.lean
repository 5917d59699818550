import RewindRelay.Decimal.Fixed
import RewindRelay.Main
import RewindRelay.Proofs.Broadcast.Encoding
import RewindRelay.Proofs.Broadcast.Gapless
import RewindRelay.Proofs.Broadcast.Loading
import RewindRelay.Proofs.Broadcast.Merge
import RewindRelay.Proofs.Broadcast.Preload
import RewindRelay.Proofs.Broadcast.Replication
import RewindRelay.Proofs.Broadcast.Servable
import RewindRelay.Proofs.Bytes
import RewindRelay.Proofs.Decimal.Numeral
import RewindRelay.Proofs.Dump.Cut
import RewindRelay.Proofs.Dump.Delivery
import RewindRelay.Proofs.Dump.Document
import RewindRelay.Proofs.Dump.Frame
import RewindRelay.Proofs.Dump.Grammar
import RewindRelay.Proofs.Dump.Loader
import RewindRelay.Proofs.Dump.Writer
import RewindRelay.Proofs.Json.Document
import RewindRelay.Proofs.Json.Number
import RewindRelay.Proofs.Json.Text
import RewindRelay.Proofs.Store.Catalog
import RewindRelay.Proofs.Stream.Cut
import RewindRelay.Proofs.Stream.Preload
import RewindRelay.Proofs.Stream.Restore
import RewindRelay.Proofs.Stream.Seat
import RewindRelay.Proofs.Broadcast.Roster
import RewindRelay.Proofs.Stream.Turn
import RewindRelay.Proofs.Broadcast.Passage
import RewindRelay.Proofs.Broadcast.Intact
import RewindRelay.Proofs.Broadcast.Onward
import RewindRelay.Proofs.Broadcast.Restart
import RewindRelay.Proofs.Broadcast.Attendance
import RewindRelay.Proofs.Listener.Queue
import RewindRelay.Proofs.Broadcast.Secluded
import RewindRelay.Proofs.Dump.Acceptance
import RewindRelay.Proofs.Broadcast.Lossless
import RewindRelay.Proofs.Broadcast.Seeding
import RewindRelay.Proofs.Broadcast.Download
import RewindRelay.Proofs.Dump.Failure
import RewindRelay.Proofs.Store.Forward
import RewindRelay.Proofs.Broadcast.NowPlaying
import RewindRelay.Proofs.Broadcast.Compatible
import RewindRelay.Proofs.Stream.Stored
import RewindRelay.Proofs.Broadcast.Final
import RewindRelay.Proofs.Broadcast.Wake
import RewindRelay.Proofs.Broadcast.Slow
import RewindRelay.Proofs.Broadcast.Statistics
import RewindRelay.Proofs.Http.Address
import RewindRelay.Proofs.Registry.Lobby
import RewindRelay.Proofs.Dump.Append
import RewindRelay.Proofs.Dump.Progress
import RewindRelay.Proofs.Decimal.Relative
import RewindRelay.Proofs.Vitals
