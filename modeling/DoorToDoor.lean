import DoorToDoor.Corridor
import DoorToDoor.Document.Forms
import DoorToDoor.Main
import DoorToDoor.Network.Nearby
import DoorToDoor.Network.OfTimetable
import DoorToDoor.Routing.Planner
import DoorToDoor.Search.LeastCost
import DoorToDoor.Settings.Text
import DoorToDoor.Timetable.Sheets
import DoorToDoor.Toml.Reader
import DoorToDoor.Proofs.Exact
import DoorToDoor.Proofs.Search.HeapOrder
import DoorToDoor.Proofs.Network.Layout
import DoorToDoor.Proofs.Search.Progress
import DoorToDoor.Proofs.Search.Trace
import DoorToDoor.Proofs.Search.Optimality
import DoorToDoor.Proofs.Itinerary.Contiguity
import DoorToDoor.Proofs.Itinerary.Grammar
import DoorToDoor.Proofs.Itinerary.VehicleRuns
import DoorToDoor.Proofs.Reuse
import DoorToDoor.Proofs.Search.Bounds
import DoorToDoor.Proofs.Failures
import DoorToDoor.Proofs.Search.Replay
import DoorToDoor.Proofs.Costs
import DoorToDoor.Proofs.Search.RunningClock
import DoorToDoor.Proofs.InsertionOrder
import DoorToDoor.Proofs.Rounding
import DoorToDoor.Proofs.WholeNumbers
import DoorToDoor.Proofs.Clock.Grammar
import DoorToDoor.Proofs.Clock.RoundTrip
import DoorToDoor.Proofs.Search.Work
import DoorToDoor.Proofs.Timetable.Dwells
import DoorToDoor.Proofs.Itinerary.Changes
import DoorToDoor.Proofs.Itinerary.Clocks
import DoorToDoor.Proofs.Decision
import DoorToDoor.Proofs.Search.Completeness
import DoorToDoor.Proofs.Timetable.Loaded
import DoorToDoor.Proofs.Timetable.Overlooked
import DoorToDoor.Proofs.Outcome
import DoorToDoor.Proofs.PastMidnight
import DoorToDoor.Proofs.Itinerary.LegTimes
import DoorToDoor.Proofs.Network.Nearby
import DoorToDoor.Proofs.Network.Represents
import DoorToDoor.Proofs.Network.Transfers
import DoorToDoor.Proofs.Candidates
import DoorToDoor.Proofs.ModeChoice
import DoorToDoor.Proofs.Surcharges
import DoorToDoor.Proofs.Surroundings
import DoorToDoor.Proofs.DirectPrice
import DoorToDoor.Proofs.DaysLater
import DoorToDoor.Proofs.Timetable.FromRows
import DoorToDoor.Proofs.Timetable.Refused
import DoorToDoor.Proofs.Search.Paths
import DoorToDoor.Proofs.Search.Stopping
import DoorToDoor.Proofs.Timetable.LeastDeparture
import DoorToDoor.Proofs.Search.Rearranged
import DoorToDoor.Proofs.Itinerary.Rides
import DoorToDoor.Proofs.Itinerary.RideTimes
import DoorToDoor.Proofs.Itinerary.Refusals
