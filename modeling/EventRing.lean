import EventRing.Script.Play
import EventRing.Bench.Parts
import EventRing.Bench.Waiting
import EventRing.Bench.Controlling
import EventRing.Bench.Tokens
import EventRing.Proofs.Laps
import EventRing.Proofs.Claiming
import EventRing.Proofs.Production
import EventRing.Proofs.Books
import EventRing.Proofs.Gating
import EventRing.Proofs.Exclusion
import EventRing.Proofs.Pipeline
import EventRing.Proofs.Phases
import EventRing.Proofs.Consuming
import EventRing.Proofs.Wiring
import EventRing.Proofs.Exposure
import EventRing.Proofs.Counting
import EventRing.Proofs.Keeping
import EventRing.Proofs.Delivery
import EventRing.Proofs.Session
import EventRing.Proofs.Resuming
import EventRing.Proofs.Winding
import EventRing.Proofs.Halting
import EventRing.Proofs.Marking
import EventRing.Proofs.Staging
import EventRing.Proofs.Interchange
import EventRing.Proofs.SingleRun
import EventRing.Proofs.Journal
import EventRing.Proofs.Availability
import EventRing.Proofs.Replay
import EventRing.Proofs.Caching
import EventRing.Proofs.Capacity
import EventRing.Proofs.Faults
import EventRing.Proofs.Storing
import EventRing.Proofs.Releasing
import EventRing.Proofs.Lifecycle
import EventRing.Proofs.Registering
import EventRing.Proofs.Straggling
import EventRing.Proofs.Counterparts
import EventRing.Proofs.Rounds
import EventRing.Proofs.Polling
import EventRing.Proofs.GivingUp
import EventRing.Proofs.Spinning
import EventRing.Proofs.Cutting
import EventRing.Proofs.Batching
import EventRing.Proofs.Parking
import EventRing.Proofs.Owing
import EventRing.Proofs.Waking
import EventRing.Proofs.Addressing
