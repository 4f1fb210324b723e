import FirstFit.Arena.Report
import FirstFit.Cells
import FirstFit.Chain
import FirstFit.Client
import FirstFit.Config.Reading
import FirstFit.Heap
import FirstFit.Heap.Leases
import FirstFit.Proofs.Accounting
import FirstFit.Proofs.Adjacency
import FirstFit.Proofs.Allocation
import FirstFit.Proofs.Canonical
import FirstFit.Proofs.Commute
import FirstFit.Proofs.Contract
import FirstFit.Proofs.Counting
import FirstFit.Proofs.Creation
import FirstFit.Proofs.Custody
import FirstFit.Proofs.Detection
import FirstFit.Proofs.DoubleRelease
import FirstFit.Proofs.Effects
import FirstFit.Proofs.Exclusive
import FirstFit.Proofs.Execution
import FirstFit.Proofs.Forecast
import FirstFit.Proofs.Geometry
import FirstFit.Proofs.Grammar
import FirstFit.Proofs.Held
import FirstFit.Proofs.Laid
import FirstFit.Proofs.Listing
import FirstFit.Proofs.Observers
import FirstFit.Proofs.Outstanding
import FirstFit.Proofs.Overhang
import FirstFit.Proofs.Overrun
import FirstFit.Proofs.Packing
import FirstFit.Proofs.Passage
import FirstFit.Proofs.Placement
import FirstFit.Proofs.Refusal
import FirstFit.Proofs.Release
import FirstFit.Proofs.Relocation
import FirstFit.Proofs.Residue
import FirstFit.Proofs.RoundTrip
import FirstFit.Proofs.Rounding
import FirstFit.Proofs.Runs
import FirstFit.Proofs.Simulation
import FirstFit.Proofs.Slots
import FirstFit.Proofs.Summaries
import FirstFit.Proofs.Surgery
import FirstFit.Proofs.Tenancy
import FirstFit.Proofs.Trail
import FirstFit.Proofs.Verdict
import FirstFit.Tracer.Playback
import FirstFit.Tracer.SlotStore
