import PowerfarmKernel.Kernel.Review
import PowerfarmKernel.Kernel.Project
import PowerfarmKernel.Ledger.Bindings
import PowerfarmKernel.Service.Authority
import PowerfarmKernel.Service.Lifecycle
import PowerfarmKernel.Service.Evaluation
import PowerfarmKernel.Service.Settlement
import PowerfarmKernel.Service.Review
import PowerfarmKernel.Service.Principals
import PowerfarmKernel.Service.Concurrency
import PowerfarmKernel.Service.Revocation
import PowerfarmKernel.Lib.WriteOnce
import PowerfarmKernel.Service.Residue
import PowerfarmKernel.Service.Soundness
import PowerfarmKernel.Service.RulesInForce
import PowerfarmKernel.Ledger.Representation
import PowerfarmKernel.Ledger.Agreement
import PowerfarmKernel.Ledger.Conformance
import PowerfarmKernel.Lib.Sql
import PowerfarmKernel.Ledger.CommitAct
import PowerfarmKernel.Ledger.Backstop
import PowerfarmKernel.Ledger.Refinement
import PowerfarmKernel.Service.Stability
import PowerfarmKernel.Service.Doors
import PowerfarmKernel.Kernel.Authorization
import PowerfarmKernel.Kernel.Chains
import PowerfarmKernel.Kernel.Domain
import PowerfarmKernel.Kernel.Outcomes
import PowerfarmKernel.Service.Requester
import PowerfarmKernel.Service.Governance
import PowerfarmKernel.Service.Occurrence
import PowerfarmKernel.Service.Failures
import PowerfarmKernel.Service.Boundary
import PowerfarmKernel.Kernel.Index
import PowerfarmKernel.Service.Pending
import PowerfarmKernel.Service.Trajectory
import PowerfarmKernel.Ledger.Ruled
import PowerfarmKernel.Kernel.Addressing
import PowerfarmKernel.Service.Explain
import PowerfarmKernel.Ledger.ClosedCuts
import PowerfarmKernel.Genesis.Ceremony
import PowerfarmKernel.Worker.Webhook
import PowerfarmKernel.Release.Package
import PowerfarmKernel.Deploy.Upgrade
import PowerfarmKernel.Ledger.Grants
import PowerfarmKernel.Ledger.Registration
import PowerfarmKernel.Ledger.Coherence
import PowerfarmKernel.Ledger.Steady
import PowerfarmKernel.Service.Snapshots
import PowerfarmKernel.Service.Grounds
import PowerfarmKernel.Protocol.Server
import PowerfarmKernel.Service.Certified
import PowerfarmKernel.Protocol.Exchange
import PowerfarmKernel.Ledger.Sessions
import PowerfarmKernel.Deploy.Ready
import PowerfarmKernel.Protocol.Replica
