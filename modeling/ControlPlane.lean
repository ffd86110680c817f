import ControlPlane.Api.Loopback
import ControlPlane.Client.Calls
import ControlPlane.Cluster.Agent
import ControlPlane.Cluster.Memory
import ControlPlane.Main
import ControlPlane.Proofs.Api.Accept
import ControlPlane.Proofs.Api.ChangeStream
import ControlPlane.Proofs.Api.Untouched
import ControlPlane.Proofs.Attach.Encoding
import ControlPlane.Proofs.Attach.Lifecycle
import ControlPlane.Proofs.Attach.Reassembly
import ControlPlane.Proofs.Attach.Settling
import ControlPlane.Proofs.Attach.Transcript
import ControlPlane.Proofs.Client.Address
import ControlPlane.Proofs.Cluster.Listening
import ControlPlane.Proofs.Config
import ControlPlane.Proofs.Dispatch.AgentStop
import ControlPlane.Proofs.Dispatch.Balance
import ControlPlane.Proofs.Dispatch.Confinement
import ControlPlane.Proofs.Dispatch.Listing
import ControlPlane.Proofs.Dispatch.ListingOrder
import ControlPlane.Proofs.Dispatch.Submission
import ControlPlane.Proofs.EventStream.Ending
import ControlPlane.Proofs.Feed.Delivery
import ControlPlane.Proofs.Feed.Handover
import ControlPlane.Proofs.Feed.Picture
import ControlPlane.Proofs.Feed.Reach
import ControlPlane.Proofs.Feed.Registry
import ControlPlane.Proofs.Feed.Resume
import ControlPlane.Proofs.Records
import ControlPlane.Proofs.Store.Chronicle
import ControlPlane.Proofs.Store.History
import ControlPlane.Proofs.Store.Pairs
import ControlPlane.Proofs.Store.References
import ControlPlane.Proofs.Store.Slugs
import ControlPlane.Proofs.Store.Spelling
import ControlPlane.Proofs.Text.Decimal
import ControlPlane.Proofs.Time.Rfc3339
