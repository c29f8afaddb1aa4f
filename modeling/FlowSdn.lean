import FlowSdn.Agent.NamedPorts
import FlowSdn.Agent.PodIdentity
import FlowSdn.Agent.RouteLoop
import FlowSdn.Bgp.Exchange
import FlowSdn.Bgp.Framed
import FlowSdn.Bgp.Stream
import FlowSdn.Clustermesh.Principal
import FlowSdn.Datapath.Reference
import FlowSdn.Encryption.Gateway
import FlowSdn.Endpoint.Leases
import FlowSdn.Endpoint.Recovery
import FlowSdn.Hubble.Ring
import FlowSdn.Ipam.CidrSet
import FlowSdn.Ipam.DualStack
import FlowSdn.Lb.FreshIds
import FlowSdn.Lb.MaglevShares
import FlowSdn.Lb.Meaning
import FlowSdn.Policy.AuthInheritance
import FlowSdn.Policy.NamedPorts
import FlowSdn.Policy.PortBlocks
import FlowSdn.Policy.Repository
import FlowSdn.Policy.SubjectMap
import FlowSdn.Proxy.Barrier
import FlowSdn.Reconcile.Runs
import FlowSdn.Tables.Retention
