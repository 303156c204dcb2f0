import BebaCtrl.Ofproto.PacketOut
import BebaCtrl.Ofproto.Hello
import BebaCtrl.Ofproto.MatchOrder
import BebaCtrl.Controller.EventDelivery
import BebaCtrl.Controller.Negotiation
import BebaCtrl.Controller.LoadApps
import BebaCtrl.Topology.SwitchPresence
import BebaCtrl.Topology.LinkRuns
import BebaCtrl.Beba.FlowSpecCache
import BebaCtrl.Beba.Switch
import BebaCtrl.Beba.StateLoads
import BebaCtrl.Beba.KeyText
import BebaCtrl.Packet.Checksum
import BebaCtrl.Packet.SctpChecksum
import BebaCtrl.Packet.Dhcp
import BebaCtrl.Bgp.RtFilter
import BebaCtrl.Bgp.OutgoingPolicy
import BebaCtrl.Bgp.HoldTime
import BebaCtrl.Bgp.Membership
import BebaCtrl.Bgp.StreamParser
import BebaCtrl.Bgp.StreamErrors
import BebaCtrl.Bgp.UpdateHandler
import BebaCtrl.Bgp.UpdateRoundTrip
import BebaCtrl.Bgp.TablesForRt
import BebaCtrl.Bgp.VrfConfChange
import BebaCtrl.Bgp.Filters
import BebaCtrl.Stp.Defaults
import BebaCtrl.Stp.SpanningTree
import BebaCtrl.Stp.Receive
import BebaCtrl.Stp.Runs
import BebaCtrl.Beba.StateBits
import BebaCtrl.Ofproto.FlowSpecs
import BebaCtrl.Ofproto.TableFeatures
import BebaCtrl.App.RestRouter
