import SmartTunnel.Proof.RoundTrip
import SmartTunnel.Proof.UDPReader
import SmartTunnel.Proof.Download
import SmartTunnel.Proof.Acknowledge
import SmartTunnel.Proof.Shift
import SmartTunnel.Proof.Closing
import SmartTunnel.Proof.Allocation
import SmartTunnel.Proof.Flows
import SmartTunnel.Proof.Applications
import SmartTunnel.Proof.Service
import SmartTunnel.Proof.Framing
import SmartTunnel.Proof.Import
import SmartTunnel.Proof.Reorder
import SmartTunnel.Proof.Loss
import SmartTunnel.Proof.Retransmission
import SmartTunnel.Proof.FlowControl
import SmartTunnel.Proof.Polling
import SmartTunnel.Proof.Totality
import SmartTunnel.Proof.ConfigFiles
import SmartTunnel.Proof.OptionCodec
import SmartTunnel.Proof.HeaderCodec
import SmartTunnel.Proof.Accepted
import SmartTunnel.Proof.ClientTable
import SmartTunnel.Proof.Identification
import SmartTunnel.Proof.Segments
import SmartTunnel.Base.Text
import SmartTunnel.Proof.ByteCodec
import SmartTunnel.Proof.QueueMap
import SmartTunnel.Proof.Causes
import SmartTunnel.Proof.UDPWriter
import SmartTunnel.Proof.KeepAliveThread
import SmartTunnel.Proof.Literals
import SmartTunnel.Proof.Selection
import SmartTunnel.Proof.Routes
import SmartTunnel.Proof.UdpgwReplies
import SmartTunnel.Proof.ParseLine
import SmartTunnel.Model.PacketPassFairQueue
import SmartTunnel.Proof.Fairness
import SmartTunnel.Proof.PacketProtoFlow
