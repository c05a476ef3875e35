import UdpKcp.Ikcp.Pointer
import UdpKcp.Link.Echo
import UdpKcp.Link.FlowControl
import UdpKcp.Link.Progress
import UdpKcp.Link.Stream
import UdpKcp.Memory.Interface
import UdpKcp.Plug.Accounting
import UdpKcp.Plug.ArrivalOrder
import UdpKcp.Plug.CongestionWindow
import UdpKcp.Plug.Transparency
import UdpKcp.Wheel.CompletionPort
import UdpKcp.Wheel.ConvId
import UdpKcp.Wheel.Isolation
import UdpKcp.Wheel.Lifetime
import UdpKcp.Wheel.PlainBuild
import UdpKcp.Wheel.Session
import UdpKcp.Wheel.Truncation
