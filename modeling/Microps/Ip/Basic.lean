import Microps.Word

/-!
# IP addresses, interfaces and routes

The data of `ip.rs`: addresses and endpoints, interfaces, the routing table and
the longest-prefix lookup on it.  A device is reduced to the fields the stack
reads; an address is four octets, in network order.
-/

namespace Microps

/-- `IpAddr([u8; 4])`. -/
structure IpAddr where
  /-- First octet. -/
  o₀ : U8
  /-- Second octet. -/
  o₁ : U8
  /-- Third octet. -/
  o₂ : U8
  /-- Fourth octet. -/
  o₃ : U8
deriving DecidableEq, Repr

namespace IpAddr

/-- `IpAddr::ANY`. -/
def any : IpAddr := ⟨0, 0, 0, 0⟩

/-- `IpAddr::BROADCAST`. -/
def broadcast : IpAddr := ⟨0xff, 0xff, 0xff, 0xff⟩

/-- The octets, as the array the source stores. -/
def octets (a : IpAddr) : List U8 := [a.o₀, a.o₁, a.o₂, a.o₃]

/-- Octet-wise `&`. -/
def mask (a m : IpAddr) : IpAddr :=
  ⟨a.o₀ &&& m.o₀, a.o₁ &&& m.o₁, a.o₂ &&& m.o₂, a.o₃ &&& m.o₃⟩

end IpAddr

/-- `IpEndp`. -/
structure IpEndp where
  /-- The address. -/
  addr : IpAddr
  /-- The port. -/
  port : U16
deriving DecidableEq, Repr

/-- The wildcard endpoint, `IpEndp::new(IpAddr::ANY, 0)`. -/
def IpEndp.any : IpEndp := ⟨.any, 0⟩

/-- `IpIface`, with the one field of its device that the transport layer
reads. -/
structure IpIface where
  /-- Address of this host. -/
  unicast : IpAddr
  /-- Subnet mask. -/
  netmask : IpAddr
  /-- Subnet broadcast address. -/
  broadcast : IpAddr
  /-- `dev().mtu`. -/
  mtu : U16
deriving DecidableEq, Repr

/-- `IpRoute`. -/
structure IpRoute where
  /-- The network. -/
  network : IpAddr
  /-- Its mask. -/
  netmask : IpAddr
  /-- Next hop, or `ANY` for a directly attached network. -/
  nexthop : IpAddr
  /-- Outgoing interface. -/
  iface : IpIface
deriving DecidableEq, Repr

/-- `b.count_ones()`. -/
def countOnes (b : U8) : Nat := (List.range 8).countP fun i ↦ b.getLsbD i

namespace IpRoute

/-- The route matches `dst`: `dst & netmask == network`, octet by octet. -/
def hits (r : IpRoute) (dst : IpAddr) : Bool := dst.mask r.netmask = r.network

/-- The number of one bits of the mask. -/
def plen (r : IpRoute) : Int := (r.netmask.octets.map countOnes).sum

end IpRoute

/-- The loop of `route_lookup`, carrying the best route so far and its prefix
length. -/
def routeLoop (dst : IpAddr) : List IpRoute → Option IpRoute → Int → Option IpRoute
  | [], best, _ => best
  | r :: rest, best, bestPrefix =>
      if r.hits dst then
        if r.plen > bestPrefix then routeLoop dst rest (some r) r.plen
        else routeLoop dst rest best bestPrefix
      else routeLoop dst rest best bestPrefix

/-- `ip::route_lookup`. -/
def routeLookup (routes : List IpRoute) (dst : IpAddr) : Option IpRoute :=
  routeLoop dst routes none (-1)

end Microps
