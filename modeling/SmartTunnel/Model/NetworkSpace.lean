import SmartTunnel.Base.Collections

/-!
# `NetworkSpace`

The routes of a tunnel are a set of networks, some to go through it (`included`) and some not. `generateIPList`
rewrites them into networks that do not overlap: it polls the networks in the order of their first addresses,
smaller ones first, and splits one of two that overlap until the halves do not. `debug` is `BuildConfig.DEBUG`,
under which it checks its assertions. A builder gets either the networks as they are, or those that are to go through the
tunnel of the rewritten ones (`installRoutesExcluded`, `installRoutesPostiveOnly`).
-/

namespace SmartTunnel

open Jvm

namespace NetworkSpace

/-- `assertTrue`, which is only called in a debug build. -/
def assertTrue (debug f : Bool) : Except JavaException Unit :=
  if debug && !f then .error .illegalState else .ok ()

/-- `BigInteger.setBit`. -/
def setBit (n i : ℕ) : ℕ := n ||| 2 ^ i

/-- `BigInteger.clearBit`. -/
def clearBit (n i : ℕ) : ℕ := n ^^^ (n &&& 2 ^ i)

structure IpAddress where
  netAddress : ℕ
  networkMask : ℕ
  included : Bool
  isV4 : Bool
  deriving DecidableEq, Repr

namespace IpAddress

def numBits (net : IpAddress) : ℕ := if net.isV4 then 32 - net.networkMask else 128 - net.networkMask

def getMaskedAddress (net : IpAddress) (one : Bool) : ℕ :=
  (List.range net.numBits).foldl (fun numAddress i => if one then setBit numAddress i else clearBit numAddress i)
    net.netAddress

def getFirstAddress (net : IpAddress) : ℕ := net.getMaskedAddress false

def getLastAddress (net : IpAddress) : ℕ := net.getMaskedAddress true

/-- By the first address, then the larger mask first. -/
def compareTo (net another : IpAddress) : Ordering :=
  if net.getFirstAddress < another.getFirstAddress then .lt
  else if another.getFirstAddress < net.getFirstAddress then .gt
  else if net.networkMask > another.networkMask then .lt
  else if another.networkMask = net.networkMask then .eq
  else .gt

/-- `equals` does not compare `included`. -/
def equals (net on : IpAddress) : Bool :=
  net.networkMask == on.networkMask && on.getFirstAddress == net.getFirstAddress

/-- The two halves of a network. -/
def split (debug : Bool) (net : IpAddress) : Except JavaException (IpAddress × IpAddress) := do
  let firstHalf : IpAddress := { net with netAddress := net.getFirstAddress, networkMask := net.networkMask + 1 }
  let secondHalf : IpAddress :=
    { net with netAddress := firstHalf.getLastAddress + 1, networkMask := net.networkMask + 1 }
  assertTrue debug (secondHalf.getLastAddress == net.getLastAddress)
  return (firstHalf, secondHalf)

def containsNet (net network : IpAddress) : Bool :=
  net.getFirstAddress ≤ network.getFirstAddress && network.getLastAddress ≤ net.getLastAddress

end IpAddress

open IpAddress

/-- `mIpAddresses`, a `TreeSet`. -/
abbrev Networks := List IpAddress

def getNetworks (included : Bool) (mIpAddresses : Networks) : List IpAddress :=
  mIpAddresses.filter fun ip => ip.included == included

/-- `addIP` and `addIPv6`. A network that is there already stays as it is, with its `included`. -/
def addIP (net : IpAddress) (mIpAddresses : Networks) : Networks := TreeSet.add compareTo net mIpAddresses

/-! ## `generateIPList` -/

/-- `if (!networks.contains(net)) networks.add(net)`. -/
def addUnlessContained (net : IpAddress) (networks : List IpAddress) : List IpAddress :=
  if networks.any net.equals then networks else networks ++ [net]

/-- What becomes of the current network and the queue when the next network starts inside the current one. -/
def overlap (debug : Bool) (currentNet nextNet : IpAddress) (networks : List IpAddress) :
    Except JavaException (IpAddress × List IpAddress) := do
  if currentNet.getFirstAddress = nextNet.getFirstAddress ∧ currentNet.networkMask ≥ nextNet.networkMask then
    -- the current network is included in the next
    if currentNet.included = nextNet.included then
      return (nextNet, networks)
    else
      let (lower, upper) ← nextNet.split debug
      let networks := addUnlessContained upper networks
      if lower.getLastAddress = currentNet.getLastAddress then
        assertTrue debug (lower.networkMask == currentNet.networkMask)
        return (currentNet, networks)
      else
        return (currentNet, addUnlessContained lower networks)
  else
    assertTrue debug (currentNet.networkMask < nextNet.networkMask)
    assertTrue debug (currentNet.getFirstAddress < nextNet.getFirstAddress)
    assertTrue debug (nextNet.getLastAddress ≤ currentNet.getLastAddress)
    -- the next network is included in the current one
    if currentNet.included = nextNet.included then
      return (currentNet, networks)
    else
      let (lower, upper) ← currentNet.split debug
      if upper.networkMask = nextNet.networkMask then
        assertTrue debug (upper.getFirstAddress == nextNet.getFirstAddress)
        assertTrue debug (upper.getLastAddress == currentNet.getLastAddress)
        return (lower, networks ++ [nextNet])
      else
        return (lower, networks ++ [upper, nextNet])

/-- The variables of the loop. -/
structure Listing where
  currentNet : Option IpAddress
  networks : List IpAddress
  ipsDone : Networks
  deriving DecidableEq, Repr

def round (debug : Bool) (pq : PriorityQueue compareTo) (s : Listing) : Except JavaException Listing := do
  let currentNet ← deref s.currentNet
  match pq.poll s.networks with
  | none => return ⟨none, s.networks, TreeSet.add compareTo currentNet s.ipsDone⟩
  | some (nextNet, networks) =>
    if currentNet.getLastAddress < nextNet.getFirstAddress then
      return ⟨some nextNet, networks, TreeSet.add compareTo currentNet s.ipsDone⟩
    else
      let (currentNet, networks) ← overlap debug currentNet nextNet networks
      return ⟨some currentNet, networks, s.ipsDone⟩

/-- The loop runs at least once when it is reached, so its condition is looked at behind each round. -/
def generateIPList (debug : Bool) (pq : PriorityQueue compareTo) (mIpAddresses : Networks) (n : ℕ) :
    Fueled Networks := do
  match pq.poll mIpAddresses with
  | none => return []
  | some (currentNet, networks) =>
    let s ← Fueled.doWhile (round debug pq) (fun s => s.currentNet.isSome) n ⟨some currentNet, networks, []⟩
    return s.ipsDone

def getPositiveIPList (debug : Bool) (pq : PriorityQueue compareTo) (mIpAddresses : Networks) (n : ℕ) :
    Fueled (List IpAddress) := do
  let ipsSorted ← generateIPList debug pq mIpAddresses n
  return ipsSorted.filter fun ia => ia.included

/-! ## To the builder -/

/-- The routes of a `VpnService.Builder`. -/
structure Builder where
  routes : List IpAddress := []
  excludedRoutes : List IpAddress := []
  deriving DecidableEq, Repr

namespace Builder

def addRoute (builder : Builder) (route : IpAddress) : Builder := { builder with routes := builder.routes ++ [route] }

def excludeRoute (builder : Builder) (route : IpAddress) : Builder :=
  { builder with excludedRoutes := builder.excludedRoutes ++ [route] }

end Builder

/-- Where the builder can exclude routes. -/
def installRoutesExcluded (builder : Builder) (routes : Networks) : Builder :=
  (getNetworks false routes).foldl Builder.excludeRoute ((getNetworks true routes).foldl Builder.addRoute builder)

/-- `224.0.0.0/3`. -/
def multicastRange : IpAddress := ⟨224 * 2 ^ 24, 3, true, true⟩

/-- Where it cannot: the routes of IPv4, without the multicast range. -/
def installRoutesPostiveOnly (builder : Builder) (positiveIPv4Routes : List IpAddress) : Builder :=
  positiveIPv4Routes.foldl (fun builder route => if multicastRange.containsNet route then builder else builder.addRoute route)
    builder

end NetworkSpace

end SmartTunnel
