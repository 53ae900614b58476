import SmartTunnel.Base.Halting
import SmartTunnel.Base.Text

/-!
# `DNSUtil`

`getIp` gives a host back that it takes for an address. Any other host it resolves: with `preferIpV6` it
probes the answers of `getAllIPv6` in random order until one is reachable, and without one it returns an
answer of `getIpV4`. What the JVM and the DNS library say of the network is a parameter.
-/

namespace SmartTunnel

open Jvm

inductive RecordType
  | A
  | AAAA
  deriving DecidableEq, Repr

/-- A question that leaves the program. -/
inductive Query
  | getAllByName (hostName : List Char)
  | send (dnsServer name : List Char) (type : RecordType)
  deriving DecidableEq, Repr

structure Network where
  /-- `InetAddress.getAllByName`: for each address, whether it is an `Inet6Address`. -/
  getAllByName : List Char → Except JavaException (Option (List Bool))
  /-- `Name.fromString` raises on a text that is no domain name. -/
  fromString : List Char → Except JavaException (List Char)
  /-- `SimpleResolver.send`: the texts of the records in the answer. -/
  send : List Char → List Char → RecordType → Except JavaException (Option (List (List Char)))
  /-- What comes of the probes, one after the other: an address is reachable or not, or the lookup of the
  name, the cast or the test raises. -/
  isReachable : ℕ → Except JavaException Bool
  /-- The numbers that the loop draws. -/
  drawn : ℕ → ℕ
  /-- The number that `getIpV4` draws. -/
  drawn4 : ℕ

/-- What `getIp` returns, the questions it has asked and the addresses it has probed. -/
structure Resolved where
  ip : Option (List Char)
  queries : List Query
  probed : List (List Char)
  deriving DecidableEq, Repr

namespace DNSUtil

/-- `Random.nextInt(bound)`. -/
def nextInt (drawn bound : ℕ) : ℕ := drawn % bound

/-- `try { … } catch (Exception e) { }`, and null behind it. -/
def ignoring {α : Type} (x : Java (List Query) (Option α)) : Option α × List Query :=
  match Java.exec x [] with
  | (.ok a, queries) => (a, queries)
  | (.error _, queries) => (none, queries)

def ask {α : Type} (query : Query) (answer : Except JavaException α) : Java (List Query) α := do
  modify (· ++ [query])
  Java.lift answer

def getAllIPv6 (net : Network) (hostName dnsServer : List Char) : Option (List (List Char)) × List Query :=
  ignoring do
    let all ← ask (.getAllByName hostName) (net.getAllByName hostName)
    -- `true` for an `Inet6Address`; over null the loop has no rounds
    let supportIpv6 := (all.getD []).contains true
    if !supportIpv6 then
      return none
    let name ← Java.lift (net.fromString (hostName ++ ['.']))
    let records ← ask (.send dnsServer name .AAAA) (net.send dnsServer name .AAAA)
    if (records.getD []).length > 0 then return records else return none

def getIpV4 (net : Network) (hostName dnsServer : List Char) : Option (List Char) × List Query :=
  ignoring do
    let name ← Java.lift (net.fromString (hostName ++ ['.']))
    let records ← ask (.send dnsServer name .A) (net.send dnsServer name .A)
    let records := records.getD []
    if records.length > 0 then return records[nextInt net.drawn4 records.length]? else return none

def hostIsIp (host : List Char) (preferIpV6 : Bool) : Bool :=
  if !preferIpV6 then
    let ips := split '.' host
    ips.length == 4 && ips.all fun s => decide (IsInt 10 s)
  else
    let ips := split ':' host
    decide (ips.length ≤ 8) && ips.all fun s => decide (IsInt 16 s)

/-- The variables of the loop, and the addresses it has probed. -/
structure ProbeLoop where
  ipsQueue : List (List Char)
  ipv6 : Option (List Char) := none
  probed : List (List Char) := []
  deriving DecidableEq, Repr

/-- One round of the loop; the queue is not empty. -/
def probeRound (net : Network) (s : ProbeLoop) : Fueled.Next ProbeLoop :=
  let randomIndex := nextInt (net.drawn s.probed.length) s.ipsQueue.length
  let randomIp := s.ipsQueue.getD randomIndex []
  let probed := s.probed ++ [randomIp]
  match net.isReachable s.probed.length with
  | .ok true => .leave { s with ipv6 := some randomIp, probed := probed }
  | .ok false => .goOn { s with ipsQueue := s.ipsQueue.eraseIdx randomIndex, probed := probed }
  -- `remove` is behind the call that has raised: the address stays in the queue
  | .error _ => .goOn { s with probed := probed }

/-- The loop over the answers. -/
def probeAll (net : Network) (fuel : ℕ) (answers : List (List Char)) : Fueled ProbeLoop :=
  Fueled.whileDo (fun s => s.ipsQueue.length > 0) (probeRound net) fuel { ipsQueue := answers }

/-- The branch of `getIp` for IPv6; without answers the loop has nothing to do. -/
def reachableIpV6 (net : Network) (fuel : ℕ) (host dnsServer : List Char) : Fueled Resolved := do
  let (allIPv6s, queries) := getAllIPv6 net host dnsServer
  let s ← probeAll net fuel (allIPv6s.getD [])
  return ⟨s.ipv6, queries, s.probed⟩

def getIp (net : Network) (fuel : ℕ) (host dnsServer : List Char) (preferIpV6 : Bool) : Fueled Resolved := do
  if hostIsIp host preferIpV6 then
    return ⟨some host, [], []⟩
  let found ← if preferIpV6 then reachableIpV6 net fuel host dnsServer else pure ⟨none, [], []⟩
  if found.ip.isSome then
    return found
  let (ipv4, queries4) := getIpV4 net host dnsServer
  return ⟨ipv4, found.queries ++ queries4, found.probed⟩

end DNSUtil

end SmartTunnel
