import Ployz.Config.Service

/-!
# Port publications

What a Service publishes: an Ingress hostname, or a socket of the Machine. Two host publications
conflict when they can claim one socket.
-/

namespace Ployz.Deploy

inductive IpAddr
  | v4 (bits : BitVec 32)
  | v6 (bits : BitVec 128)
deriving DecidableEq, Repr

namespace IpAddr

def isIpv4 : IpAddr → Bool
  | v4 _ => true
  | v6 _ => false

def isUnspecified : IpAddr → Bool
  | v4 bits => bits == 0
  | v6 bits => bits == 0

end IpAddr

/-- An address with the length of its network prefix. -/
inductive IpNet
  | v4 (bits : BitVec 32) (length : Nat)
  | v6 (bits : BitVec 128) (length : Nat)
deriving DecidableEq, Repr

namespace IpNet

def mask (width length : Nat) : BitVec width := BitVec.allOnes width <<< (width - length)

def network : IpNet → IpAddr
  | v4 bits length => .v4 (bits &&& mask 32 length)
  | v6 bits length => .v6 (bits &&& mask 128 length)

def contains : IpNet → IpAddr → Bool
  | v4 bits length, .v4 address => bits &&& mask 32 length == address &&& mask 32 length
  | v6 bits length, .v6 address => bits &&& mask 128 length == address &&& mask 128 length
  | _, _ => false

end IpNet

inductive HostBind
  | all
  | address (address : IpAddr)
  | range (range : IpNet)
deriving DecidableEq, Repr

inductive TransportProtocol
  | tcp
  | udp
deriving DecidableEq, Repr

inductive HttpProtocol
  | http
  | https
deriving DecidableEq, Repr

inductive PortPublication
  | ingress (hostname : String) (loadBalancerPort containerPort : Nat) (httpProtocol : HttpProtocol)
  | host (bind : HostBind) (publishedPort containerPort : Nat)
      (transportProtocol : TransportProtocol)
deriving DecidableEq, Repr

def bindsOverlap : HostBind → HostBind → Bool
  | .all, _ | _, .all => true
  | .address left, .address right =>
    left == right ||
      (left.isIpv4 == right.isIpv4 && (left.isUnspecified || right.isUnspecified))
  | .address address, .range net | .range net, .address address =>
    net.contains address || (address.isUnspecified && address.isIpv4 == net.network.isIpv4)
  | .range left, .range right => left.contains right.network || right.contains left.network

def hostPortsConflict : PortPublication → PortPublication → Bool
  | .host leftBind leftPort _ leftProtocol, .host rightBind rightPort _ rightProtocol =>
    leftPort == rightPort && leftProtocol == rightProtocol && bindsOverlap leftBind rightBind
  | _, _ => false

/-- Whether a publication of `old` and one of `new` conflict. -/
def portsConflict (old new : List PortPublication) : Bool :=
  old.any fun left => new.any fun right => hostPortsConflict left right

def explicitIngressHosts (ports : List PortPublication) : List String :=
  ports.filterMap fun
    | .ingress hostname _ _ _ => some hostname
    | .host _ _ _ _ => none

def PortPublication.isHost : PortPublication → Bool
  | .host _ _ _ _ => true
  | .ingress _ _ _ _ => false

theorem portsConflict_eq_true {old new : List PortPublication} :
    portsConflict old new = true ↔
      ∃ left ∈ old, ∃ right ∈ new, hostPortsConflict left right = true := by
  simp [portsConflict]

theorem isHost_of_conflict {left right : PortPublication}
    (h : hostPortsConflict left right = true) :
    right.isHost = true := by
  cases left <;> cases right <;> simp_all [hostPortsConflict, PortPublication.isHost]

theorem portsConflict_of_no_host {old new : List PortPublication}
    (h : new.any (·.isHost) = false) : portsConflict old new = false := by
  by_contra hconflict
  obtain ⟨left, -, right, hright, hboth⟩ :=
    portsConflict_eq_true.mp (Bool.eq_true_of_not_eq_false hconflict)
  have hany : new.any (·.isHost) = true :=
    List.any_eq_true.mpr ⟨right, hright, isHost_of_conflict hboth⟩
  rw [h] at hany
  cases hany

end Ployz.Deploy
