import FlowSdn.Foundation.Words

/-! # Numeric identities

Which numbers are identities, their scopes, and the reserved aggregate that
stands for an identity under a cluster encoding.
-/

namespace FlowSdn.Identity

/-- The low 24 bits, the index of a scoped identity. -/
def wireMax : U32 := 0x00ffffff

inductive Scope
  | global
  | nodeLocal
  | remoteNode
  deriving DecidableEq

inductive IdentityError
  | unsupportedScope
  | emptyScopedIdentity
  | invalidClusterLimit
  | invalidClusterId
  | scopedIdentityHasNoGlobalCluster
  deriving DecidableEq

/-- A number of a supported scope; a scoped one has a nonzero index. -/
structure NumericIdentity where
  value : U32
  valid : value >>> 24 = 0 ∨ ((value >>> 24 = 1 ∨ value >>> 24 = 2) ∧ value &&& wireMax ≠ 0)
  deriving DecidableEq

namespace NumericIdentity

def new (value : U32) : Except IdentityError NumericIdentity :=
  if isGlobal : value >>> 24 = 0 then .ok ⟨value, .inl isGlobal⟩
  else if isScoped : value >>> 24 = 1 ∨ value >>> 24 = 2 then
    if hasIndex : value &&& wireMax ≠ 0 then .ok ⟨value, .inr ⟨isScoped, hasIndex⟩⟩
    else .error .emptyScopedIdentity
  else .error .unsupportedScope

def scope (identity : NumericIdentity) : Scope :=
  if identity.value >>> 24 = 0 then .global
  else if identity.value >>> 24 = 1 then .nodeLocal
  else .remoteNode

theorem new_value (identity : NumericIdentity) : new identity.value = .ok identity := by
  rcases identity with ⟨value, valid⟩
  unfold new
  by_cases isGlobal : value >>> 24 = 0
  · rw [dif_pos isGlobal]
  · rcases valid.resolve_left isGlobal with ⟨isScoped, hasIndex⟩
    rw [dif_neg isGlobal, dif_pos isScoped, dif_pos hasIndex]

end NumericIdentity

inductive ReservedIdentity
  | unknown
  | host
  | world
  | unmanaged
  | health
  | init
  | remoteNode
  | kubeApiserver
  | ingress
  | worldIpv4
  | worldIpv6
  | aggregateCluster
  | aggregateClusterMesh
  | aggregateWorld
  | aggregateRemoteNode
  deriving DecidableEq

namespace ReservedIdentity

def number : ReservedIdentity → U32
  | unknown => 0
  | host => 1
  | world => 2
  | unmanaged => 3
  | health => 4
  | init => 5
  | remoteNode => 6
  | kubeApiserver => 7
  | ingress => 8
  | worldIpv4 => 9
  | worldIpv6 => 10
  | aggregateCluster => 11
  | aggregateClusterMesh => 12
  | aggregateWorld => 13
  | aggregateRemoteNode => 14

end ReservedIdentity

/-- Where a global identity's cluster ID stands. -/
structure ClusterEncoding where
  maxClusters : U16
  shift : Nat
  valid : (maxClusters = 255 ∧ shift = 16) ∨ (maxClusters = 511 ∧ shift = 15)
  deriving DecidableEq

namespace ClusterEncoding

def new (maxClusters : U16) : Except IdentityError ClusterEncoding :=
  if small : maxClusters = 255 then .ok ⟨maxClusters, 16, .inl ⟨small, rfl⟩⟩
  else if large : maxClusters = 511 then .ok ⟨maxClusters, 15, .inr ⟨large, rfl⟩⟩
  else .error .invalidClusterLimit

def validateCluster (encoding : ClusterEncoding) (cluster : U16) : Except IdentityError Unit :=
  if cluster > encoding.maxClusters then .error .invalidClusterId else .ok ()

/-- The cluster ID of a global identity. The mask has at most nine bits, so the
conversion to 16 bits keeps all of them. -/
def globalClusterId (encoding : ClusterEncoding) (identity : NumericIdentity) :
    Except IdentityError U16 :=
  if identity.scope ≠ .global then .error .scopedIdentityHasNoGlobalCluster
  else
    .ok (((identity.value >>> encoding.shift) &&& encoding.maxClusters.setWidth 32).setWidth 16)

def aggregateScope (encoding : ClusterEncoding) (identity : NumericIdentity)
    (localCluster : U16) : Except IdentityError ReservedIdentity :=
  match identity.scope with
  | .nodeLocal => .ok .aggregateWorld
  | .remoteNode => .ok .aggregateRemoteNode
  | .global =>
      if identity.value < 100 then .ok .unknown
      else
        match encoding.globalClusterId identity with
        | .error error => .error error
        | .ok cluster =>
            .ok (if cluster = localCluster then .aggregateCluster else .aggregateClusterMesh)

def aggregateFor (encoding : ClusterEncoding) (identity : NumericIdentity)
    (localCluster : U16) : Except IdentityError ReservedIdentity :=
  match encoding.validateCluster localCluster with
  | .error error => .error error
  | .ok () =>
      if identity.value = 0 then .ok .unknown
      else if identity.value = 11 then .ok .aggregateCluster
      else if identity.value = 12 then .ok .aggregateClusterMesh
      else if identity.value = 13 then .ok .aggregateWorld
      else if identity.value = 14 then .ok .aggregateRemoteNode
      else encoding.aggregateScope identity localCluster

def standard : ClusterEncoding := ⟨255, 16, .inl ⟨rfl, rfl⟩⟩

end ClusterEncoding

end FlowSdn.Identity
