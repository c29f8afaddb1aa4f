import FlowSdn.Clustermesh.Prefixes

/-! # Verified peers and their roles

Bindings give roles to the common names of verified certificates, and answer each request of
a principal from the roles they hold now.
-/

namespace FlowSdn.Clustermesh

open OrderedMap Checked
open Text (asBytes)

/-- A name that bindings issued; the issuer stands for the bindings' own allocation. -/
structure AuthenticatedPrincipal where
  name : String
  issuer : Nat
  deriving DecidableEq

structure Bindings where
  ownCluster : String
  roles : BTreeMap String Role
  issuer : Nat

namespace Bindings

def isControl (char : Char) : Bool :=
  char.toNat < 32 || (127 ≤ char.toNat && char.toNat < 160)

def bindName (roles : BTreeMap String Role) (entry : String × Role) :
    Except String (BTreeMap String Role) :=
  if entry.1.isEmpty || entry.1.toList.any isControl || roles.contains entry.1 then
    .error "invalid or duplicate principal binding"
  else .ok (roles.insert entry.1 entry.2)

/-- Bindings with an issuer that no other bindings have. -/
def new (ownCluster : String) (entries : List (String × Role)) (issuer : Nat) :
    Except String Bindings := do
  validateCluster ownCluster
  let roles ← entries.foldlM bindName ∅
  return { ownCluster, roles, issuer }

def bindVerifiedCertificate (bindings : Bindings) (commonNames : List String) :
    Except String AuthenticatedPrincipal :=
  match commonNames with
  | [name] =>
      if bindings.roles.contains name then .ok ⟨name, bindings.issuer⟩
      else .error "unknown authenticated principal"
  | _ => .error "one verified certificate CN is required"

/-- The whole candidate is validated first; a refused one changes nothing. `fresh` is the
issuer that the candidate gets and loses again. -/
def replace (bindings : Bindings) (entries : List (String × Role)) (fresh : Nat) :
    Bindings × Except String Unit :=
  match new bindings.ownCluster entries fresh with
  | .ok next => ({ bindings with roles := next.roles }, .ok ())
  | .error error => (bindings, .error error)

def permits (bindings : Bindings) (principal : AuthenticatedPrincipal) (rpc : Rpc)
    (start : Bytes) (finish : Option Bytes) : Bool :=
  if bindings.issuer ≠ principal.issuer then false
  else
    match bindings.roles[principal.name]? with
    | none => false
    | some role =>
        match FrontPolicy.forRole role bindings.ownCluster with
        | .ok policy => policy.permits rpc start finish
        | .error _ => false

def replaceAll (bindings : Bindings) (replacements : List (List (String × Role) × Nat)) :
    Bindings :=
  replacements.foldl (fun bindings entries => (bindings.replace entries.1 entries.2).1) bindings

/-- The principal is one of the bindings' own and has the role now. -/
def Bound (bindings : Bindings) (principal : AuthenticatedPrincipal) (role : Role) : Prop :=
  bindings.issuer = principal.issuer ∧ bindings.roles[principal.name]? = some role

/-! ## Runs -/

theorem ownCluster_replace (bindings : Bindings) (entries : List (String × Role)) (fresh : Nat) :
    (bindings.replace entries fresh).1.ownCluster = bindings.ownCluster := by
  unfold replace
  split
  · rfl
  · rfl

theorem ownCluster_replaceAll (bindings : Bindings)
    (replacements : List (List (String × Role) × Nat)) :
    (bindings.replaceAll replacements).ownCluster = bindings.ownCluster := by
  unfold replaceAll
  induction replacements generalizing bindings with
  | nil => rfl
  | cons entries replacements induction =>
      rw [List.foldl_cons, induction, ownCluster_replace]

variable {bindings : Bindings} {principal : AuthenticatedPrincipal}

theorem valid_of_new {ownCluster : String} {entries : List (String × Role)} {issuer : Nat}
    (made : new ownCluster entries issuer = .ok bindings) :
    validateCluster ownCluster = .ok () ∧ bindings.ownCluster = ownCluster := by
  unfold new at made
  rw [check_eq_ok, bind_eq_ok] at made
  rcases made with ⟨valid, roles, _, same⟩
  rw [pure_eq_ok] at same
  subst same
  exact ⟨valid, rfl⟩

theorem permits_of_bound {role : Role} {policy : FrontPolicy}
    (bound : bindings.Bound principal role)
    (isPolicy : FrontPolicy.forRole role bindings.ownCluster = .ok policy) (rpc : Rpc)
    (start : Bytes) (finish : Option Bytes) :
    bindings.permits principal rpc start finish = policy.permits rpc start finish := by
  unfold permits
  rw [if_neg (not_not.mpr bound.1), bound.2]
  simp only [isPolicy]

theorem bound_of_permits {rpc : Rpc} {start : Bytes} {finish : Option Bytes}
    (permitted : bindings.permits principal rpc start finish) :
    ∃ role, bindings.Bound principal role := by
  unfold permits at permitted
  split at permitted
  · cases permitted
  · rename_i own
    split at permitted
    · cases permitted
    · rename_i role found
      exact ⟨role, not_not.mp own, found⟩

end Bindings

theorem FrontPolicy.permits_iff {policy : FrontPolicy} {rpc : Rpc} {start : Bytes}
    {finish : Option Bytes} :
    policy.permits rpc start finish ↔
      (rpc = .range ∨ rpc = .watch) ∧ ∃ grant ∈ policy.grants, grant.permits start finish := by
  simp [FrontPolicy.permits]

/-- Authorization is sound on ranges and exact on keys: after any replacements, a permitted
request is a read by a principal bound now, of keys in its role's space only; and a bound
principal may read one key exactly when it lies in that space. -/
theorem permits_sound_and_exact {ownCluster : String} {entries : List (String × Role)}
    {issuer : Nat} {initial : Bindings}
    (made : Bindings.new ownCluster entries issuer = .ok initial)
    (replacements : List (List (String × Role) × Nat)) (principal : AuthenticatedPrincipal)
    (rpc : Rpc) (start : Bytes) :
    (∀ finish, (initial.replaceAll replacements).permits principal rpc start finish →
      (rpc = .range ∨ rpc = .watch) ∧
        ∃ role, (initial.replaceAll replacements).Bound principal role ∧
          ∀ key, Denotes start finish key → KeySpace ownCluster role key) ∧
    ∀ role, (initial.replaceAll replacements).Bound principal role →
      (rpc = .range ∨ rpc = .watch) →
        ((initial.replaceAll replacements).permits principal rpc start none ↔
          KeySpace ownCluster role start) := by
  rcases Bindings.valid_of_new made with ⟨valid, isOwn⟩
  have own : (initial.replaceAll replacements).ownCluster = ownCluster := by
    rw [Bindings.ownCluster_replaceAll, isOwn]
  constructor
  · intro finish permitted
    rcases Bindings.bound_of_permits permitted with ⟨role, bound⟩
    rcases exists_forRole valid role with ⟨policy, isPolicy, space⟩
    rw [Bindings.permits_of_bound bound (own ▸ isPolicy), FrontPolicy.permits_iff] at permitted
    rcases permitted with ⟨reads, grant, isGrant, permitted⟩
    refine ⟨reads, role, bound, fun key denoted => ?_⟩
    exact (space key).mp ⟨grant, isGrant, ReadRange.holds_of_permits permitted denoted⟩
  · intro role bound reads
    rcases exists_forRole valid role with ⟨policy, isPolicy, space⟩
    rw [Bindings.permits_of_bound bound (own ▸ isPolicy), FrontPolicy.permits_iff, ← space]
    constructor
    · intro permitted
      rcases permitted with ⟨_, grant, isGrant, permitted⟩
      exact ⟨grant, isGrant, ReadRange.holds_of_permits permitted rfl⟩
    · intro held
      rcases ne_of_keySpace ((space start).mp held) with ⟨nonempty, notZero⟩
      rcases held with ⟨grant, isGrant, holds⟩
      exact ⟨reads, grant, isGrant, (ReadRange.permits_key nonempty notZero).mpr holds⟩

theorem east_reads_state : ∃ initial, Bindings.new "east" [("west", .remote)] 0 = .ok initial ∧
    (initial.replaceAll []).permits ⟨"west", 0⟩ .range (asBytes "cilium/state/ip/v1") none := by
  have made : Bindings.new "east" [("west", .remote)] 0 =
      .ok { ownCluster := "east", roles := insertAll ∅ [("west", .remote)], issuer := 0 } := rfl
  refine ⟨_, made, ?_⟩
  have exactly := (permits_sound_and_exact made [] ⟨"west", 0⟩ .range
    (asBytes "cilium/state/ip/v1")).2 .remote ⟨rfl, by decide⟩ (.inl rfl)
  exact exactly.mpr (.inl ⟨"cilium/state/", by simp, by decide⟩)

end FlowSdn.Clustermesh
