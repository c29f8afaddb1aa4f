import FlowSdn.Endpoint.Record
import FlowSdn.Foundation.Fallible

/-! # The world around the endpoint manager

The state directory, the kernel's maps and links, and the steps the agent takes on
them. Every step may be refused, may report an error after it was done, or may be
where the process stops; what goes wrong is part of the world.
-/

namespace FlowSdn.Endpoint

open Net OrderedMap Fallible

/-- What a state file holds: a whole document, or less of one. -/
inductive Content
  | document (value : Json)
  | torn

inductive Entry
  | directory (files : BTreeMap String Content)
  | other

abbrev Files := BTreeMap String Entry

structure Link where
  index : Nat
  mac : List Nat
  deriving DecidableEq

structure Kernel where
  links : BTreeMap String Link := ∅
  endpoints : BTreeMap IpAddr EndpointInfo := ∅
  /-- The endpoint number of an interface's policy entry. -/
  policyEndpoints : BTreeMap Nat Nat := ∅
  attached : BTreeSet String := ∅
  /-- The interface a host route to an address leaves by. -/
  hostRoutes : BTreeMap IpAddr Nat := ∅

structure Outside where
  files : Files := ∅
  kernel : Kernel := {}

/-! ## Steps -/

/-- What can go wrong with a step besides its own reasons. -/
inductive Mishap
  /-- An error, and nothing done. -/
  | refused (error : String)
  /-- An error, although it was done. -/
  | unanswered (error : String)
  /-- The process stops before it. -/
  | stop
  deriving DecidableEq

/-- What is outside the process, and what goes wrong with the steps from here on. -/
structure World where
  outside : Outside := {}
  mishaps : Nat → Option Mishap := fun _ => none
  clock : Nat := 0

abbrev Step (α : Type) := Fallible World String α

def external (act : Outside → Except String (α × Outside)) : Step α := fun world =>
  let later := { world with clock := world.clock + 1 }
  match world.mishaps world.clock, act world.outside with
  | some .stop, _ => (.error .stopped, later)
  | some (.refused error), _ => (.error (.error error), later)
  | _, .error error => (.error (.error error), later)
  | some (.unanswered error), .ok (_, outside) =>
      (.error (.error error), { later with outside })
  | none, .ok (value, outside) => (.ok value, { later with outside })

theorem external_eq_ok {act : Outside → Except String (α × Outside)} {world : World} {value : α}
    (ran : (external act world).1 = .ok value) :
    ∃ outside, act world.outside = .ok (value, outside) ∧
      (external act world).2 = { world with outside, clock := world.clock + 1 } := by
  unfold external at ran ⊢
  simp only at ran ⊢
  cases mishap : world.mishaps world.clock with
  | none =>
      cases acted : act world.outside with
      | error error =>
          simp only [mishap, acted] at ran
          cases ran
      | ok done =>
          simp only [mishap, acted] at ran
          cases ran
          exact ⟨done.2, rfl, rfl⟩
  | some kind =>
      cases acted : act world.outside <;> cases kind <;>
        simp only [mishap, acted] at ran <;> cases ran

def observe (read : Outside → Except String α) : Step α :=
  external fun outside => (read outside).map (·, outside)

def onFiles (act : Files → Except String Files) : Step PUnit :=
  external fun outside => (act outside.files).map fun files => (⟨⟩, { outside with files })

theorem onFiles_eq_ok {act : Files → Except String Files} {world : World}
    (ran : (onFiles act world).1 = .ok ⟨⟩) :
    ∃ files, act world.outside.files = .ok files ∧ (onFiles act world).2 =
      { world with outside := { world.outside with files }, clock := world.clock + 1 } := by
  rcases external_eq_ok ran with ⟨outside, acted, left⟩
  cases found : act world.outside.files with
  | error error =>
      simp only [found, Except.map] at acted
      cases acted
  | ok files =>
      simp only [found, Except.map, Except.ok.injEq, Prod.mk.injEq, true_and] at acted
      exact ⟨files, rfl, acted ▸ left⟩

def onKernel (act : Kernel → Except String Kernel) : Step PUnit :=
  external fun outside => (act outside.kernel).map fun kernel => (⟨⟩, { outside with kernel })

def tryExists (name : String) : Step Bool :=
  observe fun outside => .ok (outside.files.contains name)

def makeDirectory (name : String) : Step PUnit :=
  onFiles fun files =>
    if files.contains name then .error "File exists" else .ok (files.insert name (.directory ∅))

def missing : String := "No such file or directory"

def inDirectory (name : String)
    (act : BTreeMap String Content → Except String (BTreeMap String Content)) : Step PUnit :=
  onFiles fun files =>
    match files[name]? with
    | some (.directory inside) => (act inside).map fun after => files.insert name (.directory after)
    | some .other => .error "Not a directory"
    | none => .error missing

def configFile : String := "ep_config.json"

/-- A new file, so far without its contents. -/
def createFile (name : String) : Step PUnit :=
  inDirectory name fun inside =>
    if inside.contains configFile then .error "File exists"
    else .ok (inside.insert configFile .torn)

def writeFile (name : String) (document : Json) : Step PUnit :=
  inDirectory name fun inside =>
    if inside.contains configFile then .ok (inside.insert configFile (.document document))
    else .error missing

def removeFile (name : String) : Step PUnit :=
  inDirectory name fun inside =>
    if inside.contains configFile then .ok (inside.erase configFile) else .error missing

def removeDirectory (name : String) : Step PUnit :=
  onFiles fun files =>
    match files[name]? with
    | some (.directory inside) =>
        if inside.isEmpty then .ok (files.erase name) else .error "Directory not empty"
    | some .other => .error "Not a directory"
    | none => .error missing

/-- A directory under another name that nothing has. -/
def rename (source destination : String) : Step PUnit :=
  onFiles fun files =>
    match files[source]? with
    | some entry => .ok ((files.erase source).insert destination entry)
    | none => .error missing

def sync : Step PUnit := observe fun _ => .ok ⟨⟩

/-! ### Kernel -/

def validName (name : String) : Bool :=
  !(name.isEmpty || 16 ≤ name.utf8ByteSize || name.toList.any fun char =>
    char = '\x00' || char = '/' || char = ':' || Text.isWhitespace char)

def link (name : String) : Step (Option Link) :=
  observe fun outside =>
    if validName name then .ok outside.kernel.links[name]? else .error "invalid interface name"

def requireLink (name : String) : Step Link := do
  match ← link name with
  | some found => pure found
  | none => fail ("interface " ++ name ++ " not found")

def deleteLink (name : String) : Step PUnit := do
  match ← link name with
  | none => pure ⟨⟩
  | some _ => onKernel fun kernel => .ok { kernel with links := kernel.links.erase name }

def replaceHostRoute (index : Nat) (address : IpAddr) : Step PUnit :=
  onKernel fun kernel => .ok { kernel with hostRoutes := kernel.hostRoutes.insert address index }

def snapshot (address : IpAddr) : Step (Option EndpointInfo) :=
  observe fun outside => .ok outside.kernel.endpoints[address]?

/-- Whether an address can be a Pod's: not unspecified, multicast, loopback or broadcast. -/
def unicast : IpAddr → Bool
  | .v4 address =>
      address ≠ 0 && address ≠ 0xffffffff && address.toNat / 2 ^ 24 ≠ 127 &&
        address.toNat / 2 ^ 28 ≠ 14
  | .v6 address => address ≠ 0 && address ≠ 1 && address.toNat / 2 ^ 120 ≠ 255

/-- Whether a number is six bytes of a unicast Ethernet address. -/
def unicastMac (mac : Nat) : Bool := mac ≠ 0 && mac % 2 = 0 && mac < 2 ^ 48

def upsert (address : IpAddr) (endpoint : EndpointInfo) : Step PUnit :=
  onKernel fun kernel =>
    if !unicast address then .error "endpoint address must be unicast"
    else if endpoint.ifindex = 0 then .error "unsupported endpoint interface or flags"
    else if !(unicastMac endpoint.mac && unicastMac endpoint.nodeMac) then
      .error "endpoint MAC must be a six-byte unicast address"
    else .ok { kernel with endpoints := kernel.endpoints.insert address endpoint }

def removeIfPresent (address : IpAddr) : Step PUnit :=
  onKernel fun kernel => .ok { kernel with endpoints := kernel.endpoints.erase address }

def restoreSnapshot (address : IpAddr) : Option EndpointInfo → Step PUnit
  | some old =>
      onKernel fun kernel => .ok { kernel with endpoints := kernel.endpoints.insert address old }
  | none => removeIfPresent address

def policyEndpoint (index : Nat) : Step (Option Nat) :=
  observe fun outside => .ok outside.kernel.policyEndpoints[index]?

def removePolicyEndpoint (index : Nat) : Step PUnit :=
  onKernel fun kernel =>
    .ok { kernel with policyEndpoints := kernel.policyEndpoints.erase index }

def validInterface (interface : String) : Bool :=
  !(interface.isEmpty || 16 ≤ interface.utf8ByteSize || interface.toList.any fun char =>
    char = '\x00' || char = '/')

def attach (interface : String) : Step PUnit :=
  onKernel fun kernel =>
    if !validInterface interface then .error "invalid network interface name"
    else if kernel.attached.contains interface then .error "interface already attached"
    else .ok { kernel with attached := kernel.attached.insert interface }

def detach (interface : String) : Step PUnit :=
  onKernel fun kernel =>
    if !validInterface interface then .error "invalid network interface name"
    else .ok { kernel with attached := kernel.attached.erase interface }

/-! ## The store -/

def destination (id : Nat) : String := toString id

def staging (id : Nat) : String := toString id ++ "_next"

def stateLimit : Nat := 4194304

def readRecord : Entry → Except String Record
  | .other => .error "endpoint path must be a real directory"
  | .directory inside =>
      match inside[configFile]? with
      | none => .error missing
      | some .torn => .error "invalid endpoint state"
      | some (.document document) =>
          if stateLimit < document.text.utf8ByteSize then .error "endpoint state exceeds 4 MiB"
          else Record.parse document

/-- One entry of the directory: a name that is no number is passed over. -/
def restoreEntry (records : BTreeMap Nat Record) (entry : String × Entry) :
    Except String (BTreeMap Nat Record) :=
  match Text.parseUnsigned (2 ^ 16) entry.1 with
  | none => .ok records
  | some id =>
      if id = 0 ∨ entry.1 ≠ toString id then .error "noncanonical endpoint directory ID"
      else do
        let record ← readRecord entry.2
        if record.id ≠ id ∨ (records.values.any fun other => other.attachment = record.attachment)
        then .error "endpoint state ID mismatch or duplicate attachment"
        else .ok (records.insert id record)

def restoreFiles (files : Files) : Except String (BTreeMap Nat Record) :=
  files.toList.foldlM restoreEntry ∅

def Store.restore : Step (List Record) :=
  observe fun outside => (restoreFiles outside.files).map (·.values)

def ignore (step : Step PUnit) : Step PUnit := do
  let _ ← attempt step
  pure ⟨⟩

/-- What is left of a staging directory goes when its publication fails. -/
def dropStaged (id : Nat) : Step PUnit := do
  ignore (removeFile (staging id))
  ignore (removeDirectory (staging id))

def writeStaged (record : Record) : Step PUnit := do
  createFile (staging record.id)
  writeFile (staging record.id) record.document
  sync

def requireFree (id : Nat) : Step PUnit := do
  match ← tryExists (destination id) with
  | true => fail "endpoint state already exists"
  | false => pure ⟨⟩

def Store.stage (record : Record) : Step PUnit := do
  let parsed ← ofExcept (Record.parse record.document)
  ofExcept (if parsed.id ≠ record.id ∨ parsed.attachment ≠ record.attachment then
    .error "record identity mismatch" else .ok ⟨⟩)
  requireFree record.id
  makeDirectory (staging record.id)
  onError (dropStaged record.id) (writeStaged record)

def publishStaged (id : Nat) : Step PUnit := do
  requireFree id
  rename (staging id) (destination id)

def Store.publish (id : Nat) : Step PUnit := onError (dropStaged id) (publishStaged id)

def ensureOnlyConfig (name : String) : Step PUnit :=
  observe fun outside =>
    match outside.files[name]? with
    | some (.directory inside) =>
        if inside.keys.all (· = configFile) then .ok ⟨⟩
        else .error "endpoint directory still has other owned resources"
    | some .other => .error "endpoint path must be a real directory"
    | none => .error missing

def removeFileIfPresent (name : String) : Step PUnit := do
  match ← attempt (removeFile name) with
  | .ok _ => pure ⟨⟩
  | .error error => if error = missing then pure ⟨⟩ else fail error

def Store.remove (id : Nat) : Step PUnit := do
  ofExcept (if id = 0 then .error "invalid endpoint ID" else .ok ⟨⟩)
  match ← tryExists (destination id) with
  | false => pure ⟨⟩
  | true => do
      ensureOnlyConfig (destination id)
      removeFileIfPresent (destination id)
      removeDirectory (destination id)
      sync

end FlowSdn.Endpoint
