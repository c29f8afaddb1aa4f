import FlowSdn.Endpoint.Manager
import FlowSdn.Foundation.Decimal

/-! # What the steps leave in the state directory

Steps on the kernel leave the directory alone. A record's own steps touch two names:
its number, and the number's staging name, which is none.
-/

namespace FlowSdn.Endpoint

open Net OrderedMap Fallible

/-- A property of the state directory, as one of the world. -/
def OnDisk (holds : Files → Prop) (world : World) : Prop := holds world.outside.files

section Kernel

variable {holds : Files → Prop}

theorem keeps_external {act : Outside → Except String (α × Outside)}
    (kept : ∀ outside value after, act outside = .ok (value, after) → holds outside.files →
      holds after.files) : Keeps (OnDisk holds) (external act) := by
  intro world start
  unfold external
  simp only
  cases acted : act world.outside with
  | error error =>
      cases world.mishaps world.clock with
      | none => exact start
      | some kind => cases kind <;> exact start
  | ok done =>
      have after := kept world.outside done.1 done.2 acted start
      cases world.mishaps world.clock with
      | none => exact after
      | some kind =>
          cases kind with
          | unanswered error => exact after
          | refused error => exact start
          | stop => exact start

theorem keeps_observe (read : Outside → Except String α) : Keeps (OnDisk holds) (observe read) := by
  refine keeps_external fun outside value after acted start => ?_
  cases found : read outside with
  | error error =>
      rw [found] at acted
      cases acted
  | ok result =>
      rw [found] at acted
      cases acted
      exact start

theorem keeps_onKernel (act : Kernel → Except String Kernel) :
    Keeps (OnDisk holds) (onKernel act) := by
  refine keeps_external fun outside value after acted start => ?_
  cases found : act outside.kernel with
  | error error =>
      rw [found] at acted
      cases acted
  | ok result =>
      rw [found] at acted
      cases acted
      exact start

theorem keeps_onFiles {act : Files → Except String Files}
    (kept : ∀ files after, act files = .ok after → holds files → holds after) :
    Keeps (OnDisk holds) (onFiles act) := by
  refine keeps_external fun outside value after acted start => ?_
  cases found : act outside.files with
  | error error =>
      rw [found] at acted
      cases acted
  | ok result =>
      rw [found] at acted
      cases acted
      exact kept outside.files result found start

end Kernel

/-- A step made of what reads and changes the kernel alone. -/
inductive OfKernel : {α : Type} → Step α → Prop
  | pure (value : α) : OfKernel (pure value)
  | fail (error : String) : OfKernel (fail error : Step α)
  | bind {first : Step α} {next : α → Step β} (ofFirst : OfKernel first)
      (ofNext : ∀ value, OfKernel (next value)) : OfKernel (first >>= next)
  | attempt {step : Step α} (ofStep : OfKernel step) : OfKernel (attempt step)
  | observe {read : Outside → Except String α}
      (only : ∀ files kernel, read { files, kernel } = read { kernel }) : OfKernel (observe read)
  | onKernel (act : Kernel → Except String Kernel) : OfKernel (onKernel act)

namespace OfKernel

theorem ofExcept (value : Except String α) : OfKernel (Fallible.ofExcept value) := by
  cases value with
  | error error => exact .fail error
  | ok value => exact .pure value

theorem forM {items : List α} {step : α → Step PUnit} (ofStep : ∀ item, OfKernel (step item)) :
    OfKernel (items.forM step) := by
  induction items with
  | nil => exact .pure _
  | cons head items induction => exact .bind (ofStep head) fun _ => induction

theorem keeps {holds : Files → Prop} {step : Step α} (ofKernel : OfKernel step) :
    Keeps (OnDisk holds) step := by
  induction ofKernel with
  | pure value => exact .pure value
  | fail error => exact .fail error
  | bind _ _ first rest => exact .bind first rest
  | attempt _ kept => exact kept.attempt
  | observe _ => exact keeps_observe _
  | onKernel act => exact keeps_onKernel act

end OfKernel

theorem ofKernel_link (name : String) : OfKernel (link name) := .observe fun _ _ => rfl

theorem ofKernel_openConnector : OfKernel openConnector := by
  unfold openConnector sync
  exact .observe fun _ _ => rfl

theorem ofKernel_snapshot (address : IpAddr) : OfKernel (snapshot address) :=
  .observe fun _ _ => rfl

theorem ofKernel_removeIfPresent (address : IpAddr) : OfKernel (removeIfPresent address) :=
  .onKernel _

theorem ofKernel_deleteLink (name : String) : OfKernel (deleteLink name) := by
  refine .bind (ofKernel_link name) fun found => ?_
  cases found with
  | none => exact .pure _
  | some found => exact .onKernel _

theorem ofKernel_requireLink (name : String) : OfKernel (requireLink name) := by
  refine .bind (ofKernel_link name) fun found => ?_
  cases found with
  | none => exact .fail _
  | some found => exact .pure _

theorem ofKernel_checkHost (record : Record) (ips : List IpAddr) :
    OfKernel (checkHost record ips) := by
  refine .bind (.ofExcept _) fun endpoint => .bind ofKernel_openConnector fun _ => ?_
  refine .bind (ofKernel_requireLink _) fun link => .bind (.ofExcept _) fun _ =>
    .forM fun address => ?_
  refine .bind (ofKernel_snapshot address) fun found => ?_
  cases found with
  | none => exact .pure _
  | some found => exact .fail _

theorem ofKernel_upsertAll (endpoint : EndpointInfo) (ips : List IpAddr) :
    OfKernel (upsertAll endpoint ips) := by
  induction ips with
  | nil => exact .pure _
  | cons head ips induction =>
      have one : OfKernel (upsertOne endpoint head) :=
        .bind (ofKernel_snapshot head) fun _ => .bind (.onKernel _) fun _ => .pure _
      refine .bind one.attempt fun result => ?_
      cases result with
      | error error => exact .pure _
      | ok old => exact .bind induction fun _ => .pure _

theorem ofKernel_undoInstall (installed : List (IpAddr × Option EndpointInfo)) (error : String) :
    OfKernel (undoInstall installed error) := by
  refine .bind (.forM fun entry => ?_) fun _ => .fail _
  unfold restoreSnapshot
  split
  · exact .onKernel _
  · exact ofKernel_removeIfPresent _

theorem ofKernel_attachEndpoint (record : Record) (egress : Egress) (endpoint : EndpointInfo)
    (ips : List IpAddr) : OfKernel (attachEndpoint record egress endpoint ips) := by
  have foreign : OfKernel (dropForeignPolicy endpoint.ifindex record.id) := by
    refine .bind (.observe fun _ _ => rfl) fun found => ?_
    cases found with
    | none => exact .pure _
    | some other =>
        simp only
        split
        · exact .pure _
        · exact .onKernel _
  refine .bind foreign fun _ => .bind (.onKernel _) fun _ => ?_
  cases egress with
  | fib => exact .pure _
  | stack => exact .bind ofKernel_openConnector fun _ => .forM fun _ => .onKernel _

theorem ofKernel_install (record : Record) (egress : Egress) :
    OfKernel (install record egress) := by
  refine .bind (.ofExcept _) fun endpoint => .bind (.ofExcept _) fun ips => ?_
  refine .bind (ofKernel_upsertAll endpoint ips) fun published => ?_
  rcases published with ⟨outcome, installed⟩
  cases outcome with
  | error error => exact ofKernel_undoInstall _ _
  | ok _ =>
      refine .bind (ofKernel_attachEndpoint record egress endpoint ips).attempt fun result => ?_
      cases result with
      | error error => exact ofKernel_undoInstall _ _
      | ok _ => exact .pure _

theorem ofKernel_removeAll (record : Record) :
    OfKernel (do
      detach (ifName record.document)
      let ips ← Fallible.ofExcept (addresses record.document)
      ips.forM fun address => removeIfPresent address) :=
  .bind (.onKernel _) fun _ => .bind (.ofExcept _) fun _ => .forM ofKernel_removeIfPresent

theorem ofKernel_uninstall (record : Record) : OfKernel (uninstall record) := by
  refine .bind ?_ fun _ => ofKernel_removeAll record
  unfold removePolicy
  split
  · exact .onKernel _
  · exact .pure _

theorem ofKernel_checkStale (record : Record) : OfKernel (checkStale record) :=
  .bind (.ofExcept _) fun _ => .forM fun address => .bind (ofKernel_snapshot address) fun _ =>
    .bind (.ofExcept _) fun _ => .ofExcept _

theorem ofKernel_dropOwnPolicy (record : Record) : OfKernel (dropOwnPolicy record) := by
  unfold dropOwnPolicy
  split
  · exact .pure _
  · refine .bind (.observe fun _ _ => rfl) fun found => ?_
    cases found with
    | none => exact .pure _
    | some other =>
        simp only
        split
        · exact .onKernel _
        · exact .pure _

/-! ## Numbers in the directory -/

/-- Every name that is a number is so in the usual spelling, and is one of these. -/
def Numbered (ids : Nat → Prop) (files : Files) : Prop :=
  ∀ name ∈ files, ∀ id, Text.parseUnsigned (2 ^ 16) name = some id → name = destination id ∧ ids id

variable {files : Files} {ids : Nat → Prop}

theorem Numbered.mono {more : Nat → Prop} (numbered : Numbered ids files)
    (inside : ∀ id, ids id → more id) : Numbered more files :=
  fun name listed id number =>
    ⟨(numbered name listed id number).1, inside id (numbered name listed id number).2⟩

theorem parse_staging (id : Nat) : Text.parseUnsigned (2 ^ 16) (staging id) = none := by
  have inside : '_' ∈ (staging id).toList := by
    rw [staging, String.toList_append, List.mem_append]
    exact .inr (by decide)
  exact Text.parseUnsigned_eq_none inside (by decide) (by decide)

theorem numbered_insert {name : String} (entry : Entry) (numbered : Numbered ids files)
    (added : ∀ id, Text.parseUnsigned (2 ^ 16) name = some id → name = destination id ∧ ids id) :
    Numbered ids (files.insert name entry) := by
  intro other listed
  rcases mem_insert_iff.mp listed with same | before
  · exact same ▸ added
  · exact numbered other before

theorem numbered_erase (name : String)
    (numbered : Numbered ids files) : Numbered ids (files.erase name) :=
  fun other listed => numbered other (mem_erase_iff.mp listed).2

/-- What is known of the directory when a number is removed or not removed from it. -/
def Removes (absent possible : Files → Prop) (id : Nat) : Prop :=
  Triple (OnDisk possible) (Store.remove id) fun result world =>
    OnDisk possible world ∧ (result = .ok ⟨⟩ → OnDisk absent world)

section Record

variable {ids : Nat → Prop}

theorem keeps_inDirectory (name : String)
    (act : BTreeMap String Content → Except String (BTreeMap String Content)) :
    Keeps (OnDisk (Numbered ids)) (inDirectory name act) := by
  refine keeps_onFiles fun files after acted numbered => ?_
  split at acted
  · rename_i inside found
    cases changed : act inside with
    | error error =>
        rw [changed] at acted
        cases acted
    | ok next =>
        rw [changed] at acted
        cases acted
        refine numbered_insert _ numbered (numbered name ?_)
        exact mem_of_getElem? found
  · cases acted
  · cases acted

theorem keeps_removeDirectory (name : String) :
    Keeps (OnDisk (Numbered ids)) (removeDirectory name) := by
  refine keeps_onFiles fun files after acted numbered => ?_
  split at acted
  · split at acted
    · cases acted
      exact numbered_erase name numbered
    · cases acted
  · cases acted
  · cases acted

theorem keeps_dropStaged (id : Nat) : Keeps (OnDisk (Numbered ids)) (dropStaged id) :=
  .bind (.bind (keeps_inDirectory _ _).attempt fun _ => .pure _) fun _ =>
    .bind (keeps_removeDirectory _).attempt fun _ => .pure _

theorem keeps_requireFree (id : Nat) : Keeps (OnDisk (Numbered ids)) (requireFree id) := by
  refine .bind (keeps_observe _) fun found => ?_
  cases found with
  | true => exact .fail _
  | false => exact .pure _

theorem keeps_stage (record : Record) : Keeps (OnDisk (Numbered ids)) (Store.stage record) := by
  have made : Keeps (OnDisk (Numbered ids)) (makeDirectory (staging record.id)) := by
    refine keeps_onFiles fun files after acted numbered => ?_
    split at acted
    · cases acted
    · cases acted
      refine numbered_insert _ numbered fun id number => ?_
      rw [parse_staging] at number
      cases number
  have written : Keeps (OnDisk (Numbered ids)) (writeStaged record) :=
    .bind (keeps_inDirectory _ _) fun _ => .bind (keeps_inDirectory _ _) fun _ => keeps_observe _
  exact .bind (.ofExcept _) fun _ => .bind (.ofExcept _) fun _ =>
    .bind (keeps_requireFree _) fun _ => .bind made fun _ => .onError (keeps_dropStaged _) written

def Added (id : Nat) (ids : Nat → Prop) (other : Nat) : Prop := other = id ∨ ids other

theorem keeps_publish {id : Nat} (small : id < 2 ^ 16) :
    Keeps (OnDisk (Numbered (Added id ids))) (Store.publish id) := by
  refine .onError (keeps_dropStaged id) (.bind (keeps_requireFree id) fun _ => ?_)
  refine keeps_onFiles fun files after acted numbered => ?_
  split at acted
  · cases acted
    refine numbered_insert _ (numbered_erase _ numbered) fun other number => ?_
    rw [destination, Text.parseUnsigned_toString small, Option.some.injEq] at number
    exact number ▸ ⟨rfl, .inl rfl⟩
  · cases acted

theorem numbered_of_not_mem {id : Nat} {files : Files} (numbered : Numbered (Added id ids) files)
    (gone : destination id ∉ files) : Numbered ids files := by
  intro name listed other number
  rcases numbered name listed other number with ⟨canonical, same | held⟩
  · subst same
    exact absurd (canonical ▸ listed) gone
  · exact ⟨canonical, held⟩

/-- A removal that succeeds leaves no directory of the number, one that fails at most that. -/
theorem remove_triple (id : Nat) : Removes (Numbered ids) (Numbered (Added id ids)) id := by
  have failed : ∀ (halt : Halt String) (world : World), OnDisk (Numbered (Added id ids)) world →
      OnDisk (Numbered (Added id ids)) world ∧
        ((Except.error halt : Except (Halt String) PUnit) = .ok ⟨⟩ → OnDisk (Numbered ids) world) :=
    fun _ _ kept => ⟨kept, fun same => nomatch same⟩
  refine .bind_ofExcept (fun error _ world kept => failed (.error error) world kept) fun _ _ => ?_
  have looked : Triple (OnDisk (Numbered (Added id ids))) (tryExists (destination id))
      fun result world => OnDisk (Numbered (Added id ids)) world ∧
        (result = .ok false → destination id ∉ world.outside.files) := by
    intro world numbered
    refine ⟨keeps_observe _ world numbered, fun ran => ?_⟩
    rcases external_eq_ok ran with ⟨outside, read, left⟩
    simp only [Except.map, Except.ok.injEq, Prod.mk.injEq] at read
    rw [show (tryExists (destination id) world).2 = _ from left, ← read.2,
      ← Std.ExtTreeMap.contains_iff_mem, read.1]
    exact Bool.noConfusion
  refine .bind looked (fun halt world both => failed halt world both.1) fun found => ?_
  cases found with
  | false =>
      intro world both
      exact ⟨both.1, fun _ => numbered_of_not_mem both.1 (both.2 rfl)⟩
  | true =>
      have checked : Keeps (OnDisk (Numbered (Added id ids))) (ensureOnlyConfig (destination id)) :=
        keeps_observe _
      have emptied :
          Keeps (OnDisk (Numbered (Added id ids))) (removeFileIfPresent (destination id)) := by
        refine .bind (keeps_inDirectory _ _).attempt fun result => ?_
        cases result with
        | ok _ => exact .pure _
        | error error =>
            simp only
            split
            · exact .pure _
            · exact .fail _
      have removed : Triple (OnDisk (Numbered (Added id ids))) (removeDirectory (destination id))
          fun result world => OnDisk (Numbered (Added id ids)) world ∧
            (result = .ok ⟨⟩ → OnDisk (Numbered ids) world) := by
        intro world numbered
        have kept := keeps_removeDirectory (destination id) world numbered
        refine ⟨kept, fun ran => numbered_of_not_mem kept ?_⟩
        rcases onFiles_eq_ok ran with ⟨files, acted, left⟩
        rw [show (removeDirectory (destination id) world).2 = _ from left]
        split at acted
        · split at acted
          · cases acted
            exact fun listed => (mem_erase_iff.mp listed).1 rfl
          · cases acted
        · cases acted
        · cases acted
      refine .strengthen ?_ fun world both => both.1
      refine .bind checked (fun halt world kept => failed halt world kept) fun _ => ?_
      refine .bind emptied (fun halt world kept => failed halt world kept) fun _ => ?_
      refine .bind removed (fun halt world kept => failed halt world kept.1) fun _ => ?_
      intro world done
      exact ⟨keeps_observe _ world done.1, fun _ => keeps_observe _ world (done.2 rfl)⟩

end Record

/-- What is known of the directory without a record's number, and with or without it. -/
structure Housing (absent possible : Files → Prop) (record : Record) : Prop where
  weaker : ∀ files, absent files → possible files
  staged : Keeps (OnDisk absent) (Store.stage record)
  published : Keeps (OnDisk possible) (Store.publish record.id)
  removed : Removes absent possible record.id

theorem housing_any (record : Record) : Housing (fun _ => True) (fun _ => True) record :=
  ⟨fun _ _ => trivial, fun _ _ => trivial, fun _ _ => trivial,
    fun _ _ => ⟨trivial, fun _ => trivial⟩⟩

theorem housing_numbered {record : Record} (small : record.id < 2 ^ 16) :
    Housing (Numbered ids) (Numbered (Added record.id ids)) record where
  weaker _ numbered := numbered.mono fun _ => .inr
  staged := keeps_stage record
  published := keeps_publish small
  removed := remove_triple record.id

end FlowSdn.Endpoint
