import FlowSdn.Foundation.Checked
import FlowSdn.Policy.KernelLookup

/-! # Preparing records for the kernel map

Two passes over canonical records: authentication types are inherited from the nearest covering
record, and a record that only repeats its aggregate's is left out.
-/

namespace FlowSdn.Policy.KernelMap

open Abi Identity Words OrderedMap Agent Checked

def Record.packet (record : Record) : Oracle.Packet :=
  ⟨record.key.secLabel, record.key.egress = 1#8, record.key.protocol, record.key.dport⟩

def covers (parent child : Record) : Bool :=
  parent.key.prefixlen < child.key.prefixlen && parent.matches child.packet child.key.secLabel

def parents (records : List Record) (target : Record) : List Record :=
  records.filter (covers · target)

/-- A precedence without the rank within its priority. -/
def allowPriority (precedence : U32) : U32 := precedence &&& ~~~255#32

/-- The last of the records with the longest key. -/
def longest (records : List Record) : Option Record :=
  records.reverse.argmax (·.key.prefixlen.toNat)

/-- Whether a covering record's authentication type is one to inherit. -/
def bequeaths (target parent : Record) : Bool :=
  !parent.entry.denies && parent.entry.hasExplicitAuthType &&
    allowPriority target.entry.precedence ≤ allowPriority parent.entry.precedence

def withAuth (record : Record) (auth : U8) : Record :=
  { record with entry := { record.entry with auth } }

/-- What a record that passes the check becomes. -/
def withInherited (records : List Record) (target : Record) : Record :=
  if target.entry.denies || target.entry.hasExplicitAuthType then target
  else
    match longest ((parents records target).filter (bequeaths target)) with
    | some parent => withAuth target parent.entry.authType
    | none => target

def inheritOne (records : List Record) (target : Record) : Except String Record :=
  if target.entry.denies then .ok target
  else if (parents records target).any (target.entry.precedence < ·.entry.precedence) then
    .error "covering precedence must be normalized before auth propagation"
  else .ok (withInherited records target)

def inheritAuth (records : List Record) : Except String (List Record) :=
  match Index.new records with
  | .error error => .error error
  | .ok _ => records.mapM (inheritOne records)

def bucket (records : List Record) (identity : U32) (egress : U8) : List Record :=
  records.filter fun record => record.key.secLabel = identity ∧ record.key.egress = egress

/-- Neither the record's identity nor its aggregate has another record in its direction. -/
def isolated (records : List Record) (aggregate : U32) (record : Record) : Bool :=
  (bucket records record.key.secLabel record.key.egress).length = 1 &&
    (bucket records aggregate record.key.egress).length = 1

def repeats (records : List Record) (aggregate : U32) (record : Record) : Bool :=
  isolated records aggregate record && aggregate ≠ record.key.secLabel && records.any fun other =>
      other.key = { record.key with secLabel := aggregate } && other.entry = record.entry &&
        other.origin = record.origin

def pruneOne (records : List Record) (context : Context) (record : Record) :
    Except String (List Record) := do
  let aggregate ← context.aggregate record.key.secLabel
  return if repeats records aggregate record then [] else [record]

def pruneAggregateDuplicates (records : List Record) (context : Context) :
    Except String (List Record) :=
  match Index.new records with
  | .error error => .error error
  | .ok _ => List.flatten <$> records.mapM (pruneOne records context)

/-! ## Valid lists of records -/

/-- What the index and the scan both ask of their records. -/
structure Valid (records : List Record) : Prop where
  canonical : ∀ record ∈ records, canonical record = .ok ()
  distinct : (records.map Record.key).Nodup

theorem checkRecords_eq_ok {earlier records : List Record} :
    checkRecords earlier records = .ok () ↔
      (∀ record ∈ records, canonical record = .ok ()) ∧ (records.map Record.key).Nodup ∧
        ∀ record ∈ records, ∀ before ∈ earlier, before.key ≠ record.key := by
  induction records generalizing earlier with
  | nil => simp [checkRecords]
  | cons record records induction =>
      rw [checkRecords]
      cases checked : canonical record with
      | error message => simp [checked]
      | ok passed =>
          cases passed
          by_cases taken : earlier.any (·.key = record.key) = true
          · rw [if_pos taken]
            simp only [reduceCtorEq, false_iff, not_and]
            intro _ _ apart
            rcases List.any_eq_true.mp taken with ⟨before, member, same⟩
            exact apart record List.mem_cons_self before member (of_decide_eq_true same)
          · rw [if_neg taken, induction]
            have fresh : ∀ before ∈ earlier, before.key ≠ record.key := by
              intro before member same
              exact taken (List.any_eq_true.mpr ⟨before, member, decide_eq_true same⟩)
            simp only [List.mem_cons, forall_eq_or_imp, checked, true_and, List.map_cons,
              List.nodup_cons, List.mem_map, not_exists, not_and, List.mem_append,
              List.not_mem_nil, or_false]
            constructor
            · intro passes
              rcases passes with ⟨each, apart, before⟩
              refine ⟨each, ⟨fun other member same => ?_, apart⟩, fresh, ?_⟩
              · exact before other member record (.inr rfl) same.symm
              · exact fun other member first isFirst => before other member first (.inl isFirst)
            · intro passes
              rcases passes with ⟨each, ⟨alone, apart⟩, _, before⟩
              refine ⟨each, apart, fun other member first isFirst => ?_⟩
              rcases isFirst with isFirst | same
              · exact before other member first isFirst
              · subst same
                exact fun same => alone other member same.symm

theorem new_eq_ok_iff {records : List Record} :
    (∃ index, Index.new records = .ok index) ↔ Valid records := by
  have checks : checkRecords [] records = .ok () ↔ Valid records := by
    rw [checkRecords_eq_ok]
    constructor
    · exact fun passes => ⟨passes.1, passes.2.1⟩
    · exact fun valid => ⟨valid.canonical, valid.distinct, by simp⟩
  rw [← checks]
  rcases foldlM_add indexes_nil records with ⟨message, checked, failed⟩ | ⟨checked, filled⟩
  · rw [checked, Index.new, failed]
    simp
  · rcases filled with ⟨entries, made, _⟩
    rw [checked, Index.new, made]
    simp

theorem valid_of_new {records : List Record} {index : Index}
    (made : Index.new records = .ok index) :
    Valid records :=
  new_eq_ok_iff.mp ⟨index, made⟩

namespace Valid

variable {records : List Record}

section

variable (valid : Valid records)

include valid

theorem sound : ∀ record ∈ records, Sound record :=
  fun record member => sound_of_canonical (valid.canonical record member)

theorem eq_of_key {record other : Record} (member : record ∈ records)
    (also : other ∈ records) (same : record.key = other.key) : record = other :=
  List.inj_on_of_nodup_map valid.distinct member also same

theorem sublist {some : List Record} (part : some.Sublist records) :
    Valid some :=
  ⟨fun record member => valid.canonical record (part.subset member),
    valid.distinct.sublist (part.map _)⟩

theorem perm {other : List Record} (same : records.Perm other) :
    Valid other :=
  ⟨fun record member => valid.canonical record (same.mem_iff.mpr member),
    ((same.map _).nodup_iff).mp valid.distinct⟩

theorem scan_eq (context : Context) (packet : Oracle.Packet) :
    scan records context packet =
      (fun aggregate => scanAt records packet aggregate) <$> context.aggregate packet.identity := by
  have checked : checkRecords [] records = .ok () :=
    checkRecords_eq_ok.mpr ⟨valid.canonical, valid.distinct, by simp⟩
  rw [scan, checked]
  cases context.aggregate packet.identity <;> rfl

end

end Valid

section Aggregates

variable {context : Context} {identity aggregate : U32} {reserved : ReservedIdentity}

theorem aggregate_eq_ok (found : context.aggregate identity = .ok aggregate) :
    ∃ valid reserved, NumericIdentity.new identity = .ok valid ∧
      context.encoding.validateCluster context.localCluster = .ok () ∧
      context.encoding.aggregateFor valid context.localCluster = .ok reserved ∧
      reserved.number = aggregate := by
  unfold Context.aggregate at found
  split at found
  · cases found
  · rename_i valid isValid
    split at found
    · cases found
    · rename_i reserved isReserved
      refine ⟨valid, reserved, isValid, ?_, isReserved, Except.ok.inj found⟩
      unfold ClusterEncoding.aggregateFor at isReserved
      split at isReserved
      · cases isReserved
      · rename_i clusterValid
        exact clusterValid

/-- The reserved identities that stand for others. -/
def Aggregating (reserved : ReservedIdentity) : Prop :=
  reserved = .unknown ∨ reserved = .aggregateCluster ∨ reserved = .aggregateClusterMesh ∨
    reserved = .aggregateWorld ∨ reserved = .aggregateRemoteNode

theorem aggregating_of_aggregateFor {encoding : ClusterEncoding} {valid : NumericIdentity}
    {cluster : U16} (found : encoding.aggregateFor valid cluster = .ok reserved) :
    Aggregating reserved := by
  have ofScope : ∀ result, encoding.aggregateScope valid cluster = .ok result →
      Aggregating result := by
    intro result isResult
    unfold ClusterEncoding.aggregateScope at isResult
    split at isResult
    · cases isResult
      simp [Aggregating]
    · cases isResult
      simp [Aggregating]
    · split at isResult
      · cases isResult
        simp [Aggregating]
      · split at isResult
        · cases isResult
        · cases isResult
          split <;> simp [Aggregating]
  unfold ClusterEncoding.aggregateFor at found
  split at found
  · cases found
  · split_ifs at found
    all_goals first
      | exact ofScope reserved found
      | (cases found; simp [Aggregating])

theorem aggregate_number (aggregating : Aggregating reserved)
    (cluster : context.encoding.validateCluster context.localCluster = .ok ()) :
    context.aggregate reserved.number = .ok reserved.number := by
  rcases aggregating with same | same | same | same | same <;> subst same <;>
    simp [Context.aggregate, NumericIdentity.new, ReservedIdentity.number,
      ClusterEncoding.aggregateFor, cluster]

theorem aggregate_aggregate (found : context.aggregate identity = .ok aggregate) :
    context.aggregate aggregate = .ok aggregate := by
  rcases aggregate_eq_ok found with ⟨valid, reserved, _, cluster, isReserved, same⟩
  subst same
  exact aggregate_number (aggregating_of_aggregateFor isReserved) cluster

theorem aggregate_wildcard (found : context.aggregate identity = .ok aggregate) :
    context.aggregate wildcard = .ok wildcard := by
  rcases aggregate_eq_ok found with ⟨valid, reserved, _, cluster, _, _⟩
  exact aggregate_number (.inl rfl) cluster

end Aggregates

section Prune

variable {records : List Record} {context : Context} {packet : Oracle.Packet}

def kept (records : List Record) (context : Context) (record : Record) : Bool :=
  match context.aggregate record.key.secLabel with
  | .error _ => true
  | .ok aggregate => !repeats records aggregate record

variable {record : Record} {identity aggregate : U32}

theorem pruneOne_eq {list : List Record} (made : pruneOne records context record = .ok list) :
    pruneOne records context record =
      .ok (if kept records context record then [record] else []) := by
  unfold pruneOne at made ⊢
  rw [bind_eq_ok] at made
  rcases made with ⟨aggregate, found, _⟩
  rw [found, kept, found]
  by_cases repeated : repeats records aggregate record = true
  · simp [repeated, pure, Except.pure, bind, Except.bind]
  · simp [repeated, pure, Except.pure, bind, Except.bind]

theorem flatten_map_singleton (records : List Record) (keep : Record → Bool) :
    (records.map fun record => if keep record then [record] else []).flatten =
      records.filter keep := by
  induction records with
  | nil => rfl
  | cons record records induction =>
      rw [List.map_cons, List.flatten_cons, induction, List.filter_cons]
      cases keep record <;> rfl

theorem prune_eq_ok {pruned : List Record}
    (made : pruneAggregateDuplicates records context = .ok pruned) :
    Valid records ∧ pruned = records.filter (kept records context) := by
  unfold pruneAggregateDuplicates at made
  split at made
  · cases made
  · rename_i index indexed
    refine ⟨valid_of_new indexed, ?_⟩
    cases mapped : records.mapM (pruneOne records context) with
    | error message =>
        rw [mapped] at made
        cases made
    | ok lists =>
        have rounds : ∀ record ∈ records, pruneOne records context record =
            .ok (if kept records context record then [record] else []) := by
          intro record member
          rcases exists_mem_of_mapM mapped member with ⟨list, _, round⟩
          exact pruneOne_eq round
        rw [mapM_eq_map rounds] at made
        rw [← flatten_map_singleton]
        exact (Except.ok.inj made).symm

/-- The record that matches a packet best is the same where no record that matches is
left out. -/
theorem best_filter {keep : Record → Bool}
    (matching : ∀ record ∈ records, record.matches packet identity → keep record) :
    best (records.filter keep) packet identity = best records packet identity := by
  unfold best
  congr 2
  rw [List.filter_filter]
  apply List.filter_congr
  intro record member
  cases matched : record.matches packet identity with
  | false => rfl
  | true => simp [matching record member matched]

theorem secLabel_of_matches (matched : record.matches packet identity) :
    record.key.secLabel = identity ∧ record.key.egress = bit packet.egress := by
  unfold Record.matches at matched
  simp only at matched
  split at matched
  · cases matched
  · rename_i same
    rw [not_or, not_not, not_not] at same
    exact same

theorem kept_of_aggregate
    (itself : context.aggregate record.key.secLabel = .ok record.key.secLabel) :
    kept records context record := by
  rw [kept, itself]
  simp [repeats]

theorem best_filter_aggregate (itself : context.aggregate aggregate = .ok aggregate) :
    best (records.filter (kept records context)) packet aggregate =
      best records packet aggregate := by
  refine best_filter fun record _ matched => kept_of_aggregate ?_
  rw [(secLabel_of_matches matched).1]
  exact itself

/-- A record that is left out: the only one of its identity in its direction, beside one of
the aggregate that says the same. -/
structure Repeated (records : List Record) (aggregate : U32) (record other : Record) : Prop where
  apart : aggregate ≠ record.key.secLabel
  alone : bucket records record.key.secLabel record.key.egress = [record]
  member : other ∈ records
  key : other.key = { record.key with secLabel := aggregate }
  entry : other.entry = record.entry
  aggregateAlone : bucket records aggregate record.key.egress = [other]

theorem repeated_of_not_kept (member : record ∈ records)
    (found : context.aggregate record.key.secLabel = .ok aggregate)
    (dropped : kept records context record = false) :
    ∃ other, Repeated records aggregate record other := by
  rw [kept, found] at dropped
  simp only [Bool.not_eq_false', repeats, isolated, Bool.and_eq_true, decide_eq_true_eq,
    List.any_eq_true, ne_eq] at dropped
  rcases dropped with ⟨⟨⟨alone, aggregateAlone⟩, apart⟩, other, isOther, ⟨key, entry⟩, _⟩
  have single : ∀ {list : List Record} {element : Record}, list.length = 1 → element ∈ list →
      list = [element] := by
    intro list element one inside
    rcases List.length_eq_one_iff.mp one with ⟨only, same⟩
    rw [same, List.mem_singleton] at inside
    rw [same, inside]
  refine ⟨other, apart, single alone ?_, isOther, key, entry, single aggregateAlone ?_⟩
  · exact List.mem_filter.mpr ⟨member, by simp⟩
  · refine List.mem_filter.mpr ⟨isOther, ?_⟩
    simp [key]

/-- Where a bucket has one record, that record is the best match if it matches at all. -/
theorem best_of_bucket {egress : U8}
    (alone : bucket records identity egress = [record]) (matched : record.matches packet identity)
    (direction : record.key.egress = egress) : best records packet identity = some record := by
  have only : records.filter (·.matches packet identity) = [record] := by
    have inner : records.filter (·.matches packet identity) =
        (bucket records identity egress).filter (·.matches packet identity) := by
      rw [bucket, List.filter_filter]
      apply List.filter_congr
      intro candidate _
      cases held : candidate.matches packet identity with
      | false => rfl
      | true =>
          have first := secLabel_of_matches held
          have second := secLabel_of_matches matched
          simp [first.1, first.2, ← direction, second.2]
    rw [inner, alone]
    simp [matched]
  rw [best, only]
  rfl

theorem stronger_self (auth : U8) : stronger auth auth = auth := by
  simp [stronger]

/-- A record beside one that says the same decides as that one alone. -/
theorem conclude_repeated {other : Record} (entry : other.entry = record.entry)
    (length : other.key.prefixlen = record.key.prefixlen) :
    conclude (some record) (some other) = conclude none (some other) := by
  have chosen : choose (some record) (some other) =
      some (record, if record.entry.precedence = BitVec.allOnes 32 then none else some other) := by
    have noLater : ¬(record.entry.precedence ≠ BitVec.allOnes 32 ∧
        (other.entry.precedence > record.entry.precedence ∨
          (other.entry.precedence = record.entry.precedence ∧
            other.key.prefixlen > record.key.prefixlen))) := by
      rw [entry, length]
      simp
    exact if_neg noLater
  rw [conclude, chosen, conclude, choose]
  simp only [Record.outcome, entry]
  cases record.entry.denies with
  | true => rfl
  | false =>
      by_cases explicit : record.entry.hasExplicitAuthType = true
      · simp [explicit]
      · by_cases top : record.entry.precedence = BitVec.allOnes 32
        · simp [explicit, top]
        · have alike : (some other).filter
              (fun held => held.entry.precedence = record.entry.precedence) = some other := by
            simp [Option.filter, entry]
          rw [if_neg top, alike]
          simp [explicit, entry, stronger_self]

theorem scanAt_filter_kept (found : context.aggregate packet.identity = .ok aggregate) :
    scanAt (records.filter (kept records context)) packet aggregate =
      scanAt records packet aggregate := by
  have itself := aggregate_aggregate found
  have wild := aggregate_wildcard found
  by_cases whole : ∀ record ∈ records, record.matches packet packet.identity →
      kept records context record
  · unfold scanAt broader
    rw [best_filter whole, best_filter_aggregate itself, best_filter_aggregate wild]
  · simp only [not_forall] at whole
    rcases whole with ⟨record, member, matched, dropped⟩
    rcases secLabel_of_matches matched with ⟨label, direction⟩
    rw [Bool.not_eq_true] at dropped
    rcases repeated_of_not_kept member (label.symm ▸ found) dropped with ⟨other, repeated⟩
    have own : best records packet packet.identity = some record := by
      refine best_of_bucket (label ▸ repeated.alone) matched rfl
    have otherMatched : other.matches packet aggregate := by
      unfold Record.matches at matched ⊢
      simp only [repeated.key]
      simp only [label] at matched
      simpa using matched
    have aggregates : best records packet aggregate = some other := by
      refine best_of_bucket repeated.aggregateAlone otherMatched ?_
      rw [repeated.key]
    have gone : best (records.filter (kept records context)) packet packet.identity = none := by
      rw [best, List.argmax_eq_none, List.reverse_eq_nil_iff, List.filter_eq_nil_iff]
      intro candidate inside held
      rcases List.mem_filter.mp inside with ⟨isRecord, isKept⟩
      rcases secLabel_of_matches held with ⟨sameLabel, sameDirection⟩
      have listed : candidate ∈ bucket records record.key.secLabel record.key.egress :=
        List.mem_filter.mpr ⟨isRecord, by simp [sameLabel, sameDirection, label, direction]⟩
      rw [repeated.alone, List.mem_singleton] at listed
      rw [listed, dropped] at isKept
      cases isKept
    have different : aggregate ≠ packet.identity := label ▸ repeated.apart
    unfold scanAt broader
    rw [best_filter_aggregate itself, own, gone, aggregates]
    simp only [if_neg different, Option.isNone_some, Bool.false_eq_true, false_and, and_false,
      if_false]
    refine (conclude_repeated repeated.entry ?_).symm
    rw [repeated.key]

end Prune

/-- Leaving out the duplicates of an aggregate changes no verdict. -/
theorem scan_pruned {records pruned : List Record} {context : Context}
    (made : pruneAggregateDuplicates records context = .ok pruned) (packet : Oracle.Packet) :
    scan pruned context packet = scan records context packet := by
  rcases prune_eq_ok made with ⟨valid, isPruned⟩
  subst isPruned
  rw [(valid.sublist List.filter_sublist).scan_eq, valid.scan_eq]
  cases found : context.aggregate packet.identity with
  | error message => rfl
  | ok aggregate => exact congrArg Except.ok (scanAt_filter_kept found)

/-- A record of a node-local identity beside the same one of its aggregate. -/
def repeatedRecords : List Record :=
  [0x01000001#32, 13#32].map fun secLabel =>
    { key := { prefixlen := 40#32, secLabel, egress := 1#8, protocol := 0#8, dport := 0#16 }
      entry := { proxyPort := 0#16, flags := 0#8, auth := 0#8, precedence := 1#32, cookie := 0#32 }
      origin := "web" }

theorem scan_pruned_repeatedRecords :
    pruneAggregateDuplicates repeatedRecords ⟨.standard, 1#16⟩ = .ok (repeatedRecords.drop 1) ∧
    ∀ packet, scan (repeatedRecords.drop 1) ⟨.standard, 1#16⟩ packet =
      scan repeatedRecords ⟨.standard, 1#16⟩ packet := by
  have made : pruneAggregateDuplicates repeatedRecords ⟨.standard, 1#16⟩ =
      .ok (repeatedRecords.drop 1) := by decide +kernel
  exact ⟨made, scan_pruned made⟩

end FlowSdn.Policy.KernelMap
