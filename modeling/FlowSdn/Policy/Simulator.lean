import FlowSdn.Foundation.Checked
import FlowSdn.Policy.Oracle
import FlowSdn.Policy.Selector

/-! # Direct evaluation of one flow

The simulator reads policy entries for one flow without expanding identities: the
entries that select the subject in the direction, then those whose peers and ports
hold the flow, decided by the oracle.
-/

namespace FlowSdn.Policy.Simulator

open OrderedMap Oracle

inductive Selector
  | none
  | any
  | labels (labels : BTreeMap String String)
  | kubernetes (selector : LabelSelector)

structure PortName where
  protocol : U8
  name : String
  deriving DecidableEq

structure Endpoint where
  identity : U32
  labels : BTreeMap String String
  namedPorts : List (PortName × U16)

def Selector.matches (selector : Selector) (endpoint : Endpoint) : Bool :=
  match selector with
  | .none => false
  | .any => true
  | .labels wanted => wanted.toList.all fun pair => endpoint.labels[pair.1]? = some pair.2
  | .kubernetes wanted => wanted.matches endpoint.labels

inductive Port
  | numeric (range : PortRange)
  | named (name : String)

structure Entry where
  subject : Selector
  peers : Selector
  defaultDeny : Bool
  rule : Oracle.Rule
  port : Port

/-- The range an entry's port stands for at the destination; none for a name the
destination lacks. -/
def resolvePort (entry : Entry) (destination : Endpoint) : Except Error (Option PortRange) :=
  match entry.port with
  | .numeric range => .ok (some range)
  | .named name =>
      if entry.rule.protocol ≠ 6#8 ∧ entry.rule.protocol ≠ 17#8 then .error .invalidProtocol
      else
        match (destination.namedPorts.lookup ⟨entry.rule.protocol, name⟩).filter (· ≠ 0#16) with
        | none => .ok none
        | some port => some <$> PortRange.fromApi port none

/-- The rule of an entry that holds the flow; none when it does not. -/
def matchEntry (peer destination : Endpoint) (protocol : U8) (port : U16) (entry : Entry) :
    Except Error (Option Oracle.Rule) :=
  if !entry.peers.matches peer ||
      (entry.rule.protocol ≠ Abi.anyProtocol && entry.rule.protocol ≠ protocol) then .ok none
  else do
    match ← resolvePort entry destination with
    | none => return none
    | some range =>
        if !range.contains port then return none
        else return some { entry.rule with peer := .any, ports := range }

/-- The matching rules, in order; the first port that does not resolve is an error. -/
def matchEntries (peer destination : Endpoint) (protocol : U8) (port : U16) :
    List Entry → Except Error (List Oracle.Rule)
  | [] => .ok []
  | entry :: entries => do
      let rule ← matchEntry peer destination protocol port entry
      let rules ← matchEntries peer destination protocol port entries
      return rule.toList ++ rules

def evaluate (entries : List Entry) (source destination : Endpoint) (egress : Bool)
    (protocol : U8) (port : U16) : Except Error Decision := do
  let (subject, peer) := if egress then (source, destination) else (destination, source)
  let selected := entries.filter fun entry =>
    entry.rule.egress = egress && entry.subject.matches subject
  validateSubject (selected.map (·.rule))
  let defaultDeny := selected.any (·.defaultDeny)
  let matching ← matchEntries peer destination protocol port selected
  if matching.isEmpty && !defaultDeny then
    return .allow (collect [0#16])
  else
    Oracle.evaluate matching { identity := peer.identity, egress, protocol, port }

/-! ## Plain entries -/

/-- An entry that asks for default deny, with a plain allow and a numeric port. -/
structure PlainEntry (entry : Entry) : Prop where
  rule : PlainAllow entry.rule
  defaultDeny : entry.defaultDeny = true
  port : ∃ range, entry.port = .numeric range ∧
    (entry.rule.protocol = Abi.anyProtocol → range = .any)

def Holds (entry : Entry) (peer : Endpoint) (protocol : U8) (port : U16) : Prop :=
  entry.peers.matches peer ∧
    (entry.rule.protocol = Abi.anyProtocol ∨ entry.rule.protocol = protocol) ∧
    ∃ range, entry.port = .numeric range ∧ range.contains port

def Concerns (entry : Entry) (egress : Bool) (subject : Endpoint) : Prop :=
  entry.rule.egress = egress ∧ entry.subject.matches subject

section Plain

variable {peer destination : Endpoint} {protocol : U8} {port : U16}

theorem matchEntry_of_plain {entry : Entry} (plain : PlainEntry entry) :
    (Holds entry peer protocol port ∧ ∃ rule, PlainAllow rule ∧
        rule.egress = entry.rule.egress ∧ rule.ports.contains port ∧
        (rule.protocol = Abi.anyProtocol ∨ rule.protocol = protocol) ∧
        matchEntry peer destination protocol port entry = .ok (some rule)) ∨
      (¬Holds entry peer protocol port ∧
        matchEntry peer destination protocol port entry = .ok none) := by
  rcases plain.port with ⟨range, numeric, whole⟩
  have resolved : resolvePort entry destination = .ok (some range) := by
    simp [resolvePort, numeric]
  by_cases selects : entry.peers.matches peer ∧
      (entry.rule.protocol = Abi.anyProtocol ∨ entry.rule.protocol = protocol)
  · have passes : (!entry.peers.matches peer ||
        (entry.rule.protocol ≠ Abi.anyProtocol && entry.rule.protocol ≠ protocol)) = false := by
      rcases selects with ⟨ofPeer, ofProtocol⟩
      rcases ofProtocol with any | same
      · simp [ofPeer, any]
      · simp [ofPeer, same]
    unfold matchEntry
    rw [passes, resolved]
    by_cases inside : range.contains port
    · refine .inl ⟨⟨selects.1, selects.2, range, numeric, inside⟩,
        { entry.rule with peer := .any, ports := range }, ?_, rfl, inside, selects.2, ?_⟩
      · exact { plain.rule with peer := rfl, whole := whole }
      · simp [inside, bind, Except.bind, pure, Except.pure]
    · refine .inr ⟨?_, by simp [inside, bind, Except.bind, pure, Except.pure]⟩
      intro holds
      rcases holds with ⟨_, _, other, equal, contains⟩
      rw [numeric] at equal
      cases equal
      exact inside contains
  · refine .inr ⟨fun holds => selects ⟨holds.1, holds.2.1⟩, ?_⟩
    unfold matchEntry
    rw [if_pos]
    simp only [Bool.or_eq_true, Bool.not_eq_true', Bool.and_eq_true, decide_eq_true_eq]
    by_cases ofPeer : entry.peers.matches peer
    · rw [not_and, not_or] at selects
      exact .inr (selects ofPeer)
    · exact .inl (by simpa using ofPeer)

/-- The rules that match are plain, match the packet, and there is one exactly when
an entry holds the flow. -/
theorem matchEntries_of_plain {entries : List Entry} (plain : ∀ entry ∈ entries, PlainEntry entry)
    {egress : Bool} (direction : ∀ entry ∈ entries, entry.rule.egress = egress) (identity : U32) :
    ∃ rules, matchEntries peer destination protocol port entries = .ok rules ∧
      (∀ rule ∈ rules, PlainAllow rule ∧
        rule.matches { identity, egress, protocol, port }) ∧
      (rules ≠ [] ↔ ∃ entry ∈ entries, Holds entry peer protocol port) := by
  induction entries with
  | nil => exact ⟨[], rfl, by simp, by simp⟩
  | cons entry entries induction =>
      rcases induction (fun other member => plain other (List.mem_cons_of_mem _ member))
        (fun other member => direction other (List.mem_cons_of_mem _ member)) with
        ⟨rules, others, sound, found⟩
      have step : ∀ first, matchEntry peer destination protocol port entry = .ok first →
          matchEntries peer destination protocol port (entry :: entries) =
            .ok (first.toList ++ rules) := by
        intro first matched
        simp [matchEntries, matched, others, bind, Except.bind, pure, Except.pure]
      rcases @matchEntry_of_plain peer destination protocol port entry
        (plain entry (List.mem_cons_self ..)) with
        ⟨holds, rule, isPlain, sameDirection, contains, ofProtocol, matched⟩ | ⟨misses, matched⟩
      · refine ⟨rule :: rules, step _ matched, ?_, ?_⟩
        · intro other member
          rcases List.mem_cons.mp member with here | inside
          · subst here
            refine ⟨isPlain, ?_⟩
            have ofDirection := direction entry (List.mem_cons_self ..)
            simp [Rule.matches, sameDirection, ofDirection, isPlain.peer, contains, ofProtocol]
          · exact sound other inside
        · exact iff_of_true (List.cons_ne_nil _ _) ⟨entry, List.mem_cons_self .., holds⟩
      · refine ⟨rules, step none matched, sound, found.trans ?_⟩
        simp [misses]

theorem evaluate_allow_iff {entries : List Entry} (plain : ∀ entry ∈ entries, PlainEntry entry)
    (source destination : Endpoint) (egress : Bool) (protocol : U8) (port : U16) :
    (∃ ports, evaluate entries source destination egress protocol port =
        .ok (.allow ports)) ↔
      (∀ entry ∈ entries,
          ¬Concerns entry egress (if egress then source else destination)) ∨
        ∃ entry ∈ entries,
          Concerns entry egress (if egress then source else destination) ∧
            Holds entry (if egress then destination else source) protocol port := by
  generalize subjectEq : (if egress then source else destination) = subject
  generalize peerEq : (if egress then destination else source) = peer
  have pair : (if egress then (source, destination) else (destination, source)) =
      (subject, peer) := by
    subst subjectEq
    subst peerEq
    cases egress <;> rfl
  let selected := entries.filter fun entry =>
    entry.rule.egress = egress && entry.subject.matches subject
  have mem_selected : ∀ entry, entry ∈ selected ↔
      entry ∈ entries ∧ Concerns entry egress subject := by
    intro entry
    simp [selected, Concerns]
  have selectedPlain : ∀ entry ∈ selected, PlainEntry entry := fun entry member =>
    plain entry ((mem_selected entry).mp member).1
  have validated : validateSubject (selected.map (·.rule)) = .ok () := by
    apply validateSubject_of_plain
    intro rule member
    rcases List.mem_map.mp member with ⟨entry, inside, rfl⟩
    exact (selectedPlain entry inside).rule
  rcases @matchEntries_of_plain peer destination protocol port selected selectedPlain egress
    (fun entry member => ((mem_selected entry).mp member).2.1) peer.identity with
    ⟨rules, matching, sound, found⟩
  have denies : selected.any (·.defaultDeny) = !selected.isEmpty := by
    cases listed : selected with
    | nil => rfl
    | cons first rest =>
        have first : first.defaultDeny = true :=
          (selectedPlain first (by rw [listed]; exact List.mem_cons_self ..)).defaultDeny
        simp [first]
  have reduced : evaluate entries source destination egress protocol port =
      if rules.isEmpty && selected.isEmpty then .ok (.allow (collect [0#16]))
      else Oracle.evaluate rules { identity := peer.identity, egress, protocol, port } := by
    simp only [evaluate, pair]
    rw [show (entries.filter fun entry =>
      entry.rule.egress = egress && entry.subject.matches subject) = selected from rfl, validated,
      matching, denies, Bool.not_not]
    rfl
  have oracle := evaluate_of_plain (fun rule member => (sound rule member).1)
    fun rule member => (sound rule member).2
  have unselected : selected = [] ↔ ∀ entry ∈ entries, ¬Concerns entry egress subject := by
    rw [List.eq_nil_iff_forall_not_mem]
    simp only [mem_selected, not_and]
  have holding : rules ≠ [] ↔
      ∃ entry ∈ entries, Concerns entry egress subject ∧ Holds entry peer protocol port := by
    simp only [found, mem_selected, and_assoc]
  rw [reduced, ← unselected, ← holding]
  by_cases none : selected = []
  · have noRules : rules = [] := by
      by_contra some
      rcases found.mp some with ⟨entry, member, _⟩
      rw [none] at member
      cases member
    simp [none, noRules]
  · simpa [none] using oracle

end Plain

end FlowSdn.Policy.Simulator
