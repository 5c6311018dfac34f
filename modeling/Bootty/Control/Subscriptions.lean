import Bootty.Base.Numbered
import Mathlib.Algebra.GroupWithZero.Nat
import Mathlib.Data.List.Induction
import Std.Data.ExtTreeMap

/-!
# Event subscriptions

Model of the subscriptions of `ControlState` (`crates/bootty-control/src/state.rs:165–360`).
Tasks and the watch channel that wakes waiting requests are left out. JSON values are of any
type; the length of an encoded event is a parameter, and encoding such a value does not fail.
-/

namespace Bootty.Control

open Bootty.Base

/-- `REQUEST_LIMIT`. -/
def requestLimit : Nat := 1024 * 1024

/-- `MAX_SUBSCRIPTIONS`. -/
def maxSubscriptions : Nat := 64

/-- `EVENT_QUEUE_LIMIT`. -/
def eventQueueLimit : Nat := 64

/-- The greatest `u64`. -/
def maxU64 : Nat := 2 ^ 64 - 1

/-- What a rebase error says about the subscription. -/
structure Rebase where
  subscription : String
  scope : String
  cursor : Nat
  sequence : Nat
  deriving DecidableEq, Repr

/-- `RpcError`. -/
structure RpcError where
  code : Int
  message : String
  data : Option Rebase
  deriving DecidableEq, Repr

/-- `state.rs:331–341`. -/
def rebaseError (subscription scope : String) (cursor sequence : Nat) : RpcError :=
  ⟨-32005, "event rebase required", some ⟨subscription, scope, cursor, sequence⟩⟩

/-- The error for a subscription that is not there. -/
def unknownSubscription : RpcError := ⟨-32602, "unknown subscription", none⟩

/-- `SubscriptionEvent`. -/
structure SubscriptionEvent (V : Type) where
  sequence : Nat
  scope : String
  revision : Nat
  topic : String
  provenance : V
  target : V
  payload : V
  deriving DecidableEq

/-- `SubscriptionBatch`. -/
structure SubscriptionBatch (V : Type) where
  subscription : String
  scope : String
  revision : Nat
  cursor : Nat
  events : List (SubscriptionEvent V)

/-- `SubscriptionRecord`. -/
structure SubscriptionRecord (V : Type) where
  topics : List String
  scope : String
  sequence : Nat
  cursor : Nat
  events : List (SubscriptionEvent V)
  gap : Option Nat

/-- What the random source gives: identities, and then a failure. -/
structure RandomIds where
  ids : List String
  failure : String

/-- `ControlState`, as far as subscriptions go. -/
structure ControlState (V : Type) where
  subscriptions : Std.ExtTreeMap String (SubscriptionRecord V)
  revisions : String → Nat

variable {V : Type}

namespace SubscriptionRecord

/-- The events at the front that fit in a response, and the others: `state.rs:218–233`. -/
def takeBatch (encodedLen : SubscriptionEvent V → Nat) :
    Nat → List (SubscriptionEvent V) → List (SubscriptionEvent V) × List (SubscriptionEvent V)
  | _, [] => ([], [])
  | bytes, event :: events =>
    let totalBytes := min (bytes + min (encodedLen event) maxU64) maxU64
    if requestLimit / 2 < totalBytes then ([], event :: events)
    else
      let (taken, rest) := takeBatch encodedLen totalBytes events
      (event :: taken, rest)

/-- `state.rs:200–247`: the events delivered, or the error, and the record left. -/
def poll (encodedLen : SubscriptionEvent V → Nat) (record : SubscriptionRecord V)
    (subscription : String) (cursor : Nat) :
    Except RpcError (List (SubscriptionEvent V)) × SubscriptionRecord V :=
  match record.gap with
  | some gap => (.error (rebaseError subscription record.scope record.cursor gap), record)
  | none =>
    if cursor ≠ record.cursor then
      (.error (rebaseError subscription record.scope record.cursor record.sequence), record)
    else
      let (events, rest) := takeBatch encodedLen 0 record.events
      if events.isEmpty && !rest.isEmpty then
        (.error (rebaseError subscription record.scope record.cursor record.sequence),
          { record with events := [], gap := some record.sequence })
      else
        let cursor := (events.getLast?.map (·.sequence)).getD record.cursor
        (.ok events, { record with events := rest, cursor })

/-- The body of the loop over the subscriptions, `state.rs:302–325`. -/
def publish (record : SubscriptionRecord V) (scope topic : String) (revision : Nat)
    (provenance target payload : V) : SubscriptionRecord V :=
  if record.scope ≠ scope ∨ topic ∉ record.topics then record
  else if record.sequence = maxU64 then
    { record with events := [], gap := some record.sequence }
  else
    let sequence := record.sequence + 1
    if record.gap.isSome ∨ eventQueueLimit ≤ record.events.length then
      { record with sequence, events := [], gap := some sequence }
    else
      { record with
        sequence
        events := record.events ++ [⟨sequence, scope, revision, topic, provenance, target, payload⟩] }

end SubscriptionRecord

namespace ControlState

/-- `state.rs:343–360`: the first random identity that is not in use, unless the source fails
before it gives one. -/
def uniqueCapabilityId (s : ControlState V) (random : RandomIds) : Except RpcError String :=
  match random.ids.find? fun id ↦ !s.subscriptions.contains id with
  | some id => .ok id
  | none => .error ⟨-32603, "generate capability ID: " ++ random.failure, none⟩

/-- `state.rs:165–193`. -/
def createSubscription (s : ControlState V) (topics : List String) (scope : String)
    (random : RandomIds) : Except RpcError (SubscriptionBatch V) × ControlState V :=
  if maxSubscriptions ≤ s.subscriptions.size then
    (.error ⟨-32001, "subscription limit reached", none⟩, s)
  else
    match s.uniqueCapabilityId random with
    | .error error => (.error error, s)
    | .ok id =>
      (.ok ⟨id, scope, s.revisions scope, 0, []⟩,
        { s with subscriptions := s.subscriptions.insert id ⟨topics, scope, 0, 0, [], none⟩ })

/-- `state.rs:195–258`. -/
def pollSubscription (encodedLen : SubscriptionEvent V → Nat) (s : ControlState V)
    (subscription : String) (cursor : Nat) :
    Except RpcError (SubscriptionBatch V) × ControlState V :=
  match s.subscriptions[subscription]? with
  | none => (.error unknownSubscription, s)
  | some record =>
    let (result, record) := record.poll encodedLen subscription cursor
    let next := { s with subscriptions := s.subscriptions.insert subscription record }
    match result with
    | .error error => (.error error, next)
    | .ok events =>
      (.ok ⟨subscription, record.scope, s.revisions record.scope, record.cursor, events⟩, next)

/-- `state.rs:260–265`. -/
def unsubscribe (s : ControlState V) (subscription : String) :
    Except RpcError String × ControlState V :=
  match s.subscriptions[subscription]? with
  | none => (.error unknownSubscription, s)
  | some _ => (.ok subscription, { s with subscriptions := s.subscriptions.erase subscription })

/-- `state.rs:291–328`. -/
def publishEvent (s : ControlState V) (scope topic : String) (provenance target payload : V) :
    ControlState V :=
  let revision := (s.revisions scope + 1) % 2 ^ 64
  { subscriptions := s.subscriptions.map fun _ record ↦
      record.publish scope topic revision provenance target payload
    revisions := Function.update s.revisions scope revision }

end ControlState

/-! ### Records -/

namespace SubscriptionRecord

/-- A record and what has been published and received: up to a gap nothing is missing, and
behind it something is. -/
private structure Tracks (record : SubscriptionRecord V)
    (published received : List (SubscriptionEvent V)) : Prop where
  numbered : Numbered (·.sequence) 1 published
  cursor : record.cursor = received.length
  live : record.gap = none → record.sequence = published.length ∧
    published = received ++ record.events ∧ record.sequence ≤ maxU64
  behind : record.gap ≠ none → record.events = [] ∧ received <+: published ∧
    received.length < published.length

private theorem takeBatch_append (encodedLen : SubscriptionEvent V → Nat) (bytes : Nat)
    (events : List (SubscriptionEvent V)) :
    (takeBatch encodedLen bytes events).1 ++ (takeBatch encodedLen bytes events).2 = events := by
  induction events generalizing bytes with
  | nil => rfl
  | cons event events ih =>
    simp only [takeBatch]
    split
    · rfl
    · simp only [List.cons_append, ih]

/-- What a poll can do. -/
theorem poll_cases (encodedLen : SubscriptionEvent V → Nat) (record : SubscriptionRecord V)
    (subscription : String) (cursor : Nat) :
    ((record.gap ≠ none ∨ cursor ≠ record.cursor) ∧ ∃ sequence,
      record.poll encodedLen subscription cursor =
        (.error (rebaseError subscription record.scope record.cursor sequence), record)) ∨
    (record.gap = none ∧ cursor = record.cursor ∧ record.events ≠ [] ∧
      record.poll encodedLen subscription cursor =
        (.error (rebaseError subscription record.scope record.cursor record.sequence),
          { record with events := [], gap := some record.sequence })) ∨
    (record.gap = none ∧ cursor = record.cursor ∧ ∃ events rest, record.events = events ++ rest ∧
      (events = [] → rest = []) ∧
      record.poll encodedLen subscription cursor = (.ok events,
        { record with
          events := rest
          cursor := (events.getLast?.map (·.sequence)).getD record.cursor })) := by
  unfold poll
  split
  · next gap hgap => exact .inl ⟨.inl (by simp [hgap]), gap, rfl⟩
  · next hgap =>
    split
    · next hcursor => exact .inl ⟨.inr hcursor, record.sequence, rfl⟩
    · next hcursor =>
      rw [not_not] at hcursor
      have happend := takeBatch_append encodedLen 0 record.events
      simp only
      split
      · next hstuck =>
        simp only [Bool.and_eq_true, List.isEmpty_iff, Bool.not_eq_true', List.isEmpty_eq_false_iff]
          at hstuck
        refine .inr (.inl ⟨hgap, hcursor, ?_, rfl⟩)
        rw [← happend, hstuck.1]
        exact hstuck.2
      · next hfits =>
        simp only [Bool.and_eq_true, List.isEmpty_iff, Bool.not_eq_true', List.isEmpty_eq_false_iff,
          not_and, not_not] at hfits
        exact .inr (.inr ⟨hgap, hcursor, _, _, happend.symm, hfits, rfl⟩)

/-- What no operation changes of a record; a gap stays. -/
structure Frame (record next : SubscriptionRecord V) : Prop where
  scope : next.scope = record.scope
  topics : next.topics = record.topics
  gap : record.gap ≠ none → next.gap ≠ none

/-- What a publication keeps. -/
theorem publish_frame (record : SubscriptionRecord V) (scope topic : String)
    (revision : Nat) (provenance target payload : V) :
    Frame record (record.publish scope topic revision provenance target payload) := by
  unfold publish
  split
  · exact ⟨rfl, rfl, id⟩
  · split
    · exact ⟨rfl, rfl, by simp⟩
    · split
      · exact ⟨rfl, rfl, by simp⟩
      · exact ⟨rfl, rfl, id⟩

private theorem publish_cursor (record : SubscriptionRecord V) (scope topic : String)
    (revision : Nat) (provenance target payload : V) :
    (record.publish scope topic revision provenance target payload).cursor = record.cursor := by
  unfold publish
  split
  · rfl
  · split
    · rfl
    · split <;> rfl

/-- What a poll keeps. -/
theorem poll_frame (encodedLen : SubscriptionEvent V → Nat) (record : SubscriptionRecord V)
    (subscription : String) (cursor : Nat) :
    Frame record (record.poll encodedLen subscription cursor).2 := by
  obtain ⟨-, sequence, heq⟩ | ⟨-, -, -, heq⟩ | ⟨hgap, -, events, rest, -, -, heq⟩ :=
    poll_cases encodedLen record subscription cursor
  · rw [heq]
    exact ⟨rfl, rfl, id⟩
  · rw [heq]
    exact ⟨rfl, rfl, by simp⟩
  · rw [heq]
    exact ⟨rfl, rfl, id⟩

variable {published received : List (SubscriptionEvent V)}

private theorem Tracks.isPrefix {record : SubscriptionRecord V}
    (h : record.Tracks published received) :
    received <+: published := by
  cases hgap : record.gap with
  | none => exact ⟨record.events, (h.live hgap).2.1.symm⟩
  | some gap => exact (h.behind (by simp [hgap])).2.1

private theorem Tracks.lose {record : SubscriptionRecord V} (h : record.Tracks published received)
    {event : SubscriptionEvent V} (hevent : event.sequence = published.length + 1)
    (sequence gap : Nat) :
    Tracks { record with sequence, events := [], gap := some gap } (published ++ [event])
      received := by
  constructor
  · exact numbered_concat.mpr ⟨h.numbered, by omega⟩
  · exact h.cursor
  · exact fun hgap ↦ by cases hgap
  · intro _
    refine ⟨rfl, h.isPrefix.trans (List.prefix_append _ _), ?_⟩
    have hle := h.isPrefix.length_le
    rw [List.length_append, List.length_singleton]
    omega

private theorem Tracks.publish {record : SubscriptionRecord V}
    (h : record.Tracks published received) (scope topic : String) (revision : Nat)
    (provenance target payload : V) :
    (record.publish scope topic revision provenance target payload).Tracks
      (if scope = record.scope ∧ topic ∈ record.topics then
        published ++ [⟨published.length + 1, scope, revision, topic, provenance, target, payload⟩]
      else published) received := by
  unfold SubscriptionRecord.publish
  by_cases hmatches : scope = record.scope ∧ topic ∈ record.topics
  · have hopen : ¬ (record.scope ≠ scope ∨ topic ∉ record.topics) := by
      simp [hmatches.1, hmatches.2]
    rw [if_neg hopen, if_pos hmatches]
    split
    · exact h.lose rfl _ _
    · next hroom =>
      split
      · exact h.lose rfl _ _
      · next hqueue =>
        simp only [not_or, Bool.not_eq_true, Option.isSome_eq_false_iff, Option.isNone_iff_eq_none]
          at hqueue
        obtain ⟨hsequence, hpublished, hbound⟩ := h.live hqueue.1
        constructor
        · exact numbered_concat.mpr ⟨h.numbered, by simp only; omega⟩
        · exact h.cursor
        · intro _
          refine ⟨by simp [hsequence], ?_, by simp only; omega⟩
          simp only [hsequence, ← List.append_assoc]
          rw [← hpublished]
        · exact fun hgap ↦ absurd hqueue.1 hgap
  · have hskip : record.scope ≠ scope ∨ topic ∉ record.topics := by
      by_cases hscope : record.scope = scope
      · exact .inr fun htopic ↦ hmatches ⟨hscope.symm, htopic⟩
      · exact .inl hscope
    rw [if_pos hskip, if_neg hmatches]
    exact h

private theorem Tracks.poll {record : SubscriptionRecord V} (h : record.Tracks published received)
    (encodedLen : SubscriptionEvent V → Nat) (subscription : String) (cursor : Nat) :
    (∃ sequence, (record.poll encodedLen subscription cursor).1 =
        .error (rebaseError subscription record.scope record.cursor sequence) ∧
      (record.poll encodedLen subscription cursor).2.Tracks published received) ∨
    ∃ events, (record.poll encodedLen subscription cursor).1 = .ok events ∧
      cursor = record.cursor ∧
      (record.poll encodedLen subscription cursor).2.Tracks published (received ++ events) := by
  obtain ⟨-, sequence, heq⟩ | ⟨hgap, -, hevents, heq⟩ |
    ⟨hgap, hcursor, events, rest, hevents, -, heq⟩ := poll_cases encodedLen record subscription cursor
  · rw [heq]
    exact .inl ⟨sequence, rfl, h⟩
  · rw [heq]
    refine .inl ⟨record.sequence, rfl, h.numbered, h.cursor, fun hgap ↦ (by cases hgap), ?_⟩
    obtain ⟨-, hpublished, -⟩ := h.live hgap
    have hpos := List.length_pos_iff.mpr hevents
    refine fun _ ↦ ⟨rfl, h.isPrefix, ?_⟩
    rw [hpublished, List.length_append]
    omega
  · obtain ⟨hsequence, hpublished, hbound⟩ := h.live hgap
    rw [hevents, ← List.append_assoc] at hpublished
    have hreceived : Numbered (·.sequence) 1 (received ++ events) := by
      have hnumbered := h.numbered
      rw [hpublished] at hnumbered
      exact (numbered_append.mp hnumbered).1
    rw [heq]
    refine .inr ⟨events, rfl, hcursor, h.numbered, ?_, ?_, fun hnot ↦ absurd hgap hnot⟩
    · cases hlast : events.getLast? with
      | none =>
        rw [List.getLast?_eq_none_iff.mp hlast, List.append_nil]
        exact h.cursor
      | some last =>
        have hlast' : (received ++ events).getLast? = some last := by
          rw [List.getLast?_append, hlast]
          rfl
        have hnum := hreceived.getLast hlast'
        simp only [Option.map_some, Option.getD_some]
        omega
    · exact fun _ ↦ ⟨hsequence, hpublished, hbound⟩

end SubscriptionRecord

/-! ### What a subscriber observes -/

/-- What publishers and subscribers do. -/
inductive Op (V : Type) where
  | publish (scope topic : String) (provenance target payload : V)
  | poll (subscription : String) (cursor : Nat)
  | create (topics : List String) (scope : String) (random : RandomIds)
  | unsubscribe (subscription : String)

/-- The state, with the matching events published since the creation of a subscription, the
events its polls have delivered and the cursor they returned last. -/
structure Observed (V : Type) where
  state : ControlState V
  published : List (SubscriptionEvent V)
  received : List (SubscriptionEvent V)
  cursor : Nat

namespace Observed

variable (encodedLen : SubscriptionEvent V → Nat) (created : SubscriptionBatch V)
  (topics : List String)

/-- What an operation publishes for the subscription, and what it delivers to it. -/
def observe (o : Observed V) : Op V → Observed V
  | .publish scope topic provenance target payload =>
    { o with
      state := o.state.publishEvent scope topic provenance target payload
      published :=
        if scope = created.scope ∧ topic ∈ topics then
          o.published ++ [⟨o.published.length + 1, scope, (o.state.revisions scope + 1) % 2 ^ 64,
            topic, provenance, target, payload⟩]
        else o.published }
  | .poll subscription cursor =>
    match o.state.pollSubscription encodedLen subscription cursor with
    | (.ok batch, next) =>
      if subscription = created.subscription then
        { o with state := next, received := o.received ++ batch.events, cursor := batch.cursor }
      else { o with state := next }
    | (.error _, next) => { o with state := next }
  | .create topics scope random =>
    { o with state := (o.state.createSubscription topics scope random).2 }
  | .unsubscribe subscription => { o with state := (o.state.unsubscribe subscription).2 }

/-- A run of operations after the creation of the subscription. -/
def run (s : ControlState V) (history : List (Op V)) : Observed V :=
  history.foldl (observe encodedLen created topics) ⟨s, [], [], created.cursor⟩

/-- The events queued for the subscription. -/
def queued (o : Observed V) : List (SubscriptionEvent V) :=
  (o.state.subscriptions[created.subscription]?.map (·.events)).getD []

/-- A matching event is neither delivered nor queued. -/
def Dropped (o : Observed V) : Prop :=
  ∃ event ∈ o.published, event ∉ o.received ∧ event ∉ o.queued created

/-- A poll of the subscription is answered with a rebase error. -/
def Rebases (o : Observed V) (cursor : Nat) : Prop :=
  ∃ data : Rebase, data.subscription = created.subscription ∧ data.scope = created.scope ∧
    (o.state.pollSubscription encodedLen created.subscription cursor).1 =
      .error (rebaseError data.subscription data.scope data.cursor data.sequence)

/-- The record of the subscription, and that it says what the subscriber observes. -/
private structure Follows (record : SubscriptionRecord V) (o : Observed V) : Prop where
  lookup : o.state.subscriptions[created.subscription]? = some record
  scope : record.scope = created.scope
  topics : record.topics = topics
  tracks : record.Tracks o.published o.received
  cursor : o.cursor = record.cursor

variable {encodedLen created topics} {o : Observed V} {record : SubscriptionRecord V}

private theorem Follows.publish (h : Follows created topics record o) (scope topic : String)
    (provenance target payload : V) : ∃ record',
      Follows created topics record'
        (o.observe encodedLen created topics (.publish scope topic provenance target payload)) ∧
      (record.gap ≠ none → record'.gap ≠ none) := by
  have htracks := h.tracks.publish scope topic ((o.state.revisions scope + 1) % 2 ^ 64) provenance
    target payload
  rw [h.scope, h.topics] at htracks
  have hframe := record.publish_frame scope topic ((o.state.revisions scope + 1) % 2 ^ 64)
    provenance target payload
  refine ⟨_, ⟨?_, hframe.scope.trans h.scope, hframe.topics.trans h.topics, htracks, ?_⟩,
    hframe.gap⟩
  · simp only [observe, ControlState.publishEvent, Std.ExtTreeMap.getElem?_map, h.lookup,
      Option.map_some]
  · exact h.cursor.trans (record.publish_cursor ..).symm

private theorem Follows.of_lookup (h : Follows created topics record o) {state : ControlState V}
    (hlookup : state.subscriptions[created.subscription]? =
      o.state.subscriptions[created.subscription]?) :
    Follows created topics record { o with state } :=
  ⟨hlookup.trans h.lookup, h.scope, h.topics, h.tracks, h.cursor⟩

/-- What it keeps of other subscriptions. -/
theorem pollSubscription_lookup_ne (encodedLen : SubscriptionEvent V → Nat)
    (s : ControlState V) {subscription id : String} (hne : subscription ≠ id) (cursor : Nat) :
    (s.pollSubscription encodedLen subscription cursor).2.subscriptions[id]? =
      s.subscriptions[id]? := by
  unfold ControlState.pollSubscription
  split
  · rfl
  · simp only
    split <;> simp [Std.ExtTreeMap.getElem?_insert, hne]

/-- A poll of the subscription is one of its record. -/
theorem pollSubscription_eq (encodedLen : SubscriptionEvent V → Nat)
    {s : ControlState V} {id : String}
    (hlookup : s.subscriptions[id]? = some record) (cursor : Nat) :
    s.pollSubscription encodedLen id cursor =
      ((record.poll encodedLen id cursor).1.map fun events ↦
        ⟨id, (record.poll encodedLen id cursor).2.scope,
          s.revisions (record.poll encodedLen id cursor).2.scope,
          (record.poll encodedLen id cursor).2.cursor, events⟩,
        { s with subscriptions := s.subscriptions.insert id (record.poll encodedLen id cursor).2 }) := by
  simp only [ControlState.pollSubscription, hlookup]
  split
  · next heq => rw [heq]; rfl
  · next heq => rw [heq]; rfl

private theorem Follows.poll (h : Follows created topics record o)
    (encodedLen : SubscriptionEvent V → Nat) (subscription : String) (cursor : Nat) : ∃ record',
      Follows created topics record'
        (o.observe encodedLen created topics (.poll subscription cursor)) ∧
      (record.gap ≠ none → record'.gap ≠ none) := by
  by_cases hself : subscription = created.subscription
  · subst hself
    have hframe := record.poll_frame encodedLen created.subscription cursor
    have heq := pollSubscription_eq encodedLen h.lookup cursor
    refine ⟨_, ?_, hframe.gap⟩
    obtain ⟨sequence, herror, htracks⟩ | ⟨events, hok, -, htracks⟩ :=
      h.tracks.poll encodedLen created.subscription cursor
    · rw [herror] at heq
      simp only [observe, heq, Except.map]
      refine ⟨by simp, hframe.scope.trans h.scope, hframe.topics.trans h.topics, htracks, ?_⟩
      show o.cursor = _
      rw [h.cursor, h.tracks.cursor, htracks.cursor]
    · rw [hok] at heq
      simp only [observe, heq, Except.map, if_true]
      exact ⟨by simp, hframe.scope.trans h.scope, hframe.topics.trans h.topics, htracks, rfl⟩
  · refine ⟨record, ?_, id⟩
    have hlookup := pollSubscription_lookup_ne encodedLen o.state hself cursor
    simp only [observe]
    split
    · next batch next heq =>
      rw [if_neg hself]
      rw [heq] at hlookup
      exact h.of_lookup hlookup
    · next error next heq =>
      rw [heq] at hlookup
      exact h.of_lookup hlookup

private theorem Follows.create (h : Follows created topics record o) (others : List String)
    (scope : String) (random : RandomIds) : Follows created topics record
      (o.observe encodedLen created topics (.create others scope random)) := by
  apply h.of_lookup
  unfold ControlState.createSubscription ControlState.uniqueCapabilityId
  split
  · rfl
  · split
    · rfl
    · next id hid =>
      split at hid
      · next fresh hfresh =>
        obtain rfl := Except.ok.inj hid
        have hnew := List.find?_some hfresh
        have hne : fresh ≠ created.subscription := by
          rintro rfl
          simp [Std.ExtTreeMap.contains_eq_isSome_getElem?, h.lookup] at hnew
        simp [Std.ExtTreeMap.getElem?_insert, hne]
      · cases hid

private theorem Follows.unsubscribe (h : Follows created topics record o) {subscription : String}
    (hne : subscription ≠ created.subscription) : Follows created topics record
      (o.observe encodedLen created topics (.unsubscribe subscription)) := by
  apply h.of_lookup
  unfold ControlState.unsubscribe
  split
  · rfl
  · simp [Std.ExtTreeMap.getElem?_erase, hne]

private theorem Follows.observe (h : Follows created topics record o) {op : Op V}
    (hop : op ≠ .unsubscribe created.subscription) : ∃ record',
      Follows created topics record' (o.observe encodedLen created topics op) ∧
      (record.gap ≠ none → record'.gap ≠ none) := by
  cases op with
  | publish scope topic provenance target payload =>
    exact h.publish scope topic provenance target payload
  | poll subscription cursor => exact h.poll encodedLen subscription cursor
  | create others scope random => exact ⟨record, h.create others scope random, id⟩
  | unsubscribe subscription =>
    refine ⟨record, h.unsubscribe ?_, id⟩
    rintro rfl
    exact hop rfl

private theorem Follows.foldl (h : Follows created topics record o) {history : List (Op V)}
    (hkept : ∀ op ∈ history, op ≠ .unsubscribe created.subscription) : ∃ record',
      Follows created topics record' (history.foldl (Observed.observe encodedLen created topics) o) ∧
      (record.gap ≠ none → record'.gap ≠ none) := by
  induction history generalizing o record with
  | nil => exact ⟨record, h, id⟩
  | cons op history ih =>
    obtain ⟨next, hnext, hgap⟩ := h.observe (hkept op List.mem_cons_self)
    obtain ⟨last, hlast, hgap'⟩ := ih hnext fun op hop ↦ hkept op (List.mem_cons_of_mem _ hop)
    exact ⟨last, hlast, fun hlost ↦ hgap' (hgap hlost)⟩

private theorem Follows.dropped_iff (h : Follows created topics record o) :
    o.Dropped created ↔ record.gap ≠ none := by
  have hqueued : o.queued created = record.events := by simp [queued, h.lookup]
  constructor
  · rintro ⟨event, hpublished, hreceived, hnot⟩ hgap
    rw [(h.tracks.live hgap).2.1, List.mem_append] at hpublished
    exact hpublished.elim hreceived fun hevents ↦ hnot (hqueued ▸ hevents)
  · intro hgap
    obtain ⟨hempty, ⟨rest, hrest⟩, hshort⟩ := h.tracks.behind hgap
    cases rest with
    | nil => simp [← hrest] at hshort
    | cons event rest =>
      refine ⟨event, by simp [← hrest], fun hreceived ↦ ?_, by simp [hqueued, hempty]⟩
      -- The event comes after those received, so its number is higher than theirs.
      have hpairwise := h.tracks.numbered.pairwise
      rw [← hrest, List.pairwise_append] at hpairwise
      exact Nat.lt_irrefl _ (hpairwise.2.2 event hreceived event List.mem_cons_self)

private theorem Follows.rebases (h : Follows created topics record o) {cursor cursor' sequence : Nat}
    (herror : (record.poll encodedLen created.subscription cursor).1 =
      .error (rebaseError created.subscription record.scope cursor' sequence)) :
    o.Rebases encodedLen created cursor := by
  refine ⟨⟨created.subscription, record.scope, cursor', sequence⟩, rfl, h.scope, ?_⟩
  rw [pollSubscription_eq encodedLen h.lookup, herror]
  rfl

private theorem Follows.rebases_iff (h : Follows created topics record o) :
    o.Rebases encodedLen created o.cursor ↔
      (record.poll encodedLen created.subscription o.cursor).2.gap ≠ none := by
  obtain ⟨hstale, sequence, heq⟩ | ⟨-, -, -, heq⟩ | ⟨hgap, -, events, rest, -, -, heq⟩ :=
    record.poll_cases encodedLen created.subscription o.cursor
  · have hgap : record.gap ≠ none := hstale.resolve_right fun hne ↦ hne h.cursor
    rw [heq]
    exact ⟨fun _ ↦ hgap, fun _ ↦ h.rebases (by rw [heq])⟩
  · rw [heq]
    exact ⟨fun _ ↦ by simp, fun _ ↦ h.rebases (by rw [heq])⟩
  · constructor
    · rintro ⟨data, -, -, herror⟩
      rw [pollSubscription_eq encodedLen h.lookup, heq] at herror
      cases herror
    · rw [heq]
      exact fun hnot ↦ absurd hgap hnot

private theorem observe_poll_state (subscription : String) (cursor : Nat) :
    (o.observe encodedLen created topics (.poll subscription cursor)).state =
      (o.state.pollSubscription encodedLen subscription cursor).2 := by
  simp only [observe]
  split
  · next heq =>
    rw [heq]
    split <;> rfl
  · next heq => rw [heq]

private theorem Follows.dropped_poll_iff (h : Follows created topics record o) :
    (o.observe encodedLen created topics (.poll created.subscription o.cursor)).Dropped created ↔
      (record.poll encodedLen created.subscription o.cursor).2.gap ≠ none := by
  obtain ⟨next, hnext, -⟩ := h.poll encodedLen created.subscription o.cursor
  have hlookup := hnext.lookup
  rw [observe_poll_state, pollSubscription_eq encodedLen h.lookup,
    Std.ExtTreeMap.getElem?_insert_self] at hlookup
  obtain rfl := Option.some.inj hlookup
  exact hnext.dropped_iff

variable (encodedLen created topics) in
/-- What the subscriber can rely on. -/
structure Reliable (o : Observed V) : Prop where
  /-- Matching events have the numbers 1, 2, 3 and so on. -/
  numbered : Numbered (·.sequence) 1 o.published
  /-- What was delivered is what was published first, each event once and in order. -/
  received : o.received <+: o.published
  /-- The cursor returned last is the last number delivered. -/
  cursor : o.cursor = o.received.length
  /-- A poll with that cursor delivers what comes next and returns its last number; it is
  empty only if everything is delivered. -/
  next : ∀ batch,
    (o.state.pollSubscription encodedLen created.subscription o.cursor).1 = .ok batch →
      o.received ++ batch.events <+: o.published ∧
      batch.cursor = (o.received ++ batch.events).length ∧
      (batch.events = [] → o.received = o.published)
  /-- Any other answer to it is a rebase error. -/
  answered :
    (∃ batch, (o.state.pollSubscription encodedLen created.subscription o.cursor).1 = .ok batch) ∨
      o.Rebases encodedLen created o.cursor
  /-- The error is the answer exactly when an event has been dropped, at the latest here. -/
  rebases_iff : o.Rebases encodedLen created o.cursor ↔
    (o.observe encodedLen created topics (.poll created.subscription o.cursor)).Dropped created
  /-- A poll with another cursor is an error and changes nothing. -/
  stale : ∀ cursor, cursor ≠ o.cursor → o.Rebases encodedLen created cursor ∧
    (o.state.pollSubscription encodedLen created.subscription cursor).2 = o.state
  /-- Once an event has been dropped, every later poll is an error. -/
  dropped : o.Dropped created → ∀ later : List (Op V),
    (∀ op ∈ later, op ≠ .unsubscribe created.subscription) → ∀ cursor,
      (later.foldl (observe encodedLen created topics) o).Rebases encodedLen created cursor

private theorem Follows.next (h : Follows created topics record o) {batch : SubscriptionBatch V}
    (hbatch :
      (o.state.pollSubscription encodedLen created.subscription o.cursor).1 = .ok batch) :
    o.received ++ batch.events <+: o.published ∧
      batch.cursor = (o.received ++ batch.events).length ∧
      (batch.events = [] → o.received = o.published) := by
  rw [pollSubscription_eq encodedLen h.lookup] at hbatch
  obtain ⟨sequence, herror, -⟩ | ⟨events, hok, -, htracks⟩ :=
    h.tracks.poll encodedLen created.subscription o.cursor
  · rw [herror] at hbatch
    cases hbatch
  · rw [hok] at hbatch
    obtain rfl := Except.ok.inj hbatch
    refine ⟨htracks.isPrefix, htracks.cursor, ?_⟩
    rintro rfl
    obtain ⟨-, sequence, heq⟩ | ⟨-, -, -, heq⟩ | ⟨hgap, -, events, rest, hevents, hempty, heq⟩ :=
      record.poll_cases encodedLen created.subscription o.cursor
    · rw [heq] at hok
      cases hok
    · rw [heq] at hok
      cases hok
    · rw [heq] at hok
      obtain rfl := Except.ok.inj hok
      rw [hempty rfl, List.append_nil] at hevents
      rw [(h.tracks.live hgap).2.1, hevents, List.append_nil]

private theorem Follows.stale (h : Follows created topics record o) {cursor : Nat}
    (hcursor : cursor ≠ o.cursor) : o.Rebases encodedLen created cursor ∧
      (o.state.pollSubscription encodedLen created.subscription cursor).2 = o.state := by
  rw [h.cursor] at hcursor
  obtain ⟨-, sequence, heq⟩ | ⟨-, hcurrent, -⟩ | ⟨-, hcurrent, -⟩ :=
    record.poll_cases encodedLen created.subscription cursor
  · refine ⟨h.rebases (by rw [heq]), ?_⟩
    rw [pollSubscription_eq encodedLen h.lookup, heq]
    have hsame : o.state.subscriptions.insert created.subscription record =
        o.state.subscriptions := by
      apply Std.ExtTreeMap.ext_getElem?
      intro id
      rw [Std.ExtTreeMap.getElem?_insert]
      split
      · next hid => rw [← Std.LawfulEqOrd.eq_of_compare hid, h.lookup]
      · rfl
    simp only [hsame]
  · exact absurd hcurrent hcursor
  · exact absurd hcurrent hcursor

private theorem Follows.rebases_of_gap (h : Follows created topics record o)
    (hgap : record.gap ≠ none) (cursor : Nat) : o.Rebases encodedLen created cursor := by
  obtain ⟨-, sequence, heq⟩ | ⟨hnone, -⟩ | ⟨hnone, -⟩ :=
    record.poll_cases encodedLen created.subscription cursor
  · exact h.rebases (by rw [heq])
  · exact absurd hnone hgap
  · exact absurd hnone hgap

private theorem Follows.reliable (h : Follows created topics record o) :
    o.Reliable encodedLen created topics := by
  constructor
  · exact h.tracks.numbered
  · exact h.tracks.isPrefix
  · exact h.cursor.trans h.tracks.cursor
  · exact fun batch hbatch ↦ h.next hbatch
  · obtain ⟨sequence, herror, -⟩ | ⟨events, hok, -⟩ :=
      h.tracks.poll encodedLen created.subscription o.cursor
    · exact .inr (h.rebases herror)
    · rw [pollSubscription_eq encodedLen h.lookup, hok]
      exact .inl ⟨_, rfl⟩
  · rw [h.rebases_iff, h.dropped_poll_iff]
  · exact fun cursor hcursor ↦ h.stale hcursor
  · intro hdropped later hkept cursor
    obtain ⟨last, hlast, hgap⟩ := h.foldl hkept
    exact hlast.rebases_of_gap (hgap (h.dropped_iff.mp hdropped)) cursor

private theorem follows_created {s s' : ControlState V} {scope : String} {random : RandomIds}
    (h : s.createSubscription topics scope random = (.ok created, s')) :
    Follows created topics ⟨topics, scope, 0, 0, [], none⟩ ⟨s', [], [], created.cursor⟩ := by
  unfold ControlState.createSubscription at h
  split at h
  · cases h
  · split at h
    · cases h
    · obtain ⟨hcreated, rfl⟩ := Prod.mk.inj h
      obtain rfl := Except.ok.inj hcreated
      refine ⟨by simp, rfl, rfl, ⟨numbered_nil, rfl, fun _ ↦ ⟨rfl, rfl, Nat.zero_le _⟩, ?_⟩, rfl⟩
      exact fun hgap ↦ absurd rfl hgap

/-- A subscription delivers every event once and in order, or says that it does not. -/
theorem subscription_delivers_once_in_order (encodedLen : SubscriptionEvent V → Nat)
    {s s' : ControlState V} {topics : List String} {scope : String} {random : RandomIds}
    {created : SubscriptionBatch V}
    (hcreated : s.createSubscription topics scope random = (.ok created, s'))
    {history : List (Op V)} (hkept : ∀ op ∈ history, op ≠ .unsubscribe created.subscription) :
    (run encodedLen created topics s' history).Reliable encodedLen created topics := by
  obtain ⟨record, hrecord, -⟩ := (follows_created hcreated).foldl hkept
  exact hrecord.reliable

private def noSubscriptions : ControlState Nat := ⟨∅, fun _ ↦ 0⟩

private def first : SubscriptionBatch Nat := ⟨"subscription-1", "window-1", 0, 0, []⟩

/-- Two matching events are published, and a third one on another topic. -/
private def threeEvents : List (Op Nat) :=
  [.publish "window-1" "title" 0 0 7, .publish "window-1" "bell" 0 0 8,
    .poll "subscription-1" 0, .publish "window-1" "title" 0 0 9, .poll "subscription-1" 1]

/-- Both matching events have been delivered. -/
theorem subscription_delivers_once_in_order_two :
    ∃ s', noSubscriptions.createSubscription ["title"] "window-1" ⟨["subscription-1"], ""⟩ =
        (.ok first, s') ∧
      (run (fun _ ↦ 100) first ["title"] s' threeEvents).received.map (·.payload) = [7, 9] ∧
      (run (fun _ ↦ 100) first ["title"] s' threeEvents).Reliable (fun _ ↦ 100) first ["title"] := by
  have hcreated : noSubscriptions.createSubscription ["title"] "window-1" ⟨["subscription-1"], ""⟩ =
      (.ok first, (noSubscriptions.createSubscription ["title"] "window-1"
        ⟨["subscription-1"], ""⟩).2) := rfl
  have hkept : ∀ op ∈ threeEvents, op ≠ .unsubscribe first.subscription := by
    simp [threeEvents]
  refine ⟨_, hcreated, ?_, subscription_delivers_once_in_order _ hcreated hkept⟩
  decide +kernel

end Observed
end Bootty.Control
