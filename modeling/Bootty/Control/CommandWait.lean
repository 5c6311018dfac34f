import Bootty.Base.Machine
import Bootty.Control.Subscriptions

/-!
# Waiting for a command's value

Model of `wait_for_command` (`crates/bootty-control/src/wait.rs:102–190`) and of the server's side
of its requests (`crates/bootty-control/src/server.rs:547–581`). A client reads the value of a
command, and reads it again only after an event that may have changed it. Events are wakeups: what
they say is not looked at, apart from the completions of the client's own command. The target of
the command is resolved; JSON values are of any type.
-/

namespace Bootty.Control

open Bootty.Base

/-- What the client waits for. -/
structure WaitRequest (V : Type) where
  command : String
  topics : List String
  pointer : String
  expected : V

/-- `WaitOutcome`, and an error. -/
inductive WaitOutcome (V : Type) where
  | matched (value : V)
  | timedOut (value : Option V)
  | cancelled (value : Option V)
  | failed

/-- Where the client stands: in its loop before and after the read of a snapshot, or in a request
of the server, which has a receiver of changes that has seen a version. -/
inductive WaitPhase (V : Type) where
  | subscribing
  | looping
  | requesting
  | marked (seen : Nat)
  | asleep (seen cursor : Nat)
  | finished (outcome : WaitOutcome V)

/-- The variables of `wait_for_command`. -/
structure Waiter (V : Type) where
  phase : WaitPhase V
  subscription : String
  cursor : Nat
  snapshot : Option V
  refresh : Bool

/-- The request, the scope of the instance, and what is asked of JSON values and of the
application. -/
structure WaitEnv (W V : Type) where
  request : WaitRequest V
  scope : String
  encodedLen : SubscriptionEvent V → Nat
  pointer : V → String → Option V
  asStr : V → Option String
  /-- What the command returns, which only reads. -/
  value : W → V

/-- The server, the application and the client. The last two fields are not in the code: whether
the application has changed since the client read and since the last event that tells it to read,
and whether there has been such an event since it read. -/
structure WaitSystem (W V : Type) where
  control : ControlState V
  version : Nat
  app : W
  waiter : Waiter V
  unannounced : Bool
  stale : Bool

/-- What happens while the client waits. -/
inductive WaitEvent (W V : Type) where
  | change (app : W)
  | publish (scope topic : String) (provenance target payload : V)
  /-- Requests of other clients. -/
  | create (topics : List String) (scope : String) (random : RandomIds)
  | poll (subscription : String) (cursor : Nat)
  | unsubscribe (subscription : String)
  /-- The steps of the client and of its requests. -/
  | subscribe (random : RandomIds)
  | read
  | skip
  | mark
  | pollOwn
  | wake
  | timeout
  | expire
  | cancel
  | fail

variable {W V : Type}

namespace WaitPhase

/-- The client has a subscription and has not ended. -/
def Holds : WaitPhase V → Prop
  | .subscribing | .finished _ => False
  | .looping | .requesting | .marked _ | .asleep _ _ => True

/-- Whether the subscription is held is decidable. -/
instance : DecidablePred (Holds (V := V))
  | .subscribing | .finished _ => inferInstanceAs (Decidable False)
  | .looping | .requesting | .marked _ | .asleep _ _ => inferInstanceAs (Decidable True)

/-- The client has read, and will not read again before it has heard of an event. -/
def Reads (refresh : Bool) : WaitPhase V → Prop
  | .subscribing | .finished _ => False
  | .looping => refresh = false
  | .requesting | .marked _ | .asleep _ _ => True

private theorem Reads.holds {phase : WaitPhase V} {refresh : Bool} (h : phase.Reads refresh) :
    phase.Holds := by
  cases phase with
  | subscribing => exact h
  | finished _ => exact h
  | looping => trivial
  | requesting => trivial
  | marked _ => trivial
  | asleep _ _ => trivial

end WaitPhase

namespace WaitEnv

variable (env : WaitEnv W V)

/-- Whether an event makes the client read again, `wait.rs:184–188`. -/
def refreshes (topic : String) (payload : V) : Bool :=
  topic ≠ "command.completed" ||
    (env.pointer payload "/command").bind env.asStr ≠ some env.request.command

/-- An event tells the client to read. -/
def Announces (scope topic : String) (payload : V) : Prop :=
  scope = env.scope ∧ topic ∈ env.request.topics ∧ env.refreshes topic payload = true

/-- Whether an event announces the value is decidable. -/
instance (scope topic : String) (payload : V) : Decidable (env.Announces scope topic payload) :=
  inferInstanceAs (Decidable (_ ∧ _ ∧ _))

/-- The condition holds of a value, `wait.rs:135`. -/
def Met (value : V) : Prop := env.pointer value env.request.pointer = some env.request.expected

/-- Whether the value is met is decidable. -/
instance [DecidableEq V] (value : V) : Decidable (env.Met value) :=
  inferInstanceAs (Decidable (_ = _))

end WaitEnv

namespace Waiter

/-- The wait ends. -/
def finish (w : Waiter V) (outcome : WaitOutcome V) : Waiter V :=
  { w with phase := .finished outcome }

/-- The client has the subscription of this identity. -/
def Owns (w : Waiter V) (id : String) : Prop := w.phase.Holds ∧ w.subscription = id

/-- Whether a subscription is the waiter's is decidable. -/
instance (w : Waiter V) (id : String) : Decidable (w.Owns id) :=
  inferInstanceAs (Decidable (_ ∧ _))

end Waiter

namespace WaitSystem

variable (env : WaitEnv W V)

/-- The end of a request with the events of a poll, `wait.rs:175–189`. -/
def respond (s : WaitSystem W V) (batch : SubscriptionBatch V) : Waiter V :=
  { s.waiter with
    phase := .looping
    cursor := batch.cursor
    refresh := batch.events.any fun event ↦ env.refreshes event.topic event.payload }

/-- One atomic step; `none` when the client is elsewhere. An identity is known only to the client
that was given it. -/
def step [DecidableEq V] (s : WaitSystem W V) : WaitEvent W V → Option (WaitSystem W V)
  | .change app => some { s with app, unannounced := true }
  | .publish scope topic provenance target payload =>
    some { s with
      control := s.control.publishEvent scope topic provenance target payload
      version := s.version + 1
      unannounced := s.unannounced && !decide (env.Announces scope topic payload)
      stale := s.stale || decide (env.Announces scope topic payload) }
  | .create topics scope random =>
    some { s with control := (s.control.createSubscription topics scope random).2 }
  | .poll subscription cursor =>
    if s.waiter.Owns subscription then none
    else some { s with control := (s.control.pollSubscription env.encodedLen subscription cursor).2 }
  | .unsubscribe subscription =>
    if s.waiter.Owns subscription then none
    else
      match s.control.unsubscribe subscription with
      | (.ok _, control) => some { s with control, version := s.version + 1 }
      | (.error _, control) => some { s with control }
  | .subscribe random =>
    match s.waiter.phase with
    | .subscribing =>
      match s.control.createSubscription env.request.topics env.scope random with
      | (.ok batch, control) =>
        some { s with
          control
          waiter := ⟨.looping, batch.subscription, 0, s.waiter.snapshot, true⟩ }
      | (.error _, control) => some { s with control, waiter := s.waiter.finish .failed }
    | _ => none
  | .read =>
    match s.waiter.phase with
    | .looping =>
      if s.waiter.refresh then
        let value := env.value s.app
        if env.Met value then some { s with waiter := s.waiter.finish (.matched value) }
        else
          some { s with
            waiter := { s.waiter with phase := .requesting, snapshot := some value }
            unannounced := false
            stale := false }
      else none
    | _ => none
  | .skip =>
    match s.waiter.phase with
    | .looping =>
      if s.waiter.refresh then none
      else some { s with waiter := { s.waiter with phase := .requesting } }
    | _ => none
  | .mark =>
    match s.waiter.phase with
    | .requesting => some { s with waiter := { s.waiter with phase := .marked s.version } }
    | _ => none
  | .pollOwn =>
    match s.waiter.phase with
    | .marked seen =>
      match s.control.pollSubscription env.encodedLen s.waiter.subscription s.waiter.cursor with
      | (.ok batch, control) =>
        if batch.events.isEmpty then
          some { s with control, waiter := { s.waiter with phase := .asleep seen batch.cursor } }
        else some { s with control, waiter := s.respond env batch }
      | (.error error, control) =>
        -- the client drops its subscription and makes another one
        if error.code = -32005 then
          some { s with control, waiter := { s.waiter with phase := .subscribing } }
        else some { s with control, waiter := s.waiter.finish .failed }
    | _ => none
  | .wake =>
    match s.waiter.phase with
    | .asleep seen _ =>
      if seen = s.version then none
      else some { s with waiter := { s.waiter with phase := .marked s.version } }
    | _ => none
  | .timeout =>
    match s.waiter.phase with
    | .asleep _ cursor =>
      some { s with waiter := { s.waiter with phase := .looping, cursor, refresh := false } }
    | _ => none
  | .expire =>
    match s.waiter.phase with
    | .finished _ => none
    | _ => some { s with waiter := s.waiter.finish (.timedOut s.waiter.snapshot) }
  | .cancel =>
    match s.waiter.phase with
    | .finished _ => none
    | _ => some { s with waiter := s.waiter.finish (.cancelled s.waiter.snapshot) }
  | .fail =>
    match s.waiter.phase with
    | .finished _ => none
    | _ => some { s with waiter := s.waiter.finish .failed }

/-- The call of `wait_for_command`. -/
def new (control : ControlState V) (version : Nat) (app : W) : WaitSystem W V :=
  ⟨control, version, app, ⟨.subscribing, "", 0, none, true⟩, false, false⟩

/-! ### What the client is still to hear of -/

variable {env}

/-- The subscription has an event that makes the client read, or an error for it. -/
def Owes (env : WaitEnv W V) (record : SubscriptionRecord V) : Prop :=
  record.gap ≠ none ∨
    ∃ event ∈ record.events, env.refreshes event.topic event.payload = true

/-- The record of the client's subscription. -/
structure Held (env : WaitEnv W V) (s : WaitSystem W V) (record : SubscriptionRecord V) :
    Prop where
  lookup : s.control.subscriptions[s.waiter.subscription]? = some record
  scope : record.scope = env.scope
  topics : record.topics = env.request.topics

/-- What holds of the client in every state. -/
structure Sound (env : WaitEnv W V) (s : WaitSystem W V) : Prop where
  /-- The condition failed of the value that was read last. -/
  unmet : ∀ value, s.waiter.snapshot = some value → ¬env.Met value
  held : s.waiter.phase.Holds → ∃ record, s.Held env record
  /-- A value that is not the current one is followed by an event. -/
  current : s.waiter.phase.Reads s.waiter.refresh → s.stale = true ∨ s.unannounced = true ∨
    s.waiter.snapshot = some (env.value s.app)
  /-- The event is not lost. -/
  owed : s.waiter.phase.Reads s.waiter.refresh → s.stale = true →
    ∀ record, s.Held env record → Owes env record
  /-- Before a version that the receiver has not seen, there was nothing to hear of. -/
  quiet : ∀ seen cursor, s.waiter.phase = .asleep seen cursor → seen ≤ s.version ∧
    (seen = s.version → ∀ record, s.Held env record → record.events = [] ∧ record.gap = none)
  marked : ∀ seen, s.waiter.phase = .marked seen → seen ≤ s.version

private theorem sound_new (control : ControlState V) (version : Nat) (app : W) :
    Sound env (new control version app) where
  unmet _ h := by cases h
  held h := h.elim
  current h := h.elim
  owed h := h.elim
  quiet _ _ h := by cases h
  marked _ h := by cases h

variable {s : WaitSystem W V} {record : SubscriptionRecord V}

private theorem Held.unique {record' : SubscriptionRecord V} (h : s.Held env record)
    (h' : s.Held env record') : record = record' :=
  Option.some.inj (h.lookup.symm.trans h'.lookup)

private theorem not_owes_of_quiet (hevents : record.events = []) (hgap : record.gap = none) :
    ¬Owes env record := by
  rintro (hnot | ⟨event, hmem, -⟩)
  · exact hnot hgap
  · rw [hevents] at hmem
    cases hmem

/-- An event that tells the client to read is queued for it, or leaves a gap. -/
theorem owes_publish {scope topic : String} {payload : V} (hscope : record.scope = env.scope)
    (htopics : record.topics = env.request.topics) (h : env.Announces scope topic payload)
    (revision : Nat) (provenance target : V) :
    Owes env (record.publish scope topic revision provenance target payload) := by
  obtain ⟨hsame, htopic, hrefreshes⟩ := h
  have hmatches : ¬(record.scope ≠ scope ∨ topic ∉ record.topics) := by
    rw [hscope, htopics, hsame]
    simp [htopic]
  rw [SubscriptionRecord.publish, if_neg hmatches]
  split
  · exact .inl (by simp)
  · split
    · exact .inl (by simp)
    · refine .inr ⟨_, List.mem_append_right _ (List.mem_singleton_self _), hrefreshes⟩

/-- What a subscription owes stays owed while others act. -/
theorem Owes.publish (h : Owes env record) (scope topic : String) (revision : Nat)
    (provenance target payload : V) :
    Owes env (record.publish scope topic revision provenance target payload) := by
  unfold SubscriptionRecord.publish
  split
  · exact h
  · split
    · exact .inl (by simp)
    · split
      · exact .inl (by simp)
      · obtain hgap | ⟨event, hmem, hrefreshes⟩ := h
        · exact .inl hgap
        · exact .inr ⟨event, List.mem_append_left _ hmem, hrefreshes⟩

variable {control : ControlState V}

private theorem lookup_publish {id : String} (h : control.subscriptions[id]? = some record)
    (scope topic : String) (provenance target payload : V) :
    (control.publishEvent scope topic provenance target payload).subscriptions[id]? =
      some (record.publish scope topic ((control.revisions scope + 1) % 2 ^ 64) provenance target
        payload) := by
  simp only [ControlState.publishEvent, Std.ExtTreeMap.getElem?_map, h, Option.map_some]

private theorem lookup_create {id : String} (h : control.subscriptions[id]? = some record)
    (topics : List String) (scope : String) (random : RandomIds) :
    (control.createSubscription topics scope random).2.subscriptions[id]? = some record := by
  unfold ControlState.createSubscription ControlState.uniqueCapabilityId
  split
  · exact h
  · split
    · exact h
    · next fresh hfresh =>
      split at hfresh
      · next found hfound =>
        obtain rfl := Except.ok.inj hfresh
        have hnew := List.find?_some hfound
        have hne : found ≠ id := by
          rintro rfl
          simp [Std.ExtTreeMap.contains_eq_isSome_getElem?, h] at hnew
        simp [Std.ExtTreeMap.getElem?_insert, hne, h]
      · cases hfresh

private theorem lookup_unsubscribe {id subscription : String} (hne : subscription ≠ id) :
    (control.unsubscribe subscription).2.subscriptions[id]? = control.subscriptions[id]? := by
  unfold ControlState.unsubscribe
  split
  · rfl
  · simp [Std.ExtTreeMap.getElem?_erase, hne]

/-- The new subscription is the client's. -/
theorem lookup_created {control' : ControlState V} {topics : List String} {scope : String}
    {random : RandomIds} {batch : SubscriptionBatch V}
    (h : control.createSubscription topics scope random = (.ok batch, control')) :
    control'.subscriptions[batch.subscription]? = some ⟨topics, scope, 0, 0, [], none⟩ := by
  unfold ControlState.createSubscription at h
  split at h
  · cases h
  · split at h
    · cases h
    · obtain ⟨hbatch, rfl⟩ := Prod.mk.inj h
      obtain rfl := Except.ok.inj hbatch
      simp

/-! ### Steps -/

/-- Others leave the client's subscription as it is. -/
theorem Sound.others (h : Sound env s) {version : Nat}
    (hkeeps : s.waiter.phase.Holds → ∀ record, s.Held env record →
      control.subscriptions[s.waiter.subscription]? = some record) (hle : s.version ≤ version) :
    Sound env { s with control, version } := by
  have hback : s.waiter.phase.Holds → ∀ record,
      Held env { s with control, version } record → s.Held env record := by
    intro hholds record hheld
    obtain ⟨before, hbefore⟩ := h.held hholds
    have hsame := (hkeeps hholds before hbefore).symm.trans hheld.lookup
    exact Option.some.inj hsame ▸ hbefore
  constructor
  · exact h.unmet
  · intro hholds
    obtain ⟨record, hheld⟩ := h.held hholds
    exact ⟨record, hkeeps hholds record hheld, hheld.scope, hheld.topics⟩
  · exact h.current
  · intro hreads hstale record hheld
    exact h.owed hreads hstale record (hback hreads.holds record hheld)
  · intro seen cursor hphase
    obtain ⟨hseen, hquiet⟩ := h.quiet seen cursor hphase
    refine ⟨hseen.trans hle, fun heq record hheld ↦ ?_⟩
    have hholds : s.waiter.phase.Holds := by
      rw [hphase]
      trivial
    exact hquiet (by simp only at heq; omega) record (hback hholds record hheld)
  · exact fun seen hphase ↦ (h.marked seen hphase).trans hle

private theorem Sound.change (h : Sound env s) (app : W) :
    Sound env { s with app, unannounced := true } := by
  have hback : ∀ record, Held env { s with app, unannounced := true } record →
      s.Held env record :=
    fun _ hheld ↦ ⟨hheld.lookup, hheld.scope, hheld.topics⟩
  constructor
  · exact h.unmet
  · intro hholds
    obtain ⟨record, hheld⟩ := h.held hholds
    exact ⟨record, hheld.lookup, hheld.scope, hheld.topics⟩
  · exact fun _ ↦ .inr (.inl rfl)
  · exact fun hreads hstale record hheld ↦ h.owed hreads hstale record (hback record hheld)
  · intro seen cursor hphase
    obtain ⟨hseen, hquiet⟩ := h.quiet seen cursor hphase
    exact ⟨hseen, fun heq record hheld ↦ hquiet heq record (hback record hheld)⟩
  · exact h.marked

private theorem Sound.publish (h : Sound env s) (scope topic : String)
    (provenance target payload : V) :
    Sound env { s with
      control := s.control.publishEvent scope topic provenance target payload
      version := s.version + 1
      unannounced := s.unannounced && !decide (env.Announces scope topic payload)
      stale := s.stale || decide (env.Announces scope topic payload) } := by
  have hnext : ∀ record, s.Held env record →
      (s.control.publishEvent scope topic provenance target payload).subscriptions[
        s.waiter.subscription]? = some (record.publish scope topic
          ((s.control.revisions scope + 1) % 2 ^ 64) provenance target payload) :=
    fun record hheld ↦ lookup_publish hheld.lookup scope topic provenance target payload
  constructor
  · exact h.unmet
  · intro hholds
    obtain ⟨record, hheld⟩ := h.held hholds
    have hframe := SubscriptionRecord.publish_frame record scope topic ((s.control.revisions scope + 1) % 2 ^ 64)
      provenance target payload
    exact ⟨_, hnext record hheld, hframe.scope.trans hheld.scope,
      hframe.topics.trans hheld.topics⟩
  · intro hreads
    by_cases hannounces : env.Announces scope topic payload
    · exact .inl (by simp [hannounces])
    · simpa [hannounces] using h.current hreads
  · intro hreads hstale record hheld
    obtain ⟨before, hbefore⟩ := h.held hreads.holds
    have hsame := (hnext before hbefore).symm.trans hheld.lookup
    obtain rfl := Option.some.inj hsame
    by_cases hannounces : env.Announces scope topic payload
    · exact owes_publish hbefore.scope hbefore.topics hannounces _ _ _
    · rw [decide_eq_false hannounces, Bool.or_false] at hstale
      exact (h.owed hreads hstale before hbefore).publish _ _ _ _ _ _
  · intro seen cursor hphase
    have hseen := (h.quiet seen cursor hphase).1
    refine ⟨Nat.le_succ_of_le hseen, fun heq ↦ ?_⟩
    simp only at heq
    omega
  · exact fun seen hphase ↦ Nat.le_succ_of_le (h.marked seen hphase)

/-- The end of the wait. -/
theorem Sound.finish (h : Sound env s) (control : ControlState V) (outcome : WaitOutcome V) :
    Sound env { s with control, waiter := s.waiter.finish outcome } where
  unmet := h.unmet
  held hholds := hholds.elim
  current hreads := hreads.elim
  owed hreads := hreads.elim
  quiet _ _ hphase := by cases hphase
  marked _ hphase := by cases hphase

/-- The client goes on in a phase in which it does not sleep. -/
theorem Sound.goOn (h : Sound env s) {waiter : Waiter V}
    (hsnapshot : waiter.snapshot = s.waiter.snapshot)
    (hsubscription : waiter.subscription = s.waiter.subscription) (hholds : s.waiter.phase.Holds)
    (hawake : ∀ seen cursor, waiter.phase ≠ .asleep seen cursor)
    (hreads : waiter.phase.Reads waiter.refresh → s.waiter.phase.Reads s.waiter.refresh)
    (hmarked : ∀ seen, waiter.phase = .marked seen → seen ≤ s.version) :
    Sound env { s with waiter } := by
  have hsame : ∀ record, Held env { s with waiter } record ↔ s.Held env record := by
    intro record
    constructor
    · exact fun hheld ↦ ⟨hsubscription ▸ hheld.lookup, hheld.scope, hheld.topics⟩
    · exact fun hheld ↦ ⟨hsubscription.symm ▸ hheld.lookup, hheld.scope, hheld.topics⟩
  constructor
  · intro value hvalue
    exact h.unmet value (hsnapshot ▸ hvalue)
  · intro _
    obtain ⟨record, hheld⟩ := h.held hholds
    exact ⟨record, (hsame record).mpr hheld⟩
  · intro hnow
    have hcurrent := h.current (hreads hnow)
    rw [← hsnapshot] at hcurrent
    exact hcurrent
  · intro hnow hstale record hheld
    exact h.owed (hreads hnow) hstale record ((hsame record).mp hheld)
  · exact fun seen cursor hphase ↦ absurd hphase (hawake seen cursor)
  · exact hmarked

/-- The poll of a request: what it delivers makes the client read if an event was owed. -/
theorem Sound.pollOwn {s' : WaitSystem W V} (h : Sound env s) {seen : Nat}
    (hphase : s.waiter.phase = .marked seen)
    (hstep : (match s.control.pollSubscription env.encodedLen s.waiter.subscription
        s.waiter.cursor with
      | (.ok batch, control) =>
        if batch.events.isEmpty then
          some { s with control, waiter := { s.waiter with phase := .asleep seen batch.cursor } }
        else some { s with control, waiter := s.respond env batch }
      | (.error error, control) =>
        if error.code = -32005 then
          some { s with control, waiter := { s.waiter with phase := .subscribing } }
        else some { s with control, waiter := s.waiter.finish .failed }) = some s') :
    Sound env s' := by
  have hreads : s.waiter.phase.Reads s.waiter.refresh := by
    rw [hphase]
    trivial
  obtain ⟨record, hheld⟩ := h.held hreads.holds
  have hframe := SubscriptionRecord.poll_frame env.encodedLen record s.waiter.subscription
    s.waiter.cursor
  rw [Observed.pollSubscription_eq env.encodedLen hheld.lookup] at hstep
  have hnext : ∀ waiter : Waiter V, waiter.subscription = s.waiter.subscription →
      Held env { s with
        control := { s.control with
          subscriptions := s.control.subscriptions.insert s.waiter.subscription
            (record.poll env.encodedLen s.waiter.subscription s.waiter.cursor).2 }
        waiter } (record.poll env.encodedLen s.waiter.subscription s.waiter.cursor).2 := by
    intro waiter hsame
    exact ⟨by simp [hsame], hframe.scope.trans hheld.scope, hframe.topics.trans hheld.topics⟩
  obtain ⟨-, sequence, heq⟩ | ⟨-, -, -, heq⟩ | ⟨hgap, -, events, rest, hevents, hempty, heq⟩ :=
    record.poll_cases env.encodedLen s.waiter.subscription s.waiter.cursor
  · rw [heq] at hstep
    obtain rfl := Option.some.inj hstep
    exact ⟨h.unmet, fun hholds ↦ hholds.elim, fun hnow ↦ hnow.elim, fun hnow ↦ hnow.elim,
      fun _ _ hasleep ↦ (by cases hasleep), fun _ hmarked ↦ by cases hmarked⟩
  · rw [heq] at hstep
    obtain rfl := Option.some.inj hstep
    exact ⟨h.unmet, fun hholds ↦ hholds.elim, fun hnow ↦ hnow.elim, fun hnow ↦ hnow.elim,
      fun _ _ hasleep ↦ (by cases hasleep), fun _ hmarked ↦ by cases hmarked⟩
  · rw [heq] at hstep hnext
    simp only [Except.map] at hstep
    split at hstep
    · next hnothing =>
      obtain rfl := Option.some.inj hstep
      rw [List.isEmpty_iff] at hnothing
      have hheld' := fun cursor ↦ hnext { s.waiter with phase := .asleep seen cursor } rfl
      constructor
      · exact h.unmet
      · exact fun _ ↦ ⟨_, hheld' _⟩
      · exact fun _ ↦ h.current hreads
      · intro _ hstale record' hrecord'
        -- nothing was queued, so nothing was owed
        refine absurd (h.owed hreads hstale record hheld) (not_owes_of_quiet ?_ hgap)
        rw [hevents, hnothing, hempty hnothing]
        rfl
      · intro seen' cursor' hasleep
        obtain ⟨rfl, -⟩ := WaitPhase.asleep.inj hasleep
        refine ⟨h.marked _ hphase, fun _ record' hrecord' ↦ ?_⟩
        obtain rfl := (hheld' _).unique hrecord'
        exact ⟨hempty hnothing, hgap⟩
      · exact fun _ hmarked ↦ by cases hmarked
    · obtain rfl := Option.some.inj hstep
      have hheld' := fun batch ↦ hnext (s.respond env batch) rfl
      constructor
      · exact h.unmet
      · exact fun _ ↦ ⟨_, hheld' _⟩
      · exact fun _ ↦ h.current hreads
      · intro hnow hstale record' hrecord'
        obtain rfl := (hheld' _).unique hrecord'
        have hnot : events.any (fun event ↦ env.refreshes event.topic event.payload) = false :=
          hnow
        obtain howed | ⟨event, hmem, hrefreshes⟩ := h.owed hreads hstale record hheld
        · exact absurd hgap howed
        · rw [hevents, List.mem_append] at hmem
          rcases hmem with hmem | hmem
          · rw [List.any_eq_false] at hnot
            exact absurd hrefreshes (hnot event hmem)
          · exact .inr ⟨event, hmem, hrefreshes⟩
      · exact fun _ _ hasleep ↦ by cases hasleep
      · exact fun _ hmarked ↦ by cases hmarked

variable [DecidableEq V]

private theorem sound_step {s' : WaitSystem W V} {e : WaitEvent W V} (h : Sound env s)
    (hstep : s.step env e = some s') : Sound env s' := by
  cases e with
  | change app =>
    obtain rfl := Option.some.inj hstep
    exact h.change app
  | publish scope topic provenance target payload =>
    obtain rfl := Option.some.inj hstep
    exact h.publish scope topic provenance target payload
  | create topics scope random =>
    obtain rfl := Option.some.inj hstep
    exact h.others (fun _ record hheld ↦ lookup_create hheld.lookup topics scope random) le_rfl
  | poll subscription cursor =>
    obtain ⟨hother, hstep⟩ := Option.ite_none_left_eq_some.mp hstep
    obtain rfl := Option.some.inj hstep
    apply h.others _ le_rfl
    intro hholds record hheld
    rw [Observed.pollSubscription_lookup_ne env.encodedLen s.control
      (fun hsame ↦ hother ⟨hholds, hsame.symm⟩)]
    exact hheld.lookup
  | unsubscribe subscription =>
    obtain ⟨hother, hstep⟩ := Option.ite_none_left_eq_some.mp hstep
    have hkeeps : s.waiter.phase.Holds → ∀ record, s.Held env record →
        (s.control.unsubscribe subscription).2.subscriptions[s.waiter.subscription]? =
          some record := by
      intro hholds record hheld
      rw [lookup_unsubscribe (fun hsame ↦ hother ⟨hholds, hsame.symm⟩)]
      exact hheld.lookup
    split at hstep
    · next heq =>
      rw [heq] at hkeeps
      obtain rfl := Option.some.inj hstep
      exact h.others hkeeps (Nat.le_succ _)
    · next heq =>
      rw [heq] at hkeeps
      obtain rfl := Option.some.inj hstep
      exact h.others hkeeps le_rfl
  | subscribe random =>
    simp only [step] at hstep
    split at hstep
    · split at hstep
      · next batch control hcreated =>
        obtain rfl := Option.some.inj hstep
        have hlookup := lookup_created hcreated
        exact ⟨h.unmet, fun _ ↦ ⟨_, hlookup, rfl, rfl⟩, fun hreads ↦ (by cases hreads),
          fun hreads ↦ (by cases hreads), fun _ _ hasleep ↦ (by cases hasleep),
          fun _ hmarked ↦ by cases hmarked⟩
      · obtain rfl := Option.some.inj hstep
        exact h.finish _ _
    · cases hstep
  | read =>
    simp only [step] at hstep
    split at hstep
    · next hphase =>
      split at hstep
      · split at hstep
        · obtain rfl := Option.some.inj hstep
          exact h.finish _ _
        · next hunmet =>
          obtain rfl := Option.some.inj hstep
          have hholds : s.waiter.phase.Holds := by
            rw [hphase]
            trivial
          obtain ⟨record, hheld⟩ := h.held hholds
          refine ⟨?_, fun _ ↦ ⟨record, hheld.lookup, hheld.scope, hheld.topics⟩,
            fun _ ↦ .inr (.inr rfl), fun _ hstale ↦ (by cases hstale),
            fun _ _ hasleep ↦ (by cases hasleep), fun _ hmarked ↦ by cases hmarked⟩
          intro value hvalue
          rwa [← Option.some.inj hvalue]
      · cases hstep
    · cases hstep
  | skip =>
    simp only [step] at hstep
    split at hstep
    · next hphase =>
      obtain ⟨hrefresh, hstep⟩ := Option.ite_none_left_eq_some.mp hstep
      obtain rfl := Option.some.inj hstep
      rw [Bool.not_eq_true] at hrefresh
      exact h.goOn rfl rfl (by rw [hphase]; trivial) (fun _ _ hasleep ↦ by cases hasleep)
        (fun _ ↦ by rw [hphase]; exact hrefresh) (fun _ hmarked ↦ by cases hmarked)
    · cases hstep
  | mark =>
    simp only [step] at hstep
    split at hstep
    · next hphase =>
      obtain rfl := Option.some.inj hstep
      refine h.goOn rfl rfl (by rw [hphase]; trivial) (fun _ _ hasleep ↦ by cases hasleep)
        (fun _ ↦ by rw [hphase]; trivial) (fun seen hmarked ↦ ?_)
      exact (WaitPhase.marked.inj hmarked).ge
    · cases hstep
  | pollOwn =>
    simp only [step] at hstep
    split at hstep
    · next hphase => exact h.pollOwn hphase hstep
    · cases hstep
  | wake =>
    simp only [step] at hstep
    split at hstep
    · next hphase =>
      obtain ⟨-, hstep⟩ := Option.ite_none_left_eq_some.mp hstep
      obtain rfl := Option.some.inj hstep
      refine h.goOn rfl rfl (by rw [hphase]; trivial) (fun _ _ hasleep ↦ by cases hasleep)
        (fun _ ↦ by rw [hphase]; trivial) (fun seen hmarked ↦ ?_)
      exact (WaitPhase.marked.inj hmarked).ge
    · cases hstep
  | timeout =>
    simp only [step] at hstep
    split at hstep
    · next hphase =>
      obtain rfl := Option.some.inj hstep
      exact h.goOn rfl rfl (by rw [hphase]; trivial) (fun _ _ hasleep ↦ by cases hasleep)
        (fun _ ↦ by rw [hphase]; trivial) (fun _ hmarked ↦ by cases hmarked)
    · cases hstep
  | expire =>
    simp only [step] at hstep
    split at hstep
    · cases hstep
    · obtain rfl := Option.some.inj hstep
      exact h.finish _ _
  | cancel =>
    simp only [step] at hstep
    split at hstep
    · cases hstep
    · obtain rfl := Option.some.inj hstep
      exact h.finish _ _
  | fail =>
    simp only [step] at hstep
    split at hstep
    · cases hstep
    · obtain rfl := Option.some.inj hstep
      exact h.finish _ _

/-- While a client sleeps and nothing will wake it, it has heard of every event that tells it to
read; where every change of the application has been followed by one, the condition does not
hold. -/
theorem not_met_of_asleep {control : ControlState V} {version : Nat} {app : W}
    {s : WaitSystem W V} (h : Reaches (step env) anyStep (new control version app) s)
    {cursor : Nat} (hasleep : s.waiter.phase = .asleep s.version cursor) :
    s.stale = false ∧ (s.unannounced = false → ¬env.Met (env.value s.app)) := by
  have hsound : Sound env s :=
    h.invariant (sound_new control version app) fun _ _ _ hbefore _ hstep ↦ sound_step hbefore hstep
  have hreads : s.waiter.phase.Reads s.waiter.refresh := by
    rw [hasleep]
    trivial
  have hfresh : s.stale = false := by
    obtain ⟨record, hheld⟩ := hsound.held hreads.holds
    obtain ⟨hevents, hgap⟩ := (hsound.quiet _ _ hasleep).2 rfl record hheld
    by_contra hstale
    rw [Bool.not_eq_false] at hstale
    exact not_owes_of_quiet hevents hgap (hsound.owed hreads hstale record hheld)
  refine ⟨hfresh, fun hannounced ↦ ?_⟩
  obtain hstale | hchanged | hcurrent := hsound.current hreads
  · rw [hfresh] at hstale
    cases hstale
  · rw [hannounced] at hchanged
    cases hchanged
  · exact hsound.unmet _ hcurrent

/-! ### A wait that has read twice -/

private def sampleEnv : WaitEnv Nat Nat :=
  { request := ⟨"pane.title", ["title"], "", 5⟩
    scope := "instance:bootty"
    encodedLen := fun _ ↦ 100
    pointer := fun value _ ↦ some value
    asStr := fun _ ↦ none
    value := id }

private def sampleEvents : List (WaitEvent Nat Nat) :=
  [.subscribe ⟨["subscription-1"], ""⟩, .read, .mark, .pollOwn, .change 3,
    .publish "instance:bootty" "title" 0 0 0, .wake, .pollOwn, .read, .mark, .pollOwn]

/-- The client sleeps after its second read. -/
private def sleepsAfter (app : Nat) (s : WaitSystem Nat Nat) : Bool :=
  match s.waiter.phase with
  | .asleep seen _ => seen == s.version && s.app == app && !s.unannounced
  | _ => false

private theorem asleep_of_sleepsAfter {app : Nat} {s : WaitSystem Nat Nat}
    (h : sleepsAfter app s = true) :
    (∃ cursor, s.waiter.phase = .asleep s.version cursor) ∧ s.app = app ∧
      s.unannounced = false := by
  unfold sleepsAfter at h
  split at h
  · next seen cursor hphase =>
    simp only [Bool.and_eq_true, beq_iff_eq, Bool.not_eq_true'] at h
    exact ⟨⟨cursor, by rw [hphase, h.1.1]⟩, h.1.2, h.2⟩
  · cases h

/-- The client sleeps while the value is another one. -/
theorem not_met_of_asleep_sample : ∃ s : WaitSystem Nat Nat,
    Reaches (step sampleEnv) anyStep (new ⟨∅, fun _ ↦ 0⟩ 0 0) s ∧ s.app = 3 ∧
      s.stale = false ∧ ¬sampleEnv.Met (sampleEnv.value s.app) := by
  have hrun : (runEvents (step sampleEnv) anyTest (new ⟨∅, fun _ ↦ 0⟩ 0 0) sampleEvents).map
      (sleepsAfter 3) = some true := by
    decide +kernel
  obtain ⟨s, hreaches, hsleeps⟩ := exists_reaches_anyStep hrun
  obtain ⟨⟨cursor, hasleep⟩, happ, hannounced⟩ := asleep_of_sleepsAfter hsleeps
  obtain ⟨hfresh, hunmet⟩ := not_met_of_asleep hreaches hasleep
  exact ⟨s, hreaches, happ, hfresh, hunmet hannounced⟩

end WaitSystem
end Bootty.Control
