import Bootty.Base.Machine
import Mathlib.Algebra.GroupWithZero.Nat
import Mathlib.Tactic.Common

/-!
# Routes to a remote host

Model of `RemoteMux` (`crates/bootty-host/src/remote_link/mux.rs:75–298`) and its `Routes`
(`crates/bootty-host/src/remote_link/routes.rs`). `open` holds the lock of the state over its
awaits; `preflight_routes` dials without it. A step is what happens from one await to the next, at
one reading of the clock, so links may close and time may pass anywhere between.
-/

namespace Bootty.Host

open Bootty.Base

/-- `routes.rs:5–13`: the routes in the order of preference. -/
inductive Route where
  | quic
  | tls
  | ssh
  deriving DecidableEq, Repr

namespace Route

/-- Every route, the best one first. -/
def all : List Route := [quic, tls, ssh]

/-- The position that the derived order compares. -/
def rank : Route → ℕ
  | quic => 0
  | tls => 1
  | ssh => 2

private theorem mem_all (route : Route) : route ∈ all := by
  cases route <;> decide

end Route

/-- An `Instant` is a count of nanoseconds whose seconds are an `i64`. -/
def latestInstant : ℕ := 2 ^ 63 * 10 ^ 9 - 1

/-- `Instant::checked_add`. -/
def checkedAdd (now duration : ℕ) : Option ℕ :=
  if now + duration ≤ latestInstant then some (now + duration) else none

/-- `routes.rs:14–19`. -/
structure Routes where
  active : Option Route
  held : Option (Route × ℕ)
  preflightAt : ℕ
  cooldown : ℕ
  deriving DecidableEq

namespace Routes

/-- `routes.rs:22–29`. -/
def new (now : ℕ) (cooldown : ℕ) : Routes := ⟨none, none, now, cooldown⟩

/-- `routes.rs:38–40`. -/
def defer (routes : Routes) (now : ℕ) : Routes :=
  { routes with preflightAt := (checkedAdd now routes.cooldown).getD now }

/-- `routes.rs:34–37`. -/
def connected (routes : Routes) (route : Route) (now : ℕ) : Routes :=
  { routes with active := some route }.defer now

/-- `routes.rs:41–47`: the route that was active is held, in place of the one held before. -/
def disconnected (routes : Routes) (now : ℕ) : Routes :=
  match routes.active with
  | none => routes
  | some route =>
    { routes with
      active := none
      held := some (route, (checkedAdd now routes.cooldown).getD now) }

/-- The hold does not keep a route back. -/
def released (routes : Routes) (now : ℕ) (route : Route) : Bool :=
  match routes.held with
  | none => true
  | some (held, endsAt) => held != route || decide (endsAt ≤ now)

/-- Nothing is active, or a preflight is due for a better route. -/
def preferred (routes : Routes) (now : ℕ) (route : Route) : Bool :=
  match routes.active with
  | none => true
  | some active => decide (routes.preflightAt ≤ now) && decide (route.rank < active.rank)

/-- `routes.rs:48–56`. -/
def candidates (routes : Routes) (now : ℕ) : List Route :=
  Route.all.filter fun route ↦ routes.released now route && routes.preferred now route

end Routes

/-- `mux.rs:70–74`: what the lock guards. A link is known by its number. -/
structure MuxState (Bootstrap : Type) where
  announcement : Option Bootstrap
  link : Option ℕ
  routes : Routes

/-- Where `open` waits while it holds the lock. -/
inductive OpenStage where
  /-- `mux.rs:260–261`: for the daemon and its announcement. -/
  | ensuring
  /-- `mux.rs:263`: about to promote. -/
  | choosing
  /-- `mux.rs:177–187`: for the dial of the first of the candidates that are left. -/
  | promoting (candidates : List Route)
  /-- `mux.rs:265–281`: for a stream of the link. -/
  | opening
  deriving DecidableEq

/-- What holds the lock between two steps. -/
inductive LockHolder where
  | opening (stage : OpenStage)
  /-- `mux.rs:209–214`: a preflight between choosing its candidates and releasing the lock. -/
  | preflighting (candidates : List Route)
  deriving DecidableEq

/-- An install, by a promotion or by a preflight that chose its candidates after `seen` installs. -/
inductive Installed where
  | promoted
  | preflight (seen : ℕ)
  deriving DecidableEq

/-- `mux.rs:201–239`: a preflight outside the lock. `reached` is a link that waits for the lock. -/
structure Preflight (Bootstrap : Type) where
  announcement : Option Bootstrap
  candidates : List Route
  active : Option Route
  generation : ℕ
  reached : Option (Route × Option ℕ)
  seen : ℕ

/-- `mux.rs:75–82`, with the one preflight of the loop at `mux.rs:106–115`, the links that are
closed, the clock, the installs so far and when each route was last given to `disconnected`. -/
structure RemoteMux (Bootstrap : Type) where
  state : MuxState Bootstrap
  changed : ℕ
  lock : Option LockHolder
  preflight : Option (Preflight Bootstrap)
  closed : List ℕ
  clock : ℕ
  history : List Installed
  lastDisconnected : Route → Option ℕ

/-- `mux.rs:102`: `Duration::from_secs(30)`. -/
def routeCooldown : ℕ := 30 * 10 ^ 9

/-- What happens between two awaits, and how what it waited for ended. -/
inductive RouteAction (Bootstrap : Type) where
  /-- `mux.rs:251–260, 263, 265`: `open` takes the lock. -/
  | openBegins
  /-- `mux.rs:261–263`: the daemon is or is not there, and may have announced itself. -/
  | ensured (there : Bool) (announced : Option Bootstrap)
  /-- `mux.rs:177`. -/
  | promote
  /-- `mux.rs:178–188`: the dial of the first candidate ends, with a link where it is answered. -/
  | dialled (answer : Option ℕ)
  /-- `mux.rs:190–191`: no candidate is left. -/
  | giveUp
  /-- `mux.rs:265–285`. -/
  | openEnds (opened : Bool)
  /-- The future of `open` is dropped where it waits. -/
  | openDropped
  /-- `mux.rs:201–213`: a preflight takes the lock. -/
  | preflightBegins
  /-- `mux.rs:214–220`: it defers the next one and releases the lock. -/
  | preflightDefers
  /-- `mux.rs:222–226`. -/
  | preflightAnnounced (response : Option Bootstrap)
  /-- `mux.rs:227–233`. -/
  | preflightDialled (answer : Option ℕ)
  /-- `mux.rs:233–243`: it has the lock again, with a link. -/
  | preflightInstalls
  /-- `mux.rs:246`: no candidate is left. -/
  | preflightEnds
  | linkCloses (link : ℕ)

variable {Bootstrap : Type}

/-- `mux.rs:121–151`: what a dial gives. SSH needs no link, the others need an announcement. -/
def dial (announcement : Option Bootstrap) (route : Route) (answer : Option ℕ) :
    Option (Option ℕ) :=
  match route, announcement with
  | .ssh, _ => some none
  | _, none => none
  | _, some _ => answer.map some

namespace RemoteMux

/-- `mux.rs:88–105`. -/
def new (now : ℕ) : RemoteMux Bootstrap where
  state := ⟨none, none, .new now routeCooldown⟩
  changed := 0
  lock := none
  preflight := none
  closed := []
  clock := now
  history := []
  lastDisconnected _ := none

/-- `mux.rs:193–200`. -/
def install (mux : RemoteMux Bootstrap) (route : Route) (link : Option ℕ) (how : Installed) :
    RemoteMux Bootstrap :=
  { mux with
    state := { mux.state with link, routes := mux.state.routes.connected route mux.clock }
    changed := (mux.changed + 1) % 2 ^ 64
    closed := mux.state.link.toList ++ mux.closed
    history := mux.history ++ [how] }

/-- `mux.rs:255–256, 276–278`: the link goes and its route is given to `disconnected`. -/
def disconnect (mux : RemoteMux Bootstrap) : RemoteMux Bootstrap :=
  { mux with
    state := { mux.state with link := none, routes := mux.state.routes.disconnected mux.clock }
    lastDisconnected := fun route ↦
      if mux.state.routes.active = some route then some mux.clock else mux.lastDisconnected route }

/-- `mux.rs:253`: the link is there and closed. -/
def linkIsClosed (mux : RemoteMux Bootstrap) : Bool :=
  mux.state.link.any (mux.closed.contains ·)

/-- The stage of `open` behind its check of the link, `mux.rs:258–265`. -/
def firstStage (state : MuxState Bootstrap) : OpenStage :=
  if state.routes.active.isNone then
    if state.announcement.isNone then .ensuring else .choosing
  else .opening

/-- `open` takes the lock. -/
def openBegins (mux : RemoteMux Bootstrap) : RemoteMux Bootstrap :=
  let mux := if mux.linkIsClosed then mux.disconnect else mux
  { mux with lock := some (.opening (firstStage mux.state)) }

/-- `open` has looked whether a bootstrap is there. -/
def ensured (mux : RemoteMux Bootstrap) (there : Bool) (announced : Option Bootstrap) :
    RemoteMux Bootstrap :=
  if there then
    { mux with
      state := { mux.state with announcement := announced }
      lock := some (.opening .choosing) }
  else { mux with lock := none }

/-- `open` tries the better routes. -/
def promote (mux : RemoteMux Bootstrap) : RemoteMux Bootstrap :=
  { mux with lock := some (.opening (.promoting (mux.state.routes.candidates mux.clock))) }

/-- `open` has dialled a route. -/
def dialled (mux : RemoteMux Bootstrap) (route : Route) (rest : List Route) (answer : Option ℕ) :
    RemoteMux Bootstrap :=
  match dial mux.state.announcement route answer with
  | some link => { mux.install route link .promoted with lock := some (.opening .opening) }
  | none => { mux with lock := some (.opening (.promoting rest)) }

/-- `open` gives up for now. -/
def giveUp (mux : RemoteMux Bootstrap) : RemoteMux Bootstrap :=
  { mux with
    state := { mux.state with routes := mux.state.routes.defer mux.clock }
    lock := none }

/-- `open` ends with its link. -/
def openEnds (mux : RemoteMux Bootstrap) (opened : Bool) : RemoteMux Bootstrap :=
  match mux.state.link with
  | some link =>
    if opened then { mux with lock := none }
    else
      let mux := { mux with closed := link :: mux.closed }.disconnect
      { mux with state := { mux.state with announcement := none }, lock := none }
  | none => { mux with lock := none }

/-- A preflight looks for better routes. -/
def preflightBegins (mux : RemoteMux Bootstrap) : RemoteMux Bootstrap :=
  let routes := mux.state.routes
  if routes.active = none ∨ routes.active = some .quic then mux
  else if routes.candidates mux.clock = [] then mux
  else { mux with lock := some (.preflighting (routes.candidates mux.clock)) }

/-- A preflight puts its candidates off. -/
def preflightDefers (mux : RemoteMux Bootstrap) (candidates : List Route) : RemoteMux Bootstrap :=
  { mux with
    state := { mux.state with routes := mux.state.routes.defer mux.clock }
    lock := none
    preflight := some
      { announcement := mux.state.announcement
        candidates
        active := mux.state.routes.active
        generation := mux.changed
        reached := none
        seen := mux.history.length } }

/-- A preflight has an announcement. -/
def preflightAnnounced (mux : RemoteMux Bootstrap) (flight : Preflight Bootstrap)
    (response : Option Bootstrap) : RemoteMux Bootstrap :=
  if flight.active = some .ssh then
    { mux with preflight := some { flight with announcement := response <|> flight.announcement } }
  else mux

/-- A preflight has dialled a route. -/
def preflightDialled (mux : RemoteMux Bootstrap) (flight : Preflight Bootstrap) (route : Route)
    (rest : List Route) (answer : Option ℕ) : RemoteMux Bootstrap :=
  let reached := (dial flight.announcement route answer).map fun link ↦ (route, link)
  { mux with preflight := some { flight with candidates := rest, reached } }

/-- A preflight installs its link. -/
def preflightInstalls (mux : RemoteMux Bootstrap) (flight : Preflight Bootstrap) (route : Route)
    (link : Option ℕ) : RemoteMux Bootstrap :=
  if mux.changed = flight.generation then
    let mux := { mux with state := { mux.state with announcement := flight.announcement } }
    { mux.install route link (.preflight flight.seen) with preflight := none }
  else { mux with preflight := none }

/-- What a step does at the reading of its clock. A task that needs the lock waits until it is
free, and there is one preflight at a time. -/
def act (mux : RemoteMux Bootstrap) : RouteAction Bootstrap → Option (RemoteMux Bootstrap)
  | .openBegins => if mux.lock = none then some mux.openBegins else none
  | .ensured there announced =>
    if mux.lock = some (.opening .ensuring) then some (mux.ensured there announced) else none
  | .promote => if mux.lock = some (.opening .choosing) then some mux.promote else none
  | .dialled answer =>
    match mux.lock with
    | some (.opening (.promoting (route :: rest))) => some (mux.dialled route rest answer)
    | _ => none
  | .giveUp =>
    if mux.lock = some (.opening (.promoting [])) then some mux.giveUp else none
  | .openEnds opened =>
    if mux.lock = some (.opening .opening) then some (mux.openEnds opened) else none
  | .openDropped =>
    match mux.lock with
    | some (.opening _) => some { mux with lock := none }
    | _ => none
  | .preflightBegins =>
    if mux.lock = none ∧ mux.preflight.isNone then some mux.preflightBegins else none
  | .preflightDefers =>
    match mux.lock with
    | some (.preflighting candidates) => some (mux.preflightDefers candidates)
    | _ => none
  | .preflightAnnounced response =>
    mux.preflight.map fun flight ↦ mux.preflightAnnounced flight response
  | .preflightDialled answer =>
    match mux.preflight with
    | some flight =>
      match flight.reached, flight.candidates with
      | none, route :: rest => some (mux.preflightDialled flight route rest answer)
      | _, _ => none
    | none => none
  | .preflightInstalls =>
    match mux.lock, mux.preflight with
    | none, some flight =>
      flight.reached.map fun reached ↦ mux.preflightInstalls flight reached.1 reached.2
    | _, _ => none
  | .preflightEnds =>
    match mux.preflight with
    | some flight =>
      if flight.reached.isNone ∧ flight.candidates = [] then some { mux with preflight := none }
      else none
    | none => none
  | .linkCloses link => some { mux with closed := link :: mux.closed }

/-- One step at a reading of the clock, which does not go back and can be added to. -/
def step (mux : RemoteMux Bootstrap) (event : ℕ × RouteAction Bootstrap) :
    Option (RemoteMux Bootstrap) :=
  if mux.clock ≤ event.1 ∧ event.1 + routeCooldown ≤ latestInstant then
    { mux with clock := event.1 }.act event.2
  else none

/-! ### What stays consistent -/

/-- There is a link exactly when the active route needs one. -/
def LinkMatches (state : MuxState Bootstrap) : Prop :=
  state.link.isSome = true ↔ state.routes.active = some .quic ∨ state.routes.active = some .tls

/-- A preflight installs what it found only where nothing was installed since it chose. -/
def PreflightsAlone (history : List Installed) : Prop :=
  ∀ before after seen, history = before ++ .preflight seen :: after → seen = before.length

/-- No route is a candidate before a cooldown has passed since it was last disconnected. -/
def Cooled (mux : RemoteMux Bootstrap) : Prop :=
  ∀ route t now, mux.lastDisconnected route = some t → mux.clock ≤ now →
    now < t + routeCooldown → route ∉ mux.state.routes.candidates now

/-- What every action keeps. -/
structure Consistent (mux : RemoteMux Bootstrap) : Prop where
  link : LinkMatches mux.state
  preflights : PreflightsAlone mux.history
  cooled : mux.Cooled

/-- The action gives the active route to `disconnected`. -/
def disconnects (mux : RemoteMux Bootstrap) : RouteAction Bootstrap → Bool
  | .openBegins => mux.lock.isNone && mux.linkIsClosed
  | .openEnds opened =>
    mux.lock = some (.opening .opening) && mux.state.link.isSome && !opened
  | _ => false

/-- No other route than the active one is held any more. -/
def holdIsFree (routes : Routes) (now : ℕ) : Bool :=
  match routes.held with
  | none => true
  | some (held, endsAt) => decide (routes.active = some held) || decide (endsAt ≤ now)

/-- The installs since a preflight chose its candidates do not run over their 64 bits. -/
def installsFit (mux : RemoteMux Bootstrap) : Bool :=
  mux.preflight.all fun flight ↦ decide (mux.history.length < flight.seen + 2 ^ 64)

/-- A step that disconnects a route does not take the hold from another one, and no preflight is
outlived by its count of installs. -/
def KeepsHold (mux : RemoteMux Bootstrap) (event : ℕ × RouteAction Bootstrap) : Prop :=
  (mux.disconnects event.2 = true → holdIsFree mux.state.routes event.1 = true) ∧
    mux.installsFit = true

/-- Whether an action keeps the hold is decidable. -/
instance (mux : RemoteMux Bootstrap) (event : ℕ × RouteAction Bootstrap) :
    Decidable (mux.KeepsHold event) :=
  inferInstanceAs (Decidable (_ ∧ _))

/-- What a run of such steps keeps. -/
structure Inv (mux : RemoteMux Bootstrap) : Prop where
  link : LinkMatches mux.state
  reached : ∀ flight route link, mux.preflight = some flight → flight.reached = some (route, link) →
    (link.isSome = true ↔ route = .quic ∨ route = .tls)
  changed : mux.changed = mux.history.length % 2 ^ 64
  seen : ∀ flight, mux.preflight = some flight →
    flight.generation = flight.seen % 2 ^ 64 ∧ flight.seen ≤ mux.history.length
  preflights : PreflightsAlone mux.history
  cooldown : mux.state.routes.cooldown = routeCooldown
  latest : mux.clock + routeCooldown ≤ latestInstant
  held : ∀ route t, mux.lastDisconnected route = some t →
    mux.state.routes.held = some (route, t + routeCooldown) ∨ t + routeCooldown ≤ mux.clock
  since : ∀ route endsAt, mux.state.routes.held = some (route, endsAt) →
    ∃ t, mux.lastDisconnected route = some t ∧ endsAt = t + routeCooldown

private theorem Inv.cooled {mux : RemoteMux Bootstrap} (h : mux.Inv) : mux.Cooled := by
  intro route t now hlast hclock hearly hmem
  have hreleased : mux.state.routes.released now route = true := by
    have hfilter := (List.mem_filter.mp hmem).2
    rw [Bool.and_eq_true] at hfilter
    exact hfilter.1
  rcases h.held route t hlast with hheld | hpast
  · rw [Routes.released, hheld] at hreleased
    simp only [bne_self_eq_false, Bool.false_or, decide_eq_true_eq] at hreleased
    omega
  · omega

private theorem Inv.consistent {mux : RemoteMux Bootstrap} (h : mux.Inv) : mux.Consistent :=
  ⟨h.link, h.preflights, h.cooled⟩

section Kept

variable {mux : RemoteMux Bootstrap}

/-- A later reading of the clock changes nothing. -/
theorem Inv.tick (h : mux.Inv) {now : ℕ} (hclock : mux.clock ≤ now)
    (hlatest : now + routeCooldown ≤ latestInstant) : Inv { mux with clock := now } where
  link := h.link
  reached := h.reached
  changed := h.changed
  seen := h.seen
  preflights := h.preflights
  cooldown := h.cooldown
  latest := hlatest
  held route t hlast := (h.held route t hlast).imp_right fun hpast ↦ Nat.le_trans hpast hclock
  since := h.since

/-- Neither the lock, a closed link, an announcement nor a deferred preflight matters. -/
theorem Inv.bookkeeping (h : mux.Inv) (lock : Option LockHolder) (closed : List ℕ)
    (announcement : Option Bootstrap) (preflightAt : ℕ) :
    Inv { mux with
      state := { mux.state with announcement, routes := { mux.state.routes with preflightAt } }
      lock, closed } :=
  ⟨h.link, h.reached, h.changed, h.seen, h.preflights, h.cooldown, h.latest, h.held,
    h.since⟩

/-- Neither do the steps of a preflight that keep its generation and what it has seen. -/
theorem Inv.preflighting (h : mux.Inv) {preflight : Option (Preflight Bootstrap)}
    (hreached : ∀ flight route link, preflight = some flight →
      flight.reached = some (route, link) → (link.isSome = true ↔ route = .quic ∨ route = .tls))
    (hseen : ∀ flight, preflight = some flight →
      flight.generation = flight.seen % 2 ^ 64 ∧ flight.seen ≤ mux.history.length) :
    Inv { mux with preflight } :=
  ⟨h.link, hreached, h.changed, hseen, h.preflights, h.cooldown, h.latest, h.held,
    h.since⟩

/-- A route that is dialled gets a link exactly when it needs one. -/
theorem isSome_of_dial {announcement : Option Bootstrap} {route : Route} {answer link : Option ℕ}
    (h : dial announcement route answer = some link) :
    link.isSome = true ↔ route = .quic ∨ route = .tls := by
  cases route <;> cases announcement <;> cases answer <;> simp_all [dial] <;> simp [← h]

/-- One more install keeps the log when a preflight's was the first since it chose. -/
theorem PreflightsAlone.concat {history : List Installed} (h : PreflightsAlone history)
    {how : Installed} (hhow : ∀ seen, how = .preflight seen → seen = history.length) :
    PreflightsAlone (history ++ [how]) := by
  intro before after seen heq
  rcases List.append_eq_append_iff.mp heq with ⟨mid, hbefore, hrest⟩ | ⟨mid, hhistory, hrest⟩
  · cases mid with
    | nil =>
      rw [List.append_nil] at hbefore
      rw [List.nil_append] at hrest
      rw [hbefore]
      exact hhow seen (List.cons.inj hrest).1
    | cons x others => simp at hrest
  · cases mid with
    | nil =>
      rw [List.append_nil] at hhistory
      rw [List.nil_append] at hrest
      rw [← hhistory]
      exact hhow seen (List.cons.inj hrest).1.symm
    | cons x others =>
      have hx := (List.cons.inj hrest).1
      exact h before others seen (by rw [hhistory, hx])

private theorem Inv.install (h : mux.Inv) {route : Route} {link : Option ℕ} (how : Installed)
    (hlink : link.isSome = true ↔ route = .quic ∨ route = .tls)
    (hhow : ∀ seen, how = .preflight seen → seen = mux.history.length) :
    Inv (mux.install route link how) where
  link := by
    unfold LinkMatches
    simpa [RemoteMux.install, Routes.connected, Routes.defer] using hlink
  reached := h.reached
  changed := by
    have hchanged := h.changed
    simp only [RemoteMux.install, List.length_append, List.length_singleton]
    omega
  seen flight hflight := by
    have ⟨hgeneration, hle⟩ := h.seen flight hflight
    refine ⟨hgeneration, ?_⟩
    rw [RemoteMux.install, List.length_append]
    omega
  preflights := h.preflights.concat hhow
  cooldown := h.cooldown
  latest := h.latest
  held := h.held
  since := h.since

/-- The hold takes the route that is disconnected when no other route needs it. -/
theorem Inv.disconnect (h : mux.Inv) (hfree : holdIsFree mux.state.routes mux.clock = true) :
    Inv mux.disconnect := by
  have hadd : checkedAdd mux.clock mux.state.routes.cooldown =
      some (mux.clock + routeCooldown) := by
    rw [checkedAdd, h.cooldown, if_pos h.latest]
  cases hactive : mux.state.routes.active with
  | none =>
    have hroutes : mux.state.routes.disconnected mux.clock = mux.state.routes := by
      rw [Routes.disconnected, hactive]
    refine ⟨?_, h.reached, h.changed, h.seen, h.preflights, ?_, h.latest, ?_, ?_⟩
    · simp [RemoteMux.disconnect, LinkMatches, hroutes, hactive]
    · rw [RemoteMux.disconnect, hroutes]
      exact h.cooldown
    · intro route t hlast
      simp only [RemoteMux.disconnect, hactive, reduceCtorEq, if_false] at hlast
      simp only [RemoteMux.disconnect, hroutes]
      exact h.held route t hlast
    · intro route endsAt hheld
      simp only [RemoteMux.disconnect, hroutes] at hheld
      simp only [RemoteMux.disconnect, hactive, reduceCtorEq, if_false]
      exact h.since route endsAt hheld
  | some active =>
    have hroutes : mux.state.routes.disconnected mux.clock =
        { mux.state.routes with
          active := none, held := some (active, mux.clock + routeCooldown) } := by
      rw [Routes.disconnected, hactive]
      simp only [hadd, Option.getD_some]
    refine ⟨?_, h.reached, h.changed, h.seen, h.preflights, ?_, h.latest, ?_, ?_⟩
    · simp [RemoteMux.disconnect, LinkMatches, hroutes]
    · rw [RemoteMux.disconnect, hroutes]
      exact h.cooldown
    · intro route t hlast
      simp only [RemoteMux.disconnect, hactive, Option.some.injEq] at hlast
      simp only [RemoteMux.disconnect, hroutes, Option.some.injEq, Prod.mk.injEq]
      split at hlast
      case isTrue hsame => exact .inl ⟨hsame, by rw [Option.some.inj hlast]⟩
      case isFalse hother =>
        rcases h.held route t hlast with hheld | hpast
        · right
          simpa [holdIsFree, hheld, hactive, hother] using hfree
        · exact .inr hpast
    · intro route endsAt hheld
      simp only [RemoteMux.disconnect, hroutes, Option.some.injEq, Prod.mk.injEq] at hheld
      exact ⟨mux.clock, by simp [RemoteMux.disconnect, hactive, hheld.1], hheld.2.symm⟩

private theorem Inv.openBegins (h : mux.Inv) (hlock : mux.lock = none)
    (hfree : mux.disconnects .openBegins = true → holdIsFree mux.state.routes mux.clock = true) :
    Inv mux.openBegins := by
  rw [RemoteMux.openBegins]
  split
  case isTrue hclosed =>
    have hgone := h.disconnect (hfree (by simp [disconnects, hlock, hclosed]))
    exact hgone.bookkeeping _ _ _ _
  case isFalse => exact h.bookkeeping _ _ _ _

private theorem Inv.ensured (h : mux.Inv) (there : Bool) (announced : Option Bootstrap) :
    Inv (mux.ensured there announced) := by
  cases there <;> exact h.bookkeeping _ _ _ _

private theorem Inv.dialled (h : mux.Inv) (route : Route) (rest : List Route) (answer : Option ℕ) :
    Inv (mux.dialled route rest answer) := by
  rw [RemoteMux.dialled]
  split
  case h_1 link hdial =>
    have hinstalled := h.install .promoted (isSome_of_dial hdial) nofun
    exact hinstalled.bookkeeping _ _ _ _
  case h_2 => exact h.bookkeeping _ _ _ _

private theorem Inv.openEnds (h : mux.Inv) (hlock : mux.lock = some (.opening .opening))
    (opened : Bool)
    (hfree : mux.disconnects (.openEnds opened) = true →
      holdIsFree mux.state.routes mux.clock = true) : Inv (mux.openEnds opened) := by
  rw [RemoteMux.openEnds]
  split
  case h_1 link hlink =>
    cases opened with
    | true => exact h.bookkeeping _ _ _ _
    | false =>
      have hdisconnects : mux.disconnects (.openEnds false) = true := by
        simp [disconnects, hlock, hlink]
      have hclosed := h.bookkeeping mux.lock (link :: mux.closed) mux.state.announcement
        mux.state.routes.preflightAt
      have hgone := hclosed.disconnect (hfree hdisconnects)
      exact hgone.bookkeeping _ _ _ _
  case h_2 => exact h.bookkeeping _ _ _ _

private theorem Inv.preflightBegins (h : mux.Inv) : Inv mux.preflightBegins := by
  rw [RemoteMux.preflightBegins]
  split
  · exact h
  · split
    · exact h
    · exact h.bookkeeping _ _ _ _

private theorem Inv.preflightDefers (h : mux.Inv) (candidates : List Route) :
    Inv (mux.preflightDefers candidates) := by
  have hdeferred := h.bookkeeping none mux.closed mux.state.announcement
    (mux.state.routes.defer mux.clock).preflightAt
  apply hdeferred.preflighting
  · rintro flight route link ⟨rfl⟩ hreached
    cases hreached
  · rintro flight ⟨rfl⟩
    exact ⟨h.changed, Nat.le_refl _⟩

variable {flight : Preflight Bootstrap}

private theorem Inv.preflightAnnounced (h : mux.Inv) (hflight : mux.preflight = some flight)
    (response : Option Bootstrap) :
    Inv (mux.preflightAnnounced flight response) := by
  rw [RemoteMux.preflightAnnounced]
  split
  · apply h.preflighting
    · rintro announced route link ⟨rfl⟩ hreached
      exact h.reached flight route link hflight hreached
    · rintro announced ⟨rfl⟩
      exact h.seen flight hflight
  · exact h

private theorem Inv.preflightDialled (h : mux.Inv) (hflight : mux.preflight = some flight)
    (route : Route)
    (rest : List Route) (answer : Option ℕ) :
    Inv (mux.preflightDialled flight route rest answer) := by
  apply h.preflighting
  · rintro dialled route' link ⟨rfl⟩ hreached
    have ⟨link', hdial, hpair⟩ := Option.map_eq_some_iff.mp hreached
    obtain ⟨rfl, rfl⟩ := Prod.mk.inj hpair
    exact isSome_of_dial hdial
  · rintro dialled ⟨rfl⟩
    exact h.seen flight hflight

/-- The generation is the one that a preflight took only where nothing was installed since. -/
theorem Inv.seen_eq (h : mux.Inv) (hflight : mux.preflight = some flight)
    (hgeneration : mux.changed = flight.generation) (hfit : mux.installsFit = true) :
    flight.seen = mux.history.length := by
  have ⟨hcount, hle⟩ := h.seen flight hflight
  have hchanged := h.changed
  have hfew : mux.history.length < flight.seen + 2 ^ 64 := by
    rw [installsFit, hflight, Option.all_some] at hfit
    exact of_decide_eq_true hfit
  rw [hgeneration, hcount] at hchanged
  omega

private theorem Inv.preflightInstalls (h : mux.Inv) {route : Route} {link : Option ℕ}
    (hflight : mux.preflight = some flight) (hreached : flight.reached = some (route, link))
    (hfit : mux.installsFit = true) :
    Inv (mux.preflightInstalls flight route link) := by
  rw [RemoteMux.preflightInstalls]
  split
  case isTrue hgeneration =>
    have hseen := h.seen_eq hflight hgeneration hfit
    have hannounced := h.bookkeeping mux.lock mux.closed flight.announcement
      mux.state.routes.preflightAt
    have hinstalled := hannounced.install (.preflight flight.seen)
      (h.reached flight route link hflight hreached)
      (fun seen heq ↦ (Installed.preflight.inj heq).symm.trans hseen)
    exact hinstalled.preflighting nofun nofun
  case isFalse => exact h.preflighting nofun nofun

/-- What one step keeps. -/
theorem Inv.act (h : mux.Inv) {action : RouteAction Bootstrap} {after : RemoteMux Bootstrap}
    (hkeeps : mux.KeepsHold (mux.clock, action)) (hact : mux.act action = some after) :
    after.Inv := by
  have ⟨hfree, hfit⟩ := hkeeps
  cases action with
  | openBegins =>
    have ⟨hlock, heq⟩ := Option.ite_none_right_eq_some.mp hact
    rw [← Option.some.inj heq]
    exact h.openBegins hlock hfree
  | ensured there announced =>
    have ⟨_, heq⟩ := Option.ite_none_right_eq_some.mp hact
    rw [← Option.some.inj heq]
    exact h.ensured there announced
  | promote =>
    have ⟨_, heq⟩ := Option.ite_none_right_eq_some.mp hact
    rw [← Option.some.inj heq]
    exact h.bookkeeping _ _ _ _
  | dialled answer =>
    simp only [RemoteMux.act] at hact
    split at hact
    case h_1 route rest hlock =>
      rw [← Option.some.inj hact]
      exact h.dialled route rest answer
    case h_2 => cases hact
  | giveUp =>
    have ⟨_, heq⟩ := Option.ite_none_right_eq_some.mp hact
    rw [← Option.some.inj heq]
    exact h.bookkeeping _ _ _ _
  | openEnds opened =>
    have ⟨hlock, heq⟩ := Option.ite_none_right_eq_some.mp hact
    rw [← Option.some.inj heq]
    exact h.openEnds hlock opened hfree
  | openDropped =>
    simp only [RemoteMux.act] at hact
    split at hact
    case h_1 =>
      rw [← Option.some.inj hact]
      exact h.bookkeeping _ _ _ _
    case h_2 => cases hact
  | preflightBegins =>
    have ⟨_, heq⟩ := Option.ite_none_right_eq_some.mp hact
    rw [← Option.some.inj heq]
    exact h.preflightBegins
  | preflightDefers =>
    simp only [RemoteMux.act] at hact
    split at hact
    case h_1 candidates hlock =>
      rw [← Option.some.inj hact]
      exact h.preflightDefers candidates
    case h_2 => cases hact
  | preflightAnnounced response =>
    have ⟨flight, hflight, heq⟩ := Option.map_eq_some_iff.mp hact
    rw [← heq]
    exact h.preflightAnnounced hflight response
  | preflightDialled answer =>
    simp only [RemoteMux.act] at hact
    split at hact
    case h_1 flight hflight =>
      split at hact
      case h_1 route rest hreached hcandidates =>
        rw [← Option.some.inj hact]
        exact h.preflightDialled hflight route rest answer
      case h_2 => cases hact
    case h_2 => cases hact
  | preflightInstalls =>
    simp only [RemoteMux.act] at hact
    split at hact
    case h_1 flight hlock hflight =>
      have ⟨reached, hreached, heq⟩ := Option.map_eq_some_iff.mp hact
      rw [← heq]
      exact h.preflightInstalls hflight hreached hfit
    case h_2 => cases hact
  | preflightEnds =>
    simp only [RemoteMux.act] at hact
    split at hact
    case h_1 =>
      have ⟨_, heq⟩ := Option.ite_none_right_eq_some.mp hact
      rw [← Option.some.inj heq]
      exact h.preflighting nofun nofun
    case h_2 => cases hact
  | linkCloses link =>
    rw [← Option.some.inj hact]
    exact h.bookkeeping _ _ _ _

end Kept

private theorem inv_new (now : ℕ) (hlatest : now + routeCooldown ≤ latestInstant) :
    Inv (new now : RemoteMux Bootstrap) where
  link := by simp [LinkMatches, new, Routes.new]
  reached := nofun
  changed := rfl
  seen := nofun
  preflights before after seen heq := by simp [new] at heq
  cooldown := rfl
  latest := hlatest
  held := nofun
  since := nofun

/-- A run whose steps keep the hold stays consistent. -/
theorem consistent_of_reaches {now : ℕ} (hlatest : now + routeCooldown ≤ latestInstant)
    {mux : RemoteMux Bootstrap} (h : Reaches step KeepsHold (new now) mux) :
    mux.Consistent := by
  apply Inv.consistent
  apply h.invariant (inv_new now hlatest)
  intro mux event after hinv hkeeps hstep
  have ⟨⟨hclock, hbound⟩, hact⟩ := Option.ite_none_right_eq_some.mp hstep
  exact (hinv.tick hclock hbound).act hkeeps hact

/-- Only SSH is reached, and a preflight installs QUIC when it is due. QUIC is dialled again when
its hold is over. -/
private def recovered : List (ℕ × RouteAction Unit) :=
  let due := routeCooldown
  [(0, .openBegins), (0, .ensured true none), (0, .promote), (0, .dialled none),
    (0, .dialled none), (0, .dialled none), (0, .openEnds true), (due, .preflightBegins),
    (due, .preflightDefers), (due, .preflightAnnounced (some ())),
    (due, .preflightDialled (some 1)), (due, .preflightInstalls), (due, .linkCloses 1),
    (due, .openBegins), (due, .promote), (2 * due, .openDropped), (2 * due, .openBegins),
    (2 * due, .promote), (2 * due, .dialled (some 2))]

/-- A link that was promoted twice. -/
theorem consistent_of_reaches_recovered :
    ∃ mux : RemoteMux Unit, Reaches step KeepsHold (new 0) mux ∧
      mux.history = [.promoted, .preflight 1, .promoted] ∧ mux.Consistent := by
  have hrun : ((runEvents step (fun mux event ↦ decide (KeepsHold mux event)) (new 0)
      recovered).map fun mux ↦ decide (mux.history = [.promoted, .preflight 1, .promoted])) =
      some true := by decide +kernel
  have ⟨mux, hreaches, hhistory⟩ :=
    exists_reaches_of_runEvents (fun _ _ htest ↦ of_decide_eq_true htest) hrun
  exact ⟨mux, hreaches, of_decide_eq_true hhistory,
    consistent_of_reaches (by decide) hreaches⟩

private def second : ℕ := 10 ^ 9

/-- QUIC fails, then TLS a second later. -/
private def alternating : List (ℕ × RouteAction Unit) :=
  [(0, .openBegins), (0, .ensured true (some ())), (0, .promote), (0, .dialled (some 1)),
    (0, .openEnds true), (second, .linkCloses 1), (second, .openBegins), (second, .promote),
    (second, .dialled (some 2)), (second, .openEnds true), (2 * second, .linkCloses 2),
    (2 * second, .openBegins), (2 * second, .promote)]

/-- QUIC is a candidate again a second after it was disconnected. -/
theorem not_consistent_of_alternating :
    ¬ ∀ mux : RemoteMux Unit, Reaches step anyStep (new 0) mux → mux.Consistent := by
  intro h
  have hrun : ((runEvents step anyTest (new 0) alternating).map fun mux ↦
      decide (mux.lastDisconnected .quic = some second ∧ mux.clock = 2 * second ∧
        .quic ∈ mux.state.routes.candidates (2 * second))) = some true := by decide +kernel
  have ⟨mux, hreaches, hgoal⟩ := exists_reaches_anyStep hrun
  have ⟨hlast, hclock, hcandidate⟩ := of_decide_eq_true hgoal
  have hcooled := (h mux hreaches).cooled
  exact hcooled .quic second (2 * second) hlast (Nat.le_of_eq hclock) (by decide) hcandidate

end RemoteMux
end Bootty.Host
