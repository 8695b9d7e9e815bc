import Mathlib.Algebra.Order.Field.Rat
import Aegis.Agent.RuntimeEvent

/-!
# Reporting and the governor

`BoundedRingBuffer`, `Reporter` and `ResourceGovernor` of the Java agent: the buffer between the
application's threads and the reporting thread, what is put into it, and the level of work the
agent allows itself. The overhead samples are exact rationals here.
-/

namespace Aegis.Agent

/-! ## The ring buffer -/

/-- A fixed-capacity queue that drops its oldest entry when full. -/
structure BoundedRingBuffer (α : Type) where
  slots : List (Option α)
  capacity : Nat
  head : Nat
  size : Nat
  dropped : Nat
  accepted : Nat
  deriving DecidableEq

namespace BoundedRingBuffer

variable {α : Type}

/-- The constructor, for a positive capacity. -/
def create (capacity : Nat) : BoundedRingBuffer α :=
  ⟨List.replicate capacity none, capacity, 0, 0, 0, 0⟩

/-- Offer an item. Whether the lock is free is the platform's answer, and an item offered while it
is taken is lost. -/
def offer (b : BoundedRingBuffer α) (item : α) (lockFree : Bool) : Bool × BoundedRingBuffer α :=
  if !lockFree then (false, { b with dropped := b.dropped + 1 })
  else if b.size = b.capacity then
    (false, { b with
      slots := b.slots.set b.head (some item)
      head := (b.head + 1) % b.capacity
      dropped := b.dropped + 1
      accepted := b.accepted + 1 })
  else
    (true, { b with
      slots := b.slots.set ((b.head + b.size) % b.capacity) (some item)
      size := b.size + 1
      accepted := b.accepted + 1 })

/-- Take up to `max` items, oldest first. -/
def drain (b : BoundedRingBuffer α) (max : Nat) : List α × BoundedRingBuffer α :=
  let count := min max b.size
  let indices := (List.range count).map fun i ↦ (b.head + i) % b.capacity
  (indices.filterMap fun i ↦ (b.slots[i]?).join,
    { b with
      slots := indices.foldl (fun slots i ↦ slots.set i none) b.slots
      head := (b.head + count) % b.capacity
      size := b.size - count })

end BoundedRingBuffer

/-! ## The reporter -/

/-- The buffer of events, the sequence number of event ids, and the facts already sent. -/
structure Reporter where
  buffer : BoundedRingBuffer RuntimeEvent
  sequence : Nat
  announced : List JString
  deriving DecidableEq

namespace Reporter

/-- Ceiling on remembered routes and coverage gaps. -/
def MAX_ANNOUNCED : Nat := 4096

/-- A reporter with an empty buffer. -/
def create (capacity : Nat) : Reporter :=
  ⟨.create capacity, 0, []⟩

/-- A time-ordered, per-agent unique id. -/
def nextEventId (r : Reporter) (moment : Moment) : JString × Reporter :=
  (toHexString moment.currentTimeMillis ++ java "-" ++ toHexString (r.sequence + 1),
    { r with sequence := r.sequence + 1 })

/-- Hand an event to the buffer. -/
def queue (r : Reporter) (event : RuntimeEvent) (moment : Moment) : Reporter :=
  { r with buffer := (r.buffer.offer event moment.lockFree).2 }

/-- Queue a finding. -/
def report (r : Reporter) (finding : Finding) (context : Option RequestContext)
    (moment : Moment) : Reporter :=
  let (eventId, r) := r.nextEventId moment
  r.queue (.taintHit eventId finding context moment) moment

/-- True the first time this key is seen. Once full, nothing is remembered any more. -/
def firstSighting (r : Reporter) (key : JString) : Bool × Reporter :=
  if r.announced.length ≥ MAX_ANNOUNCED then (false, r)
  else if key ∈ r.announced then (false, r)
  else (true, { r with announced := r.announced ++ [key] })

/-- Queue a discovered route, once. -/
def reportRoute (r : Reporter) (method pathTemplate : JString) (authenticated : Bool)
    (moment : Moment) : Reporter :=
  let key := java "route|" ++ method ++ java "|" ++ pathTemplate ++ java "|" ++ bool authenticated
  match r.firstSighting key with
  | (false, r) => r
  | (true, r) =>
      let (eventId, r) := r.nextEventId moment
      r.queue (.route eventId method pathTemplate authenticated moment) moment

/-- Queue a place the agent could not follow taint, once. -/
def reportCoverageGap (r : Reporter) (reason component : JString) (moment : Moment) : Reporter :=
  let key := java "gap|" ++ component ++ java "|" ++ reason
  match r.firstSighting key with
  | (false, r) => r
  | (true, r) =>
      let (eventId, r) := r.nextEventId moment
      r.queue (.coverageGap eventId reason component moment) moment

/-- Drain a batch for transmission. -/
def drain (r : Reporter) (max : Nat) : List RuntimeEvent × Reporter :=
  let (batch, buffer) := r.buffer.drain max
  (batch, { r with buffer := buffer })

/-- The number of events queued. -/
def queued (r : Reporter) : Nat :=
  r.buffer.size

end Reporter

/-! ## The governor -/

/-- Ordered from full capability to none. -/
inductive Level where
  | FULL | SAMPLED | CONFIG_ONLY | HEARTBEAT | UNINSTALLED
  deriving DecidableEq, Repr

/-- Dataflow may be tracked at this level. -/
def Level.allowsDataflow : Level → Bool
  | FULL | SAMPLED => true
  | _ => false

/-- The next level down. -/
def Level.next : Level → Level
  | FULL => SAMPLED
  | SAMPLED => CONFIG_ONLY
  | CONFIG_ONLY => HEARTBEAT
  | HEARTBEAT | UNINSTALLED => UNINSTALLED

/-- The next level up. It never climbs back out of `UNINSTALLED`. -/
def Level.previous : Level → Level
  | UNINSTALLED => UNINSTALLED
  | FULL | SAMPLED => FULL
  | CONFIG_ONLY => SAMPLED
  | HEARTBEAT => CONFIG_ONLY

/-- The overhead budget, the level in force, and the samples counted towards the next one. -/
structure ResourceGovernor where
  budgetPct : ℚ
  level : Level
  consecutiveBreaches : Nat
  consecutiveCalm : Nat

namespace ResourceGovernor

/-- Consecutive breaching samples before dropping a level. -/
def BREACH_SAMPLES_TO_DEGRADE : Nat := 3

/-- Consecutive calm samples before recovering one level. -/
def CALM_SAMPLES_TO_RECOVER : Nat := 5

/-- Recovery only begins below this fraction of the budget. -/
def RECOVERY_FRACTION : ℚ := 6 / 10

/-- A governor at full capability. -/
def create (budgetPct : ℚ) : ResourceGovernor :=
  ⟨budgetPct, .FULL, 0, 0⟩

/-- Feed one overhead sample. -/
def observe (g : ResourceGovernor) (observedPct : ℚ) : ResourceGovernor :=
  if g.level = .UNINSTALLED then g
  else if observedPct > g.budgetPct * 3 then
    { g with level := .UNINSTALLED, consecutiveBreaches := 0, consecutiveCalm := 0 }
  else if observedPct > g.budgetPct then
    if g.consecutiveBreaches + 1 ≥ BREACH_SAMPLES_TO_DEGRADE then
      { g with level := g.level.next, consecutiveBreaches := 0, consecutiveCalm := 0 }
    else { g with consecutiveBreaches := g.consecutiveBreaches + 1, consecutiveCalm := 0 }
  else if observedPct < g.budgetPct * RECOVERY_FRACTION then
    if g.consecutiveCalm + 1 ≥ CALM_SAMPLES_TO_RECOVER then
      { g with level := g.level.previous, consecutiveBreaches := 0, consecutiveCalm := 0 }
    else { g with consecutiveBreaches := 0, consecutiveCalm := g.consecutiveCalm + 1 }
  else { g with consecutiveBreaches := 0, consecutiveCalm := 0 }

/-- This request should carry dataflow tracking. The draw says whether the random number fell under
the sampling rate. -/
def shouldSample (g : ResourceGovernor) (draw : Bool) : Bool :=
  match g.level with
  | .FULL => true
  | .SAMPLED => draw
  | _ => false

/-- Remote kill switch. -/
def disable (g : ResourceGovernor) : ResourceGovernor :=
  { g with level := .UNINSTALLED }

/-- The control plane re-enables an agent that was remotely disabled. -/
def reset (g : ResourceGovernor) : ResourceGovernor :=
  { g with level := .FULL, consecutiveBreaches := 0, consecutiveCalm := 0 }

end ResourceGovernor

end Aegis.Agent
