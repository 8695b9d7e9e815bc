import Aegis.Dashboard.ApiClient
import Mathlib.Data.List.Induction

/-!
# Refreshing is single-flight

Whatever the order of the turns, `refreshInFlight` is the one refresh whose promise has not settled,
and the events of a caller are those of its place in the code. From these two invariants
`single_flight` follows for every run.
-/

namespace Aegis.Dashboard

open Machine

namespace Client

variable {client : Client} {refresh other : Nat}

/-- The promise of the refresh is there and has not settled. -/
def InFlight (client : Client) (refresh : Nat) : Prop :=
  ∃ flight, client.flights[refresh]? = some flight ∧ flight.isSettled = false

/-- `refreshInFlight` is the refresh in flight. -/
def Coherent (client : Client) : Prop :=
  ∀ refresh, client.InFlight refresh ↔ client.refreshInFlight = some refresh

/-! ## Refreshes -/

/-- A caller joins the refresh in flight, if there is one. -/
theorem refresh_access_token_of_in_flight (h : client.Coherent) (hflight : client.InFlight refresh) :
    client.refreshAccessToken = (refresh, [], client) := by
  rw [refreshAccessToken, (h refresh).mp hflight]

/-- If there is none, it starts one. -/
theorem refresh_access_token_of_idle (h : client.Coherent)
    (hidle : ∀ refresh, ¬ client.InFlight refresh) :
    client.refreshAccessToken.2.1 = [.posted client.refreshAccessToken.1] := by
  have hnone : client.refreshInFlight = none := by
    cases hrefresh : client.refreshInFlight with
    | none => rfl
    | some refresh => exact absurd ((h refresh).mpr hrefresh) (hidle refresh)
  rw [refreshAccessToken, hnone]

/-- Starting a refresh sets it in flight. -/
theorem coherent_refresh_access_token (h : client.Coherent) :
    client.refreshAccessToken.2.2.Coherent := by
  rw [refreshAccessToken]
  split
  · exact h
  · next hnone =>
      intro refresh
      show (∃ flight, (client.flights ++ [.fetching])[refresh]? = some flight ∧ _) ↔
        some client.flights.length = some refresh
      rcases Nat.lt_trichotomy refresh client.flights.length with hlt | rfl | hgt
      · rw [List.getElem?_append_left hlt]
        have hidle : ¬ client.InFlight refresh := by
          rw [h refresh, hnone]
          nofun
        exact iff_of_false hidle fun heq ↦ Nat.ne_of_lt hlt (Option.some.inj heq).symm
      · rw [List.getElem?_concat_length]
        exact iff_of_true ⟨_, rfl, rfl⟩ rfl
      · rw [List.getElem?_eq_none (by rw [List.length_append]; exact hgt)]
        exact iff_of_false nofun fun heq ↦ Nat.ne_of_lt hgt (Option.some.inj heq)

/-- A refresh that goes on without settling stays in flight. -/
theorem coherent_set_flight (h : client.Coherent) {flight flight' : Flight}
    (hold : client.flights[refresh]? = some flight) (hsettled : flight.isSettled = false)
    (hnew : flight'.isSettled = false) : (client.setFlight refresh flight').Coherent := by
  intro other
  rw [show (client.setFlight refresh flight').refreshInFlight = client.refreshInFlight from rfl,
    ← h other]
  show (∃ flight, (client.flights.set refresh flight')[other]? = some flight ∧ _) ↔ _
  by_cases hsame : refresh = other
  · have hlt := (List.getElem?_eq_some_iff.mp hold).1
    rw [← hsame, List.getElem?_set_self hlt]
    exact iff_of_true ⟨_, rfl, hnew⟩ ⟨_, hold, hsettled⟩
  · rw [List.getElem?_set_ne hsame]
    rfl

/-- A refresh that settles is not in flight any more, and no other is. -/
theorem coherent_settle (h : client.Coherent) (hflight : client.InFlight refresh) (result : Bool) :
    (client.settle refresh result).2.Coherent := by
  intro other
  show (∃ flight, (client.flights.set refresh (.settled result))[other]? = some flight ∧ _) ↔
    none = some other
  refine iff_of_false ?_ nofun
  rintro ⟨flight, hget, hsettled⟩
  by_cases hsame : refresh = other
  · obtain ⟨_, hold, -⟩ := hflight
    rw [← hsame, List.getElem?_set_self (List.getElem?_eq_some_iff.mp hold).1] at hget
    obtain rfl := Option.some.inj hget
    cases hsettled
  · rw [List.getElem?_set_ne hsame] at hget
    have hother := (h other).mp ⟨flight, hget, hsettled⟩
    exact hsame (Option.some.inj (((h refresh).mp hflight).symm.trans hother))

/-- What a refresh does behind an await keeps it so. -/
theorem coherent_resume_refresh (h : client.Coherent) (refresh : Nat) (listenerThrows : Bool) :
    (client.resumeRefresh refresh listenerThrows).2.Coherent := by
  have hsettle : ∀ flight, client.flights[refresh]? = some flight → flight.isSettled = false →
      ∀ state result, ({ client with state }.settle refresh result).2.Coherent :=
    fun flight hget hsettled state result ↦
      @coherent_settle { client with state } refresh h ⟨flight, hget, hsettled⟩ result
  rw [resumeRefresh]
  split
  · next hget => exact hsettle _ hget rfl _ _
  · next hget =>
      split
      · exact coherent_set_flight h hget rfl rfl
      · exact hsettle _ hget rfl _ _
  · next hget => exact hsettle _ hget rfl _ _
  · next hget => exact hsettle _ hget rfl _ _
  · next hget => exact hsettle _ hget rfl _ _
  · exact h

/-! ## Results -/

/-- The refreshes that have settled are those that had, and those that settle in the turn. -/
def Settles (client next : Client) (events : List Event) : Prop :=
  ∀ refresh result, next.flights[refresh]? = some (.settled result) ↔
    client.flights[refresh]? = some (.settled result) ∨ .settled refresh result ∈ events

/-- Nothing settles where the refreshes are left. -/
theorem settles_of_flights {next : Client} {events : List Event}
    (hflights : next.flights = client.flights)
    (hevents : ∀ refresh result, .settled refresh result ∉ events) :
    client.Settles next events := fun refresh result ↦ by
  rw [hflights, or_iff_left (hevents refresh result)]

/-- A refresh that is started has not settled. -/
theorem settles_refresh_access_token :
    client.Settles client.refreshAccessToken.2.2 client.refreshAccessToken.2.1 := by
  rw [refreshAccessToken]
  split
  · exact settles_of_flights rfl fun _ _ ↦ List.not_mem_nil
  · intro refresh result
    rw [or_iff_left (by simp)]
    show (client.flights ++ [.fetching])[refresh]? = _ ↔ _
    rcases Nat.lt_trichotomy refresh client.flights.length with hlt | rfl | hgt
    · rw [List.getElem?_append_left hlt]
    · rw [List.getElem?_concat_length, List.getElem?_eq_none (Nat.le_refl _)]
      exact iff_of_false nofun nofun
    · rw [List.getElem?_eq_none (by rw [List.length_append]; exact hgt),
        List.getElem?_eq_none (Nat.le_of_lt hgt)]

/-- A refresh that goes on has not settled either. -/
theorem settles_set_flight {flight flight' : Flight}
    (hold : client.flights[refresh]? = some flight) (hsettled : flight.isSettled = false)
    (hnew : flight'.isSettled = false) : client.Settles (client.setFlight refresh flight') [] := by
  intro other result
  rw [or_iff_left List.not_mem_nil]
  show (client.flights.set refresh flight')[other]? = _ ↔ _
  by_cases hsame : refresh = other
  · rw [← hsame, List.getElem?_set_self (List.getElem?_eq_some_iff.mp hold).1, hold]
    refine iff_of_false (fun heq ↦ ?_) (fun heq ↦ ?_)
    · obtain rfl := Option.some.inj heq
      cases hnew
    · obtain rfl := Option.some.inj heq
      cases hsettled
  · rw [List.getElem?_set_ne hsame]

/-- A refresh that returns settles with what it returns. -/
theorem settles_settle (hflight : client.InFlight refresh) (result : Bool) :
    client.Settles (client.settle refresh result).2 (client.settle refresh result).1 := by
  obtain ⟨flight, hold, hsettled⟩ := hflight
  intro other result'
  show (client.flights.set refresh (.settled result))[other]? = _ ↔
    _ ∨ Event.settled other result' ∈ [Event.settled refresh result]
  rw [List.mem_singleton]
  by_cases hsame : refresh = other
  · subst hsame
    rw [List.getElem?_set_self (List.getElem?_eq_some_iff.mp hold).1, hold]
    have hnot : some flight ≠ some (.settled result') := fun heq ↦ by
      obtain rfl := Option.some.inj heq
      cases hsettled
    rw [or_iff_right hnot]
    constructor
    · rintro ⟨⟩
      rfl
    · rintro ⟨⟩
      rfl
  · rw [List.getElem?_set_ne hsame, or_iff_left]
    rintro ⟨⟩
    exact hsame rfl

/-- What a refresh does behind an await: nothing settles, or this refresh does and was in flight. -/
theorem settles_resume_refresh (refresh : Nat) (listenerThrows : Bool) :
    client.Settles (client.resumeRefresh refresh listenerThrows).2
      (client.resumeRefresh refresh listenerThrows).1 := by
  have hsettle : ∀ flight, client.flights[refresh]? = some flight → flight.isSettled = false →
      ∀ state result, client.Settles ({ client with state }.settle refresh result).2
        ({ client with state }.settle refresh result).1 :=
    fun flight hget hsettled state result ↦
      @settles_settle { client with state } refresh ⟨flight, hget, hsettled⟩ result
  rw [resumeRefresh]
  split
  · next hget => exact hsettle _ hget rfl _ _
  · next hget =>
      split
      · exact settles_set_flight hget rfl rfl
      · exact hsettle _ hget rfl _ _
  · next hget => exact hsettle _ hget rfl _ _
  · next hget => exact hsettle _ hget rfl _ _
  · next hget => exact hsettle _ hget rfl _ _
  · exact settles_of_flights rfl fun _ _ ↦ List.not_mem_nil

/-- A refresh that has settled is not in flight, and one that has not is. -/
theorem in_flight_iff : client.InFlight refresh ↔ refresh < client.flights.length ∧
    ∀ result, client.flights[refresh]? ≠ some (.settled result) := by
  constructor
  · rintro ⟨flight, hget, hsettled⟩
    refine ⟨(List.getElem?_eq_some_iff.mp hget).1, fun result heq ↦ ?_⟩
    obtain rfl := Option.some.inj (hget.symm.trans heq)
    cases hsettled
  · rintro ⟨hlt, hne⟩
    refine ⟨client.flights[refresh], List.getElem?_eq_getElem hlt, ?_⟩
    cases hflight : client.flights[refresh] with
    | settled result => exact absurd (by rw [List.getElem?_eq_getElem hlt, hflight]) (hne result)
    | _ => rfl

/-! ## Callers -/

/-- What a caller does to the module: nothing, or it asks for a refresh. -/
def Asks (client : Client) (posted : List Event) (events : List CallEvent) (next : Client) : Prop :=
  (posted = [] ∧ next = client ∧ ∀ refresh, .asked refresh ∉ events) ∨
    (posted, next) = client.refreshAccessToken.2 ∧
      ∀ refresh, .asked refresh ∈ events → refresh = client.refreshAccessToken.1

/-- Nothing is sent that asks for a refresh. -/
theorem asked_not_mem_send (anonymous builds retry : Bool) (refresh : Nat) :
    .asked refresh ∉ (client.send anonymous builds retry).1 := by
  rw [send]
  split <;> simp

/-- No refresh is awaited while a request is sent. -/
theorem resumed_not_mem_send (anonymous builds retry : Bool) (refresh : Nat) (result : Bool) :
    .resumed refresh result ∉ (client.send anonymous builds retry).1 := by
  rw [send]
  split <;> simp

/-- A call of `refreshAccessToken` asks for one. -/
theorem asks_refresh : client.Asks client.refreshAccessToken.2.1
    [.asked client.refreshAccessToken.1] client.refreshAccessToken.2.2 :=
  .inr ⟨rfl, by simp⟩

/-- What a request does before its first await. -/
theorem asks_request (anonymous builds : Bool) (now : Int) :
    client.Asks (client.request anonymous builds now).1 (client.request anonymous builds now).2.1
      (client.request anonymous builds now).2.2.2 := by
  rw [request]
  split
  · exact .inr ⟨rfl, by simp⟩
  · exact .inl ⟨rfl, rfl, asked_not_mem_send anonymous builds false⟩

/-- What a caller does behind an await. -/
theorem asks_resume (caller : Caller) (builds : Bool) :
    client.Asks (client.resume caller builds).1 (client.resume caller builds).2.1
      (client.resume caller builds).2.2.2 := by
  unfold resume
  split
  · split
    · exact .inl ⟨rfl, rfl, by simp⟩
    · exact .inl ⟨rfl, rfl, by simp⟩
  · split
    · exact .inl ⟨rfl, rfl, by simpa using asked_not_mem_send caller.anonymous builds false⟩
    · exact .inl ⟨rfl, rfl, by simp⟩
  · split
    · exact .inl ⟨rfl, rfl, by simp⟩
    · exact .inr ⟨rfl, by simp⟩
  · exact .inl ⟨rfl, rfl, by simp⟩
  · split
    · exact .inl ⟨rfl, rfl, by simpa using asked_not_mem_send caller.anonymous builds true⟩
    · exact .inl ⟨rfl, rfl, by simp⟩
    · exact .inl ⟨rfl, rfl, by simp⟩
  · exact .inl ⟨rfl, rfl, by simp⟩
  · exact .inl ⟨rfl, rfl, by simp⟩

/-- Asking keeps `refreshInFlight` the refresh in flight. -/
theorem Asks.coherent {posted : List Event} {events : List CallEvent} {next : Client}
    (h : client.Asks posted events next) (hcoherent : client.Coherent) : next.Coherent := by
  rcases h with ⟨-, rfl, -⟩ | ⟨hasked, -⟩
  · exact hcoherent
  · obtain ⟨-, rfl⟩ := Prod.mk.inj hasked
    exact coherent_refresh_access_token hcoherent

/-- Nothing settles where a caller goes on. -/
theorem Asks.settles {posted : List Event} {events : List CallEvent} {next : Client}
    (h : client.Asks posted events next) (caller : Nat) :
    client.Settles next (posted ++ events.map (.call caller)) := by
  have hquiet : ∀ refresh result, Event.settled refresh result ∈
      posted ++ events.map (.call caller) ↔ .settled refresh result ∈ posted := by
    simp
  intro refresh result
  rw [hquiet]
  rcases h with ⟨rfl, rfl, -⟩ | ⟨hasked, -⟩
  · exact settles_of_flights rfl (fun _ _ ↦ List.not_mem_nil) refresh result
  · obtain ⟨rfl, rfl⟩ := Prod.mk.inj hasked
    exact settles_refresh_access_token refresh result

/-- What is posted is the refresh that is started. -/
theorem Asks.posted {posted : List Event} {events : List CallEvent} {next : Client}
    (h : client.Asks posted events next) (caller : Nat) :
    refresh < next.flights.length ↔ refresh < client.flights.length ∨
      .posted refresh ∈ posted ++ events.map (.call caller) := by
  rcases h with ⟨rfl, rfl, -⟩ | ⟨hasked, -⟩
  · simp
  · obtain ⟨rfl, rfl⟩ := Prod.mk.inj hasked
    rw [refreshAccessToken]
    split
    · simp
    · have hposted : Event.posted refresh ∈
          [Event.posted client.flights.length] ++ events.map (.call caller) ↔
            refresh = client.flights.length := by
        simp
      rw [hposted]
      show refresh < (client.flights ++ [Flight.fetching]).length ↔ _
      rw [List.length_append]
      exact Nat.lt_succ_iff_lt_or_eq

/-- Every turn keeps `refreshInFlight` the refresh in flight. -/
theorem coherent_step (h : client.Coherent) (turn : Turn) : (client.step turn).2.Coherent := by
  cases turn with
  | request anonymous builds now => exact (asks_request anonymous builds now).coherent h
  | refresh => exact coherent_refresh_access_token h
  | answer caller outcome =>
      rw [step]
      split <;> exact h
  | answerRefresh refresh outcome =>
      rw [step]
      split
      · next hget => exact coherent_set_flight h hget rfl rfl
      · exact h
  | answerBody refresh body =>
      rw [step]
      split
      · next hget => exact coherent_set_flight h hget rfl rfl
      · exact h
  | resume caller builds =>
      rw [step]
      split
      · next c hget => exact (asks_resume c builds).coherent h
      · exact h
  | resumeRefresh refresh listenerThrows => exact coherent_resume_refresh h refresh listenerThrows
  | setToken token expiresAt => exact h
  | clearToken => exact h

/-- What settles in a turn has settled from then on, and nothing else has. -/
theorem settles_step (turn : Turn) : client.Settles (client.step turn).2 (client.step turn).1 := by
  have hsame : client.Settles client [] := settles_of_flights rfl fun _ _ ↦ List.not_mem_nil
  cases turn with
  | request anonymous builds now => exact (asks_request anonymous builds now).settles _
  | refresh => exact asks_refresh.settles _
  | answer caller outcome =>
      rw [step]
      split <;> exact hsame
  | answerRefresh refresh outcome =>
      rw [step]
      split
      · next hget => exact settles_set_flight hget rfl rfl
      · exact hsame
  | answerBody refresh body =>
      rw [step]
      split
      · next hget => exact settles_set_flight hget rfl rfl
      · exact hsame
  | resume caller builds =>
      rw [step]
      split
      · next c hget => exact (asks_resume c builds).settles caller
      · exact hsame
  | resumeRefresh refresh listenerThrows => exact settles_resume_refresh refresh listenerThrows
  | setToken token expiresAt => exact hsame
  | clearToken => exact hsame

/-- Going on starts no refresh, and a refresh that returns leaves `refreshInFlight` reset. -/
theorem resume_refresh_frame (refresh : Nat) (listenerThrows : Bool) :
    (client.resumeRefresh refresh listenerThrows).2.flights.length = client.flights.length ∧
      (∀ other, .posted other ∉ (client.resumeRefresh refresh listenerThrows).1) ∧
      (∀ c event, .call c event ∉ (client.resumeRefresh refresh listenerThrows).1) ∧
      ∀ other result, .settled other result ∈ (client.resumeRefresh refresh listenerThrows).1 →
        (client.resumeRefresh refresh listenerThrows).2.refreshInFlight = none := by
  have hsettle : ∀ (state : TokenState) result,
      (({ client with state }.settle refresh result).2.flights.length = client.flights.length ∧
      (∀ other, .posted other ∉ ({ client with state }.settle refresh result).1) ∧
      (∀ c event, .call c event ∉ ({ client with state }.settle refresh result).1) ∧
      ∀ other result', .settled other result' ∈ ({ client with state }.settle refresh result).1 →
        ({ client with state }.settle refresh result).2.refreshInFlight = none) :=
    fun state result ↦ ⟨List.length_set, by simp [settle], by simp [settle], fun _ _ _ ↦ rfl⟩
  rw [resumeRefresh]
  split
  · exact hsettle _ _
  · split
    · exact ⟨List.length_set, by simp, by simp, by simp⟩
    · exact hsettle _ _
  · exact hsettle _ _
  · exact hsettle _ _
  · exact hsettle _ _
  · exact ⟨rfl, by simp, by simp, by simp⟩

/-- A turn in which a refresh is posted or asked for is one of `refreshAccessToken`. -/
def Refreshes (client : Client) (events : List Event) : Prop :=
  ((∀ refresh, .posted refresh ∉ events) ∧ ∀ c refresh, .call c (.asked refresh) ∉ events) ∨
    (∀ refresh, .posted refresh ∈ events ↔ .posted refresh ∈ client.refreshAccessToken.2.1) ∧
      ∀ c refresh, .call c (.asked refresh) ∈ events → refresh = client.refreshAccessToken.1

theorem Asks.refreshes {posted : List Event} {events : List CallEvent} {next : Client}
    (h : client.Asks posted events next) (caller : Nat) :
    client.Refreshes (posted ++ events.map (.call caller)) := by
  rcases h with ⟨rfl, rfl, hnone⟩ | ⟨hasked, hsame⟩
  · refine .inl ⟨by simp, fun c refresh hmem ↦ ?_⟩
    obtain ⟨event, hevent, heq⟩ := List.mem_map.mp hmem
    obtain ⟨-, rfl⟩ := Event.call.inj heq
    exact hnone refresh hevent
  · obtain ⟨rfl, rfl⟩ := Prod.mk.inj hasked
    refine .inr ⟨by simp, fun c refresh hmem ↦ ?_⟩
    rcases List.mem_append.mp hmem with hposted | hcall
    · rw [refreshAccessToken] at hposted
      split at hposted <;> simp at hposted
    · obtain ⟨event, hevent, heq⟩ := List.mem_map.mp hcall
      obtain ⟨-, rfl⟩ := Event.call.inj heq
      exact hsame refresh hevent

/-- What a turn posts are the refreshes it starts. -/
theorem posted_step (turn : Turn) : refresh < (client.step turn).2.flights.length ↔
    refresh < client.flights.length ∨ .posted refresh ∈ (client.step turn).1 := by
  cases turn with
  | request anonymous builds now => exact (asks_request anonymous builds now).posted _
  | refresh => exact asks_refresh.posted _
  | answer caller outcome =>
      rw [step]
      split <;> simp [setPoint]
  | answerRefresh refresh outcome =>
      rw [step]
      split <;> simp [setFlight]
  | answerBody refresh body =>
      rw [step]
      split <;> simp [setFlight]
  | resume caller builds =>
      rw [step]
      split
      · next c hget => exact (asks_resume c builds).posted caller
      · simp
  | resumeRefresh flight listenerThrows =>
      obtain ⟨hlength, hposted, -⟩ := @resume_refresh_frame client flight listenerThrows
      rw [step, hlength, or_iff_left (hposted refresh)]
  | setToken token expiresAt => simp [step]
  | clearToken => simp [step]

/-- A turn posts and asks for no refresh, or it is one of `refreshAccessToken`. -/
theorem refreshes_step (turn : Turn) : client.Refreshes (client.step turn).1 := by
  have hnone : client.Refreshes [] := .inl ⟨by simp, by simp⟩
  cases turn with
  | request anonymous builds now => exact (asks_request anonymous builds now).refreshes _
  | refresh => exact asks_refresh.refreshes _
  | answer caller outcome =>
      rw [step]
      split <;> exact hnone
  | answerRefresh refresh outcome =>
      rw [step]
      split <;> exact hnone
  | answerBody refresh body =>
      rw [step]
      split <;> exact hnone
  | resume caller builds =>
      rw [step]
      split
      · next c hget => exact (asks_resume c builds).refreshes caller
      · exact hnone
  | resumeRefresh flight listenerThrows =>
      obtain ⟨-, hposted, hcall, -⟩ := @resume_refresh_frame client flight listenerThrows
      exact .inl ⟨hposted, fun c refresh ↦ hcall c _⟩
  | setToken token expiresAt => exact hnone
  | clearToken => exact hnone

/-- Settling leaves no refresh in flight. -/
theorem idle_of_settled (h : client.Coherent) {turn : Turn} {result : Bool}
    (hsettled : .settled refresh result ∈ (client.step turn).1) (other : Nat) :
    ¬ (client.step turn).2.InFlight other := by
  have hasks : ∀ {posted events next}, client.Asks posted events next → ∀ c : Nat,
      .settled refresh result ∉ posted ++ events.map (.call c) := by
    intro posted events next hasks c hmem
    rcases hasks with ⟨rfl, -⟩ | ⟨hasked, -⟩
    · simp at hmem
    · obtain ⟨rfl, -⟩ := Prod.mk.inj hasked
      rw [refreshAccessToken] at hmem
      split at hmem <;> simp at hmem
  have hnone : (client.step turn).2.refreshInFlight = none := by
    cases turn with
    | request anonymous builds now => exact absurd hsettled (hasks (asks_request _ _ _) _)
    | refresh => exact absurd hsettled (hasks asks_refresh _)
    | answer caller outcome =>
        rw [step] at hsettled
        split at hsettled <;> cases hsettled
    | answerRefresh refresh outcome =>
        rw [step] at hsettled
        split at hsettled <;> cases hsettled
    | answerBody refresh body =>
        rw [step] at hsettled
        split at hsettled <;> cases hsettled
    | resume caller builds =>
        rw [step] at hsettled
        split at hsettled
        · exact absurd hsettled (hasks (asks_resume _ _) _)
        · cases hsettled
    | resumeRefresh flight listenerThrows =>
        obtain ⟨-, -, -, hreset⟩ := @resume_refresh_frame client flight listenerThrows
        exact hreset refresh result hsettled
    | setToken token expiresAt => cases hsettled
    | clearToken => cases hsettled
  rw [coherent_step h turn other, hnone]
  nofun

end Client

/-! ## What a caller has seen -/

/-- What a caller has done and seen. -/
def eventsOf (caller : Nat) (trace : List Event) : List CallEvent :=
  trace.filterMap fun event ↦
    match event with
    | .call c event => if c = caller then some event else none
    | _ => none

/-- A request is sent. -/
def CallEvent.isSent : CallEvent → Bool
  | .sent _ => true
  | _ => false

/-- A request is sent once at most, or it is sent a second time behind a 401 and a refresh that
succeeded, and not again. -/
def SentOnceOrRetried (events : List CallEvent) : Prop :=
  events.countP CallEvent.isSent ≤ 1 ∨
    ∃ before token refresh token' after,
      events = before ++ [.sent token, .answered (.resolves 401), .asked refresh,
        .resumed refresh true, .sent token'] ++ after ∧
      before.countP CallEvent.isSent = 0 ∧ after.countP CallEvent.isSent = 0

/-- What comes before the first request: nothing, or a refresh. -/
inductive Prelude : List CallEvent → Prop where
  | fresh : Prelude []
  | refreshed (refresh : Nat) (result : Bool) :
      Prelude [.asked refresh, .resumed refresh result]

/-- What a caller has done and seen where it is. -/
def History : Point → List CallEvent → Prop
  | .awaitingToken refresh, events => events = [.asked refresh]
  | .beforeSend refresh, events => events = [.asked refresh]
  | .sending false, events => ∃ before token, Prelude before ∧ events = before ++ [.sent token]
  | .answered false _, events => ∃ before token, Prelude before ∧ events = before ++ [.sent token]
  | .refreshing refresh, events => ∃ before token, Prelude before ∧
      events = before ++ [.sent token, .answered (.resolves 401), .asked refresh]
  | .sending true, events => ∃ before token refresh token', Prelude before ∧
      events = before ++ [.sent token, .answered (.resolves 401), .asked refresh,
        .resumed refresh true, .sent token']
  | .answered true _, events => ∃ before token refresh token', Prelude before ∧
      events = before ++ [.sent token, .answered (.resolves 401), .asked refresh,
        .resumed refresh true, .sent token']
  | .done, events => SentOnceOrRetried events ∧ ∀ refresh, events.getLast? ≠ some (.asked refresh)

/-- Nothing is sent before the first request. -/
theorem Prelude.count_sent {before : List CallEvent} (h : Prelude before) :
    before.countP CallEvent.isSent = 0 := by
  cases h <;> rfl

/-- A refresh that comes before it has been awaited. -/
theorem Prelude.last_ne {before : List CallEvent} (h : Prelude before) (refresh : Nat) :
    before.getLast? ≠ some (.asked refresh) := by
  cases h with
  | fresh => nofun
  | refreshed other result => exact fun heq ↦ by cases heq

/-- Wherever the caller is, its request was sent once at most, or retried as it should be. -/
theorem History.sent_once_or_retried {point : Point} {events : List CallEvent}
    (h : History point events) : SentOnceOrRetried events := by
  have honce : ∀ before token rest, Prelude before → rest.countP CallEvent.isSent = 0 →
      SentOnceOrRetried (before ++ .sent token :: rest) := by
    intro before token rest hbefore hrest
    have hcount : (before ++ .sent token :: rest).countP CallEvent.isSent = 1 := by
      rw [List.countP_append, hbefore.count_sent, List.countP_cons_of_pos rfl, hrest]
    exact .inl (Nat.le_of_eq hcount)
  have htwice : ∀ before token refresh token', Prelude before →
      SentOnceOrRetried (before ++ [.sent token, .answered (.resolves 401), .asked refresh,
        .resumed refresh true, .sent token']) :=
    fun before token refresh token' hbefore ↦
      .inr ⟨before, token, refresh, token', [], (List.append_nil _).symm, hbefore.count_sent, rfl⟩
  cases point with
  | awaitingToken refresh =>
      rw [show events = [.asked refresh] from h]
      exact .inl (Nat.zero_le _)
  | beforeSend refresh =>
      rw [show events = [.asked refresh] from h]
      exact .inl (Nat.zero_le _)
  | sending retry =>
      cases retry with
      | false =>
          obtain ⟨before, token, hbefore, rfl⟩ := h
          exact honce before token [] hbefore rfl
      | true =>
          obtain ⟨before, token, refresh, token', hbefore, rfl⟩ := h
          exact htwice before token refresh token' hbefore
  | answered retry outcome =>
      cases retry with
      | false =>
          obtain ⟨before, token, hbefore, rfl⟩ := h
          exact honce before token [] hbefore rfl
      | true =>
          obtain ⟨before, token, refresh, token', hbefore, rfl⟩ := h
          exact htwice before token refresh token' hbefore
  | refreshing refresh =>
      obtain ⟨before, token, hbefore, rfl⟩ := h
      exact honce before token _ hbefore rfl
  | done => exact h.1

/-- The caller awaits the refresh. -/
def Point.Awaits (point : Point) (refresh : Nat) : Prop :=
  point = .awaitingToken refresh ∨ point = .beforeSend refresh ∨ point = .refreshing refresh

/-- A caller that awaits a refresh has asked for it last. -/
theorem History.last_asked {point : Point} {events : List CallEvent} {refresh : Nat}
    (h : History point events) (hpoint : point.Awaits refresh) :
    events.getLast? = some (.asked refresh) := by
  rcases hpoint with rfl | rfl | rfl
  · rw [show events = [.asked refresh] from h]
    rfl
  · rw [show events = [.asked refresh] from h]
    rfl
  · obtain ⟨before, token, -, rfl⟩ := h
    simp

/-- A caller that has asked for a refresh last awaits it. -/
theorem History.awaits {point : Point} {events : List CallEvent} {refresh : Nat}
    (h : History point events) (hlast : events.getLast? = some (.asked refresh)) :
    point.Awaits refresh := by
  cases point with
  | awaitingToken other =>
      rw [show events = [.asked other] from h] at hlast
      exact .inl (by simpa using hlast)
  | beforeSend other =>
      rw [show events = [.asked other] from h] at hlast
      exact .inr (.inl (by simpa using hlast))
  | sending retry =>
      cases retry with
      | false =>
          obtain ⟨before, token, -, rfl⟩ := h
          simp at hlast
      | true =>
          obtain ⟨before, token, other, token', -, rfl⟩ := h
          simp at hlast
  | answered retry outcome =>
      cases retry with
      | false =>
          obtain ⟨before, token, -, rfl⟩ := h
          simp at hlast
      | true =>
          obtain ⟨before, token, other, token', -, rfl⟩ := h
          simp at hlast
  | refreshing other =>
      obtain ⟨before, token, -, rfl⟩ := h
      exact .inr (.inr (by simpa using hlast))
  | done => exact absurd hlast (h.2 refresh)

/-- A caller goes on with the result of the refresh it awaits, and only then. -/
theorem resumed_mem_resume_iff {client : Client} {caller : Caller} {builds : Bool} {refresh : Nat}
    {result : Bool} : .resumed refresh result ∈ (client.resume caller builds).2.1 ↔
      caller.point.Awaits refresh ∧ client.flights[refresh]? = some (.settled result) := by
  have hsend := client.resumed_not_mem_send caller.anonymous builds
  obtain ⟨anonymous, point⟩ := caller
  cases point with
  | awaitingToken other =>
      rw [Client.resume, Point.Awaits]
      dsimp only
      split <;> grind
  | beforeSend other =>
      rw [Client.resume, Point.Awaits]
      dsimp only
      split <;> grind
  | sending retry => simp [Client.resume, Point.Awaits]
  | answered retry outcome =>
      refine iff_of_false ?_ (fun h ↦ by simp [Point.Awaits] at h)
      unfold Client.resume
      split
      · next heq => cases heq
      · next heq => cases heq
      · split <;> simp
      · simp
      · next heq => cases heq
      · next heq => cases heq
      · next heq => cases heq
  | refreshing other =>
      rw [Client.resume, Point.Awaits]
      dsimp only
      cases result <;> split <;> grind
  | done => simp [Client.resume, Point.Awaits]

/-- Nothing is sent any more. -/
theorem SentOnceOrRetried.append {events more : List CallEvent} (h : SentOnceOrRetried events)
    (hmore : more.countP CallEvent.isSent = 0) : SentOnceOrRetried (events ++ more) := by
  rcases h with honce | ⟨before, token, refresh, token', after, rfl, hbefore, hafter⟩
  · exact .inl (by rw [List.countP_append, hmore]; exact honce)
  · refine .inr ⟨before, token, refresh, token', after ++ more, List.append_assoc _ _ _, hbefore, ?_⟩
    rw [List.countP_append, hafter, hmore]

/-- Sending behind what comes before the first request. -/
theorem history_send {client : Client} {before : List CallEvent} (hbefore : Prelude before)
    (anonymous builds : Bool) :
    History (client.send anonymous builds false).2
      (before ++ (client.send anonymous builds false).1) := by
  rw [Client.send]
  split
  · exact ⟨before, _, hbefore, rfl⟩
  · rw [List.append_nil]
    exact ⟨.inl (by rw [hbefore.count_sent]; exact Nat.zero_le 1), hbefore.last_ne⟩

/-- What a caller does and sees in a turn carries its history on. -/
theorem history_resume {client : Client} {caller : Caller} {events : List CallEvent}
    (h : History caller.point events) (builds : Bool) :
    History (client.resume caller builds).2.2.1 (events ++ (client.resume caller builds).2.1) := by
  have hkeep : History caller.point (events ++ []) := by
    rw [List.append_nil]
    exact h
  obtain ⟨anonymous, point⟩ := caller
  cases point with
  | awaitingToken refresh =>
      rw [show events = [.asked refresh] from h] at hkeep ⊢
      rw [Client.resume]
      dsimp only
      split
      · exact ⟨.inl (Nat.zero_le 1), nofun⟩
      · exact hkeep
  | beforeSend refresh =>
      rw [show events = [.asked refresh] from h] at hkeep ⊢
      rw [Client.resume]
      dsimp only
      split
      · next result _ => exact history_send (.refreshed refresh result) anonymous builds
      · exact hkeep
  | sending retry => exact hkeep
  | answered retry outcome =>
      have hdone : History .done (events ++ [.answered outcome]) :=
        ⟨h.sent_once_or_retried.append rfl, fun _ ↦ by simp⟩
      unfold Client.resume
      split
      · next heq => cases heq
      · next heq => cases heq
      · next heq =>
          obtain ⟨rfl, rfl⟩ := Point.answered.inj heq
          split
          · exact hdone
          · obtain ⟨before, token, hbefore, rfl⟩ := h
            exact ⟨before, token, hbefore, List.append_assoc _ _ _⟩
      · next heq =>
          obtain ⟨-, rfl⟩ := Point.answered.inj heq
          exact hdone
      · next heq => cases heq
      · next heq => cases heq
      · next heq => cases heq
  | refreshing refresh =>
      have hmore : ∀ result, History .done (events ++ [.resumed refresh result]) :=
        fun result ↦ ⟨h.sent_once_or_retried.append rfl, fun _ ↦ by simp⟩
      obtain ⟨before, token, hbefore, rfl⟩ := h
      rw [Client.resume]
      dsimp only
      split
      · rw [Client.send]
        split
        · exact ⟨before, token, refresh, _, hbefore, List.append_assoc _ _ _⟩
        · exact hmore true
      · exact hmore false
      · exact hkeep
  | done => exact hkeep

/-- So does a new request. -/
theorem history_request {client : Client} (anonymous builds : Bool) (now : Int) :
    History (client.request anonymous builds now).2.2.1
      (client.request anonymous builds now).2.1 := by
  rw [Client.request]
  split
  · rfl
  · exact history_send .fresh anonymous builds

/-! ## Every run -/

/-- The events of each caller are those of where it is, and who has not called has none. -/
structure Recorded (client : Client) (trace : List Event) : Prop where
  history : ∀ c caller, client.callers[c]? = some caller → History caller.point (eventsOf c trace)
  nothing : ∀ c, client.callers[c]? = none → eventsOf c trace = []

theorem events_of_append (c : Nat) (trace more : List Event) :
    eventsOf c (trace ++ more) = eventsOf c trace ++ eventsOf c more :=
  List.filterMap_append

/-- The events of a turn are those of the caller whose turn it is. -/
theorem events_of_call (c caller : Nat) (events : List CallEvent) :
    eventsOf c (events.map (.call caller)) = if caller = c then events else [] := by
  rw [eventsOf, List.filterMap_map]
  split
  · next h => simp [h]
  · next h => simp [h]

/-- What is posted is no event of a caller. -/
theorem events_of_posted {client next : Client} {posted : List Event} {events : List CallEvent}
    (h : client.Asks posted events next) (c : Nat) : eventsOf c posted = [] := by
  rcases h with ⟨rfl, -⟩ | ⟨hasked, -⟩
  · rfl
  · obtain ⟨rfl, -⟩ := Prod.mk.inj hasked
    rw [Client.refreshAccessToken]
    split <;> rfl

/-- Asking changes no caller. -/
theorem callers_of_asks {client next : Client} {posted : List Event} {events : List CallEvent}
    (h : client.Asks posted events next) : next.callers = client.callers := by
  rcases h with ⟨-, rfl, -⟩ | ⟨hasked, -⟩
  · rfl
  · obtain ⟨-, rfl⟩ := Prod.mk.inj hasked
    rw [Client.refreshAccessToken]
    split <;> rfl

namespace Recorded

variable {client next : Client} {trace posted : List Event} {events : List CallEvent} {point : Point}

/-- A turn that is no caller's leaves their events. -/
theorem quiet (h : Recorded client trace) (hcallers : next.callers = client.callers)
    (hquiet : ∀ c, eventsOf c posted = []) : Recorded next (trace ++ posted) := by
  have hsame : ∀ c, eventsOf c (trace ++ posted) = eventsOf c trace := fun c ↦ by
    rw [events_of_append, hquiet, List.append_nil]
  refine ⟨fun c caller hget ↦ ?_, fun c hget ↦ ?_⟩
  · rw [hsame]
    exact h.history c caller (hcallers ▸ hget)
  · rw [hsame]
    exact h.nothing c (hcallers ▸ hget)

/-- A caller that goes on has its events behind those it had. -/
theorem goOn (h : Recorded client trace) (hcallers : next.callers = client.callers)
    (hposted : ∀ c, eventsOf c posted = []) {caller : Nat} {old : Caller}
    (hold : client.callers[caller]? = some old)
    (hhistory : History point (eventsOf caller trace ++ events)) :
    Recorded (next.setPoint caller point) (trace ++ (posted ++ events.map (.call caller))) := by
  have hevents : ∀ c, eventsOf c (trace ++ (posted ++ events.map (.call caller))) =
      eventsOf c trace ++ if caller = c then events else [] := fun c ↦ by
    rw [events_of_append, events_of_append, hposted, List.nil_append, events_of_call]
  have hget : ∀ c, (next.setPoint caller point).callers[c]? =
      if caller = c then some { old with point } else client.callers[c]? := fun c ↦ by
    show (next.callers.modify caller _)[c]? = _
    rw [List.getElem?_modify, hcallers]
    split
    · next hsame =>
        rw [← hsame, hold]
        rfl
    · exact id_map' _
  refine ⟨fun c found hfound ↦ ?_, fun c hnone ↦ ?_⟩
  · rw [hget] at hfound
    rw [hevents]
    split at hfound
    · next hsame =>
        obtain rfl := Option.some.inj hfound
        rw [if_pos hsame, ← hsame]
        exact hhistory
    · next hne =>
        rw [if_neg hne, List.append_nil]
        exact h.history c found hfound
  · rw [hget] at hnone
    split at hnone
    · cases hnone
    · next hne =>
        rw [hevents, if_neg hne, List.append_nil]
        exact h.nothing c hnone

/-- A new caller has the events of its call. -/
theorem enter (h : Recorded client trace) (hcallers : next.callers = client.callers)
    (hposted : ∀ c, eventsOf c posted = []) (anonymous : Bool) (hhistory : History point events) :
    Recorded { next with callers := next.callers ++ [⟨anonymous, point⟩] }
      (trace ++ (posted ++ events.map (.call client.callers.length))) := by
  have hevents : ∀ c, eventsOf c (trace ++ (posted ++ events.map (.call client.callers.length))) =
      eventsOf c trace ++ if client.callers.length = c then events else [] := fun c ↦ by
    rw [events_of_append, events_of_append, hposted, List.nil_append, events_of_call]
  have hfresh : eventsOf client.callers.length trace = [] :=
    h.nothing _ (List.getElem?_eq_none (Nat.le_refl _))
  refine ⟨fun c found hfound ↦ ?_, fun c hnone ↦ ?_⟩
  · rw [hevents]
    replace hfound : (next.callers ++ [⟨anonymous, point⟩])[c]? = some found := hfound
    rw [hcallers] at hfound
    rcases Nat.lt_trichotomy c client.callers.length with hlt | rfl | hgt
    · rw [List.getElem?_append_left hlt] at hfound
      rw [if_neg (Nat.ne_of_gt hlt), List.append_nil]
      exact h.history c found hfound
    · rw [List.getElem?_concat_length] at hfound
      obtain rfl := Option.some.inj hfound
      rw [if_pos rfl, hfresh]
      exact hhistory
    · rw [List.getElem?_eq_none (by rw [List.length_append]; exact hgt)] at hfound
      cases hfound
  · replace hnone : (next.callers ++ [⟨anonymous, point⟩])[c]? = none := hnone
    rw [hcallers, List.getElem?_eq_none_iff, List.length_append] at hnone
    have hlt : client.callers.length < c := hnone
    rw [hevents, if_neg (Nat.ne_of_lt hlt), List.append_nil]
    exact h.nothing c (List.getElem?_eq_none (Nat.le_of_lt hlt))

/-- Every turn is recorded. -/
theorem step (h : Recorded client trace) (turn : Turn) :
    Recorded (client.step turn).2 (trace ++ (client.step turn).1) := by
  cases turn with
  | request anonymous builds now =>
      have hasks := @Client.asks_request client anonymous builds now
      exact h.enter (callers_of_asks hasks) (events_of_posted hasks) anonymous
        (history_request anonymous builds now)
  | refresh =>
      have hasks := @Client.asks_refresh client
      have hhistory : History (.awaitingToken client.refreshAccessToken.1)
          [.asked client.refreshAccessToken.1] := rfl
      exact h.enter (callers_of_asks hasks) (events_of_posted hasks) false hhistory
  | answer caller outcome =>
      rw [Client.step]
      split
      · next anonymous retry hget =>
          have hhistory := h.history caller _ hget
          show Recorded _ (trace ++ ([] ++ [].map (.call caller)))
          refine h.goOn rfl (fun _ ↦ rfl) hget ?_
          rw [List.append_nil]
          cases retry <;> exact hhistory
      · exact h.quiet rfl fun _ ↦ rfl
  | answerRefresh refresh outcome =>
      rw [Client.step]
      split <;> exact h.quiet rfl fun _ ↦ rfl
  | answerBody refresh body =>
      rw [Client.step]
      split <;> exact h.quiet rfl fun _ ↦ rfl
  | resume caller builds =>
      rw [Client.step]
      split
      · next c hget =>
          have hasks := @Client.asks_resume client c builds
          exact h.goOn (callers_of_asks hasks) (events_of_posted hasks) hget
            (history_resume (h.history caller c hget) builds)
      · exact h.quiet rfl fun _ ↦ rfl
  | resumeRefresh refresh listenerThrows =>
      show Recorded (client.resumeRefresh refresh listenerThrows).2
        (trace ++ (client.resumeRefresh refresh listenerThrows).1)
      rw [Client.resumeRefresh]
      split
      · exact h.quiet rfl fun _ ↦ rfl
      · split <;> exact h.quiet rfl fun _ ↦ rfl
      · exact h.quiet rfl fun _ ↦ rfl
      · exact h.quiet rfl fun _ ↦ rfl
      · exact h.quiet rfl fun _ ↦ rfl
      · exact h.quiet rfl fun _ ↦ rfl
  | setToken token expiresAt => exact h.quiet rfl fun _ ↦ rfl
  | clearToken => exact h.quiet rfl fun _ ↦ rfl

end Recorded

/-- The callers that go on with the result of a refresh are those that await it. -/
theorem resumed_mem_step_iff {client : Client} {turn : Turn} {c refresh : Nat} {result : Bool} :
    .call c (.resumed refresh result) ∈ (client.step turn).1 ↔
      ∃ builds caller, turn = .resume c builds ∧ client.callers[c]? = some caller ∧
        caller.point.Awaits refresh ∧ client.flights[refresh]? = some (.settled result) := by
  have hasked : ∀ {posted events next}, client.Asks posted events next → ∀ d : Nat,
      (Event.call c (.resumed refresh result) ∈ posted ++ events.map (.call d) ↔
        d = c ∧ .resumed refresh result ∈ events) := by
    intro posted events next hasks d
    have hposted : Event.call c (.resumed refresh result) ∉ posted := by
      rcases hasks with ⟨rfl, -⟩ | ⟨hasked, -⟩
      · exact List.not_mem_nil
      · obtain ⟨rfl, -⟩ := Prod.mk.inj hasked
        rw [Client.refreshAccessToken]
        split <;> simp
    rw [List.mem_append, or_iff_right hposted, List.mem_map]
    exact ⟨fun ⟨event, hevent, heq⟩ ↦ by cases heq; exact ⟨rfl, hevent⟩,
      fun ⟨hcaller, hevent⟩ ↦ ⟨_, hevent, by rw [hcaller]⟩⟩
  cases turn with
  | request anonymous builds now =>
      refine ((hasked (Client.asks_request anonymous builds now) _).trans ?_)
      refine iff_of_false (fun h ↦ ?_) (by simp)
      have hmem := h.2
      rw [Client.request] at hmem
      split at hmem
      · simp at hmem
      · exact client.resumed_not_mem_send _ _ _ _ _ hmem
  | refresh =>
      refine ((hasked Client.asks_refresh _).trans ?_)
      exact iff_of_false (fun h ↦ by simpa using h.2) (by simp)
  | resume caller builds =>
      rw [Client.step]
      split
      · next found hget =>
          refine ((hasked (Client.asks_resume found builds) _).trans ?_)
          rw [resumed_mem_resume_iff]
          constructor
          · rintro ⟨rfl, hawaits, hsettled⟩
            exact ⟨builds, found, rfl, hget, hawaits, hsettled⟩
          · rintro ⟨_, found', heq, hget', hawaits, hsettled⟩
            cases heq
            obtain rfl := Option.some.inj (hget.symm.trans hget')
            exact ⟨rfl, hawaits, hsettled⟩
      · next hget =>
          refine iff_of_false List.not_mem_nil ?_
          rintro ⟨_, found, heq, hget', -⟩
          cases heq
          cases hget.symm.trans hget'
  | answer caller outcome =>
      rw [Client.step]
      split <;> simp
  | answerRefresh refresh outcome =>
      rw [Client.step]
      split <;> simp
  | answerBody refresh body =>
      rw [Client.step]
      split <;> simp
  | resumeRefresh flight listenerThrows =>
      obtain ⟨-, -, hcall, -⟩ := @Client.resume_refresh_frame client flight listenerThrows
      exact iff_of_false (hcall c _) (by simp)
  | setToken token expiresAt => simp [Client.step]
  | clearToken => simp [Client.step]

/-- The module after a run. -/
def after (turns : List Turn) : Client :=
  final Client.step .initial turns

/-- What happened in a run. -/
def trace (turns : List Turn) : List Event :=
  ((visited Client.step .initial turns).map Prod.fst).flatten

theorem after_concat (turns : List Turn) (turn : Turn) :
    after (turns ++ [turn]) = ((after turns).step turn).2 :=
  final_append _ _ _

theorem trace_concat (turns : List Turn) (turn : Turn) :
    trace (turns ++ [turn]) = trace turns ++ ((after turns).step turn).1 := by
  rw [trace, visited_concat, List.map_append, List.flatten_append]
  exact congrArg (trace turns ++ ·) (List.append_nil _)

/-- `refreshInFlight` is the refresh in flight after every run. -/
theorem coherent_after (turns : List Turn) : (after turns).Coherent := by
  induction turns using List.reverseRecOn with
  | nil => exact fun refresh ↦ iff_of_false (fun ⟨_, hget, _⟩ ↦ by cases hget) nofun
  | append_singleton turns turn ih =>
      rw [after_concat]
      exact Client.coherent_step ih turn

/-- Every run is recorded. -/
theorem recorded_after (turns : List Turn) : Recorded (after turns) (trace turns) := by
  induction turns using List.reverseRecOn with
  | nil => exact ⟨fun c caller hget ↦ (by cases hget), fun _ _ ↦ rfl⟩
  | append_singleton turns turn ih =>
      rw [after_concat, trace_concat]
      exact ih.step turn

/-- The refreshes that have settled after a run are those that settled in it. -/
theorem settled_mem_trace_iff (turns : List Turn) (refresh : Nat) (result : Bool) :
    .settled refresh result ∈ trace turns ↔
      (after turns).flights[refresh]? = some (.settled result) := by
  induction turns using List.reverseRecOn with
  | nil => exact iff_of_false List.not_mem_nil nofun
  | append_singleton turns turn ih =>
      rw [after_concat, trace_concat, List.mem_append, ih, Client.settles_step turn refresh result]

/-- The refreshes that were started in a run are those that were posted in it. -/
theorem posted_mem_trace_iff (turns : List Turn) (refresh : Nat) :
    .posted refresh ∈ trace turns ↔ refresh < (after turns).flights.length := by
  induction turns using List.reverseRecOn with
  | nil => exact iff_of_false List.not_mem_nil (Nat.not_lt_zero _)
  | append_singleton turns turn ih =>
      rw [after_concat, trace_concat, List.mem_append, ih, Client.posted_step turn]

/-- A refresh has been posted in the run and has not settled. -/
def InFlight (turns : List Turn) (refresh : Nat) : Prop :=
  .posted refresh ∈ trace turns ∧ ∀ result, .settled refresh result ∉ trace turns

theorem in_flight_after_iff {turns : List Turn} {refresh : Nat} :
    InFlight turns refresh ↔ (after turns).InFlight refresh := by
  rw [InFlight, posted_mem_trace_iff, Client.in_flight_iff]
  simp only [settled_mem_trace_iff]

/-! ## Single flight -/

/-- What it means that refreshing is single-flight, after a run and in the turn behind it. -/
structure SingleFlight (turns : List Turn) : Prop where
  /-- One refresh is in flight at most. -/
  one : ∀ refresh other, InFlight turns refresh → InFlight turns other → refresh = other
  /-- None is posted while one is in flight. -/
  posts : ∀ turn refresh other, InFlight turns refresh →
    .posted other ∉ ((after turns).step turn).1
  /-- Who asks for a refresh while one is in flight is given that one. -/
  joins : ∀ turn c refresh other, InFlight turns refresh →
    .call c (.asked other) ∈ ((after turns).step turn).1 → other = refresh
  /-- Who asks for a refresh while none is in flight starts one. -/
  starts : ∀ turn c refresh, (∀ other, ¬ InFlight turns other) →
    .call c (.asked refresh) ∈ ((after turns).step turn).1 →
      .posted refresh ∈ ((after turns).step turn).1
  /-- Once a refresh has settled, none is in flight. -/
  ends : ∀ turn refresh result other, .settled refresh result ∈ ((after turns).step turn).1 →
    ¬ InFlight (turns ++ [turn]) other
  /-- A refresh has one result. -/
  settles : ∀ refresh result result', .settled refresh result ∈ trace turns →
    .settled refresh result' ∈ trace turns → result = result'
  /-- Who has asked for a refresh goes on with its result, once it has settled. -/
  receives : ∀ turn c refresh result,
    .call c (.resumed refresh result) ∈ ((after turns).step turn).1 ↔
      (∃ builds, turn = .resume c builds) ∧
        (eventsOf c (trace turns)).getLast? = some (.asked refresh) ∧
          .settled refresh result ∈ trace turns
  /-- A request is sent once, or once more behind a 401 and a refresh that succeeded. -/
  sends : ∀ c, SentOnceOrRetried (eventsOf c (trace turns))

/-- A caller awaits the refresh it has asked for last. -/
theorem awaits_iff_last_asked {turns : List Turn} {c refresh : Nat} :
    (∃ caller, (after turns).callers[c]? = some caller ∧ caller.point.Awaits refresh) ↔
      (eventsOf c (trace turns)).getLast? = some (.asked refresh) := by
  have hrecorded := recorded_after turns
  constructor
  · rintro ⟨caller, hget, hawaits⟩
    exact (hrecorded.history c caller hget).last_asked hawaits
  · intro hlast
    cases hget : (after turns).callers[c]? with
    | none =>
        rw [hrecorded.nothing c hget] at hlast
        cases hlast
    | some caller => exact ⟨caller, rfl, (hrecorded.history c caller hget).awaits hlast⟩

/-- Refreshing is single-flight, whatever settles and in whatever order the turns are taken. -/
theorem single_flight (turns : List Turn) : SingleFlight turns := by
  have hcoherent := coherent_after turns
  have hjoined : ∀ refresh, InFlight turns refresh →
      (after turns).refreshAccessToken = (refresh, [], after turns) := fun refresh hflight ↦
    Client.refresh_access_token_of_in_flight hcoherent (in_flight_after_iff.mp hflight)
  refine ⟨?one, ?posts, ?joins, ?starts, ?ends, ?settles, ?receives, ?sends⟩
  case one =>
    intro refresh other hflight hother
    have hrefresh := (hcoherent refresh).mp (in_flight_after_iff.mp hflight)
    exact Option.some.inj
      (hrefresh.symm.trans ((hcoherent other).mp (in_flight_after_iff.mp hother)))
  case posts =>
    intro turn refresh other hflight hposted
    rcases (after turns).refreshes_step turn with ⟨hnone, -⟩ | ⟨hposts, -⟩
    · exact hnone other hposted
    · rw [hposts, hjoined refresh hflight] at hposted
      cases hposted
  case joins =>
    intro turn c refresh other hflight hasked
    rcases (after turns).refreshes_step turn with ⟨-, hnone⟩ | ⟨-, hsame⟩
    · exact absurd hasked (hnone c other)
    · rw [hsame c other hasked, hjoined refresh hflight]
  case starts =>
    intro turn c refresh hidle hasked
    rcases (after turns).refreshes_step turn with ⟨-, hnone⟩ | ⟨hposts, hsame⟩
    · exact absurd hasked (hnone c refresh)
    · rw [hposts, hsame c refresh hasked, Client.refresh_access_token_of_idle hcoherent
        fun other hother ↦ hidle other (in_flight_after_iff.mpr hother)]
      exact List.mem_singleton_self _
  case ends =>
    intro turn refresh result other hsettled
    rw [in_flight_after_iff, after_concat]
    exact Client.idle_of_settled hcoherent hsettled other
  case settles =>
    intro refresh result result' hsettled hsettled'
    rw [settled_mem_trace_iff] at hsettled hsettled'
    cases hsettled.symm.trans hsettled'
    rfl
  case receives =>
    intro turn c refresh result
    rw [resumed_mem_step_iff, ← awaits_iff_last_asked, settled_mem_trace_iff]
    constructor
    · rintro ⟨builds, caller, hturn, hget, hawaits, hsettled⟩
      exact ⟨⟨builds, hturn⟩, ⟨caller, hget, hawaits⟩, hsettled⟩
    · rintro ⟨⟨builds, hturn⟩, ⟨caller, hget, hawaits⟩, hsettled⟩
      exact ⟨builds, caller, hturn, hget, hawaits, hsettled⟩
  case sends =>
    intro c
    cases hget : (after turns).callers[c]? with
    | none =>
        rw [(recorded_after turns).nothing c hget]
        exact .inl (Nat.zero_le 1)
    | some caller => exact ((recorded_after turns).history c caller hget).sent_once_or_retried

end Aegis.Dashboard
