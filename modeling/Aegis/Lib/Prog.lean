import Mathlib.Data.List.Basic

/-!
# Programs that may be interrupted

A program over a state whose steps may raise. The list of faults says, for each step that can
raise, whether the environment makes it raise. An exception ends the program with the state as it
is at that point, `handle` is a catch block and `finish` is a finally block. `Keeps` is the rule for
frames: what every step leaves unchanged, the program leaves unchanged, however it ends.
-/

universe u

/-- How a program ends: what it returns or raises, the state, and the faults not used. -/
structure Ending (ε σ α : Type u) where
  outcome : Except ε α
  state : σ
  faults : List Bool

/-- A program over a state. -/
def Prog (ε σ α : Type u) : Type u :=
  σ → List Bool → Ending ε σ α

namespace Prog

variable {ε σ τ α β γ : Type u}

instance : Monad (Prog ε σ) where
  pure a := fun s faults ↦ ⟨.ok a, s, faults⟩
  bind x f := fun s faults ↦
    match x s faults with
    | ⟨.ok a, s, faults⟩ => f a s faults
    | ⟨.error e, s, faults⟩ => ⟨.error e, s, faults⟩

/-- Raise an exception. -/
def raise (e : ε) : Prog ε σ α :=
  fun s faults ↦ ⟨.error e, s, faults⟩

/-- A step at which the environment may raise the exception. -/
def attempt (e : ε) : Prog ε σ PUnit :=
  fun s faults ↦
    match faults with
    | true :: faults => ⟨.error e, s, faults⟩
    | false :: faults => ⟨.ok .unit, s, faults⟩
    | [] => ⟨.ok .unit, s, []⟩

/-- Return the result of a computation, or raise its exception. -/
def lift (x : Except ε α) : Prog ε σ α :=
  fun s faults ↦ ⟨x, s, faults⟩

/-- Read from the state. -/
def read (f : σ → α) : Prog ε σ α :=
  fun s faults ↦ ⟨.ok (f s), s, faults⟩

/-- Change the state. -/
def modify (f : σ → σ) : Prog ε σ PUnit :=
  fun s faults ↦ ⟨.ok .unit, f s, faults⟩

/-- Run a program and, when it raises, the handler in its place. -/
def handle (x : Prog ε σ α) (handler : ε → Prog ε σ α) : Prog ε σ α :=
  fun s faults ↦
    match x s faults with
    | ⟨.ok a, s, faults⟩ => ⟨.ok a, s, faults⟩
    | ⟨.error e, s, faults⟩ => handler e s faults

/-- Run a program and then a cleanup that cannot fail, however the program ends. -/
def finish (x : Prog ε σ α) (cleanup : σ → σ) : Prog ε σ α :=
  fun s faults ↦ { x s faults with state := cleanup (x s faults).state }

/-- Run a program on a part of the state. -/
def within (get : τ → σ) (set : σ → τ → τ) (x : Prog ε σ α) : Prog ε τ α :=
  fun t faults ↦
    let ending := x (get t) faults
    ⟨ending.outcome, set ending.state t, ending.faults⟩

/-! ## Running a program -/

section Run

variable {s s' : σ} {faults faults' : List Bool}

/-- After a step that returns, the rest runs. -/
theorem bind_of_ok {x : Prog ε σ α} {f : α → Prog ε σ β} {a : α}
    (h : x s faults = ⟨.ok a, s', faults'⟩) : (x >>= f) s faults = f a s' faults' := by
  show (match x s faults with
    | ⟨.ok a, s, faults⟩ => f a s faults
    | ⟨.error e, s, faults⟩ => ⟨.error e, s, faults⟩) = _
  rw [h]

/-- After a step that raises, nothing runs. -/
theorem bind_of_error {x : Prog ε σ α} {f : α → Prog ε σ β} {e : ε}
    (h : x s faults = ⟨.error e, s', faults'⟩) : (x >>= f) s faults = ⟨.error e, s', faults'⟩ := by
  show (match x s faults with
    | ⟨.ok a, s, faults⟩ => f a s faults
    | ⟨.error e, s, faults⟩ => ⟨.error e, s, faults⟩) = _
  rw [h]

/-- Three steps run one after another, however they are grouped. -/
theorem bind_assoc (x : Prog ε σ α) (f : α → Prog ε σ β) (g : β → Prog ε σ γ) :
    (x >>= f) >>= g = x >>= fun a ↦ f a >>= g := by
  funext s faults
  rcases hx : x s faults with ⟨_ | a, s', faults'⟩
  · rw [bind_of_error hx, bind_of_error (bind_of_error hx)]
  · rw [bind_of_ok hx]
    rcases hf : f a s' faults' with ⟨_ | b, s'', faults''⟩
    · rw [bind_of_error hf, bind_of_error ((bind_of_ok hx).trans hf)]
    · rw [bind_of_ok hf, bind_of_ok ((bind_of_ok hx).trans hf)]

/-- After a step that may raise, the rest runs, or nothing does. -/
theorem attempt_bind_cases (e : ε) (f : PUnit → Prog ε σ α) (s : σ) (faults : List Bool) :
    (attempt e >>= f) s faults = f .unit s faults.tail ∨
      (attempt e >>= f) s faults = ⟨.error e, s, faults.tail⟩ := by
  rcases faults with _ | ⟨_ | _, faults⟩
  · exact .inl rfl
  · exact .inl rfl
  · exact .inr rfl

/-- Programs with the same beginning end alike when what follows does. -/
theorem outcome_bind_congr (x : Prog ε σ α) {f g : α → Prog ε σ β}
    (h : ∀ a s faults, (f a s faults).outcome = (g a s faults).outcome) (s : σ)
    (faults : List Bool) : ((x >>= f) s faults).outcome = ((x >>= g) s faults).outcome := by
  rcases hx : x s faults with ⟨_ | a, s', faults'⟩
  · rw [bind_of_error hx, bind_of_error hx]
  · rw [bind_of_ok hx, bind_of_ok hx]
    exact h a s' faults'

/-- A program that returns is not handled. -/
theorem handle_of_ok {x : Prog ε σ α} {handler : ε → Prog ε σ α} {a : α}
    (h : x s faults = ⟨.ok a, s', faults'⟩) : handle x handler s faults = ⟨.ok a, s', faults'⟩ := by
  rw [handle, h]

/-- A program that raises is handled in the state it leaves. -/
theorem handle_of_error {x : Prog ε σ α} {handler : ε → Prog ε σ α} {e : ε}
    (h : x s faults = ⟨.error e, s', faults'⟩) :
    handle x handler s faults = handler e s' faults' := by
  rw [handle, h]

/-- Returning a function of the result changes the state no further. -/
theorem state_bind_pure (x : Prog ε σ α) (f : α → β) (s : σ) (faults : List Bool) :
    ((x >>= fun a ↦ pure (f a)) s faults).state = (x s faults).state := by
  rcases h : x s faults with ⟨_ | a, s', faults'⟩
  · rw [bind_of_error h]
  · rw [bind_of_ok h]
    rfl

/-- Reading a result changes the state no further. -/
theorem state_bind_read (x : Prog ε σ α) (f : σ → β) (s : σ) (faults : List Bool) :
    ((x >>= fun _ ↦ read f) s faults).state = (x s faults).state := by
  rcases h : x s faults with ⟨_ | a, s', faults'⟩
  · rw [bind_of_error h]
  · rw [bind_of_ok h]
    rfl

end Run

/-! ## What a program leaves unchanged -/

/-- The program leaves this view of the state unchanged, however it ends. -/
def Keeps (view : σ → β) (x : Prog ε σ α) : Prop :=
  ∀ s faults, view (x s faults).state = view s

variable {view : σ → β}

theorem keeps_pure (a : α) : Keeps view (pure a : Prog ε σ α) :=
  fun _ _ ↦ rfl

theorem keeps_raise (e : ε) : Keeps view (raise e : Prog ε σ α) :=
  fun _ _ ↦ rfl

theorem keeps_read (f : σ → α) : Keeps view (read f : Prog ε σ α) :=
  fun _ _ ↦ rfl

/-- A step that may raise changes nothing. -/
theorem keeps_attempt (e : ε) : Keeps view (attempt e : Prog ε σ PUnit) := by
  intro s faults
  rcases faults with _ | ⟨_ | _, faults⟩ <;> rfl

theorem keeps_modify {f : σ → σ} (h : ∀ s, view (f s) = view s) :
    Keeps view (modify f : Prog ε σ PUnit) :=
  fun s _ ↦ h s

/-- A sequence keeps what both parts keep. -/
theorem keeps_bind {x : Prog ε σ α} {f : α → Prog ε σ γ} (hx : Keeps view x)
    (hf : ∀ a, Keeps view (f a)) : Keeps view (x >>= f) := by
  intro s faults
  have hfirst := hx s faults
  show view (match x s faults with
    | ⟨.ok a, s, faults⟩ => f a s faults
    | ⟨.error e, s, faults⟩ => ⟨.error e, s, faults⟩).state = view s
  split
  · next a s' faults' heq =>
      rw [heq] at hfirst
      rw [hf a s' faults']
      exact hfirst
  · next heq =>
      rw [heq] at hfirst
      exact hfirst

/-- A program with a handler keeps what both keep. -/
theorem keeps_handle {x : Prog ε σ α} {handler : ε → Prog ε σ α} (hx : Keeps view x)
    (hhandler : ∀ e, Keeps view (handler e)) : Keeps view (handle x handler) := by
  intro s faults
  have hfirst := hx s faults
  unfold handle
  split
  · next heq =>
      rw [heq] at hfirst
      exact hfirst
  · next e s' faults' heq =>
      rw [heq] at hfirst
      rw [hhandler e s' faults']
      exact hfirst

/-- A program on a part of the state keeps what lies outside that part. -/
theorem keeps_within {get : τ → σ} {set : σ → τ → τ} {view : τ → β} (x : Prog ε σ α)
    (h : ∀ s t, view (set s t) = view t) : Keeps view (within get set x) :=
  fun t _ ↦ h _ t

/-! ## How a program can end -/

section Ends

/-- Whatever the environment does, the program returns only in this way and raises only in that. -/
def Ends (x : Prog ε σ α) (s : σ) (returns : α → σ → Prop) (raises : ε → σ → Prop) : Prop :=
  ∀ faults, (∀ a, (x s faults).outcome = .ok a → returns a (x s faults).state) ∧
    ∀ e, (x s faults).outcome = .error e → raises e (x s faults).state

variable {s : σ} {returns : α → σ → Prop} {raises : ε → σ → Prop}

theorem ends_pure {a : α} (h : returns a s) : Ends (pure a : Prog ε σ α) s returns raises :=
  fun _ ↦ ⟨fun _ heq ↦ Except.ok.inj heq ▸ h, fun _ heq ↦ (nomatch heq)⟩

theorem ends_raise {e : ε} (h : raises e s) : Ends (raise e : Prog ε σ α) s returns raises :=
  fun _ ↦ ⟨fun _ heq ↦ (nomatch heq), fun _ heq ↦ Except.error.inj heq ▸ h⟩

theorem ends_read {f : σ → α} (h : returns (f s) s) :
    Ends (read f : Prog ε σ α) s returns raises :=
  fun _ ↦ ⟨fun _ heq ↦ Except.ok.inj heq ▸ h, fun _ heq ↦ (nomatch heq)⟩

theorem ends_modify {f : σ → σ} {returns : PUnit → σ → Prop} (h : returns .unit (f s)) :
    Ends (modify f : Prog ε σ PUnit) s returns raises :=
  fun _ ↦ ⟨fun _ _ ↦ h, fun _ heq ↦ (nomatch heq)⟩

/-- A step that may raise does so in the state it finds. -/
theorem ends_attempt {e : ε} {returns : PUnit → σ → Prop} (h : returns .unit s)
    (hraises : raises e s) : Ends (attempt e : Prog ε σ PUnit) s returns raises := by
  intro faults
  rcases faults with _ | ⟨_ | _, faults⟩
  · exact ⟨fun _ _ ↦ h, fun _ heq ↦ (nomatch heq)⟩
  · exact ⟨fun _ _ ↦ h, fun _ heq ↦ (nomatch heq)⟩
  · exact ⟨fun _ heq ↦ (nomatch heq), fun _ heq ↦ Except.error.inj heq ▸ hraises⟩

theorem ends_lift {x : Except ε α} (h : ∀ a, x = .ok a → returns a s)
    (hraises : ∀ e, x = .error e → raises e s) :
    Ends (lift x : Prog ε σ α) s returns raises :=
  fun _ ↦ ⟨h, hraises⟩

/-- The rest ends as it does from where the first part returns. -/
theorem ends_bind {x : Prog ε σ α} {f : α → Prog ε σ β} {returns : β → σ → Prop}
    (h : Ends x s (fun a t ↦ Ends (f a) t returns raises) raises) :
    Ends (x >>= f) s returns raises := by
  intro faults
  obtain ⟨hok, herror⟩ := h faults
  rcases hx : x s faults with ⟨e | a, t, rest⟩
  · rw [hx] at herror
    rw [bind_of_error hx]
    exact ⟨fun _ heq ↦ (nomatch heq), fun _ heq ↦ Except.error.inj heq ▸ herror e rfl⟩
  · rw [hx] at hok
    rw [bind_of_ok hx]
    exact hok a rfl rest

/-- A handler ends as it does from where the program raises. -/
theorem ends_handle {x : Prog ε σ α} {handler : ε → Prog ε σ α}
    (h : Ends x s returns (fun e t ↦ Ends (handler e) t returns raises)) :
    Ends (handle x handler) s returns raises := by
  intro faults
  obtain ⟨hok, herror⟩ := h faults
  rcases hx : x s faults with ⟨e | a, t, rest⟩
  · rw [hx] at herror
    rw [handle_of_error hx]
    exact herror e rfl rest
  · rw [hx] at hok
    rw [handle_of_ok hx]
    exact ⟨fun _ heq ↦ Except.ok.inj heq ▸ hok a rfl, fun _ heq ↦ (nomatch heq)⟩

/-- Every program ends. -/
theorem ends_trivial (x : Prog ε σ α) (s : σ) : Ends x s (fun _ _ ↦ True) fun _ _ ↦ True :=
  fun _ ↦ ⟨fun _ _ ↦ trivial, fun _ _ ↦ trivial⟩

/-- A program on a part of the state ends as it does there. -/
theorem ends_within {get : τ → σ} {set : σ → τ → τ} {x : Prog ε σ α} {t : τ}
    {returns : α → τ → Prop} {raises : ε → τ → Prop}
    (h : Ends x (get t) (fun a s ↦ returns a (set s t)) fun e s ↦ raises e (set s t)) :
    Ends (within get set x) t returns raises :=
  h

/-- What is shown of the ends may be weakened. -/
theorem Ends.mono {x : Prog ε σ α} {returns' : α → σ → Prop} {raises' : ε → σ → Prop}
    (h : Ends x s returns raises) (hreturns : ∀ a t, returns a t → returns' a t)
    (hraises : ∀ e t, raises e t → raises' e t) : Ends x s returns' raises' :=
  fun faults ↦ ⟨fun a heq ↦ hreturns a _ ((h faults).1 a heq),
    fun e heq ↦ hraises e _ ((h faults).2 e heq)⟩

/-- What is shown of the ends in two ways holds together. -/
theorem Ends.and {x : Prog ε σ α} {returns' : α → σ → Prop} {raises' : ε → σ → Prop}
    (h : Ends x s returns raises) (h' : Ends x s returns' raises') :
    Ends x s (fun a t ↦ returns a t ∧ returns' a t) fun e t ↦ raises e t ∧ raises' e t :=
  fun faults ↦ ⟨fun a heq ↦ ⟨(h faults).1 a heq, (h' faults).1 a heq⟩,
    fun e heq ↦ ⟨(h faults).2 e heq, (h' faults).2 e heq⟩⟩

/-- A program that returned did so in one of the ways it can. -/
theorem Ends.of_ok {x : Prog ε σ α} {faults rest : List Bool} {a : α} {t : σ}
    (h : Ends x s returns raises) (heq : x s faults = ⟨.ok a, t, rest⟩) : returns a t := by
  have hok := (h faults).1
  rw [heq] at hok
  exact hok a rfl

/-- So did a program that raised. -/
theorem Ends.of_error {x : Prog ε σ α} {faults rest : List Bool} {e : ε} {t : σ}
    (h : Ends x s returns raises) (heq : x s faults = ⟨.error e, t, rest⟩) : raises e t := by
  have herror := (h faults).2
  rw [heq] at herror
  exact herror e rfl

/-- A program ends in one way or the other. -/
theorem Ends.cases {x : Prog ε σ α} (h : Ends x s returns raises) (faults : List Bool) :
    (∃ a, returns a (x s faults).state) ∨ ∃ e, raises e (x s faults).state := by
  cases hx : (x s faults).outcome with
  | ok a => exact .inl ⟨a, (h faults).1 a hx⟩
  | error e => exact .inr ⟨e, (h faults).2 e hx⟩

end Ends

/-! ## Programs that nothing interrupts -/

section Runs

variable {s s' : σ}

/-- With no fault ahead, the program returns the value and leaves the state. -/
def Runs (x : Prog ε σ α) (s : σ) (a : α) (s' : σ) : Prop :=
  x s [] = ⟨.ok a, s', []⟩

/-- With no fault ahead, the program returns. -/
def Returns (x : Prog ε σ α) (s : σ) : Prop :=
  ∃ a s', Runs x s a s'

/-- A step at which only the environment could fail returns. -/
theorem runs_attempt (e : ε) (s : σ) : Runs (attempt e) s .unit s :=
  rfl

theorem runs_read (f : σ → α) (s : σ) : Runs (read f : Prog ε σ α) s (f s) s :=
  rfl

/-- After a step that returns, the rest runs from there. -/
theorem runs_bind {x : Prog ε σ α} {f : α → Prog ε σ β} {a : α} {b : β} {t : σ}
    (h : Runs x s a s') (hrest : Runs (f a) s' b t) : Runs (x >>= f) s b t :=
  (bind_of_ok h).trans hrest

/-- A program that returns is not handled. -/
theorem runs_handle {x : Prog ε σ α} {handler : ε → Prog ε σ α} {a : α} (h : Runs x s a s') :
    Runs (handle x handler) s a s' :=
  handle_of_ok h

theorem returns_pure (a : α) (s : σ) : Returns (pure a : Prog ε σ α) s :=
  ⟨a, s, rfl⟩

theorem returns_modify (f : σ → σ) (s : σ) : Returns (modify f : Prog ε σ PUnit) s :=
  ⟨.unit, f s, rfl⟩

/-- After a step that returns, the rest decides. -/
theorem returns_bind_of_runs {x : Prog ε σ α} {f : α → Prog ε σ β} {a : α}
    (h : Runs x s a s') : Returns (x >>= f) s ↔ Returns (f a) s' := by
  unfold Returns Runs
  rw [bind_of_ok h]

/-- After a step that raises, nothing returns. -/
theorem not_returns_bind_of_error {x : Prog ε σ α} {f : α → Prog ε σ β} {e : ε}
    (h : x s [] = ⟨.error e, s', []⟩) : ¬ Returns (x >>= f) s := by
  rintro ⟨a, t, hruns⟩
  rw [Runs, bind_of_error h] at hruns
  exact nomatch congrArg Ending.outcome hruns

/-- A computation has to succeed before the rest decides. -/
theorem returns_lift_bind {x : Except ε α} {f : α → Prog ε σ β} :
    Returns (lift x >>= f) s ↔ ∃ a, x = .ok a ∧ Returns (f a) s := by
  cases x with
  | error e =>
      refine ⟨fun ⟨_, _, h⟩ ↦ ?_, fun ⟨_, h, _⟩ ↦ nomatch h⟩
      rw [Runs, bind_of_error (x := lift (.error e)) rfl] at h
      exact nomatch congrArg Ending.outcome h
  | ok a => simp [returns_bind_of_runs (show Runs (lift (.ok a)) s a s from rfl)]

/-- With no fault ahead of the program, there is none after it. -/
def Settles (x : Prog ε σ α) : Prop :=
  ∀ s, (x s []).faults = []

theorem settles_pure (a : α) : Settles (pure a : Prog ε σ α) :=
  fun _ ↦ rfl

theorem settles_raise (e : ε) : Settles (raise e : Prog ε σ α) :=
  fun _ ↦ rfl

theorem settles_read (f : σ → α) : Settles (read f : Prog ε σ α) :=
  fun _ ↦ rfl

theorem settles_modify (f : σ → σ) : Settles (modify f : Prog ε σ PUnit) :=
  fun _ ↦ rfl

theorem settles_attempt (e : ε) : Settles (attempt e : Prog ε σ PUnit) :=
  fun _ ↦ rfl

theorem settles_lift (x : Except ε α) : Settles (lift x : Prog ε σ α) :=
  fun _ ↦ rfl

theorem settles_bind {x : Prog ε σ α} {f : α → Prog ε σ β} (hx : Settles x)
    (hf : ∀ a, Settles (f a)) : Settles (x >>= f) := by
  intro s
  have hfirst := hx s
  rcases heq : x s [] with ⟨e | a, t, rest⟩
  · rw [heq] at hfirst
    rw [bind_of_error heq]
    exact hfirst
  · rw [heq] at hfirst
    cases hfirst
    rw [bind_of_ok heq]
    exact hf a t

theorem settles_handle {x : Prog ε σ α} {handler : ε → Prog ε σ α} (hx : Settles x)
    (hhandler : ∀ e, Settles (handler e)) : Settles (handle x handler) := by
  intro s
  have hfirst := hx s
  rcases heq : x s [] with ⟨e | a, t, rest⟩
  · rw [heq] at hfirst
    cases hfirst
    rw [handle_of_error heq]
    exact hhandler e t
  · rw [heq] at hfirst
    rw [handle_of_ok heq]
    exact hfirst

/-- A sequence returns when its first part does and the rest does after it. -/
theorem returns_bind_iff {x : Prog ε σ α} {f : α → Prog ε σ β} (hx : Settles x) :
    Returns (x >>= f) s ↔ ∃ a t, Runs x s a t ∧ Returns (f a) t := by
  constructor
  · intro h
    have hfirst := hx s
    rcases heq : x s [] with ⟨e | a, t, rest⟩ <;> rw [heq] at hfirst <;> cases hfirst
    · exact absurd h (not_returns_bind_of_error heq)
    · exact ⟨a, t, heq, (returns_bind_of_runs heq).mp h⟩
  · rintro ⟨a, t, hruns, h⟩
    exact (returns_bind_of_runs hruns).mpr h

/-- When the handler raises again, the program with it returns when the program does. -/
theorem returns_handle_iff {x : Prog ε σ α} {handler : ε → Prog ε σ α} (hx : Settles x)
    (h : ∀ e t, x s [] = ⟨.error e, t, []⟩ → ¬ Returns (handler e) t) :
    Returns (handle x handler) s ↔ Returns x s := by
  have hfirst := hx s
  unfold Returns Runs
  rcases heq : x s [] with ⟨e | a, t, rest⟩ <;> rw [heq] at hfirst <;> cases hfirst
  · rw [handle_of_error heq]
    exact iff_of_false (h e t heq) fun ⟨_, _, hok⟩ ↦ nomatch congrArg Ending.outcome hok
  · rw [handle_of_ok heq]

end Runs

end Prog
