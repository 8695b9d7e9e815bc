import Mathlib.Data.List.InsertIdx
import Aegis.Lib.Transaction

/-!
# Transactions with notes

A note is a write that changes nothing and for which nobody waits: it records in the writes of a
transaction what it has done so far, for a condition on runs to refer to. Without its notes a
server takes the same steps.
-/

/-- A state that also takes notes. -/
def Noting (_ : Type) (D : Type) : Type := D

/-- A write, or a note. -/
inductive Noted (W N : Type) where
  | write (u : W)
  | note (n : N)

namespace Noted

variable {W N : Type}

/-- The write, where it is no note. -/
def write? : Noted W N → Option W
  | write u => some u
  | note _ => none

/-- The note, where it is no write. -/
def note? : Noted W N → Option N
  | write _ => none
  | note n => some n

theorem note_eq_some {u : Noted W N} {n : N} : u.note? = some n ↔ u = note n := by
  cases u <;> simp [note?]

end Noted

/-- A note changes nothing, and clashes with nothing. -/
instance {D W N : Type} [Store D W] : Store (Noting N D) (Noted W N) where
  apply d
    | .write u => Store.apply (D := D) d u
    | .note _ => d
  clashes
    | .write u, .write v => Store.clashes D u v
    | _, _ => false

namespace Txn

variable {D W R N α β : Type}

/-- A transaction that notes nothing. -/
def lift : Txn D W R α → Txn (Noting N D) (Noted W N) R α
  | pure value => pure value
  | act writes next => act (fun d ↦ (writes d).map .write) fun d ↦ (next d).lift
  | commit outcome => commit outcome
  | abort outcome => abort outcome

/-- A transaction with a note at its first statement. -/
def noting (n : N) : Txn D W R α → Txn (Noting N D) (Noted W N) R α
  | act writes next => act (fun d ↦ (writes d).map .write ++ [.note n]) fun d ↦ (next d).lift
  | p => p.lift

/-- The transaction without its notes. -/
def erase : Txn (Noting N D) (Noted W N) R α → Txn D W R α
  | pure value => pure value
  | act writes next => act (fun d ↦ (writes d).filterMap Noted.write?) fun d ↦ (next d).erase
  | commit outcome => commit outcome
  | abort outcome => abort outcome

theorem erase_lift (p : Txn D W R α) : (p.lift : Txn (Noting N D) (Noted W N) R α).erase = p := by
  induction p with
  | pure value => rfl
  | act writes next ih =>
      rw [lift, erase]
      refine congrArg₂ act (funext fun d ↦ ?_) (funext ih)
      rw [List.filterMap_map]
      exact List.filterMap_some
  | commit outcome => rfl
  | abort outcome => rfl

theorem erase_noting (n : N) (p : Txn D W R α) : (p.noting n).erase = p := by
  cases p with
  | act writes next =>
      rw [noting, erase]
      refine congrArg₂ act (funext fun d ↦ ?_) (funext fun d ↦ erase_lift (next d))
      rw [List.filterMap_append, List.filterMap_map]
      exact (List.append_nil _).trans List.filterMap_some
  | pure value => rfl
  | commit outcome => rfl
  | abort outcome => rfl

/-- One transaction after another notes nothing where neither does. -/
theorem lift_bind (p : Txn D W R α) (k : α → Txn D W R β) :
    ((p >>= k).lift : Txn (Noting N D) (Noted W N) R β) = p.lift >>= fun a ↦ (k a).lift := by
  show (p.bind k).lift = (p.lift).bind fun a ↦ (k a).lift
  induction p with
  | pure value => rfl
  | act writes next ih => exact congrArg (act _) (funext ih)
  | commit outcome => rfl
  | abort outcome => rfl

/-- Another name for the outcome is another name for it without notes. -/
theorem erase_map_outcome {S : Type} (f : R → S) (p : Txn (Noting N D) (Noted W N) R α) :
    (p.mapOutcome f).erase = p.erase.mapOutcome f := by
  induction p with
  | pure value => rfl
  | act writes next ih => exact congrArg (act _) (funext ih)
  | commit outcome => rfl
  | abort outcome => rfl

/-- One transaction after another, without notes. -/
theorem erase_bind {p : Txn (Noting N D) (Noted W N) R α}
    {k : α → Txn (Noting N D) (Noted W N) R β} {q : Txn D W R α} {j : α → Txn D W R β}
    (hp : p.erase = q) (hk : ∀ a, (k a).erase = j a) : (p >>= k).erase = q >>= j := by
  subst hp
  obtain rfl : (fun a ↦ (k a).erase) = j := funext hk
  show (p.bind k).erase = p.erase.bind fun a ↦ (k a).erase
  induction p with
  | pure value => rfl
  | act writes next ih => exact congrArg (act _) (funext ih)
  | commit outcome => rfl
  | abort outcome => rfl

end Txn

namespace Transaction

variable {D W R N Q α β : Type} [Store D W]

/-- The writes of a transaction, without its notes, leave what they leave with them. -/
theorem view_filter_map_write (ws : List (Noted W N)) (d : D) :
    view (ws.filterMap Noted.write?) d = view (D := Noting N D) ws d := by
  induction ws generalizing d with
  | nil => rfl
  | cons u us ih =>
      cases u with
      | write u => exact ih _
      | note n => exact ih _

/-- Writes leave what they leave where nothing is noted. -/
theorem view_map_write (ws : List W) (d : D) :
    view (D := Noting N D) (ws.map Noted.write) d = view ws d := by
  induction ws generalizing d with
  | nil => rfl
  | cons u us ih => exact ih _

/-! ## Rules -/

section
variable {S : Type} {rely : List (Noted W N) → World (Noting N D) Q S → World (Noting N D) Q S → Prop}
variable {ends : Bool → R → World (Noting N D) Q S → Noting N D → Prop}
variable {ws : List (Noted W N)} {w : World (Noting N D) Q S}

/-- What notes nothing meets the rule for transactions without notes, if what it relies on depends
on the notes only. -/
theorem wp_noted_lift {p : Txn D W R α}
    {post : α → List (Noted W N) → World (Noting N D) Q S → Prop}
    (hsame : ∀ us : List W, rely (ws ++ us.map .write) = rely ws)
    (h : Wp (D := D) (rely ws) ends p
      (fun a vs v ↦ ∀ us, vs = ws.filterMap Noted.write? ++ us → post a (ws ++ us.map .write) v)
      (ws.filterMap Noted.write?) w) :
    WpNoted rely ends p.lift post ws w := by
  induction p generalizing ws w with
  | pure value =>
      have hvalue := h [] (List.append_nil _).symm
      rwa [List.map_nil, List.append_nil] at hvalue
  | act writes next ih =>
      intro w' hw
      have hnext := h w' hw
      rw [view_filter_map_write] at hnext
      have hwrites : ∀ us : List W, (ws ++ us.map Noted.write).filterMap Noted.write? =
          ws.filterMap Noted.write? ++ us := by
        intro us
        rw [List.filterMap_append, List.filterMap_map]
        exact congrArg _ List.filterMap_some
      refine ih _ (fun us ↦ ?_) ?_
      · rw [List.append_assoc, ← List.map_append, hsame, hsame]
      · rw [hwrites, hsame]
        refine hnext.mono fun a vs v hpost us hus ↦ ?_
        have := hpost (_ ++ us) (hus.trans (List.append_assoc _ _ _))
        rwa [List.map_append, ← List.append_assoc] at this
  | commit outcome => exact fun w' hw ↦ by simpa [view_filter_map_write] using h w' hw
  | abort outcome => exact h

/-- With another name for its outcome, the transaction ends as it does. -/
theorem wp_noted_map_outcome {T : Type} {name : R → T}
    {ends : Bool → T → World (Noting N D) Q S → Noting N D → Prop}
    {p : Txn (Noting N D) (Noted W N) R α}
    {post : α → List (Noted W N) → World (Noting N D) Q S → Prop} :
    WpNoted rely ends (p.mapOutcome name) post ws w ↔
      WpNoted rely (fun committed outcome ↦ ends committed (name outcome)) p post ws w := by
  induction p generalizing ws w with
  | pure value => exact Iff.rfl
  | act writes next ih => exact forall_congr' fun w' ↦ forall_congr' fun _ ↦ ih _
  | commit outcome => exact Iff.rfl
  | abort outcome => exact Iff.rfl

end

/-! ## A server without its notes -/

/-- A transaction in flight, without its notes. -/
def Flight.erase (f : Flight (Noting N D) (Noted W N) Q R) : Flight D W Q R :=
  ⟨f.request, f.pending.filterMap Noted.write?, f.program.erase⟩

/-- A world is the same with notes. -/
def World.erase (w : World (Noting N D) Q R) : World D Q R :=
  ⟨w.db, w.log⟩

/-- A server without its notes. -/
def Server.erase (s : Server (Noting N D) (Noted W N) Q R) : Server D W Q R :=
  ⟨s.world.erase, s.flights.map Flight.erase⟩

/-- Nobody waits for a note. -/
theorem blocked_erase (others : List (Flight (Noting N D) (Noted W N) Q R))
    (writes : List (Noted W N)) :
    blocked (others.map Flight.erase) (writes.filterMap Noted.write?) =
      blocked others writes := by
  have hclash : ∀ (pending : List (Noted W N)) (u : W),
      (pending.filterMap Noted.write?).any (Store.clashes D u) =
        pending.any (Store.clashes (Noting N D) (.write u)) := by
    intro pending u
    rw [List.any_filterMap]
    refine congrArg (List.any pending) (funext fun v ↦ ?_)
    cases v <;> rfl
  unfold blocked
  rw [List.any_filterMap]
  refine congrArg (List.any writes) (funext fun u ↦ ?_)
  cases u with
  | write u =>
      show (others.map Flight.erase).any _ = _
      rw [List.any_map]
      exact congrArg (List.any others) (funext fun f ↦ hclash f.pending u)
  | note n =>
      refine (List.any_eq_false.mpr fun f _ ↦ ?_).symm
      rw [List.any_eq_true]
      rintro ⟨v, _, hv⟩
      cases v <;> cases hv

/-- A transaction moves as it does without its notes. -/
theorem move_erase (others : List (Flight (Noting N D) (Noted W N) Q R))
    (f : Flight (Noting N D) (Noted W N) Q R) (w : World (Noting N D) Q R) :
    move (others.map Flight.erase) f.erase w.erase =
      ((move others f w).1.erase, (move others f w).2.map Flight.erase) := by
  obtain ⟨q, pending, p⟩ := f
  cases p with
  | pure value => exact value.elim
  | commit outcome =>
      simp only [move, Flight.erase, Txn.erase, view_filter_map_write]
      rfl
  | abort outcome => rfl
  | act writes next =>
      have hblocked := blocked_erase others (writes (view (D := Noting N D) pending w.db))
      have hview : view (pending.filterMap Noted.write?) w.erase.db =
          view (D := Noting N D) pending w.db := view_filter_map_write pending w.erase.db
      simp only [move, Flight.erase, Txn.erase, hview, hblocked]
      split
      · rfl
      · cases hnext : next (view (D := Noting N D) pending w.db) with
        | pure value => exact value.elim
        | abort outcome => rfl
        | _ => simp only [Txn.erase, Option.map_some, Flight.erase, List.filterMap_append]

variable (program : Q → Txn (Noting N D) (Noted W N) R Empty)

/-- A step is the same without notes. -/
theorem step_erase (s : Server (Noting N D) (Noted W N) Q R) (l : Label Q) :
    (step (fun q ↦ (program q).erase) s.erase l).2 = (step program s l).2.erase := by
  have hmoved : ∀ others (f : Flight (Noting N D) (Noted W N) Q R),
      moved (others.map Flight.erase) f.erase s.world.erase =
        (moved others f s.world).erase := by
    intro others f
    rw [moved, move_erase]
    cases h : (move others f s.world).2 <;> simp [moved, Server.erase, h]
  cases l with
  | start q => exact hmoved s.flights ⟨q, [], program q⟩
  | advance i =>
      have hflight : s.erase.flights[i]? = s.flights[i]?.map Flight.erase := List.getElem?_map
      simp only [step, hflight]
      cases s.flights[i]? with
      | none => rfl
      | some f =>
          show moved ((s.flights.map Flight.erase).eraseIdx i) f.erase s.world.erase = _
          rw [List.eraseIdx_map]
          exact hmoved _ f
  | cancel i =>
      simp only [step, Server.erase, List.eraseIdx_map]

/-- So is a run. -/
theorem visited_erase (s : Server (Noting N D) (Noted W N) Q R) (ls : List (Label Q)) :
    Machine.visited (step fun q ↦ (program q).erase) s.erase ls =
      (Machine.visited (step program) s ls).map fun p ↦ (p.1, p.2.erase) := by
  induction ls generalizing s with
  | nil => rfl
  | cons l ls ih =>
      rw [Machine.visited, Machine.visited, List.map_cons, ← ih, ← step_erase]

end Transaction
