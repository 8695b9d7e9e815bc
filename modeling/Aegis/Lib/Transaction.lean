import Aegis.Lib.Machine

/-!
# Transactions at read committed

A transaction is a list of statements, each of which computes its writes and the rest of the
transaction from what it sees: the committed state with the transaction's own writes over it.
Other transactions commit between two statements, never during one. A statement whose writes
clash with the writes of another transaction waits until that transaction ends.

`Wp` is the rule for one transaction among others: `rely` says what the others may commit while
it runs, `ends` what it does when it ends. `invariant_run` makes an invariant of all runs from
these.
-/

/-- A state that takes writes. -/
class Store (D : Type) (W : outParam Type) where
  /-- The state after a write. -/
  apply : D → W → D
  /-- Two transactions cannot hold both writes: one of them waits for the other to end. -/
  clashes : W → W → Bool

/-- What is left of a transaction. -/
inductive Txn (D W R α : Type) where
  /-- No statement is left. -/
  | pure (value : α)
  /-- A statement: its writes and what follows, from what it sees. -/
  | act (writes : D → List W) (next : D → Txn D W R α)
  /-- Commit, and end with the outcome. -/
  | commit (outcome : R)
  /-- Roll back, and end with the outcome. -/
  | abort (outcome : R)

namespace Txn

variable {D W R α β : Type}

/-- One transaction after another. -/
def bind : Txn D W R α → (α → Txn D W R β) → Txn D W R β
  | pure value, k => k value
  | act writes next, k => act writes fun d ↦ (next d).bind k
  | commit outcome, _ => commit outcome
  | abort outcome, _ => abort outcome

instance : Monad (Txn D W R) where
  pure := pure
  bind := bind

/-- Sequencing is associative. -/
theorem bind_bind {γ : Type} (p : Txn D W R α) (k : α → Txn D W R β) (l : β → Txn D W R γ) :
    p >>= k >>= l = p >>= fun a ↦ k a >>= l := by
  show (p.bind k).bind l = p.bind fun a ↦ (k a).bind l
  induction p with
  | pure value => rfl
  | act writes next ih => exact congrArg (act writes) (funext ih)
  | commit outcome | abort outcome => rfl

/-- Statements for each of some items, in order. -/
def each : List α → (α → Txn D W R Unit) → Txn D W R Unit
  | [], _ => pure ()
  | a :: as, k => (k a).bind fun _ ↦ each as k

/-- A statement that only reads. -/
def read (f : D → α) : Txn D W R α :=
  act (fun _ ↦ []) fun d ↦ pure (f d)

/-- A statement that writes. -/
def write (writes : D → List W) : Txn D W R Unit :=
  act writes fun _ ↦ pure ()

/-- The transaction with another name for its outcome. -/
def mapOutcome {S : Type} (f : R → S) : Txn D W R α → Txn D W S α
  | pure value => pure value
  | act writes next => act writes fun d ↦ (next d).mapOutcome f
  | commit outcome => commit (f outcome)
  | abort outcome => abort (f outcome)

/-- Whatever it sees, the transaction writes only what meets a condition, and does not commit. -/
def Within (P : W → Prop) : Txn D W R α → Prop
  | pure _ => True
  | act writes next => ∀ d, (∀ u ∈ writes d, P u) ∧ (next d).Within P
  | commit _ => False
  | abort _ => True

/-- Whatever it sees, the transaction writes only what meets a condition. -/
def Only (P : W → Prop) : Txn D W R α → Prop
  | act writes next => ∀ d, (∀ u ∈ writes d, P u) ∧ (next d).Only P
  | pure _ | commit _ | abort _ => True

section
variable {P : W → Prop}

/-- One transaction after another stays within the condition. -/
theorem Within.bind {p : Txn D W R α} {k : α → Txn D W R β} (hp : p.Within P)
    (hk : ∀ a, (k a).Within P) : (p >>= k).Within P := by
  show (p.bind k).Within P
  induction p with
  | pure value => exact hk value
  | act writes next ih => exact fun d ↦ ⟨(hp d).1, ih d (hp d).2⟩
  | commit outcome => exact hp.elim
  | abort outcome => trivial

theorem within_pure (a : α) : (Pure.pure a : Txn D W R α).Within P :=
  trivial

theorem within_read (f : D → α) : (read f : Txn D W R α).Within P :=
  fun _ ↦ ⟨nofun, trivial⟩

theorem within_write {writes : D → List W} (h : ∀ d, ∀ u ∈ writes d, P u) :
    (write writes : Txn D W R Unit).Within P :=
  fun d ↦ ⟨h d, trivial⟩

theorem within_each {as : List α} {k : α → Txn D W R Unit} (h : ∀ a, (k a).Within P) :
    (each as k).Within P := by
  induction as with
  | nil => trivial
  | cons a as ih => exact (h a).bind fun _ ↦ ih

/-- So does a transaction that stays within the condition. -/
theorem Within.only {p : Txn D W R α} (hp : p.Within P) : p.Only P := by
  induction p with
  | act writes next ih => exact fun d ↦ ⟨(hp d).1, ih d (hp d).2⟩
  | pure value | commit outcome | abort outcome => trivial

/-- One transaction after another writes only what the two write. -/
theorem Only.bind {p : Txn D W R α} {k : α → Txn D W R β} (hp : p.Only P)
    (hk : ∀ a, (k a).Only P) : (p >>= k).Only P := by
  show (p.bind k).Only P
  induction p with
  | pure value => exact hk value
  | act writes next ih => exact fun d ↦ ⟨(hp d).1, ih d (hp d).2⟩
  | commit outcome | abort outcome => trivial

theorem only_map_outcome {S : Type} {f : R → S} {p : Txn D W R α} :
    (p.mapOutcome f).Only P ↔ p.Only P := by
  induction p with
  | act writes next ih => exact forall_congr' fun d ↦ and_congr_right' (ih d)
  | pure value | commit outcome | abort outcome => exact Iff.rfl

end

end Txn

namespace Transaction

variable {D W R Q : Type}

/-- A transaction that has ended: the request, whether it was committed, and its outcome. -/
structure Entry (Q R : Type) where
  request : Q
  committed : Bool
  outcome : R

/-- What is committed, with the transactions that have ended, the last one first. -/
structure World (D Q R : Type) where
  db : D
  log : List (Entry Q R)

/-- A transaction ends and leaves a state. -/
def World.ended (w : World D Q R) (request : Q) (committed : Bool) (outcome : R) (db : D) :
    World D Q R :=
  ⟨db, ⟨request, committed, outcome⟩ :: w.log⟩

variable [Store D W]

/-- What a transaction with some writes sees. -/
def view (pending : List W) (d : D) : D :=
  pending.foldl Store.apply d

@[simp] theorem view_nil (d : D) : view ([] : List W) d = d := rfl

theorem view_append (ws us : List W) (d : D) : view (ws ++ us) d = view us (view ws d) :=
  List.foldl_append

/-- What every write leaves as it is, the writes of a transaction leave as it is. -/
theorem view_congr {β : Type} {f : D → β} {ws : List W}
    (h : ∀ u ∈ ws, ∀ d, f (Store.apply d u) = f d) (d : D) : f (view ws d) = f d := by
  induction ws generalizing d with
  | nil => rfl
  | cons u us ih =>
      obtain ⟨hu, hus⟩ := List.forall_mem_cons.mp h
      exact (ih hus _).trans (hu d)

/-! ## A transaction alone -/

/-- A transaction without others: whether it is committed, its outcome and what it leaves. -/
def run : Txn D W R Empty → List W → D → (Bool × R) × D
  | .act writes next, pending, d =>
      let seen := view pending d
      run (next seen) (pending ++ writes seen) d
  | .commit outcome, pending, d => ((true, outcome), view pending d)
  | .abort outcome, _, d => ((false, outcome), d)

/-- What every write of the transaction leaves as it is, the transaction leaves as it is. -/
theorem run_congr {β : Type} {f : D → β} {P : W → Prop} {p : Txn D W R Empty} (hp : p.Only P)
    (hf : ∀ u, P u → ∀ d, f (Store.apply d u) = f d) {ws : List W} (hws : ∀ u ∈ ws, P u) (d : D) :
    f (run p ws d).2 = f d := by
  induction p generalizing ws with
  | pure value => exact value.elim
  | act writes next ih =>
      obtain ⟨hwrites, hnext⟩ := hp (view ws d)
      exact ih _ hnext fun u hu ↦ (List.mem_append.mp hu).elim (hws u) (hwrites u)
  | commit outcome => exact view_congr (fun u hu ↦ hf u (hws u hu)) d
  | abort outcome => rfl

/-- A transaction that is not committed leaves everything as it is. -/
theorem run_of_not_committed {p : Txn D W R Empty} {ws : List W} {d : D}
    (h : (run p ws d).1.1 = false) : (run p ws d).2 = d := by
  induction p generalizing ws with
  | pure value => exact value.elim
  | act writes next ih => exact ih _ h
  | commit outcome => cases h
  | abort outcome => rfl

/-! ## Transactions among each other -/

/-- A transaction that has begun. -/
structure Flight (D W Q R : Type) where
  request : Q
  pending : List W
  program : Txn D W R Empty

/-- The committed state and the transactions in flight, the one that moved last first. -/
structure Server (D W Q R : Type) where
  world : World D Q R
  flights : List (Flight D W Q R)

/-- What happens next. -/
inductive Label (Q : Type) where
  /-- A request arrives, and its first statement is run. -/
  | start (request : Q)
  /-- The next statement of a transaction is run, or its commit. -/
  | advance (i : Nat)
  /-- A transaction is lost: its connection, its process or the request itself. -/
  | cancel (i : Nat)

/-- Whether writes wait for one of the transactions. -/
def blocked (others : List (Flight D W Q R)) (writes : List W) : Bool :=
  writes.any fun w ↦ others.any fun f ↦ f.pending.any (Store.clashes D w)

/-- Run the next statement of a transaction. -/
def move (others : List (Flight D W Q R)) (f : Flight D W Q R) (w : World D Q R) :
    World D Q R × Option (Flight D W Q R) :=
  match f.program with
  | .act writes next =>
      let seen := view f.pending w.db
      if blocked others (writes seen) then (w, some f)
      else
        match next seen with
        | .abort outcome => (w.ended f.request false outcome w.db, none)
        | rest => (w, some ⟨f.request, f.pending ++ writes seen, rest⟩)
  | .commit outcome => (w.ended f.request true outcome (view f.pending w.db), none)
  | .abort outcome => (w.ended f.request false outcome w.db, none)

/-- The server after one of its transactions has moved. -/
def moved (others : List (Flight D W Q R)) (f : Flight D W Q R) (w : World D Q R) :
    Server D W Q R :=
  ⟨(move others f w).1, (move others f w).2.toList ++ others⟩

/-- The transactions that a step does not move. -/
def others (s : Server D W Q R) : Label Q → List (Flight D W Q R)
  | .start _ => s.flights
  | .advance i | .cancel i => s.flights.eraseIdx i

/-- The writes that a step commits. -/
def committing (s : Server D W Q R) : Label Q → List W
  | .advance i =>
      match s.flights[i]? with
      | some ⟨_, pending, .commit _⟩ => pending
      | _ => []
  | .start _ | .cancel _ => []

variable (program : Q → Txn D W R Empty)

/-- One step of the server. -/
def step (s : Server D W Q R) : Label Q → Unit × Server D W Q R
  | .start request => ((), moved s.flights ⟨request, [], program request⟩ s.world)
  | .advance i =>
      match s.flights[i]? with
      | some f => ((), moved (s.flights.eraseIdx i) f s.world)
      | none => ((), s)
  | .cancel i => ((), ⟨s.world, s.flights.eraseIdx i⟩)

/-- A transaction that moves changes what is committed only by its commit. -/
theorem db_move (others : List (Flight D W Q R)) (f : Flight D W Q R) (w : World D Q R) :
    (move others f w).1.db =
      match f.program with
      | .commit _ => view f.pending w.db
      | _ => w.db := by
  obtain ⟨q, pending, p⟩ := f
  cases p with
  | pure value => exact value.elim
  | act writes next =>
      simp only [move]
      split
      · rfl
      · split <;> rfl
  | commit outcome => rfl
  | abort outcome => rfl

/-- A step changes what is committed by the writes it commits. -/
theorem db_step (s : Server D W Q R) (l : Label Q) :
    (step program s l).2.world.db = view (committing s l) s.world.db := by
  cases l with
  | start q =>
      refine (db_move _ _ _).trans ?_
      show (match program q with
        | .commit _ => s.world.db
        | _ => s.world.db) = s.world.db
      split <;> rfl
  | advance i =>
      simp only [step, committing]
      cases s.flights[i]? with
      | none => rfl
      | some f =>
          obtain ⟨q, pending, p⟩ := f
          refine (db_move _ _ _).trans ?_
          cases p <;> rfl
  | cancel i => rfl

/-! ## The rule for one transaction -/

/-- What others commit: nothing at all, and one thing after another. -/
structure Interference (rely : World D Q R → World D Q R → Prop) : Prop where
  refl : ∀ w, rely w w
  trans : ∀ {a b c}, rely a b → rely b c → rely a c

/-- A transaction that runs alone relies on nothing. -/
theorem interference_eq : Interference fun w w' : World D Q R ↦ w' = w :=
  ⟨fun _ ↦ rfl, fun h₁ h₂ ↦ h₂.trans h₁⟩

section
variable {S α β : Type}

/-- However others change what is committed within `rely`, the transaction ends within `ends`, or
it leaves a value, its writes and the world within `post`. -/
def Wp (rely : World D Q S → World D Q S → Prop) (ends : Bool → R → World D Q S → D → Prop) :
    Txn D W R α → (α → List W → World D Q S → Prop) → List W → World D Q S → Prop
  | .pure value, post, ws, w => post value ws w
  | .act writes next, post, ws, w =>
      ∀ w', rely w w' →
        Wp rely ends (next (view ws w'.db)) post (ws ++ writes (view ws w'.db)) w'
  | .commit outcome, _, ws, w => ∀ w', rely w w' → ends true outcome w' (view ws w'.db)
  | .abort outcome, _, _, w => ∀ w', rely w w' → ends false outcome w' w'.db

variable {rely : World D Q S → World D Q S → Prop} {ends : Bool → R → World D Q S → D → Prop}
variable {post post' : α → List W → World D Q S → Prop} {ws : List W} {w w' : World D Q S}

/-- One transaction after another meets what the second leaves. -/
theorem wp_bind {p : Txn D W R α} {k : α → Txn D W R β}
    {post : β → List W → World D Q S → Prop} :
    Wp rely ends (p >>= k) post ws w ↔
      Wp rely ends p (fun a ws w ↦ Wp rely ends (k a) post ws w) ws w := by
  show Wp rely ends (p.bind k) post ws w ↔ _
  induction p generalizing ws w with
  | pure value => exact Iff.rfl
  | act writes next ih => exact forall_congr' fun w' ↦ forall_congr' fun _ ↦ ih _
  | commit outcome => exact Iff.rfl
  | abort outcome => exact Iff.rfl

/-- What is left may be weakened. -/
theorem Wp.mono {p : Txn D W R α} (h : Wp rely ends p post ws w)
    (himp : ∀ a ws w, post a ws w → post' a ws w) : Wp rely ends p post' ws w := by
  induction p generalizing ws w with
  | pure value => exact himp _ _ _ h
  | act writes next ih => exact fun w' hw ↦ ih _ (h w' hw)
  | commit outcome => exact h
  | abort outcome => exact h

/-- Others may commit before the transaction takes its next step. -/
theorem Wp.of_rely {p : Txn D W R Empty} {post : Empty → List W → World D Q S → Prop}
    (hrely : Interference rely) (h : Wp rely ends p post ws w) (hw : rely w w') :
    Wp rely ends p post ws w' := by
  cases p with
  | pure value => exact value.elim
  | act writes next => exact fun u hu ↦ h u (hrely.trans hw hu)
  | commit outcome => exact fun u hu ↦ h u (hrely.trans hw hu)
  | abort outcome => exact fun u hu ↦ h u (hrely.trans hw hu)

/-- Alone, the transaction ends as the rule says. -/
theorem Wp.run {p : Txn D W R Empty} {post : Empty → List W → World D Q S → Prop}
    (hrely : Interference rely) (h : Wp rely ends p post ws w) :
    ends (run p ws w.db).1.1 (run p ws w.db).1.2 w (run p ws w.db).2 := by
  induction p generalizing ws with
  | pure value => exact value.elim
  | act writes next ih => exact ih _ (h w (hrely.refl w))
  | commit outcome => exact h w (hrely.refl w)
  | abort outcome => exact h w (hrely.refl w)

/-- With another name for its outcome, the transaction ends as it does. -/
theorem wp_map_outcome {T : Type} {name : R → T} {ends : Bool → T → World D Q S → D → Prop}
    {p : Txn D W R α} :
    Wp rely ends (p.mapOutcome name) post ws w ↔
      Wp rely (fun committed outcome ↦ ends committed (name outcome)) p post ws w := by
  induction p generalizing ws w with
  | pure value => exact Iff.rfl
  | act writes next ih => exact forall_congr' fun w' ↦ forall_congr' fun _ ↦ ih _
  | commit outcome => exact Iff.rfl
  | abort outcome => exact Iff.rfl

/-- A transaction within a condition leaves a value and some writes that meet it. -/
theorem wp_of_within {P : W → Prop} {p : Txn D W R α} (hrely : Interference rely)
    (hp : p.Within P) (habort : ∀ o w', rely w w' → ends false o w' w'.db)
    (h : ∀ a us w', rely w w' → (∀ u ∈ us, P u) → post a (ws ++ us) w') :
    Wp rely ends p post ws w := by
  induction p generalizing ws w with
  | pure value =>
      have := h value [] w (hrely.refl w) nofun
      rwa [List.append_nil] at this
  | act writes next ih =>
      intro w' hw
      obtain ⟨hwrites, hnext⟩ := hp (view ws w'.db)
      refine ih _ hnext (fun o v hv ↦ habort o v (hrely.trans hw hv)) fun a us v hv hus ↦ ?_
      rw [List.append_assoc]
      refine h a _ v (hrely.trans hw hv) fun u hu ↦ ?_
      exact (List.mem_append.mp hu).elim (hwrites u) (hus u)
  | commit outcome => exact hp.elim
  | abort outcome => exact habort outcome

@[simp] theorem wp_pure {a : α} :
    Wp rely ends (Pure.pure a : Txn D W R α) post ws w ↔ post a ws w := Iff.rfl

/-- A statement that reads sees what others have committed, with its own writes over it. -/
@[simp] theorem wp_read {f : D → α} :
    Wp rely ends (Txn.read f : Txn D W R α) post ws w ↔
      ∀ w', rely w w' → post (f (view ws w'.db)) ws w' := by
  simp [Txn.read, Wp]

@[simp] theorem wp_write {writes : D → List W} {post : Unit → List W → World D Q S → Prop} :
    Wp rely ends (Txn.write writes : Txn D W R Unit) post ws w ↔
      ∀ w', rely w w' → post () (ws ++ writes (view ws w'.db)) w' := Iff.rfl

@[simp] theorem wp_abort {o : R} :
    Wp rely ends (Txn.abort o : Txn D W R α) post ws w ↔
      ∀ w', rely w w' → ends false o w' w'.db := Iff.rfl

@[simp] theorem wp_commit {o : R} :
    Wp rely ends (Txn.commit o : Txn D W R α) post ws w ↔
      ∀ w', rely w w' → ends true o w' (view ws w'.db) := Iff.rfl

end

/-! ## What a transaction relies on as it goes -/

section
variable {S α β : Type}

/-- As `Wp`, but what the transaction relies on may depend on what it has written so far, which
may be notes that change nothing. -/
def WpNoted (rely : List W → World D Q S → World D Q S → Prop)
    (ends : Bool → R → World D Q S → D → Prop) :
    Txn D W R α → (α → List W → World D Q S → Prop) → List W → World D Q S → Prop
  | .pure value, post, ws, w => post value ws w
  | .act writes next, post, ws, w =>
      ∀ w', rely ws w w' →
        WpNoted rely ends (next (view ws w'.db)) post (ws ++ writes (view ws w'.db)) w'
  | .commit outcome, _, ws, w => ∀ w', rely ws w w' → ends true outcome w' (view ws w'.db)
  | .abort outcome, _, ws, w => ∀ w', rely ws w w' → ends false outcome w' w'.db

variable {rely : List W → World D Q S → World D Q S → Prop}
variable {ends : Bool → R → World D Q S → D → Prop}
variable {post post' : α → List W → World D Q S → Prop} {ws : List W} {w w' : World D Q S}

/-- A transaction that relies on the same throughout. -/
theorem wp_noted_iff {rely : World D Q S → World D Q S → Prop} {p : Txn D W R α} :
    WpNoted (fun _ ↦ rely) ends p post ws w ↔ Wp rely ends p post ws w := by
  induction p generalizing ws w with
  | pure value => exact Iff.rfl
  | act writes next ih => exact forall_congr' fun w' ↦ forall_congr' fun _ ↦ ih _
  | commit outcome => exact Iff.rfl
  | abort outcome => exact Iff.rfl

theorem wp_noted_bind {p : Txn D W R α} {k : α → Txn D W R β}
    {post : β → List W → World D Q S → Prop} :
    WpNoted rely ends (p >>= k) post ws w ↔
      WpNoted rely ends p (fun a ws w ↦ WpNoted rely ends (k a) post ws w) ws w := by
  show WpNoted rely ends (p.bind k) post ws w ↔ _
  induction p generalizing ws w with
  | pure value => exact Iff.rfl
  | act writes next ih => exact forall_congr' fun w' ↦ forall_congr' fun _ ↦ ih _
  | commit outcome => exact Iff.rfl
  | abort outcome => exact Iff.rfl

theorem WpNoted.mono {p : Txn D W R α} (h : WpNoted rely ends p post ws w)
    (himp : ∀ a ws w, post a ws w → post' a ws w) : WpNoted rely ends p post' ws w := by
  induction p generalizing ws w with
  | pure value => exact himp _ _ _ h
  | act writes next ih => exact fun w' hw ↦ ih _ (h w' hw)
  | commit outcome => exact h
  | abort outcome => exact h

theorem WpNoted.of_rely {p : Txn D W R Empty} {post : Empty → List W → World D Q S → Prop}
    (hrely : ∀ ws, Interference (rely ws)) (h : WpNoted rely ends p post ws w)
    (hw : rely ws w w') : WpNoted rely ends p post ws w' := by
  cases p with
  | pure value => exact value.elim
  | act writes next => exact fun u hu ↦ h u ((hrely ws).trans hw hu)
  | commit outcome => exact fun u hu ↦ h u ((hrely ws).trans hw hu)
  | abort outcome => exact fun u hu ↦ h u ((hrely ws).trans hw hu)

@[simp] theorem wp_noted_pure {a : α} :
    WpNoted rely ends (Pure.pure a : Txn D W R α) post ws w ↔ post a ws w := Iff.rfl

@[simp] theorem wp_noted_read {f : D → α} :
    WpNoted rely ends (Txn.read f : Txn D W R α) post ws w ↔
      ∀ w', rely ws w w' → post (f (view ws w'.db)) ws w' := by
  simp [Txn.read, WpNoted]

end

/-! ## The rule for all runs -/

section
variable {rely : Q → List W → World D Q R → World D Q R → Prop}
variable {ends : Q → Bool → R → World D Q R → D → Prop}
variable {program}

/-- A transaction in flight ends as its request does, if others keep to what it relies on. -/
def Flight.Safe (rely : Q → List W → World D Q R → World D Q R → Prop)
    (ends : Q → Bool → R → World D Q R → D → Prop) (f : Flight D W Q R) (w : World D Q R) :
    Prop :=
  WpNoted (rely f.request) (ends f.request) f.program (fun value _ _ ↦ value.elim) f.pending w

/-- A transaction has ended between two worlds. -/
def Ended (ends : Q → Bool → R → World D Q R → D → Prop) (w w' : World D Q R) : Prop :=
  ∃ q committed outcome db, w' = w.ended q committed outcome db ∧ ends q committed outcome w db

/-- A transaction that moves stays safe, or it ends. -/
theorem safe_move (hrely : ∀ q ws, Interference (rely q ws)) {fs : List (Flight D W Q R)}
    {f : Flight D W Q R} {w : World D Q R} (h : f.Safe rely ends w) :
    ((move fs f w).1 = w ∧ ∃ g, (move fs f w).2 = some g ∧ g.Safe rely ends w) ∨
      ((move fs f w).2 = none ∧ Ended ends w (move fs f w).1) := by
  obtain ⟨q, ws, p⟩ := f
  cases p with
  | pure value => exact value.elim
  | act writes next =>
      have hnext := h w ((hrely q _).refl w)
      simp only [move]
      split
      · exact .inl ⟨rfl, _, rfl, h⟩
      · split
        · rename_i outcome hprogram
          rw [hprogram] at hnext
          exact .inr ⟨rfl, q, false, outcome, w.db, rfl, hnext w ((hrely q _).refl w)⟩
        · exact .inl ⟨rfl, _, rfl, hnext⟩
  | commit outcome =>
      exact .inr ⟨rfl, q, true, outcome, _, rfl, h w ((hrely q _).refl w)⟩
  | abort outcome =>
      exact .inr ⟨rfl, q, false, outcome, _, rfl, h w ((hrely q _).refl w)⟩

/-- A step leaves the world as it is, or a transaction ends. The transactions it does not move
are still there. -/
theorem step_cases (hrely : ∀ q ws, Interference (rely q ws)) {s : Server D W Q R} {l : Label Q}
    (henter : ∀ q, l = .start q → Flight.Safe rely ends ⟨q, [], program q⟩ s.world)
    (hsafe : ∀ f ∈ s.flights, f.Safe rely ends s.world) :
    ((step program s l).2.world = s.world ∧
        ∀ f ∈ (step program s l).2.flights, f.Safe rely ends s.world) ∨
      ((step program s l).2.flights = others s l ∧
        Ended ends s.world (step program s l).2.world) := by
  have hmoved : ∀ fs f, (∀ g ∈ fs, g ∈ s.flights) → f.Safe rely ends s.world →
      ((moved fs f s.world).world = s.world ∧
        ∀ g ∈ (moved fs f s.world).flights, g.Safe rely ends s.world) ∨
      ((moved fs f s.world).flights = fs ∧ Ended ends s.world (moved fs f s.world).world) := by
    intro fs f hfs hf
    obtain ⟨hw, g, hg, hgsafe⟩ | ⟨hnone, hended⟩ := safe_move hrely (f := f) hf
    · refine .inl ⟨hw, fun k hk ↦ ?_⟩
      simp only [moved, hg, Option.toList_some, List.cons_append, List.nil_append,
        List.mem_cons] at hk
      rcases hk with rfl | hk
      · exact hgsafe
      · exact hsafe k (hfs k hk)
    · exact .inr ⟨by simp [moved, hnone], hended⟩
  cases l with
  | start q => exact hmoved _ _ (fun _ h ↦ h) (henter q rfl)
  | advance i =>
      simp only [step, others]
      split
      · rename_i f hf
        exact hmoved _ f (fun _ h ↦ List.mem_of_mem_eraseIdx h) (hsafe f (List.mem_of_getElem? hf))
      · exact .inl ⟨rfl, hsafe⟩
  | cancel i => exact .inl ⟨rfl, fun f hf ↦ hsafe f (List.mem_of_mem_eraseIdx hf)⟩

/-- An invariant that every ending transaction keeps, together with what the transactions in
flight rely on, holds at every step of every run that meets the condition. -/
theorem invariant_run {inv : World D Q R → Prop} {condition : Server D W Q R → Label Q → Prop}
    (hrely : ∀ q ws, Interference (rely q ws))
    (henter : ∀ s q, inv s.world → condition s (.start q) →
      Flight.Safe rely ends ⟨q, [], program q⟩ s.world)
    (hends : ∀ s l, inv s.world → condition s l → Ended ends s.world (step program s l).2.world →
      inv (step program s l).2.world ∧
        ∀ f ∈ others s l, rely f.request f.pending s.world (step program s l).2.world)
    {w : World D Q R} {ls : List (Label Q)} (hinv : inv w)
    (hmeets : Machine.Meets (step program) condition ⟨w, []⟩ ls) :
    ∀ p ∈ Machine.visited (step program) ⟨w, []⟩ ls, inv p.2.world := by
  let safe : Server D W Q R → Prop := fun s ↦
    inv s.world ∧ ∀ f ∈ s.flights, f.Safe rely ends s.world
  let good : Unit → Server D W Q R → Prop := fun _ _ ↦ True
  have hstep : ∀ s l, safe s → condition s l →
      safe (step program s l).2 ∧ good (step program s l).1 (step program s l).2 := by
    rintro s l ⟨hs, hflights⟩ hcondition
    refine ⟨?_, trivial⟩
    have hnew : ∀ q, l = .start q → Flight.Safe rely ends ⟨q, [], program q⟩ s.world :=
      fun q hq ↦ henter s q hs (hq ▸ hcondition)
    obtain ⟨hw, hsafe⟩ | ⟨hrest, hended⟩ := step_cases hrely hnew hflights
    · show inv _ ∧ _
      rw [hw]
      exact ⟨hs, hsafe⟩
    · obtain ⟨hinv', hothers⟩ := hends s l hs hcondition hended
      refine ⟨hinv', fun f hf ↦ ?_⟩
      rw [hrest] at hf
      have hold : f ∈ s.flights := by
        cases l with
        | start q => exact hf
        | advance i => exact List.mem_of_mem_eraseIdx hf
        | cancel i => exact List.mem_of_mem_eraseIdx hf
      exact (hflights f hold).of_rely (hrely f.request) (hothers f hf)
  have hstart : safe ⟨w, []⟩ := ⟨hinv, by simp⟩
  have hvisited : ∀ p ∈ Machine.visited (step program) ⟨w, []⟩ ls, safe p.2 ∧ good p.1 p.2 :=
    Machine.forall_visited hstep hstart hmeets
  exact fun p hp ↦ (hvisited p hp).1.1

end

/-! ## What every write keeps -/

section
variable {S α : Type} {P : W → Prop}

/-- However others commit, a transaction that writes only what meets a condition ends so. -/
theorem wp_of_only {rely : World D Q S → World D Q S → Prop}
    {ends : Bool → R → World D Q S → D → Prop} {p : Txn D W R Empty}
    {post : Empty → List W → World D Q S → Prop} {ws : List W} {w : World D Q S}
    (hrely : Interference rely) (hp : p.Only P) (hws : ∀ u ∈ ws, P u)
    (habort : ∀ outcome w', rely w w' → ends false outcome w' w'.db)
    (hcommit : ∀ outcome us w', rely w w' → (∀ u ∈ us, P u) →
      ends true outcome w' (view us w'.db)) :
    Wp rely ends p post ws w := by
  induction p generalizing ws w with
  | pure value => exact value.elim
  | act writes next ih =>
      intro w' hw
      obtain ⟨hwrites, hnext⟩ := hp (view ws w'.db)
      exact ih _ hnext (List.forall_mem_append.mpr ⟨hws, hwrites⟩)
        (fun outcome v hv ↦ habort outcome v (hrely.trans hw hv))
        fun outcome us v hv ↦ hcommit outcome us v (hrely.trans hw hv)
  | commit outcome => exact fun w' hw ↦ hcommit outcome ws w' hw hws
  | abort outcome => exact habort outcome

/-- What every write keeps, the writes of a transaction keep. -/
theorem view_kept (Kept : D → D → Prop) (hrefl : ∀ d, Kept d d)
    (htrans : ∀ {a b c}, Kept a b → Kept b c → Kept a c)
    (hwrite : ∀ u, P u → ∀ d, Kept d (Store.apply d u)) {ws : List W} (hws : ∀ u ∈ ws, P u)
    (d : D) : Kept d (view ws d) := by
  induction ws generalizing d with
  | nil => exact hrefl d
  | cons u us ih =>
      obtain ⟨hu, hus⟩ := List.forall_mem_cons.mp hws
      exact htrans (hwrite u hu d) (ih hus _)

/-- So does a transaction alone. -/
theorem run_kept (Kept : D → D → Prop) (hrefl : ∀ d, Kept d d)
    (htrans : ∀ {a b c}, Kept a b → Kept b c → Kept a c)
    (hwrite : ∀ u, P u → ∀ d, Kept d (Store.apply d u)) {p : Txn D W R Empty} (hp : p.Only P)
    {ws : List W} (hws : ∀ u ∈ ws, P u) (d : D) : Kept d (run p ws d).2 := by
  induction p generalizing ws with
  | pure value => exact value.elim
  | act writes next ih =>
      obtain ⟨hwrites, hnext⟩ := hp (view ws d)
      exact ih _ hnext (List.forall_mem_append.mpr ⟨hws, hwrites⟩)
  | commit outcome => exact view_kept Kept hrefl htrans hwrite hws d
  | abort outcome => exact hrefl d

/-- What the transaction has written and what is left of it meet the condition. -/
def Flight.Only (P : W → Prop) (f : Flight D W Q R) : Prop :=
  f.program.Only P ∧ ∀ u ∈ f.pending, P u

/-- A transaction that moves keeps to the condition, and commits only what meets it. -/
theorem only_moved {fs : List (Flight D W Q R)} {f : Flight D W Q R} {w : World D Q R}
    (hfs : ∀ g ∈ fs, g.Only P) (hf : f.Only P) :
    (∀ g ∈ (moved fs f w).flights, g.Only P) ∧
      ∃ us, (∀ u ∈ us, P u) ∧ (moved fs f w).world.db = view us w.db := by
  obtain ⟨q, ws, p⟩ := f
  obtain ⟨hp, hws⟩ := hf
  cases p with
  | pure value => exact value.elim
  | act writes next =>
      obtain ⟨hwrites, hnext⟩ := hp (view ws w.db)
      simp only [moved, move]
      split
      · exact ⟨List.forall_mem_cons.mpr ⟨⟨hp, hws⟩, hfs⟩, [], by simp, rfl⟩
      · split
        · exact ⟨hfs, [], by simp, rfl⟩
        · refine ⟨List.forall_mem_cons.mpr ⟨⟨hnext, ?_⟩, hfs⟩, [], by simp, rfl⟩
          exact List.forall_mem_append.mpr ⟨hws, hwrites⟩
  | commit outcome => exact ⟨hfs, ws, hws, rfl⟩
  | abort outcome => exact ⟨hfs, [], by simp, rfl⟩

variable {program : Q → Txn D W R Empty}

/-- A step commits only what meets the condition, when the transactions keep to it. -/
theorem only_step {s : Server D W Q R} {l : Label Q} (hs : ∀ f ∈ s.flights, f.Only P)
    (hstart : ∀ q, l = .start q → (program q).Only P) :
    (∀ f ∈ (step program s l).2.flights, f.Only P) ∧
      ∃ us, (∀ u ∈ us, P u) ∧ (step program s l).2.world.db = view us s.world.db := by
  cases l with
  | start q => exact only_moved hs ⟨hstart q rfl, by simp⟩
  | advance i =>
      simp only [step]
      split
      · next f hf =>
          exact only_moved (fun g hg ↦ hs g (List.mem_of_mem_eraseIdx hg))
            (hs f (List.mem_of_getElem? hf))
      · exact ⟨hs, [], by simp, rfl⟩
  | cancel i => exact ⟨fun f hf ↦ hs f (List.mem_of_mem_eraseIdx hf), [], by simp, rfl⟩

/-- What every write of every transaction keeps is kept between any two states of a run. -/
theorem kept_run (Kept : D → D → Prop) (hrefl : ∀ d, Kept d d)
    (htrans : ∀ {a b c}, Kept a b → Kept b c → Kept a c)
    (hwrite : ∀ u, P u → ∀ d, Kept d (Store.apply d u)) {s : Server D W Q R}
    {ls : List (Label Q)} (hs : ∀ f ∈ s.flights, f.Only P)
    (hstart : ∀ q, .start q ∈ ls → (program q).Only P) :
    (∀ f ∈ (Machine.final (step program) s ls).flights, f.Only P) ∧
      Kept s.world.db (Machine.final (step program) s ls).world.db := by
  induction ls generalizing s with
  | nil => exact ⟨hs, hrefl _⟩
  | cons l ls ih =>
      obtain ⟨hflights, us, hus, hdb⟩ := only_step (l := l) hs
        fun q hq ↦ hstart q (hq ▸ List.mem_cons_self)
      obtain ⟨hlast, hkept⟩ := ih hflights fun q hq ↦ hstart q (List.mem_cons_of_mem _ hq)
      refine ⟨hlast, htrans ?_ hkept⟩
      rw [hdb]
      exact view_kept Kept hrefl htrans hwrite hus _

end

end Transaction
