import Mathlib.Data.List.Perm.Basic
import Aegis.Lib.Transaction

/-!
# What locks protect

Transactions in flight hold no writes that clash. A lock is a write that clashes with itself and
changes nothing, so what a transaction has read under a lock is still so when it writes: `Keeping`
says that a transaction keeps an assertion about its writes and the committed state while others
commit within what its own writes make it rely on, and `kept_run_of_protects` makes an invariant of
all runs from it.
-/

namespace Transaction

variable {D W R Q S α β : Type} [Store D W]

/-! ## One transaction -/

section
variable (rely : List W → D → D → Prop) (holds : List W → D → Prop)

/-- However others commit within what the transaction relies on, it keeps the assertion. -/
def Keeping : Txn D W R α → List W → D → Prop
  | .act writes next, ws, d =>
      ∀ d', rely ws d d' → holds (ws ++ writes (view ws d')) d' ∧
        Keeping (next (view ws d')) (ws ++ writes (view ws d')) d'
  | .pure _, _, _ | .commit _, _, _ | .abort _, _, _ => True

/-- Whenever the assertion holds, the transaction keeps it from there on. -/
def Keeps (p : Txn D W R α) : Prop :=
  ∀ ws d, holds ws d → Keeping rely holds p ws d

variable {rely holds}

/-- One transaction after another keeps what both keep. -/
theorem Keeps.bind {p : Txn D W R α} {k : α → Txn D W R β} (hp : Keeps rely holds p)
    (hk : ∀ a, Keeps rely holds (k a)) : Keeps rely holds (p >>= k) := by
  intro ws d hd
  have h := hp ws d hd
  clear hp
  show Keeping rely holds (p.bind k) ws d
  induction p generalizing ws d with
  | pure value => exact hk value ws d hd
  | act writes next ih =>
      intro d' hd'
      obtain ⟨hholds, hnext⟩ := h d' hd'
      exact ⟨hholds, ih _ _ _ hholds hnext⟩
  | commit outcome | abort outcome => trivial

/-- A transaction keeps the assertion when it writes only what adds nothing to it. -/
theorem keeps_of_only {P : W → Prop}
    (hstable : ∀ ws d d', holds ws d → rely ws d d' → holds ws d')
    (hwrite : ∀ ws us d, holds ws d → (∀ u ∈ us, P u) → holds (ws ++ us) d)
    {p : Txn D W R α} (hp : p.Only P) : Keeps rely holds p := by
  intro ws d hd
  induction p generalizing ws d with
  | act writes next ih =>
      intro d' hd'
      obtain ⟨hwrites, hnext⟩ := hp (view ws d')
      have hholds := hwrite _ _ _ (hstable _ _ _ hd hd') hwrites
      exact ⟨hholds, ih _ hnext _ _ hholds⟩
  | pure value | commit outcome | abort outcome => trivial

/-- The name of the outcome does not matter. -/
theorem keeping_map_outcome {f : R → S} {p : Txn D W R α} {ws : List W} {d : D} :
    Keeping rely holds (p.mapOutcome f) ws d ↔ Keeping rely holds p ws d := by
  induction p generalizing ws d with
  | act writes next ih =>
      exact forall_congr' fun d' ↦ forall_congr' fun _ ↦ and_congr_right' (ih _)
  | pure value | commit outcome | abort outcome => exact Iff.rfl

end

/-! ## The rule for all runs -/

/-- What a transaction relies on is what the writes it holds protect: transactions whose writes do
not clash keep to what each other relies on. -/
structure Protects (rely : List W → D → D → Prop) (holds : List W → D → Prop) : Prop where
  refl : ∀ ws d, rely ws d d
  trans : ∀ {ws a b c}, rely ws a b → rely ws b c → rely ws a c
  /-- The assertion holds while others keep to it. -/
  stable : ∀ {ws d d'}, holds ws d → rely ws d d' → holds ws d'
  /-- What is committed meets the assertion without writes. -/
  commit : ∀ {ws d}, holds ws d → holds [] (view ws d)
  /-- What one commits, the others rely on. -/
  others : ∀ {ws us d}, holds ws d → holds us d →
    (∀ u ∈ ws, ∀ v ∈ us, Store.clashes D u v = false) → rely us d (view ws d)
  /-- Clashing is mutual. -/
  clashes_comm : ∀ u v : W, Store.clashes D u v = Store.clashes D v u

section
variable {rely : List W → D → D → Prop} {holds : List W → D → Prop}

/-- Two transactions hold no writes that clash. -/
def Apart (f g : Flight D W Q R) : Prop :=
  ∀ u ∈ f.pending, ∀ v ∈ g.pending, Store.clashes D u v = false

/-- A transaction in flight keeps the assertion. -/
def Flight.Kept (rely : List W → D → D → Prop) (holds : List W → D → Prop) (d : D)
    (f : Flight D W Q R) : Prop :=
  holds f.pending d ∧ Keeping rely holds f.program f.pending d

/-- The committed state meets the assertion, and all transactions keep it. -/
structure Server.Kept (rely : List W → D → D → Prop) (holds : List W → D → Prop)
    (s : Server D W Q R) : Prop where
  world : holds [] s.world.db
  flights : ∀ f ∈ s.flights, f.Kept rely holds s.world.db
  apart : s.flights.Pairwise Apart

variable (hprotects : Protects rely holds)
include hprotects

theorem Flight.Kept.of_rely {f : Flight D W Q R} {d d' : D} (h : f.Kept rely holds d)
    (hd : rely f.pending d d') : f.Kept rely holds d' := by
  obtain ⟨q, ws, p⟩ := f
  refine ⟨hprotects.stable h.1 hd, ?_⟩
  cases p with
  | act writes next => exact fun d'' hd'' ↦ h.2 d'' (hprotects.trans hd hd'')
  | pure value | commit outcome | abort outcome => trivial

/-- A transaction that moves leaves the assertion to all. -/
theorem kept_moved {fs : List (Flight D W Q R)} {f : Flight D W Q R} {w : World D Q R}
    (hs : Server.Kept rely holds ⟨w, fs⟩) (hf : f.Kept rely holds w.db)
    (hapart : ∀ g ∈ fs, Apart f g) : (moved fs f w).Kept rely holds := by
  obtain ⟨q, ws, p⟩ := f
  cases p with
  | pure value => exact value.elim
  | act writes next =>
      obtain ⟨hholds, hnext⟩ := hf.2 w.db (hprotects.refl ws w.db)
      simp only [moved, move]
      split
      · exact ⟨hs.world, List.forall_mem_cons.mpr ⟨hf, hs.flights⟩, hs.apart.cons hapart⟩
      · next hfree =>
          split
          · exact ⟨hs.world, hs.flights, hs.apart⟩
          · refine ⟨hs.world, List.forall_mem_cons.mpr ⟨⟨hholds, hnext⟩, hs.flights⟩,
              hs.apart.cons fun g hg u hu v hv ↦ ?_⟩
            -- The new writes wait for nobody, so they clash with nothing.
            rcases List.mem_append.mp hu with hu | hu
            · exact hapart g hg u hu v hv
            · have hnone : blocked fs (writes (view ws w.db)) = false := by simpa using hfree
              have := List.any_eq_false.mp (Bool.eq_false_iff.mpr
                (List.any_eq_false.mp hnone u hu)) g hg
              simpa using List.any_eq_false.mp (Bool.eq_false_iff.mpr this) v hv
  | commit outcome =>
      refine ⟨hprotects.commit hf.1, fun g hg ↦ ?_, hs.apart⟩
      exact (hs.flights g hg).of_rely hprotects
        (hprotects.others hf.1 (hs.flights g hg).1 (hapart g hg))
  | abort outcome => exact ⟨hs.world, hs.flights, hs.apart⟩

variable {program : Q → Txn D W R Empty}

/-- A step keeps the assertion. -/
theorem kept_step {s : Server D W Q R} {l : Label Q} (hs : s.Kept rely holds)
    (hstart : ∀ q, l = .start q → Keeps rely holds (program q)) :
    (step program s l).2.Kept rely holds := by
  cases l with
  | start q =>
      exact kept_moved hprotects hs ⟨hs.world, hstart q rfl [] _ hs.world⟩
        fun g _ u hu ↦ absurd hu List.not_mem_nil
  | advance i =>
      simp only [step]
      split
      · next f hf =>
          obtain ⟨hi, rfl⟩ := List.getElem?_eq_some_iff.mp hf
          have hperm := List.getElem_cons_eraseIdx_perm hi
          have hsymm : ∀ {f g : Flight D W Q R}, Apart f g → Apart g f :=
            fun h u hu v hv ↦ (hprotects.clashes_comm u v).trans (h v hv u hu)
          obtain ⟨hapart, hrest⟩ := List.pairwise_cons.mp ((hperm.pairwise_iff hsymm).mpr hs.apart)
          exact kept_moved hprotects
            ⟨hs.world, fun g hg ↦ hs.flights g (List.mem_of_mem_eraseIdx hg), hrest⟩
            (hs.flights _ (List.getElem_mem hi)) hapart
      · exact hs
  | cancel i =>
      exact ⟨hs.world, fun f hf ↦ hs.flights f (List.mem_of_mem_eraseIdx hf),
        hs.apart.sublist (List.eraseIdx_sublist ..)⟩

/-- What every transaction keeps holds at the end of every run. -/
theorem kept_run_of_protects {s : Server D W Q R} {ls : List (Label Q)} (hs : s.Kept rely holds)
    (hstart : ∀ q, .start q ∈ ls → Keeps rely holds (program q)) :
    (Machine.final (step program) s ls).Kept rely holds := by
  induction ls generalizing s with
  | nil => exact hs
  | cons l ls ih =>
      exact ih (kept_step hprotects hs fun q hq ↦ hstart q (hq ▸ List.mem_cons_self))
        fun q hq ↦ hstart q (List.mem_cons_of_mem _ hq)

end

end Transaction
