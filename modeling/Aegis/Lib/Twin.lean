import Aegis.Lib.Statements

/-!
# Two runs of a transaction

What a transaction does alone, part by part, and what it does in two states at once. `Twin` is the
rule for two runs that write the same and go on in the same way: a transaction that reads only what
the two states have in common cannot tell them apart.
-/

namespace Transaction

variable {D W R α β : Type} [Store D W]

/-! ## Parts of a transaction -/

/-- How a transaction has ended: with an outcome and its writes. -/
structure Ending (W R : Type) where
  committed : Bool
  outcome : R
  writes : List W

/-- What the transaction leaves. -/
def Ending.result (e : Ending W R) (d : D) : (Bool × R) × D :=
  ((e.committed, e.outcome), if e.committed then view e.writes d else d)

/-- A transaction alone, to its end or to the value it leaves with its writes. -/
def eval : Txn D W R α → List W → D → Except (Ending W R) (α × List W)
  | .pure a, ws, _ => .ok (a, ws)
  | .act writes next, ws, d => eval (next (view ws d)) (ws ++ writes (view ws d)) d
  | .commit outcome, ws, _ => .error ⟨true, outcome, ws⟩
  | .abort outcome, ws, _ => .error ⟨false, outcome, ws⟩

/-- One part after another. -/
theorem eval_bind {p : Txn D W R α} {k : α → Txn D W R β} {ws : List W} {d : D} :
    eval (p >>= k) ws d = eval p ws d >>= fun left ↦ eval (k left.1) left.2 d := by
  show eval (p.bind k) ws d = _
  induction p generalizing ws with
  | pure a => rfl
  | act writes next ih => exact ih _
  | commit outcome => rfl
  | abort outcome => rfl

/-- A transaction that leaves no value leaves what it ended with. -/
theorem run_eq_eval (p : Txn D W R Empty) (ws : List W) (d : D) :
    ∃ e, eval p ws d = .error e ∧ run p ws d = e.result d := by
  induction p generalizing ws with
  | pure a => exact a.elim
  | act writes next ih => exact ih _ _
  | commit outcome => exact ⟨_, rfl, rfl⟩
  | abort outcome => exact ⟨_, rfl, rfl⟩

/-- A part that is passed is followed by the rest. -/
theorem run_bind_of_eval {p : Txn D W R α} {k : α → Txn D W R Empty} {ws us : List W} {d : D}
    {a : α} (h : eval p ws d = .ok (a, us)) : run (p >>= k) ws d = run (k a) us d := by
  obtain ⟨e, he, hrun⟩ := run_eq_eval (p >>= k) ws d
  obtain ⟨e', he', hrun'⟩ := run_eq_eval (k a) us d
  rw [eval_bind, h] at he
  obtain rfl : e' = e := Except.error.inj (he'.symm.trans he)
  rw [hrun, hrun']

/-- A part that ends ends the whole. -/
theorem run_bind_of_ended {p : Txn D W R α} {k : α → Txn D W R Empty} {ws : List W} {d : D}
    {e : Ending W R} (h : eval p ws d = .error e) : run (p >>= k) ws d = e.result d := by
  obtain ⟨e', he', hrun⟩ := run_eq_eval (p >>= k) ws d
  rw [eval_bind, h] at he'
  obtain rfl : e = e' := Except.error.inj he'
  exact hrun

/-! ## Two runs -/

/-- In two states the transaction writes the same and goes on in the same way: to a value, which
meets `post` with what is seen then, or to its end, a commit leaving states within `ends`. -/
def Twin (ends : D → D → Prop) : Txn D W R α → (α → D → D → Prop) → D → D → Prop
  | .pure a, post, d, d' => post a d d'
  | .act writes next, post, d, d' =>
      writes d = writes d' ∧ next d = next d' ∧
        Twin ends (next d) post (view (writes d) d) (view (writes d) d')
  | .commit _, _, d, d' => ends d d'
  | .abort _, _, _, _ => True

section
variable {ends : D → D → Prop} {post post' : α → D → D → Prop} {d d' : D} {ws : List W}

/-- One transaction after another. -/
theorem Twin.bind {p : Txn D W R α} {k : α → Txn D W R β} {post : β → D → D → Prop}
    (h : Twin ends p (fun a e e' ↦ Twin ends (k a) post e e') d d') :
    Twin ends (p >>= k) post d d' := by
  show Twin ends (p.bind k) post d d'
  induction p generalizing d d' with
  | pure a => exact h
  | act writes next ih =>
      obtain ⟨hwrites, hnext, hrest⟩ := h
      refine ⟨hwrites, ?_, ih _ hrest⟩
      show (next d).bind k = (next d').bind k
      rw [hnext]
  | commit outcome => exact h
  | abort outcome => trivial

/-- What is left may be weakened. -/
theorem Twin.mono {p : Txn D W R α} (h : Twin ends p post d d')
    (himp : ∀ a e e', post a e e' → post' a e e') : Twin ends p post' d d' := by
  induction p generalizing d d' with
  | pure a => exact himp _ _ _ h
  | act writes next ih => exact ⟨h.1, h.2.1, ih _ h.2.2⟩
  | commit outcome => exact h
  | abort outcome => trivial

/-- Both states show what is read. -/
theorem twin_read {f : D → α} (hf : f d = f d') (h : post (f d) d d') :
    Twin ends (Txn.read f : Txn D W R α) post d d' :=
  ⟨rfl, congrArg Txn.pure hf, h⟩

/-- Both states take the same writes. -/
theorem twin_write {writes : D → List W} {post : Unit → D → D → Prop}
    (hwrites : writes d = writes d') (h : post () (view (writes d) d) (view (writes d) d')) :
    Twin ends (Txn.write writes : Txn D W R Unit) post d d' :=
  ⟨hwrites, rfl, h⟩

/-- The two runs take the same steps. -/
theorem Twin.eval {p : Txn D W R α} (h : Twin ends p post (view ws d) (view ws d')) :
    eval p ws d = eval p ws d' ∧
      (∀ a us, Transaction.eval p ws d = .ok (a, us) → post a (view us d) (view us d')) ∧
      ∀ e, Transaction.eval p ws d = .error e → e.committed = true →
        ends (view e.writes d) (view e.writes d') := by
  induction p generalizing ws with
  | pure a =>
      refine ⟨rfl, fun b us hb ↦ ?_, nofun⟩
      obtain ⟨rfl, rfl⟩ := Prod.mk.inj (Except.ok.inj hb)
      exact h
  | act writes next ih =>
      obtain ⟨hwrites, hnext, hrest⟩ := h
      rw [← view_append, ← view_append] at hrest
      obtain ⟨heval, hrest⟩ := ih _ hrest
      refine ⟨?_, hrest⟩
      show Transaction.eval (next _) (ws ++ writes _) d = Transaction.eval (next _) (ws ++ writes _) d'
      rw [← hwrites, ← hnext]
      exact heval
  | commit outcome =>
      refine ⟨rfl, nofun, fun e he _ ↦ ?_⟩
      obtain rfl := Except.error.inj he
      exact h
  | abort outcome =>
      refine ⟨rfl, nofun, fun e he hcommitted ↦ ?_⟩
      obtain rfl := Except.error.inj he
      cases hcommitted

/-- The two runs end alike, and leave states within `ends`. -/
theorem Twin.run {p : Txn D W R Empty}
    (h : Twin ends p (fun _ _ _ ↦ True) (view ws d) (view ws d')) (habort : ends d d') :
    (run p ws d).1 = (run p ws d').1 ∧ ends (run p ws d).2 (run p ws d').2 := by
  obtain ⟨heval, -, hends⟩ := h.eval
  obtain ⟨e, he, hrun⟩ := run_eq_eval p ws d
  obtain ⟨e', he', hrun'⟩ := run_eq_eval p ws d'
  obtain rfl : e' = e := Except.error.inj (he'.symm.trans (heval.symm.trans he))
  rw [hrun, hrun']
  refine ⟨rfl, ?_⟩
  show ends (if e'.committed then _ else _) (if e'.committed then _ else _)
  split
  · exact hends e' he ‹_›
  · exact habort

end

end Transaction

namespace TableAt

open Transaction

variable {D W V K R : Type} [Keyed K V] [DecidableEq K] [Store D W] {t : TableAt D W V}
variable {ends : D → D → Prop} {d d' : D}

/-! ## Two runs of a statement on a table -/

/-- A row is inserted in both states, or in none. -/
theorem twin_insert {row : V} {refused : R} {post : Unit → D → D → Prop}
    (hviolates : t.violates row d = t.violates row d')
    (h : t.violates row d = false →
      post () (Store.apply d (t.write (.insert row))) (Store.apply d' (t.write (.insert row)))) :
    Twin ends (t.insert row refused) post d d' := by
  refine ⟨?_, ?_, ?_⟩
  · dsimp only
    rw [hviolates]
  · dsimp only
    rw [hviolates]
  · dsimp only
    split
    · trivial
    · rename_i hfree
      exact h (Bool.not_eq_true _ ▸ hfree)

/-- A row that is there in both states is modified in both. -/
theorem twin_update {k : K} {edit : Edit V} {gone : R} {post : Unit → D → D → Prop}
    (hstill : t.still (fun _ ↦ true) k d = true) (hstill' : t.still (fun _ ↦ true) k d' = true)
    (h : post () (Store.apply d (t.write (.modify k edit)))
      (Store.apply d' (t.write (.modify k edit)))) :
    Twin ends (t.update k edit gone) post d d' := by
  refine ⟨?_, ?_, ?_⟩
  · dsimp only
    rw [hstill, hstill']
  · dsimp only
    rw [hstill, hstill']
  · dsimp only
    rw [hstill, if_pos rfl]
    exact h

/-- A row that violates a constraint is not inserted. -/
theorem eval_insert_of_violates {row : V} {refused : R} {ws : List W}
    (h : t.violates row (view ws d) = true) :
    eval (t.insert row refused) ws d = .error ⟨false, refused, ws⟩ := by
  show eval (if t.violates row (view ws d) then _ else _)
    (ws ++ if t.violates row (view ws d) then [] else _) d = _
  rw [if_pos h, if_pos h, List.append_nil]
  rfl

/-- A row that violates none is. -/
theorem eval_insert_of_not_violates {row : V} {refused : R} {ws : List W}
    (h : t.violates row (view ws d) = false) :
    eval (t.insert row refused) ws d = .ok ((), ws ++ [t.write (.insert row)]) := by
  show eval (if t.violates row (view ws d) then _ else _)
    (ws ++ if t.violates row (view ws d) then [] else _) d = _
  rw [h, if_neg Bool.false_ne_true, if_neg Bool.false_ne_true]
  rfl

end TableAt
