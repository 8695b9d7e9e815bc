import Mathlib.Data.List.Induction

/-!
# Chains of digests

Each entry of a chain states the digest of the entry before it, and its own. A walk along the
chain compares both, and stops at the first entry where one of them is wrong. What an accepted
chain says is fixed by its last digest, as far as digests tell contents apart.
-/

namespace Aegis

/-- What the entries of a chain state, and the digest of what they say. -/
structure HashChain (E H : Type*) where
  /-- The digest an entry states of the entry before it. -/
  previous : E → H
  /-- The digest an entry states of itself. -/
  stated : E → H
  /-- The digest of what an entry says. -/
  computed : E → H

namespace HashChain

variable {E H C : Type*} (chain : HashChain E H)

/-- The entry follows the one with the digest, and states its own digest. -/
def Fits (expected : H) (e : E) : Prop :=
  chain.previous e = expected ∧ chain.stated e = chain.computed e

instance [DecidableEq H] (expected : H) (e : E) : Decidable (chain.Fits expected e) :=
  inferInstanceAs (Decidable (_ ∧ _))

/-- Every entry fits the one before it, and the first one fits the genesis. -/
def Linked : H → List E → Prop
  | _, [] => True
  | expected, e :: es => chain.Fits expected e ∧ Linked (chain.stated e) es

/-- The digest that the next entry has to state. -/
def lastDigest (genesis : H) (es : List E) : H :=
  (es.getLast?.map chain.stated).getD genesis

/-- The number of entries walked along, and the one where the walk stops. -/
def walk [DecidableEq H] : H → List E → Nat × Option E
  | _, [] => (0, none)
  | expected, e :: es =>
      if chain.Fits expected e then ((walk (chain.stated e) es).1 + 1, (walk (chain.stated e) es).2)
      else (1, some e)

@[simp] theorem last_digest_nil (genesis : H) : chain.lastDigest genesis [] = genesis := rfl

@[simp] theorem last_digest_concat (genesis : H) (es : List E) (e : E) :
    chain.lastDigest genesis (es ++ [e]) = chain.stated e := by
  simp [lastDigest]

theorem last_digest_cons (genesis : H) (e : E) (es : List E) :
    chain.lastDigest genesis (e :: es) = chain.lastDigest (chain.stated e) es := by
  cases es using List.reverseRecOn with
  | nil => rfl
  | append_singleton es f => rw [← List.cons_append, last_digest_concat, last_digest_concat]

variable {chain}

/-- One chain goes on after another. -/
theorem linked_append {genesis : H} {es fs : List E} :
    chain.Linked genesis (es ++ fs) ↔
      chain.Linked genesis es ∧ chain.Linked (chain.lastDigest genesis es) fs := by
  induction es generalizing genesis with
  | nil => simp [Linked]
  | cons e es ih => rw [List.cons_append, Linked, ih, Linked, last_digest_cons, and_assoc]

/-- A chain goes on with an entry that fits. -/
theorem linked_concat {genesis : H} {es : List E} {e : E} :
    chain.Linked genesis (es ++ [e]) ↔
      chain.Linked genesis es ∧ chain.Fits (chain.lastDigest genesis es) e := by
  rw [linked_append, Linked, Linked, and_true]

/-- Every entry of a chain fits what comes before it. -/
theorem linked_iff_forall {genesis : H} {es : List E} :
    chain.Linked genesis es ↔
      ∀ before e after, es = before ++ e :: after →
        chain.Fits (chain.lastDigest genesis before) e := by
  constructor
  · rintro h before e after rfl
    exact (linked_append.mp h).2.1
  · intro h
    induction es using List.reverseRecOn with
    | nil => trivial
    | append_singleton es e ih =>
        refine linked_concat.mpr ⟨ih fun before f after hes ↦ ?_, h es e [] rfl⟩
        exact h before f (after ++ [e]) (by rw [hes, List.append_assoc, List.cons_append])

/-- An accepted chain says what any other accepted chain with its last digest says, when digests
tell the contents of the two apart and none is the genesis. -/
theorem contents_eq_of_last_digest {genesis : H} {content : E → C}
    (hprevious : ∀ e f, content e = content f → chain.previous e = chain.previous f)
    {es fs : List E} (hes : chain.Linked genesis es) (hfs : chain.Linked genesis fs)
    (hgenesis : ∀ e ∈ es ++ fs, chain.computed e ≠ genesis)
    (hdigest : ∀ e ∈ es, ∀ f ∈ fs, chain.computed e = chain.computed f → content e = content f)
    (hlast : chain.lastDigest genesis es = chain.lastDigest genesis fs) :
    es.map content = fs.map content := by
  -- The last entries say the same, so they follow entries with one digest.
  induction es using List.reverseRecOn generalizing fs with
  | nil =>
      cases fs using List.reverseRecOn with
      | nil => rfl
      | append_singleton fs f =>
          rw [last_digest_concat, last_digest_nil, (linked_concat.mp hfs).2.2] at hlast
          exact absurd hlast.symm (hgenesis f (by simp))
  | append_singleton es e ih =>
      obtain ⟨hes, hprevious₁, hstated₁⟩ := linked_concat.mp hes
      cases fs using List.reverseRecOn with
      | nil =>
          rw [last_digest_concat, last_digest_nil, hstated₁] at hlast
          exact absurd hlast (hgenesis e (by simp))
      | append_singleton fs f =>
          obtain ⟨hfs, hprevious₂, hstated₂⟩ := linked_concat.mp hfs
          rw [last_digest_concat, last_digest_concat, hstated₁, hstated₂] at hlast
          have hcontent := hdigest e (by simp) f (by simp) hlast
          have hrest : es.map content = fs.map content := by
            refine ih hes hfs (fun g hg ↦ hgenesis g ?_) (fun g hg k hk ↦ ?_) ?_
            · simp only [List.mem_append] at hg ⊢
              exact hg.imp .inl .inl
            · exact hdigest g (List.mem_append_left _ hg) k (List.mem_append_left _ hk)
            · rw [← hprevious₁, ← hprevious₂]
              exact hprevious e f hcontent
          rw [List.map_append, List.map_append, hrest, List.map_singleton, List.map_singleton,
            hcontent]

/-- The first entries of an accepted chain are an accepted chain. -/
theorem Linked.take {genesis : H} {es : List E} (h : chain.Linked genesis es) (n : Nat) :
    chain.Linked genesis (es.take n) := by
  rw [← List.take_append_drop n es] at h
  exact (linked_append.mp h).1

/-- Entries that say the same, and state the same, are accepted as well. -/
theorem Linked.of_contents {content : E → C} {genesis : H} {es fs : List E}
    (h : chain.Linked genesis es) (hmap : fs.map content = es.map content)
    (hcontent : ∀ e ∈ es, ∀ f ∈ fs, content f = content e → chain.previous f = chain.previous e ∧
      chain.stated f = chain.stated e ∧ chain.computed f = chain.computed e) :
    chain.Linked genesis fs := by
  induction es generalizing genesis fs with
  | nil =>
      rw [List.map_nil, List.map_eq_nil_iff] at hmap
      rw [hmap]
      trivial
  | cons e es ih =>
      cases fs with
      | nil => trivial
      | cons f fs =>
          obtain ⟨hhead, htail⟩ := List.cons.inj hmap
          obtain ⟨hprevious, hstated, hcomputed⟩ :=
            hcontent e List.mem_cons_self f List.mem_cons_self hhead
          obtain ⟨⟨hfits, hdigest⟩, hlinked⟩ := h
          refine ⟨⟨hprevious.trans hfits, by rw [hstated, hcomputed, hdigest]⟩, ?_⟩
          rw [hstated]
          exact ih hlinked htail fun e' he' f' hf' ↦
            hcontent e' (List.mem_cons_of_mem _ he') f' (List.mem_cons_of_mem _ hf')

section
variable [DecidableEq H]

/-- The walk reaches the end of a chain where every entry fits. -/
theorem walk_of_linked {genesis : H} {es : List E} (h : chain.Linked genesis es) :
    chain.walk genesis es = (es.length, none) := by
  induction es generalizing genesis with
  | nil => rfl
  | cons e es ih => rw [walk, if_pos h.1, ih h.2, List.length_cons]

/-- The walk stops at the first entry that does not fit. -/
theorem walk_of_not_fits {genesis : H} {es rest : List E} {e : E} (h : chain.Linked genesis es)
    (he : ¬chain.Fits (chain.lastDigest genesis es) e) :
    chain.walk genesis (es ++ e :: rest) = (es.length + 1, some e) := by
  induction es generalizing genesis with
  | nil => exact if_neg he
  | cons f es ih =>
      rw [last_digest_cons] at he
      rw [List.cons_append, walk, if_pos h.1, ih h.2 he, List.length_cons]

/-- A chain that is walked to its end is one where every entry fits. -/
theorem linked_of_walk {genesis : H} {es : List E} (h : (chain.walk genesis es).2 = none) :
    chain.Linked genesis es := by
  induction es generalizing genesis with
  | nil => trivial
  | cons e es ih =>
      rw [walk] at h
      split at h
      · next hfits => exact ⟨hfits, ih h⟩
      · cases h

end

end HashChain

end Aegis
