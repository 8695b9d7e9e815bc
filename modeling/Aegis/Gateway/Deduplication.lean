import Aegis.Gateway.Ingest
import Aegis.Lib.Machine

/-!
# The deduplication cache

`LruDeduplicationCache` of `infrastructure/limits.py`, on the keys of its `OrderedDict` in their
order. The cache answers as a reference that remembers every use of an id and counts the ids in use
(`cache_exact`), and `run_simulates` gives the gateway's own model of it, which keeps the most recent
id first.
-/

namespace Aegis.Gateway

open Server Lru Machine

/-! ## The keys of an ordered dictionary -/

namespace OrderedDict

variable {κ : Type*}

/-- `keys.popitem(last=False)` while there are more keys than `capacity`. -/
def popWhileOver (capacity : Nat) : List κ → List κ
  | [] => []
  | key :: keys =>
      if capacity < (key :: keys).length then popWhileOver capacity keys else key :: keys

/-- What is left are the last keys. -/
theorem pop_while_over_eq (capacity : Nat) (keys : List κ) :
    popWhileOver capacity keys = keys.drop (keys.length - capacity) := by
  induction keys with
  | nil => rw [popWhileOver, List.drop_nil]
  | cons key keys ih =>
      rw [popWhileOver, ih]
      split
      · next hover =>
          rw [List.length_cons] at hover ⊢
          rw [show keys.length + 1 - capacity = keys.length - capacity + 1 by omega,
            List.drop_succ_cons]
      · next hwithin => rw [Nat.sub_eq_zero_of_le (Nat.le_of_not_lt hwithin), List.drop_zero]

variable [DecidableEq κ]

/-- `keys[key] = None`. A key that is there keeps its place. -/
def setItem (keys : List κ) (key : κ) : List κ :=
  if key ∈ keys then keys else keys ++ [key]

/-- `keys.move_to_end(key)`, of a key that is there. -/
def moveToEnd (keys : List κ) (key : κ) : List κ :=
  keys.erase key ++ [key]

/-- Read backwards, the key comes to the front. -/
theorem move_to_end_reverse {keys : List κ} (hnodup : keys.Nodup) (key : κ) :
    moveToEnd keys.reverse key = (touch key keys).reverse := by
  have hreverse := (List.nodup_reverse.mpr hnodup).erase_eq_filter key
  rw [moveToEnd, touch, List.reverse_cons, hreverse, hnodup.erase_eq_filter, List.filter_reverse]

/-- So it does when it is set before. -/
theorem move_to_end_set_item {keys : List κ} (hnodup : keys.Nodup) (key : κ) :
    moveToEnd (setItem keys.reverse key) key = (touch key keys).reverse := by
  rw [setItem]
  split
  · exact move_to_end_reverse hnodup key
  · next hnew =>
      have hold : key ∉ keys := fun h ↦ hnew (List.mem_reverse.mpr h)
      rw [moveToEnd, List.erase_append_right _ hnew, List.erase_cons_head, List.append_nil, touch,
        List.erase_of_not_mem hold, List.reverse_cons]

/-- Setting a key and popping is using it under the capacity. -/
theorem pop_while_over_move_to_end {keys : List κ} (hnodup : keys.Nodup) (capacity : Nat) (key : κ) :
    popWhileOver capacity (moveToEnd (setItem keys.reverse key) key) =
      (use capacity keys key).reverse := by
  rw [move_to_end_set_item hnodup, pop_while_over_eq, use, List.length_reverse, List.drop_reverse]
  rcases Nat.le_total (touch key keys).length capacity with hwithin | hover
  · rw [Nat.sub_eq_zero_of_le hwithin, Nat.sub_zero, List.take_length,
      List.take_of_length_le hwithin]
  · rw [Nat.sub_sub_self hover]

end OrderedDict

/-! ## The cache -/

/-- `LruDeduplicationCache`, with the keys of `_seen` from the oldest to the newest. -/
structure LruDeduplicationCache where
  capacity : Nat
  keys : List PyStr

namespace LruDeduplicationCache

/-- A cache that is new. -/
def new (capacity : Nat) : LruDeduplicationCache :=
  ⟨capacity, []⟩

/-- `seen`. -/
def seen (cache : LruDeduplicationCache) (eventId : PyStr) : Bool × LruDeduplicationCache :=
  if eventId ∈ cache.keys then
    (true, { cache with keys := OrderedDict.moveToEnd cache.keys eventId })
  else (false, cache)

/-- `remember`. -/
def remember (cache : LruDeduplicationCache) (eventId : PyStr) : LruDeduplicationCache :=
  { cache with
    keys := OrderedDict.popWhileOver cache.capacity
      (OrderedDict.moveToEnd (OrderedDict.setItem cache.keys eventId) eventId) }

end LruDeduplicationCache

/-- A call of the cache. -/
inductive CacheCall where
  | seen (eventId : PyStr)
  | remember (eventId : PyStr)

/-- A call, with the answer of a lookup. -/
def LruDeduplicationCache.step (cache : LruDeduplicationCache) :
    CacheCall → Option Bool × LruDeduplicationCache
  | .seen eventId => ((cache.seen eventId).1, (cache.seen eventId).2)
  | .remember eventId => (none, cache.remember eventId)

/-! ## The reference -/

/-- Every use of an id so far, the latest first. -/
structure UseHistory where
  capacity : Nat
  uses : List PyStr

namespace UseHistory

/-- The last ids that were used, each once, by most recent use. -/
def kept (history : UseHistory) : List PyStr :=
  (recent history.uses).take history.capacity

/-- A lookup uses an id if it is kept, and remembering an id uses it. -/
def step (history : UseHistory) : CacheCall → Option Bool × UseHistory
  | .seen eventId =>
      if eventId ∈ history.kept then (true, { history with uses := eventId :: history.uses })
      else (some false, history)
  | .remember eventId => (none, { history with uses := eventId :: history.uses })

theorem capacity_step (history : UseHistory) (call : CacheCall) :
    (history.step call).2.capacity = history.capacity := by
  cases call with
  | seen eventId =>
      show (if eventId ∈ history.kept then _ else (_ : Option Bool × UseHistory)).2.capacity = _
      split <;> rfl
  | remember eventId => rfl

end UseHistory

/-! ## Refinement -/

/-- The cache has the ids that the reference keeps, the latest at the end. -/
structure Keeps (cache : LruDeduplicationCache) (history : UseHistory) : Prop where
  capacity_eq : cache.capacity = history.capacity
  keys_eq : cache.keys = history.kept.reverse

/-- What is kept is the list that using the ids under the capacity leaves. -/
theorem UseHistory.kept_eq (history : UseHistory) :
    history.kept = past history.capacity history.uses :=
  (entries_past _ _).symm

theorem UseHistory.nodup_kept (history : UseHistory) : history.kept.Nodup :=
  (nodup_recent _).sublist (List.take_sublist _ _)

/-- Every call is answered as the reference answers it. -/
theorem Keeps.step {cache : LruDeduplicationCache} {history : UseHistory} (h : Keeps cache history)
    (call : CacheCall) : (cache.step call).1 = (history.step call).1 ∧
      Keeps (cache.step call).2 (history.step call).2 := by
  have hnodup := history.nodup_kept
  cases call with
  | seen eventId =>
      have hmem : eventId ∈ cache.keys ↔ eventId ∈ history.kept := by
        rw [h.keys_eq, List.mem_reverse]
      show (((cache.seen eventId).1 : Option Bool) = (if eventId ∈ history.kept then _ else _ :
        Option Bool × UseHistory).1) ∧ Keeps (cache.seen eventId).2 (if _ then _ else _ : _ × _).2
      rw [LruDeduplicationCache.seen]
      by_cases hseen : eventId ∈ history.kept
      · rw [if_pos (hmem.mpr hseen), if_pos hseen]
        refine ⟨rfl, h.capacity_eq, ?_⟩
        show OrderedDict.moveToEnd cache.keys eventId = _
        have hlength : history.kept.length ≤ history.capacity := List.length_take_le _ _
        rw [h.keys_eq, OrderedDict.move_to_end_reverse hnodup, UseHistory.kept_eq _,
          UseHistory.kept_eq _, past, ← UseHistory.kept_eq, use_of_mem hseen hlength]
      · rw [if_neg fun hold ↦ hseen (hmem.mp hold), if_neg hseen]
        exact ⟨rfl, h⟩
  | remember eventId =>
      refine ⟨rfl, h.capacity_eq, ?_⟩
      show OrderedDict.popWhileOver _ _ = _
      rw [h.keys_eq, OrderedDict.pop_while_over_move_to_end hnodup, h.capacity_eq,
        UseHistory.kept_eq, UseHistory.kept_eq]
      rfl

/-- For every capacity and every sequence of calls the cache answers as the reference, has the ids
that the reference keeps in its order and no more than the capacity, and has forgotten an id that was
used just when as many others have been used since. -/
theorem cache_exact (capacity : Nat) (calls : List CacheCall) :
    let cache := final LruDeduplicationCache.step (.new capacity) calls
    let history := final UseHistory.step ⟨capacity, []⟩ calls
    (visited LruDeduplicationCache.step (.new capacity) calls).map Prod.fst =
        (visited UseHistory.step ⟨capacity, []⟩ calls).map Prod.fst ∧
      cache.keys = history.kept.reverse ∧
      cache.keys.length ≤ capacity ∧
      ∀ eventId since before, history.uses = since ++ eventId :: before → eventId ∉ since →
        (eventId ∉ cache.keys ↔ capacity ≤ since.toFinset.card) := by
  intro cache history
  have hcapacity : history.capacity = capacity :=
    @invariant_final _ _ _ UseHistory.step (·.capacity = capacity)
      (fun before call h ↦ (before.capacity_step call).trans h) ⟨capacity, []⟩ rfl calls
  have hnew : Keeps (.new capacity) ⟨capacity, []⟩ :=
    ⟨rfl, (congrArg List.reverse (List.take_nil (i := capacity))).symm⟩
  obtain ⟨hanswers, hkeeps⟩ := @simulation _ _ _ LruDeduplicationCache.step _
    UseHistory.step Keeps (fun _ _ call h ↦ h.step call) _ _ hnew calls
  refine ⟨hanswers, hkeeps.keys_eq, ?_, fun eventId since before huses hsince ↦ ?_⟩
  · have hlength : history.kept.length ≤ history.capacity := List.length_take_le _ _
    rw [hcapacity] at hlength
    rw [hkeeps.keys_eq, List.length_reverse]
    exact hlength
  · have hkept : eventId ∈ cache.keys ↔ since.toFinset.card < capacity := by
      rw [hkeeps.keys_eq, List.mem_reverse, UseHistory.kept_eq, huses, hcapacity,
        mem_past_append before hsince]
    rw [hkept, Nat.not_lt]

/-! ## The gateway's cache -/

/-- The gateway's model has the same ids, the latest first. -/
structure Simulates (cache : LruDeduplicationCache) (model : DeduplicationCache) : Prop where
  capacity_eq : cache.capacity = model.capacity
  keys_eq : cache.keys = model.entries.reverse

/-- A lookup has the same answer and the same effect. -/
theorem Simulates.seen {cache : LruDeduplicationCache} {model : DeduplicationCache}
    (h : Simulates cache model) (eventId : PyStr) :
    (cache.seen eventId).1 = model.seen eventId ∧
      Simulates (cache.seen eventId).2 (model.moveToEnd eventId) := by
  have hmem : eventId ∈ cache.keys ↔ eventId ∈ model.entries := by
    rw [h.keys_eq, List.mem_reverse]
  rw [LruDeduplicationCache.seen, DeduplicationCache.seen, DeduplicationCache.moveToEnd]
  by_cases hseen : eventId ∈ model.entries
  · rw [if_pos (hmem.mpr hseen), dif_pos hseen]
    refine ⟨(decide_eq_true hseen).symm, h.capacity_eq, ?_⟩
    show OrderedDict.moveToEnd cache.keys eventId = _
    rw [h.keys_eq, OrderedDict.move_to_end_reverse model.nodup]
  · rw [if_neg fun hold ↦ hseen (hmem.mp hold), dif_neg hseen]
    exact ⟨(decide_eq_false hseen).symm, h⟩

/-- So does remembering. -/
theorem Simulates.remember {cache : LruDeduplicationCache} {model : DeduplicationCache}
    (h : Simulates cache model) (eventId : PyStr) :
    Simulates (cache.remember eventId) (model.remember eventId) := by
  refine ⟨h.capacity_eq, ?_⟩
  show OrderedDict.popWhileOver _ _ = _
  rw [h.keys_eq, OrderedDict.pop_while_over_move_to_end model.nodup, h.capacity_eq]
  rfl

end Aegis.Gateway
