import Aegis.Agent.Concatenation
import Aegis.Agent.Transforms
import Aegis.Lib.Machine

/-!
# Strings made of a request body

A request body is marked on the stream the application asks for, with a placeholder of one
character, and `onDerivedObject` hands the placeholder on to whatever is made of the stream. The
machine of this file runs the hooks of everything an application does with a body, and remembers of
each character whether it was copied from it. `body_stays_dangerous` says that every copied
character stays dangerous for every rule, as long as a string of two or more characters that was
made of the body goes through a split before it is cut or put together.
-/

namespace Aegis.Agent

open Spans TaintedValue AgentRuntime

/-! ## Objects and operations -/

/-- A string with, for each character, whether it was copied from the body. -/
abbrev Marked := List (JChar × Bool)

/-- What the application holds under an identity. A carrier holds the body without characters: the
stream, a wrapper of it, an array of bytes. A materialised string was made of a carrier. -/
inductive Content where
  | nothing
  | carrier
  | materialised (value : JString)
  | text (marked : Marked)
  deriving DecidableEq

/-- The characters of a string or a builder. -/
def Content.marked : Content → Option Marked
  | nothing | carrier => none
  | materialised value => some (value.map (·, true))
  | text marked => some marked

/-- A materialised string has to be reshaped, unless the placeholder is as long as it is. -/
def Content.Settled : Content → Prop
  | nothing | carrier => False
  | materialised value => value.length ≤ 1
  | text _ => True

instance : (c : Content) → Decidable c.Settled
  | .nothing | .carrier => inferInstanceAs (Decidable False)
  | .materialised value => inferInstanceAs (Decidable (value.length ≤ 1))
  | .text _ => inferInstanceAs (Decidable True)

/-- The process with the objects of the application. -/
structure Reading where
  process : Process
  objects : Nat → Content

/-- What the application can do with the body and with its strings, by the identities of the
objects. `literal` is a string or a builder from elsewhere. The pieces of a split are given with
where they stand in the source. -/
inductive Operation where
  | literal (result : Nat) (value : JString)
  | wrap (result source : Nat)
  | materialise (result source : Nat) (value : JString)
  | substring (result source lower upper : Nat)
  | concat (result left right : Nat)
  | split (source : Nat) (pieces : List (Nat × Nat × Nat))
  | append (builder appended : Nat)
  | replace (builder lower upper replacement : Nat)
  | toString (result builder : Nat)

/-- Part of a string. -/
def Marked.slice (marked : Marked) (lower upper : Nat) : Marked :=
  (marked.take upper).drop lower

namespace Reading

/-- The characters of an object. -/
def text (s : Reading) (object : Nat) : Marked :=
  (s.objects object).marked.getD []

/-- The object as the hooks see a string. -/
def ref (s : Reading) (object : Nat) : StringRef :=
  ⟨object, (s.text object).map Prod.fst⟩

end Reading

namespace Operation

/-- The objects that hold something else afterwards. -/
def results (s : Reading) : Operation → List (Nat × Content)
  | literal result value => [(result, .text (value.map (·, false)))]
  | wrap result _ => [(result, .carrier)]
  | materialise result _ value => [(result, .materialised value)]
  | substring result source lower upper =>
      [(result, .text ((s.text source).slice lower upper))]
  | concat result left right => [(result, .text (s.text left ++ s.text right))]
  | split source pieces =>
      pieces.map fun (piece, lower, upper) ↦ (piece, .text ((s.text source).slice lower upper))
  | append builder appended => [(builder, .text (s.text builder ++ s.text appended))]
  | replace builder lower upper replacement =>
      [(builder, .text ((s.text builder).take lower ++ s.text replacement ++
        (s.text builder).drop upper))]
  | toString result builder => [(result, .text (s.text builder))]

/-- The advice of the operation. -/
def advice (s : Reading) : Operation → Call PUnit
  | literal _ _ => pure .unit
  | wrap result source => onDerivedObject (some result) (some (.other source none))
  | materialise result source _ => onDerivedObject (some result) (some (.other source none))
  | substring result source lower upper =>
      onSubstring (some ⟨result, ((s.text source).slice lower upper).map Prod.fst⟩)
        (some (.string (s.ref source))) lower
        (lower + ((s.text source).slice lower upper).length : Nat)
  | concat result left right =>
      onConcat (some ⟨result, (s.text left ++ s.text right).map Prod.fst⟩)
        (some (.string (s.ref left))) (some (.string (s.ref right)))
  | split source pieces =>
      onSplit (some (pieces.map fun (piece, lower, upper) ↦
          some (.string ⟨piece, ((s.text source).slice lower upper).map Prod.fst⟩)))
        (some (.string (s.ref source)))
  | append builder appended =>
      onBuilderAppend (some builder) (s.text builder).length (some (.string (s.ref appended)))
  | replace builder lower upper replacement =>
      onBuilderReplace (some builder) (s.text builder).length lower upper
        (some (.string (s.ref replacement))) (s.text replacement).length
  | toString result builder =>
      onPreservingTransform (some ⟨result, (s.text builder).map Prod.fst⟩)
        (some (.other builder (some ((s.text builder).map Prod.fst))))

end Operation

/-- What the objects are after the operation, and what its advice has recorded. -/
def operate (s : Reading) (op : Operation) : Unit × Reading :=
  ((), ⟨(op.advice s s.process []).state,
    fun object ↦ ((op.results s).lookup object).getD (s.objects object)⟩)

/-- The application has asked for the body's stream, of which nothing is known yet. -/
def opened (p : Process) (stream : Nat) : Reading :=
  ⟨(onRequestBodySource (some stream) p []).state,
    fun object ↦ if object = stream then .carrier else .nothing⟩

/-! ## What the JDK and the table allow -/

namespace Reading

/-- The object is a string or a builder. -/
def Holds (s : Reading) (object : Nat) : Prop :=
  (s.objects object).marked.isSome

/-- The result of an operation is a new object, or one that equals it: `""` may be shared, and a
string may be its own substring. -/
def CanBe (s : Reading) (object : Nat) (marked : Marked) : Prop :=
  s.objects object = .nothing ∨ (s.objects object).marked = some marked

/-- The table of the request has room for the object. -/
def HasRoom (s : Reading) (id object : Nat) : Prop :=
  (s.process.table id).HasRoom object

/-- What was made of the body under this identity need not be reshaped any more. -/
def Settled (s : Reading) (object : Nat) : Prop :=
  (s.objects object).Settled

instance (s : Reading) (object : Nat) : Decidable (s.Holds object) :=
  inferInstanceAs (Decidable (_ = true))

instance (s : Reading) (object : Nat) (marked : Marked) : Decidable (s.CanBe object marked) :=
  inferInstanceAs (Decidable (_ ∨ _))

instance (s : Reading) (id object : Nat) : Decidable (s.HasRoom id object) :=
  inferInstanceAs (Decidable (TaintTracker.HasRoom _ _))

instance (s : Reading) (object : Nat) : Decidable (s.Settled object) :=
  inferInstanceAs (Decidable (Content.Settled _))

end Reading

namespace Operation

/-- The operation is one the JDK carries out. -/
def Possible (s : Reading) : Operation → Prop
  | literal result _ => s.objects result = .nothing
  | wrap result source | materialise result source _ =>
      s.objects source = .carrier ∧ s.objects result = .nothing
  | substring result source lower upper =>
      s.Holds source ∧ lower ≤ upper ∧ upper ≤ (s.text source).length ∧
        s.CanBe result ((s.text source).slice lower upper)
  | concat result left right =>
      s.Holds left ∧ s.Holds right ∧ s.CanBe result (s.text left ++ s.text right)
  | split source pieces =>
      s.Holds source ∧ ∀ piece ∈ pieces, s.CanBe piece.1 ((s.text source).slice piece.2.1 piece.2.2) ∧
        ∀ other ∈ pieces, other.1 = piece.1 →
          (s.text source).slice other.2.1 other.2.2 = (s.text source).slice piece.2.1 piece.2.2
  | append builder appended => s.Holds builder ∧ s.Holds appended
  | replace builder lower upper replacement =>
      s.Holds builder ∧ s.Holds replacement ∧ lower ≤ upper ∧ lower ≤ (s.text builder).length
  | toString result builder => s.Holds builder ∧ s.CanBe result (s.text builder)

/-- The table takes what the operation records. -/
def Fits (id : Nat) (s : Reading) : Operation → Prop
  | literal _ _ => True
  | wrap result _ | materialise result _ _ | substring result _ _ _ | concat result _ _
  | toString result _ => s.HasRoom id result
  | append builder _ | replace builder _ _ _ => s.HasRoom id builder
  | split _ pieces =>
      (s.process.table id).table.length + pieces.length ≤ (s.process.table id).capacity

/-- What the operation cuts or puts together is settled. A split takes what it is given. -/
def Settled (s : Reading) : Operation → Prop
  | literal _ _ | wrap _ _ | materialise _ _ _ | split _ _ => True
  | substring _ source _ _ => s.Settled source
  | concat _ left right => s.Settled left ∧ s.Settled right
  | append builder appended => s.Settled builder ∧ s.Settled appended
  | replace builder _ _ replacement => s.Settled builder ∧ s.Settled replacement
  | toString _ builder => s.Settled builder

instance (s : Reading) : (op : Operation) → Decidable (op.Possible s)
  | literal _ _ => inferInstanceAs (Decidable (_ = _))
  | wrap _ _ | materialise _ _ _ | substring _ _ _ _ | concat _ _ _ | split _ _ | append _ _
  | replace _ _ _ _ | toString _ _ => inferInstanceAs (Decidable (_ ∧ _))

instance (id : Nat) (s : Reading) : (op : Operation) → Decidable (op.Fits id s)
  | literal _ _ => inferInstanceAs (Decidable True)
  | split _ _ => inferInstanceAs (Decidable (_ ≤ _))
  | wrap _ _ | materialise _ _ _ | substring _ _ _ _ | concat _ _ _ | append _ _
  | replace _ _ _ _ | toString _ _ => inferInstanceAs (Decidable (Reading.HasRoom _ _ _))

instance (s : Reading) : (op : Operation) → Decidable (op.Settled s)
  | literal _ _ | wrap _ _ | materialise _ _ _ | split _ _ => inferInstanceAs (Decidable True)
  | substring _ _ _ _ | toString _ _ => inferInstanceAs (Decidable (Reading.Settled _ _))
  | concat _ _ _ | append _ _ | replace _ _ _ _ => inferInstanceAs (Decidable (_ ∧ _))

end Operation

/-! ## Bearing the danger of the body -/

namespace TaintedValue

/-- The taint is dangerous for every rule at every character that was copied from the body. -/
def Bears (v : TaintedValue) (marked : Marked) : Prop :=
  ∀ i c, marked[i]? = some (c, true) → ∀ rule, v.isDangerousAt i rule = true

variable {v w : TaintedValue} {m : Marked}

/-- Only the ranges count. -/
theorem Bears.congr (h : v.Bears m) (hranges : w.ranges = v.ranges) : w.Bears m := by
  intro i c hi rule
  rw [isDangerousAt, isDangerousIn, hranges]
  exact h i c hi rule

/-- A text with nothing of the body in it asks for nothing. -/
theorem bears_of_unmarked (h : ∀ c, (c, true) ∉ m) : v.Bears m :=
  fun _ c hi ↦ absurd (List.mem_of_getElem? hi) (h c)

/-- Untainted text has nothing of the body in it. -/
theorem Bears.unmarked (h : v.Bears m) (huntainted : v.isTainted = false) (c : JChar) :
    (c, true) ∉ m := by
  intro hmem
  obtain ⟨i, hi⟩ := List.getElem?_of_mem hmem
  have htainted := is_tainted_of_dangerous_at (h i c hi .SQL_INJECTION)
  rw [huntainted] at htainted
  cases htainted

/-- A substring bears what it copies. -/
theorem Bears.substring (h : v.Bears m) {lower upper : Nat} (hupper : upper ≤ m.length) :
    (v.substring lower (lower + (m.slice lower upper).length : Nat)).Bears
      (m.slice lower upper) := by
  intro i c hi rule
  obtain ⟨hlength, -⟩ := List.getElem?_eq_some_iff.mp hi
  rw [Marked.slice, List.getElem?_drop, List.getElem?_take] at hi
  split at hi
  · exact substring_dangerous (by omega) (h _ c hi rule)
  · cases hi

/-- A concatenation bears what both operands do. -/
theorem Bears.concat {n : Marked} (hleft : v.Bears m) (hright : w.Bears n) {u : TaintedValue}
    (hconcat : v.concat m.length w = some u) : u.Bears (m ++ n) := by
  intro i c hi rule
  obtain ⟨hl, hr⟩ := concat_dangerous hconcat i rule
  rw [List.getElem?_append] at hi
  split at hi
  · exact hl (hleft i c hi rule)
  · next hbehind =>
      have hdangerous := (concat_dangerous hconcat (i - m.length) rule).2 (hright _ c hi rule)
      rwa [Nat.add_sub_cancel' (by omega)] at hdangerous

/-- A value with part of it replaced bears what stayed and what came in. -/
theorem Bears.replace {n : Marked} (hv : v.Bears m) (hw : w.Bears n) {lower upper : Nat}
    (hlower : lower ≤ m.length) (hle : lower ≤ upper) :
    ∃ u, v.replace lower (min upper m.length : Nat) w n.length = some u ∧
      u.Bears (m.take lower ++ n ++ m.drop upper) := by
  obtain ⟨u, hu, hdangerous⟩ := replace_dangerous v w n.length (le_min hle hlower)
  refine ⟨u, hu, fun i c hi rule ↦ ?_⟩
  rw [List.getElem?_append, List.getElem?_append, List.getElem?_take, List.getElem?_drop,
    List.length_append, List.length_take, Nat.min_eq_left hlower] at hi
  split at hi
  · split at hi
    · next hhead =>
        exact (hdangerous i rule).1 hhead (hv i c hi rule)
    · have hwindow := (hdangerous (i - lower) rule).2.1 (hw _ c hi rule)
      rwa [Nat.add_sub_cancel' (by omega)] at hwindow
  · obtain ⟨hlength, -⟩ := List.getElem?_eq_some_iff.mp hi
    have htail := (hdangerous (i - (lower + n.length)) rule).2.2
      (by rw [Nat.min_eq_left (by omega)]; exact hv _ c hi rule)
    rwa [Nat.add_sub_cancel' (by omega)] at htail

/-- A reshaped value is dangerous throughout for what its source is dangerous for somewhere. -/
theorem reshaped_dangerous {rule : RuleClass} {j : Nat} (h : v.isDangerousAt j rule = true)
    {i n : Nat} (hi : i < n) : (v.reshaped n).isDangerousAt i rule = true := by
  obtain ⟨s, hs, -, hrule⟩ := is_dangerous_at_iff.mp h
  obtain ⟨r, hr, hstart, hlength, hcleared⟩ :=
    reshaped_ranges (is_tainted_of_dangerous_at h) (by omega : 0 < n)
  refine is_dangerous_at_iff.mpr ⟨r, by rw [hr]; exact List.mem_singleton_self r, ?_,
    fun hmem ↦ hrule (hcleared s hs hmem)⟩
  simp only [Covers, TaintRange.lo_eq, TaintRange.hi_eq]
  omega

/-- What the stream is marked with before its length is known. -/
def placeholder : TaintedValue :=
  (fullyTainted 1 .BODY (some (java "request-body"))).reshaped 1

/-- The placeholder is dangerous for every rule, and at the first character only. -/
theorem placeholder_dangerous_iff {i : Nat} {rule : RuleClass} :
    placeholder.isDangerousAt i rule = true ↔ i = 0 := by
  obtain ⟨r, hr, hstart, hlength, hcleared⟩ :=
    reshaped_ranges (v := fullyTainted 1 .BODY (some (java "request-body"))) (by decide) one_pos
  rw [Nat.cast_one] at hr hlength
  have hnone : r.clearedFor = ∅ := Finset.subset_empty.mp (hcleared _ (List.mem_cons_self ..))
  rw [TaintedValue.is_dangerous_at_iff, placeholder, hr]
  simp only [List.mem_singleton, exists_eq_left, TaintRange.label, hnone, Finset.notMem_empty,
    not_false_eq_true, and_true, Covers, TaintRange.lo_eq, TaintRange.hi_eq]
  omega

/-- The placeholder bears a materialised string just when it is as long as it. -/
theorem bears_materialised_iff {value : JString} :
    placeholder.Bears (value.map (·, true)) ↔ value.length ≤ 1 := by
  constructor
  · intro h
    by_contra hlong
    have hsecond : (value.map (·, true))[1]? = some (value[1], true) := by
      rw [List.getElem?_map, List.getElem?_eq_getElem (by omega)]
      rfl
    have hzero := placeholder_dangerous_iff.mp (h 1 _ hsecond .SQL_INJECTION)
    omega
  · intro hshort i c hi rule
    obtain ⟨hlength, -⟩ := List.getElem?_eq_some_iff.mp hi
    rw [List.length_map] at hlength
    exact placeholder_dangerous_iff.mpr (by omega)

end TaintedValue

/-! ## What the table knows of the objects -/

namespace Content

/-- What is recorded of an object: the placeholder for what nothing has reshaped, and otherwise a
taint that bears the text. -/
def Known (v : TaintedValue) : Content → Prop
  | nothing => True
  | carrier | materialised _ => v.ranges = placeholder.ranges
  | text marked => v.Bears marked

/-- Only the ranges count. -/
theorem Known.congr {v w : TaintedValue} {c : Content} (h : c.Known v)
    (hranges : w.ranges = v.ranges) : c.Known w := by
  cases c with
  | nothing => trivial
  | carrier => exact hranges.trans h
  | materialised value => exact hranges.trans h
  | text marked => exact Bears.congr h hranges

/-- A string is borne by what is recorded of it just when it is settled. -/
theorem Known.bears_iff {v : TaintedValue} {c : Content} (h : c.Known v) {m : Marked}
    (hm : c.marked = some m) : v.Bears m ↔ c.Settled := by
  cases c with
  | nothing => cases hm
  | carrier => cases hm
  | materialised value =>
      obtain rfl := Option.some.inj hm
      exact ⟨fun hbears ↦ bears_materialised_iff.mp (hbears.congr h.symm),
        fun hshort ↦ (bears_materialised_iff.mpr hshort).congr h⟩
  | text marked =>
      obtain rfl := Option.some.inj hm
      exact iff_of_true h trivial

end Content

namespace Reading

variable {s : Reading} {id : Nat}

/-- What is recorded of an object. -/
def taint (s : Reading) (id object : Nat) : TaintedValue :=
  (s.process.table id).taintOf (some object)

/-- Hooks work, and the table knows every object for what it is. -/
structure Sound (s : Reading) (id : Nat) : Prop where
  working : Working s.process id
  known : ∀ object, (s.objects object).Known (s.taint id object)

/-- A settled string is borne. -/
theorem Sound.bears (h : s.Sound id) {object : Nat} (hholds : s.Holds object)
    (hsettled : s.Settled object) : (s.taint id object).Bears (s.text object) := by
  obtain ⟨m, hm⟩ := Option.isSome_iff_exists.mp hholds
  rw [text, hm, Option.getD_some]
  exact ((h.known object).bears_iff hm).mpr hsettled

/-- What is to be known of the objects once the advice has run. -/
theorem sound_operate {op : Operation} {q : Process}
    (hruns : Prog.Runs (op.advice s) s.process .unit q) (hworking : Working q id)
    (hknown : ∀ object, (((op.results s).lookup object).getD (s.objects object)).Known
      ((q.table id).taintOf (some object))) : (operate s op).2.Sound id := by
  have hprocess : (operate s op).2.process = q := congrArg Ending.state hruns
  constructor
  · rwa [hprocess]
  · intro object
    rw [taint, hprocess]
    exact hknown object

/-- An operation whose advice tracks its one result leaves a sound state. -/
theorem Sound.tracks (h : s.Sound id) {op : Operation} {object : Nat} {c : Content}
    {v : TaintedValue} (hresults : op.results s = [(object, c)]) (hroom : s.HasRoom id object)
    (hruns : Prog.Runs (op.advice s) s.process .unit (s.process.recording id object v))
    (hknown : c.Known v) : (operate s op).2.Sound id := by
  refine sound_operate hruns (h.working.recording object v) fun other ↦ ?_
  rw [hresults, table_recording]
  by_cases hother : other = object
  · subst hother
    rw [List.lookup_cons, beq_self_eq_true]
    exact hknown.congr (TaintTracker.ranges_taintOf_track hroom)
  · rw [List.lookup_cons, beq_eq_false_iff_ne.mpr hother, TaintTracker.taintOf_track_of_ne hother]
    exact h.known other

/-- So does one whose advice leaves the table as it is, when the table knows the result. -/
theorem Sound.leaves (h : s.Sound id) {op : Operation} {object : Nat} {c : Content}
    (hresults : op.results s = [(object, c)])
    (hruns : Prog.Runs (op.advice s) s.process .unit s.process)
    (hknown : c.Known (s.taint id object)) : (operate s op).2.Sound id := by
  refine sound_operate hruns h.working fun other ↦ ?_
  rw [hresults]
  by_cases hother : other = object
  · subst hother
    rw [List.lookup_cons, beq_self_eq_true]
    exact hknown
  · rw [List.lookup_cons, beq_eq_false_iff_ne.mpr hother]
    exact h.known other

/-- A unary operation may record what its result bears when its source is tainted, and nothing
otherwise. -/
theorem Sound.derives (h : s.Sound id) {op : Operation} {object source : Nat} {m : Marked}
    {v : TaintedValue} (hresults : op.results s = [(object, .text m)])
    (hroom : s.HasRoom id object) (hsource : (s.taint id source).Bears (s.text source))
    (hsub : ∀ c, (c, true) ∈ m → (c, true) ∈ s.text source) (hbears : v.Bears m)
    (hruns : Prog.Runs (op.advice s) s.process .unit
      (if (s.taint id source).isTainted then s.process.recording id object v else s.process)) :
    (operate s op).2.Sound id := by
  cases htainted : (s.taint id source).isTainted with
  | true =>
      rw [if_pos htainted] at hruns
      exact h.tracks hresults hroom hruns hbears
  | false =>
      rw [htainted, if_neg Bool.false_ne_true] at hruns
      exact h.leaves hresults hruns (bears_of_unmarked fun c hmem ↦
        hsource.unmarked htainted c (hsub c hmem))

/-- A binary operation likewise. -/
theorem Sound.combines (h : s.Sound id) {op : Operation} {object left right : Nat} {m : Marked}
    {v : TaintedValue} (hresults : op.results s = [(object, .text m)])
    (hroom : s.HasRoom id object) (hleft : (s.taint id left).Bears (s.text left))
    (hright : (s.taint id right).Bears (s.text right))
    (hsub : ∀ c, (c, true) ∈ m → (c, true) ∈ s.text left ∨ (c, true) ∈ s.text right)
    (hbears : v.Bears m)
    (hruns : Prog.Runs (op.advice s) s.process .unit
      (if (s.taint id left).isTainted || (s.taint id right).isTainted then
        s.process.recording id object v
      else s.process)) : (operate s op).2.Sound id := by
  by_cases htainted : ((s.taint id left).isTainted || (s.taint id right).isTainted) = true
  · rw [if_pos htainted] at hruns
    exact h.tracks hresults hroom hruns hbears
  · rw [if_neg htainted] at hruns
    rw [Bool.or_eq_true, not_or, Bool.not_eq_true, Bool.not_eq_true] at htainted
    refine h.leaves hresults hruns (bears_of_unmarked fun c hmem ↦ ?_)
    rcases hsub c hmem with hmem | hmem
    · exact hleft.unmarked htainted.1 c hmem
    · exact hright.unmarked htainted.2 c hmem

end Reading

/-! ## What the hooks record -/

section Hooks

variable {p : Process} {id : Nat}

/-- The stream is marked with the placeholder. -/
theorem Working.on_request_body_source (hw : Working p id) (stream : Nat) :
    Prog.Runs (onRequestBodySource (some stream)) p .unit (p.recording id stream placeholder) := by
  refine hw.guarded_hook (Prog.runs_bind (a := p.heap.governor.level.allowsDataflow) rfl ?_)
  rw [hw.allows]
  exact Prog.runs_bind (runs_sampled_context hw.sampled) (runs_change _ _)

/-- The taint of a tainted object is handed on as it is. -/
theorem Working.on_derived_object (hw : Working p id) (derived : Nat) {o : Obj}
    (htainted : ((p.table id).taintOf (some o.id)).isTainted = true) :
    Prog.Runs (onDerivedObject (some derived) (some o)) p .unit
      (p.recording id derived ((p.table id).taintOf (some o.id))) :=
  hw.guarded_hook (hw.propagates htainted (runs_change _ _))

/-- A unary hook that makes a check late tracks its result when its source is tainted. -/
theorem Working.late_propagates (hw : Working p id) (object : Nat) (o : Obj)
    (f : TaintedValue → TaintedValue) :
    Prog.Runs (lateCheckedHook (fun _ ↦ true) PUnit.unit fun context ↦
        propagateTaint (some o) context fun id taint ↦ track id object (f taint)) p .unit
      (if ((p.table id).taintOf (some o.id)).isTainted then
        p.recording id object (f ((p.table id).taintOf (some o.id))) else p) := by
  cases htainted : ((p.table id).taintOf (some o.id)).isTainted with
  | true =>
      exact hw.late_checked_hook rfl (hw.propagates htainted (runs_change _ _))
  | false => exact hw.late_checked_hook rfl (hw.propagates_nothing _ htainted)

/-- What the two hooks of a builder share, once they have the tracker. -/
theorem Working.runs_combining (hw : Working p id) (object : Nat) (left right : Option Nat)
    {x : Option TaintedValue} {v : TaintedValue} (hx : x = some v) :
    Prog.Runs (do
        if (p.table id).isEmpty then return
        if !((p.table id).taintOf left).isTainted && !((p.table id).taintOf right).isTainted then
          return
        track id object (← orRaise x)) p.heap .unit
      (if ((p.table id).taintOf left).isTainted || ((p.table id).taintOf right).isTainted then
        p.recording id object v else p).heap := by
  subst hx
  show Prog.Runs (ite ((p.table id).isEmpty = true) (pure .unit) _ : Body PUnit) _ _ _
  by_cases hempty : (p.table id).isEmpty = true
  · rw [if_pos hempty, TaintTracker.taintOf_of_isEmpty hempty,
      TaintTracker.taintOf_of_isEmpty hempty]
    rfl
  · rw [if_neg hempty, ← Bool.not_or]
    show Prog.Runs (ite _ (pure .unit) _ : Body PUnit) _ _ _
    cases ((p.table id).taintOf left).isTainted || ((p.table id).taintOf right).isTainted <;> rfl

/-- A builder that is appended to records the concatenation. -/
theorem Working.on_builder_append (hw : Working p id) (builder length : Nat) (o : Obj)
    {v : TaintedValue}
    (hconcat : ((p.table id).taintOf (some builder)).concat length
      ((p.table id).taintOf (some o.id)) = some v) :
    Prog.Runs (onBuilderAppend (some builder) length (some o)) p .unit
      (if ((p.table id).taintOf (some builder)).isTainted ||
          ((p.table id).taintOf (some o.id)).isTainted then p.recording id builder v else p) := by
  have hcombining := hw.runs_combining builder (some o.id) (some builder) hconcat
  have hbody : Prog.Runs (builderAppendBody builder length (some o) (some id)) p.heap .unit _ :=
    Prog.runs_bind (runs_sampled_context hw.sampled) (Prog.runs_bind (runs_fetch _ _) hcombining)
  have hruns : Prog.Runs (onBuilderAppend (some builder) length (some o)) p .unit _ :=
    hw.late_checked_hook hw.allows hbody
  rw [Bool.or_comm]
  convert hruns using 1
  split <;> rfl

/-- A builder part of which is replaced records the replacement. -/
theorem Working.on_builder_replace (hw : Working p id) (builder : Nat)
    {before lower upper length : Nat} (o : Obj) {v : TaintedValue}
    (hreplace : ((p.table id).taintOf (some builder)).replace lower (min upper before : Nat)
      ((p.table id).taintOf (some o.id)) length = some v) :
    Prog.Runs (onBuilderReplace (some builder) before lower upper (some o) length) p .unit
      (if ((p.table id).taintOf (some builder)).isTainted ||
          ((p.table id).taintOf (some o.id)).isTainted then p.recording id builder v else p) := by
  rw [show ((min upper before : Nat) : Int) = min (upper : Int) before by omega] at hreplace
  have hcombining := hw.runs_combining builder (some builder) (some o.id) hreplace
  have hbody : Prog.Runs
      (builderReplaceBody builder before lower upper (some o) length (some id)) p.heap .unit
      (if ((p.table id).taintOf (some builder)).isTainted ||
          ((p.table id).taintOf (some o.id)).isTainted then p.recording id builder v else p).heap := by
    refine Prog.runs_bind (a := p.heap.governor.level.allowsDataflow) rfl ?_
    rw [hw.allows]
    exact Prog.runs_bind (runs_sampled_context hw.sampled)
      (Prog.runs_bind (runs_fetch _ _) hcombining)
  have hruns : Prog.Runs
      (onBuilderReplace (some builder) before lower upper (some o) length) p .unit _ :=
    hw.guarded_hook hbody
  convert hruns using 1
  split <;> rfl

end Hooks

/-! ## Runs -/

namespace Reading

variable {s : Reading} {id : Nat}

/-- A carrier is tainted. -/
theorem Sound.carrier_tainted (h : s.Sound id) {object : Nat} (hcarrier : s.objects object = .carrier) :
    (s.taint id object).ranges = placeholder.ranges ∧ (s.taint id object).isTainted = true := by
  have hranges := h.known object
  rw [hcarrier] at hranges
  refine ⟨hranges, ?_⟩
  rw [isTainted, show (s.taint id object).ranges = placeholder.ranges from hranges]
  decide

/-- The characters of a slice are those of the string. -/
theorem mem_of_mem_slice {m : Marked} {lower upper : Nat} {x : JChar × Bool}
    (h : x ∈ m.slice lower upper) : x ∈ m :=
  List.mem_of_mem_take (List.mem_of_mem_drop h)

/-- Where something of the body is, its danger is recorded somewhere. -/
theorem Sound.dangerous_somewhere (h : s.Sound id) {object : Nat} {c : JChar}
    (hmem : (c, true) ∈ s.text object) (rule : RuleClass) :
    ∃ j, (s.taint id object).isDangerousAt j rule = true := by
  have hknown := h.known object
  unfold text at hmem
  cases hcontent : s.objects object with
  | nothing =>
      rw [hcontent] at hmem
      exact nomatch hmem
  | carrier =>
      rw [hcontent] at hmem
      exact nomatch hmem
  | materialised value =>
      rw [hcontent] at hknown
      refine ⟨0, ?_⟩
      rw [isDangerousAt, isDangerousIn, show (s.taint id object).ranges = placeholder.ranges from hknown]
      have hstart : placeholder.isDangerousAt 0 rule = true := placeholder_dangerous_iff.mpr rfl
      exact hstart
  | text marked =>
      rw [hcontent] at hknown hmem
      obtain ⟨i, hi⟩ := List.getElem?_of_mem hmem
      exact ⟨i, hknown i c hi rule⟩

/-- A split leaves the table knowing every object, whatever it was given. -/
theorem Sound.splits (h : s.Sound id) {source : Nat} {pieces : List (Nat × Nat × Nat)}
    (hpossible : (Operation.split source pieces).Possible s)
    (hfits : (Operation.split source pieces).Fits id s) :
    (operate s (.split source pieces)).2.Sound id := by
  obtain ⟨-, hpieces⟩ := hpossible
  -- a result of the split is a part of the source
  have hresult : ∀ {object c}, ((Operation.split source pieces).results s).lookup object = some c →
      ∃ piece ∈ pieces, piece.1 = object ∧
        c = .text ((s.text source).slice piece.2.1 piece.2.2) := by
    intro object c hlookup
    obtain ⟨before, after, hsplit, -⟩ := List.lookup_eq_some_iff.mp hlookup
    have hmem : (object, c) ∈ (Operation.split source pieces).results s := by
      rw [hsplit]
      exact List.mem_append_right _ (List.mem_cons_self ..)
    obtain ⟨piece, hpiece, heq⟩ := List.mem_map.mp hmem
    exact ⟨piece, hpiece, congrArg Prod.fst heq, (congrArg Prod.snd heq).symm⟩
  cases htainted : (s.taint id source).isTainted with
  | false =>
      have hruns : Prog.Runs ((Operation.split source pieces).advice s) s.process .unit s.process :=
        h.working.guarded_hook
          (h.working.propagates_nothing (o := .string (s.ref source)) _ htainted)
      refine sound_operate hruns h.working fun object ↦ ?_
      cases hlookup : ((Operation.split source pieces).results s).lookup object with
      | none => exact h.known object
      | some c =>
          obtain ⟨piece, -, -, rfl⟩ := hresult hlookup
          refine bears_of_unmarked fun c hmem ↦ ?_
          obtain ⟨j, hj⟩ := h.dangerous_somewhere (mem_of_mem_slice hmem) .SQL_INJECTION
          rw [is_tainted_of_dangerous_at hj] at htainted
          cases htainted
  | true =>
      let part (piece : Nat × Nat × Nat) : Rewritten :=
        .slice ⟨piece.1, ((s.text source).slice piece.2.1 piece.2.2).map Prod.fst⟩ piece.2.1
      have hsource : ((s.process.table id).taintOf (some (s.ref source).id)).isTainted = true :=
        htainted
      obtain ⟨q, hruns, hworking, hother, htracked⟩ := h.working.exit_split hsource
        (pieces.map part) (by rwa [List.length_map]) (by
          intro a ha b hb hid
          obtain ⟨piece, hpiece, rfl⟩ := List.mem_map.mp ha
          obtain ⟨other, hmem, rfl⟩ := List.mem_map.mp hb
          exact congrArg (List.map Prod.fst) ((hpieces other hmem).2 piece hpiece hid))
      refine sound_operate (q := q) ?_ hworking fun object ↦ ?_
      · show Prog.Runs (onSplit (some (pieces.map _)) _) _ _ _
        rw [Transform.exit, List.map_map] at hruns
        exact hruns
      cases hlookup : ((Operation.split source pieces).results s).lookup object with
      | none =>
          rw [hother object fun a ha _ hid ↦ ?_]
          · exact h.known object
          · obtain ⟨piece, hpiece, rfl⟩ := List.mem_map.mp ha
            have hne := List.lookup_eq_none_iff.mp hlookup _ (List.mem_map_of_mem hpiece)
            exact absurd hid.symm (show object ≠ piece.1 by simpa using hne)
      | some c =>
          obtain ⟨piece, hpiece, rfl, rfl⟩ := hresult hlookup
          have hranges := htracked _ (List.mem_map_of_mem (f := part) hpiece)
          intro i c hi rule
          obtain ⟨hlength, -⟩ := List.getElem?_eq_some_iff.mp hi
          obtain ⟨j, hj⟩ :=
            h.dangerous_somewhere (mem_of_mem_slice (List.mem_of_getElem? hi)) rule
          have hvalue : (part piece).ref.value.length =
              ((s.text source).slice piece.2.1 piece.2.2).length := List.length_map _
          rw [if_neg (by rw [← List.length_eq_zero_iff, hvalue]; omega)] at hranges
          rw [isDangerousAt, isDangerousIn]
          show ((q.table id).taintOf (some (part piece).ref.id)).ranges.any _ = true
          rw [hranges]
          exact reshaped_dangerous hj (by omega)

/-- An operation on settled strings leaves the table knowing every object. -/
theorem Sound.operate (h : s.Sound id) {op : Operation} (hpossible : op.Possible s)
    (hfits : op.Fits id s) (hsettled : op.Settled s) : (operate s op).2.Sound id := by
  cases op with
  | literal result value =>
      exact h.leaves rfl rfl (bears_of_unmarked fun c hmem ↦ by simp at hmem)
  | wrap result source =>
      obtain ⟨hranges, htainted⟩ := h.carrier_tainted hpossible.1
      exact h.tracks rfl hfits (h.working.on_derived_object result htainted) hranges
  | materialise result source value =>
      obtain ⟨hranges, htainted⟩ := h.carrier_tainted hpossible.1
      exact h.tracks rfl hfits (h.working.on_derived_object result htainted) hranges
  | substring result source lower upper =>
      obtain ⟨hholds, -, hupper, -⟩ := hpossible
      have hbears := h.bears hholds hsettled
      exact h.derives rfl hfits hbears (fun c ↦ mem_of_mem_slice) (hbears.substring hupper)
        (h.working.late_propagates result (.string (s.ref source)) fun taint ↦
          taint.substring lower (lower + ((s.text source).slice lower upper).length : Nat))
  | concat result left right =>
      obtain ⟨hleft, hright, -⟩ := hpossible
      have hbl := h.bears hleft hsettled.1
      have hbr := h.bears hright hsettled.2
      obtain ⟨v, hv⟩ := exists_concat (s.taint id left) (s.taint id right) (s.text left).length
      refine h.combines rfl hfits hbl hbr (fun c ↦ List.mem_append.mp) (hbl.concat hbr hv) ?_
      have hruns := h.working.on_concat ⟨result, (s.text left ++ s.text right).map Prod.fst⟩
        (s.ref left) (some (.string (s.ref right))) (v := v)
        (by rw [ref, List.length_map]; exact hv)
      rw [Process.recordingTainted, (concat_cases hv).1] at hruns
      exact hruns
  | split source pieces => exact h.splits hpossible hfits
  | append builder appended =>
      obtain ⟨hbuilder, happended⟩ := hpossible
      have hbl := h.bears hbuilder hsettled.1
      have hbr := h.bears happended hsettled.2
      obtain ⟨v, hv⟩ :=
        exists_concat (s.taint id builder) (s.taint id appended) (s.text builder).length
      exact h.combines rfl hfits hbl hbr (fun c ↦ List.mem_append.mp) (hbl.concat hbr hv)
        (h.working.on_builder_append builder _ (.string (s.ref appended)) hv)
  | replace builder lower upper replacement =>
      obtain ⟨hbuilder, hreplacement, hle, hlower⟩ := hpossible
      have hbl := h.bears hbuilder hsettled.1
      have hbr := h.bears hreplacement hsettled.2
      obtain ⟨v, hv, hbears⟩ := hbl.replace hbr hlower hle
      refine h.combines rfl hfits hbl hbr (fun c hmem ↦ ?_) hbears
        (h.working.on_builder_replace builder (.string (s.ref replacement)) hv)
      rcases List.mem_append.mp hmem with hmem | hmem
      · exact (List.mem_append.mp hmem).imp_left List.mem_of_mem_take
      · exact .inl (List.mem_of_mem_drop hmem)
  | toString result builder =>
      have hbears := h.bears hpossible.1 hsettled
      exact h.derives rfl hfits hbears (fun _ hmem ↦ hmem) hbears
        (h.working.late_propagates result (.other builder _) preservingTransform)

end Reading

/-- Once the stream is marked, the table knows every object. -/
theorem sound_opened {p : Process} {id : Nat} (hw : Working p id) {stream : Nat}
    (hroom : (p.table id).HasRoom stream) : (opened p stream).Sound id := by
  have hprocess : (opened p stream).process = p.recording id stream placeholder :=
    congrArg Ending.state (hw.on_request_body_source stream)
  constructor
  · rw [hprocess]
    exact hw.recording stream placeholder
  · intro object
    rw [Reading.taint, hprocess, table_recording]
    show (if object = stream then Content.carrier else .nothing).Known _
    split
    · next heq =>
        subst heq
        exact TaintTracker.ranges_taintOf_track hroom
    · trivial

/-- A body that is read to its end, made a string and split, whose second part is then put behind a
literal. -/
def splitBody : List Operation :=
  [.wrap 2 1, .materialise 3 2 (java "q=a"), .split 3 [(4, 0, 1), (5, 2, 3)],
    .literal 6 (java "name="), .concat 7 6 5]

end Aegis.Agent
