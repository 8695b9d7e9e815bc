import Aegis.Runtime.NodeAgent
import Aegis.Runtime.PythonAgent

/-!
# Requests of one process

The agents for Python and for Node keep the trace of each request apart, but one registry of tainted
strings for the process, which they search by identity or by text. A check therefore depends on what
other requests have marked. It depends only on its argument and on what its own request has marked
in every run in which no check finds what another request has left (`requests_isolated`).
-/

namespace Aegis.PythonAgent

open Aegis.Server

/-! ## What a request has marked -/

namespace Mark

/-- The record of a mark. -/
def record (mark : Mark) : Option TaintRecord :=
  mark.marked.map Prod.snd

end Mark

/-- The registry of a request that has a process of its own. -/
def ownRegistry (marks : List Mark) : OrderedMap Nat TaintRecord :=
  marks.foldl Mark.register ∅

/-- A process that serves requests, with what the current request of each context has marked. -/
structure Serving where
  process : Process
  request : Nat → Option (List Mark)

/-- A process that has served no request. -/
def Serving.start (mode : PyStr) : Serving :=
  ⟨⟨fun _ ↦ none, ∅, mode, []⟩, fun _ ↦ none⟩

/-- What the current requests have marked after a call. -/
def note (request : Nat → Option (List Mark)) : Call → Nat → Option (List Mark)
  | .startRequestTrace context _ _ _ => Function.update request context (some [])
  | .markTainted context mark =>
      Function.update request context ((request context).map (· ++ [mark]))
  | .finishRequest context => Function.update request context none
  | _ => request

/-- One call to a process that serves requests. -/
def Serving.step (lib : Library) (s : Serving) (call : Call) : Reply × Serving :=
  ((s.process.call lib call).1, ⟨(s.process.call lib call).2, note s.request call⟩)

/-- The check that a call makes: its context, its sink and its argument. -/
def Call.checks : Call → Option (Nat × Sink × Argument)
  | .check context sink argument => some (context, sink, argument)
  | .inspectQuery context argument => some (context, checkSqlSink, argument)
  | .hooked context hook argument => some (context, hook.sink, argument)
  | _ => none

/-! ## Isolation -/

/-- What a string is looked up as: the record it carries, the one of its identity, or the first of
the recent ones that occurs in it. -/
def lookUp (registry : OrderedMap Nat TaintRecord) (object : StringObject) : Option TaintRecord :=
  (object.taintRecord.or (registry.get? object.identity)).or
    (((recent registry).find? (occursIn object.text)).map Prod.snd)

/-- What others have left in the registry is not in the way of a string that a request checks: the
string is no wrapper of theirs; the entry of its identity is the request's, if there is one; and
otherwise the first of the recent entries that occurs in the string is one of the request's recent
entries, if there is one, and there is one if one of those occurs in the string. -/
structure Undisturbed (marks : List Mark) (shared : OrderedMap Nat TaintRecord)
    (object : StringObject) : Prop where
  wrapper : ∀ record, object.taintRecord = some record → ∃ mark ∈ marks, mark.record = some record
  identity : object.taintRecord = none → ∀ record, shared.get? object.identity = some record →
    (ownRegistry marks).get? object.identity = some record
  first : object.taintRecord = none → shared.get? object.identity = none →
    ∀ entry, (recent shared).find? (occursIn object.text) = some entry →
      entry ∈ recent (ownRegistry marks)
  kept : object.taintRecord = none → shared.get? object.identity = none →
    ∀ entry ∈ recent (ownRegistry marks), occursIn object.text entry = true →
      ∃ other ∈ recent shared, occursIn object.text other = true

/-- A call checks a string that others are not in the way of, wherever its request and its sink make
that matter. -/
def Serving.Undisturbed (s : Serving) (call : Call) : Prop :=
  ∀ context sink argument marks object, call.checks = some (context, sink, argument) →
    s.request context = some marks → argument.toString? = some object →
      sink.triggers object.text = true →
        PythonAgent.Undisturbed marks s.process.registry object

/-- In the runs whose calls meet a condition, what the checks of a request find, and what the hooks
block, depends only on their arguments and on what the request has marked, which is also what is
found. -/
def Isolated (lib : Library) (condition : Serving → Call → Prop) : Prop :=
  ∀ (mode mode' : PyStr) (run run' : List Call) (call call' : Call),
    Machine.Meets (Serving.step lib) condition (.start mode) (run ++ [call]) →
    Machine.Meets (Serving.step lib) condition (.start mode') (run' ++ [call']) →
    ∀ (context context' : Nat) (sink : Sink) (argument : Argument) (marks : List Mark),
      call.checks = some (context, sink, argument) →
      call'.checks = some (context', sink, argument) →
      let s := Machine.final (Serving.step lib) (.start mode) run
      let s' := Machine.final (Serving.step lib) (.start mode') run'
      s.request context = some marks → s'.request context' = some marks →
        (s.process.inspectGenericSink context sink argument).isSome =
            (s'.process.inspectGenericSink context' sink argument).isSome ∧
          (∀ hook : Hook, hook.sink = sink →
            s.process.protectionMode = s'.process.protectionMode →
              (s.process.hooked context hook argument).1 =
                (s'.process.hooked context' hook argument).1) ∧
          ∀ finding, s.process.inspectGenericSink context sink argument = some finding →
            ∃ mark ∈ marks, finding.sourceKind = mark.sourceKind

section
variable {lib : Library}

/-- What is looked up, in a context with a trace. -/
theorem is_tainted_eq {p : Process} {context : Nat} (htrace : (p.currentTrace context).isSome)
    (object : StringObject) : p.isTainted context object = lookUp p.registry object := by
  obtain ⟨trace, htrace⟩ := Option.isSome_iff_exists.mp htrace
  unfold Process.isTainted lookUp
  rw [htrace]
  cases object.taintRecord with
  | some record => rfl
  | none => cases p.registry.get? object.identity <;> rfl

/-- A mark enters its keys into a registry and into a larger one. -/
theorem covers_register {own shared : OrderedMap Nat TaintRecord} (h : own.Covers shared)
    (mark : Mark) : (mark.register own).Covers (mark.register shared) := by
  unfold Mark.register
  split
  · exact h
  · exact (h.set _ _).set _ _

/-- The marks of others may enter keys into the larger one. -/
theorem covers_register_shared {own shared : OrderedMap Nat TaintRecord} (h : own.Covers shared)
    (mark : Mark) : own.Covers (mark.register shared) := by
  unfold Mark.register
  split
  · exact h
  · exact (h.set_shared _ _).set_shared _ _

theorem own_registry_append (marks : List Mark) (mark : Mark) :
    ownRegistry (marks ++ [mark]) = mark.register (ownRegistry marks) :=
  List.foldl_append

/-- The record of a mark tells the kind of its source. -/
theorem source_kind_of_record {mark : Mark} {record : TaintRecord}
    (h : mark.record = some record) :
    (record.ranges.head?.map TaintRange.sourceKind).getD (py "PARAMETER") = mark.sourceKind := by
  unfold Mark.record Mark.marked at h
  split at h
  · cases h
  · split at h
    · cases h
    · obtain rfl := Option.some.inj h
      rfl

/-- The entries of a request's own registry are the records of its marks. -/
theorem record_of_own {marks : List Mark} {entry : Nat × TaintRecord}
    (h : entry ∈ (ownRegistry marks).entries) : ∃ mark ∈ marks, mark.record = some entry.2 := by
  induction marks using List.reverseRecOn with
  | nil => cases h
  | append_singleton marks mark ih =>
      have hold : entry ∈ (ownRegistry marks).entries →
          ∃ mark' ∈ marks ++ [mark], mark'.record = some entry.2 := by
        intro hmem
        obtain ⟨mark', hmark', hrecord⟩ := ih hmem
        exact ⟨mark', List.mem_append_left _ hmark', hrecord⟩
      rw [own_registry_append, Mark.register] at h
      split at h
      · exact hold h
      · next object record hmarked =>
          have hnew : ∀ k, entry = (k, record) →
              ∃ mark' ∈ marks ++ [mark], mark'.record = some entry.2 := by
            rintro k rfl
            refine ⟨mark, List.mem_append_right _ (List.mem_singleton_self mark), ?_⟩
            rw [Mark.record, hmarked]
            rfl
          rcases OrderedMap.mem_set h with hentry | hentry
          · exact hnew _ hentry
          rcases OrderedMap.mem_set hentry with hentry | hentry
          · exact hnew _ hentry
          · exact hold hentry

/-- Undisturbed, a string is found just when the request alone would find it, and as what the request
has marked. -/
theorem Undisturbed.look_up {marks : List Mark} {shared : OrderedMap Nat TaintRecord}
    {object : StringObject} (h : Undisturbed marks shared object)
    (hcovers : (ownRegistry marks).Covers shared) :
    (lookUp shared object).isSome = (lookUp (ownRegistry marks) object).isSome ∧
      ∀ record, lookUp shared object = some record → ∃ mark ∈ marks, mark.record = some record := by
  unfold lookUp
  cases hwrapper : object.taintRecord with
  | some record =>
      refine ⟨rfl, fun found hfound ↦ ?_⟩
      obtain rfl : record = found := Option.some.inj hfound
      exact h.wrapper record hwrapper
  | none =>
  cases hshared : shared.get? object.identity with
  | some record =>
      have hown := h.identity hwrapper record hshared
      rw [hown]
      refine ⟨rfl, fun found hfound ↦ ?_⟩
      obtain rfl : record = found := Option.some.inj hfound
      exact record_of_own (OrderedMap.get_eq_some_iff.mp hown)
  | none =>
      have hown : (ownRegistry marks).get? object.identity = none := by
        by_contra hsome
        have hkey := hcovers _ (Option.isSome_iff_ne_none.mpr hsome)
        rw [hshared] at hkey
        cases hkey
      rw [hown]
      show (Option.map _ _).isSome = (Option.map _ _).isSome ∧ ∀ record, Option.map _ _ = _ → _
      rw [Option.isSome_map, Option.isSome_map]
      refine ⟨OrderedMap.find_of_own (h.first hwrapper hshared) (h.kept hwrapper hshared), ?_⟩
      intro record hfound
      obtain ⟨entry, hentry, rfl⟩ := Option.map_eq_some_iff.mp hfound
      exact record_of_own (List.mem_of_mem_drop (h.first hwrapper hshared entry hentry))

/-- A request that has a process of its own is not disturbed. -/
theorem undisturbed_alone {marks : List Mark} {object : StringObject}
    (hwrapper : ∀ record, object.taintRecord = some record →
      ∃ mark ∈ marks, mark.record = some record) :
    Undisturbed marks (ownRegistry marks) object where
  wrapper := hwrapper
  identity _ _ h := h
  first _ _ _ h := List.mem_of_find?_eq_some h
  kept _ _ entry hentry hoccurs := ⟨entry, hentry, hoccurs⟩

/-! ## Runs -/

/-- A request has a trace, and the registry has the keys that it has marked. -/
structure Serving.Sound (s : Serving) : Prop where
  trace : ∀ context, (s.request context).isSome → (s.process.currentTrace context).isSome
  covers : ∀ context marks, s.request context = some marks →
    (ownRegistry marks).Covers s.process.registry

theorem Serving.sound_start (mode : PyStr) : (Serving.start mode).Sound :=
  ⟨nofun, nofun⟩

/-- A request that starts has a trace and has marked nothing. -/
theorem Serving.Sound.start {s : Serving} (h : s.Sound) (context : Nat)
    (traceId route method : PyStr) :
    (s.step lib (.startRequestTrace context traceId route method)).2.Sound := by
  constructor
  · intro other hother
    show (Function.update s.process.currentTrace context _ other).isSome
    by_cases heq : other = context
    · rw [heq, Function.update_self]
      rfl
    · rw [Function.update_of_ne heq]
      refine h.trace other ?_
      change (Function.update s.request context _ other).isSome at hother
      rwa [Function.update_of_ne heq] at hother
  · intro other marks hmarks
    change Function.update s.request context (some []) other = some marks at hmarks
    by_cases heq : other = context
    · rw [heq, Function.update_self] at hmarks
      obtain rfl := Option.some.inj hmarks
      exact OrderedMap.covers_empty _
    · rw [Function.update_of_ne heq] at hmarks
      exact h.covers other marks hmarks

/-- A request that ends has none. -/
theorem Serving.Sound.finish {s : Serving} (h : s.Sound) (context : Nat) :
    (s.step lib (.finishRequest context)).2.Sound := by
  have hother : ∀ other marks, Function.update s.request context none other = some marks →
      other ≠ context ∧ s.request other = some marks := by
    intro other marks hmarks
    by_cases heq : other = context
    · rw [heq, Function.update_self] at hmarks
      cases hmarks
    · rw [Function.update_of_ne heq] at hmarks
      exact ⟨heq, hmarks⟩
  constructor
  · intro other hsome
    obtain ⟨marks, hmarks⟩ := Option.isSome_iff_exists.mp hsome
    obtain ⟨heq, hmarks⟩ := hother other marks hmarks
    show (Function.update s.process.currentTrace context none other).isSome
    rw [Function.update_of_ne heq]
    exact h.trace other (Option.isSome_iff_exists.mpr ⟨marks, hmarks⟩)
  · intro other marks hmarks
    exact h.covers other marks (hother other marks hmarks).2

/-- The registry and the traces after a mark. -/
theorem mark_tainted_eq (p : Process) (context : Nat) (mark : Mark) :
    (p.markTainted context mark).2.registry = mark.register p.registry ∧
      ∀ other, ((p.markTainted context mark).2.currentTrace other).isSome =
        (p.currentTrace other).isSome := by
  unfold Process.markTainted Mark.register
  cases mark.marked with
  | none => exact ⟨rfl, fun _ ↦ rfl⟩
  | some marked =>
      refine ⟨rfl, fun other ↦ ?_⟩
      show (Function.update p.currentTrace context _ other).isSome = _
      by_cases heq : other = context
      · rw [heq, Function.update_self, Option.isSome_map]
      · rw [Function.update_of_ne heq]

/-- A mark is entered into the registry, for the request that made it. -/
theorem Serving.Sound.mark {s : Serving} (h : s.Sound) (context : Nat) (mark : Mark) :
    (s.step lib (.markTainted context mark)).2.Sound := by
  obtain ⟨hregistry, htraces⟩ := mark_tainted_eq s.process context mark
  constructor
  · intro other hother
    show ((s.process.markTainted context mark).2.currentTrace other).isSome
    rw [htraces]
    refine h.trace other ?_
    change (Function.update s.request context _ other).isSome at hother
    by_cases heq : other = context
    · rw [heq, Function.update_self, Option.isSome_map] at hother
      rwa [heq]
    · rwa [Function.update_of_ne heq] at hother
  · intro other marks hmarks
    show (ownRegistry marks).Covers (s.process.markTainted context mark).2.registry
    rw [hregistry]
    change Function.update s.request context _ other = some marks at hmarks
    by_cases heq : other = context
    · rw [heq, Function.update_self] at hmarks
      obtain ⟨before, hbefore, rfl⟩ := Option.map_eq_some_iff.mp hmarks
      rw [own_registry_append]
      exact covers_register (h.covers context before hbefore) mark
    · rw [Function.update_of_ne heq] at hmarks
      exact covers_register_shared (h.covers other marks hmarks) mark

/-- A call keeps that. -/
theorem Serving.Sound.step {s : Serving} (h : s.Sound) (call : Call) :
    (s.step lib call).2.Sound := by
  have hsame : ∀ p : Process, p.currentTrace = s.process.currentTrace →
      p.registry = s.process.registry → Serving.Sound ⟨p, s.request⟩ := by
    intro p htrace hregistry
    refine ⟨fun context hcontext ↦ ?_, fun context marks hmarks ↦ ?_⟩
    · exact (congrArg (fun traces ↦ (traces context).isSome) htrace).trans
        (h.trace context hcontext)
    · exact (congrArg (ownRegistry marks).Covers hregistry).mpr (h.covers context marks hmarks)
  cases call with
  | startRequestTrace context traceId route method => exact h.start context traceId route method
  | markTainted context mark => exact h.mark context mark
  | check context sink argument => exact hsame _ rfl rfl
  | inspectQuery context argument =>
      refine hsame (s.process.inspectQuery context argument).2 ?_ ?_ <;>
        · unfold Process.inspectQuery
          split <;> rfl
  | hooked context hook argument =>
      refine hsame (s.process.hooked context hook argument).2 ?_ ?_ <;>
        · unfold Process.hooked
          split <;> rfl
  | finishRequest context => exact h.finish context
  | setProtectionMode mode => exact hsame _ rfl rfl

/-- A check that others are not in the way of reports just when the request alone would, and what the
request has marked. -/
theorem Serving.Sound.inspect {s : Serving} (h : s.Sound) {call : Call} {context : Nat}
    {sink : Sink} {argument : Argument} {marks : List Mark} (hundisturbed : s.Undisturbed call)
    (hchecks : call.checks = some (context, sink, argument))
    (hrequest : s.request context = some marks) :
    (s.process.inspectGenericSink context sink argument).isSome =
        argument.toString?.any (fun object ↦
          (lookUp (ownRegistry marks) object).isSome && sink.triggers object.text) ∧
      ∀ finding, s.process.inspectGenericSink context sink argument = some finding →
        ∃ mark ∈ marks, finding.sourceKind = mark.sourceKind := by
  have htrace := h.trace context (Option.isSome_iff_exists.mpr ⟨marks, hrequest⟩)
  unfold Process.inspectGenericSink
  cases hargument : argument.toString? with
  | none => exact ⟨rfl, nofun⟩
  | some object =>
      show (Option.bind (s.process.isTainted context object) _).isSome = _ ∧
        ∀ finding, Option.bind (s.process.isTainted context object) _ = some finding → _
      rw [is_tainted_eq htrace, Option.any_some]
      cases htriggers : sink.triggers object.text with
      | false =>
          rw [Bool.and_false]
          cases lookUp s.process.registry object with
          | none => exact ⟨rfl, nofun⟩
          | some record => exact ⟨rfl, nofun⟩
      | true =>
          obtain ⟨hfound, hown⟩ := (hundisturbed context sink argument marks object hchecks hrequest
            hargument htriggers).look_up (h.covers context marks hrequest)
          rw [← hfound, Bool.and_true]
          cases hrecord : lookUp s.process.registry object with
          | none => exact ⟨rfl, nofun⟩
          | some record =>
              refine ⟨rfl, fun finding hfinding ↦ ?_⟩
              obtain ⟨mark, hmark, hmarked⟩ := hown record hrecord
              refine ⟨mark, hmark, ?_⟩
              obtain rfl := Option.some.inj hfinding
              exact source_kind_of_record hmarked

/-- Runs without disturbance keep requests apart. -/
theorem isolated (lib : Library) : Isolated lib Serving.Undisturbed := by
  intro mode mode' run run' call call' hrun hrun' context context' sink argument marks hchecks
    hchecks' s s' hrequest hrequest'
  obtain ⟨-, hcall⟩ := Machine.meets_concat.mp hrun
  obtain ⟨-, hcall'⟩ := Machine.meets_concat.mp hrun'
  have hsound : ∀ mode run, (Machine.final (Serving.step lib) (.start mode) run).Sound :=
    fun mode run ↦ Machine.invariant_final (fun s call hs ↦ hs.step call)
      (Serving.sound_start mode) run
  obtain ⟨hfound, hown⟩ := (hsound mode run).inspect hcall hchecks hrequest
  obtain ⟨hfound', -⟩ := (hsound mode' run').inspect hcall' hchecks' hrequest'
  have hsame := hfound.trans hfound'.symm
  refine ⟨hsame, ?_, hown⟩
  rintro hook rfl hmode
  change (s.process.inspectGenericSink context hook.sink argument).isSome =
    (s'.process.inspectGenericSink context' hook.sink argument).isSome at hsame
  unfold Process.hooked
  rw [← hmode]
  cases hleft : s.process.inspectGenericSink context hook.sink argument <;>
    cases hright : s'.process.inspectGenericSink context' hook.sink argument
  · rfl
  · rw [hleft, hright] at hsame
    cases hsame
  · rw [hleft, hright] at hsame
    cases hsame
  · rfl

end

/-- The query of a request that has marked nothing. -/
def adminQuery : Call :=
  .check 2 checkSqlSink (.value (.string ⟨7, py "SELECT name FROM admin", none⟩))

/-- Another request has marked a word of the query, and is done. -/
def otherRequest : List Call :=
  wrapRequest 1 (py "py-trace-1") (py "/users") (py "GET")
    [(py "role", .string ⟨5, py "admin", none⟩, 6)] ++ [.finishRequest 1]

/-- A request that has marked nothing. -/
def bareRequest : List Call :=
  wrapRequest 2 (py "py-trace-2") (py "/report") (py "GET") []

end Aegis.PythonAgent

namespace Aegis.NodeAgent

open Aegis.Agent (JString java)

/-! ## What a request has marked -/

/-- The record of a mark. -/
def Mark.record (mark : Mark) : Option TaintRecord :=
  mark.marked.map Prod.snd

/-- The registry of a request that has a process of its own. -/
def ownRegistry (marks : List Mark) : OrderedMap JString TaintRecord :=
  marks.foldl Mark.register ∅

/-- A process that serves requests, with what the requests of each context have marked, the innermost
first. -/
structure Serving where
  process : Process
  requests : Nat → List (List Mark)

/-- A process that has served no request. -/
def Serving.start : Serving :=
  ⟨⟨fun _ ↦ [], ∅, []⟩, fun _ ↦ []⟩

/-- What the requests have marked after a call. -/
def note (requests : Nat → List (List Mark)) : Call → Nat → List (List Mark)
  | .startTraceContext context _ _ _ =>
      Function.update requests context ([] :: requests context)
  | .markTainted context mark =>
      Function.update requests context ((requests context).modifyHead (· ++ [mark]))
  | .endTraceContext context => Function.update requests context (requests context).tail
  | _ => requests

/-- One call to a process that serves requests. -/
def Serving.step (s : Serving) (call : Call) : Option FindingEvent × Serving :=
  ((s.process.call call).1, ⟨(s.process.call call).2, note s.requests call⟩)

/-- The check that a call makes: its context, its sink and its argument. -/
def Call.checks : Call → Option (Nat × Sink × Value)
  | .check context sink value => some (context, sink, value)
  | .inspectQuery context value => some (context, checkSqlSink, value)
  | _ => none

/-! ## Isolation -/

/-- What a text is looked up as: the record of the text, or of the first that occurs in it. -/
def lookUp (registry : OrderedMap JString TaintRecord) (text : JString) : Option TaintRecord :=
  (registry.get? text).or ((registry.entries.find? (occursIn text)).map Prod.snd)

/-- Whether a request that has a process of its own finds a value. -/
def findsAlone (marks : List Mark) : Value → Bool
  | .other => false
  | .string text => (lookUp (ownRegistry marks) text).isSome

/-- What others have left in the registry is not in the way of a text that a request checks: the
entry of the text is the request's, if there is one, and otherwise so is the first of the entries
that occurs in it. -/
structure Undisturbed (marks : List Mark) (shared : OrderedMap JString TaintRecord)
    (text : JString) : Prop where
  same : ∀ record, shared.get? text = some record → (ownRegistry marks).get? text = some record
  first : shared.get? text = none → ∀ entry, shared.entries.find? (occursIn text) = some entry →
    entry ∈ (ownRegistry marks).entries

/-- A call checks a text that others are not in the way of. -/
def Serving.Undisturbed (s : Serving) (call : Call) : Prop :=
  ∀ context sink text marks, call.checks = some (context, sink, .string text) →
    (s.requests context).head? = some marks →
      NodeAgent.Undisturbed marks s.process.registry text

/-- In the runs whose calls meet a condition, what the checks of a request find depends only on their
arguments and on what the request has marked, which is also what is found. -/
def Isolated (condition : Serving → Call → Prop) : Prop :=
  ∀ (run run' : List Call) (call call' : Call),
    Machine.Meets Serving.step condition .start (run ++ [call]) →
    Machine.Meets Serving.step condition .start (run' ++ [call']) →
    ∀ (context context' : Nat) (sink : Sink) (value : Value) (marks : List Mark),
      call.checks = some (context, sink, value) →
      call'.checks = some (context', sink, value) →
      let s := Machine.final Serving.step .start run
      let s' := Machine.final Serving.step .start run'
      (s.requests context).head? = some marks → (s'.requests context').head? = some marks →
        (s.process.checkSink context sink value).isSome =
            (s'.process.checkSink context' sink value).isSome ∧
          ∀ finding, s.process.checkSink context sink value = some finding →
            ∃ mark ∈ marks, finding.sourceKind = mark.sourceKind

/-- What is looked up, in a context with a trace. -/
theorem is_tainted_eq {p : Process} {context : Nat} (htrace : (p.currentTrace context).isSome)
    (text : JString) : p.isTainted context text = lookUp p.registry text := by
  obtain ⟨trace, htrace⟩ := Option.isSome_iff_exists.mp htrace
  unfold Process.isTainted lookUp
  rw [htrace]
  cases p.registry.get? text <;> rfl

/-- A mark enters its key into a registry and into a larger one. -/
theorem covers_register {own shared : OrderedMap JString TaintRecord} (h : own.Covers shared)
    (mark : Mark) : (mark.register own).Covers (mark.register shared) := by
  unfold Mark.register
  split
  · exact h
  · exact h.set _ _

/-- The marks of others may enter keys into the larger one. -/
theorem covers_register_shared {own shared : OrderedMap JString TaintRecord}
    (h : own.Covers shared) (mark : Mark) : own.Covers (mark.register shared) := by
  unfold Mark.register
  split
  · exact h
  · exact h.set_shared _ _

theorem own_registry_append (marks : List Mark) (mark : Mark) :
    ownRegistry (marks ++ [mark]) = mark.register (ownRegistry marks) :=
  List.foldl_append

/-- The record of a mark tells the kind of its source. -/
theorem source_kind_of_record {mark : Mark} {record : TaintRecord}
    (h : mark.record = some record) :
    (record.ranges.head?.map TaintRange.sourceKind).getD (java "PARAMETER") = mark.sourceKind := by
  unfold Mark.record Mark.marked at h
  split at h
  · cases h
  · split at h
    · cases h
    · obtain rfl := Option.some.inj h
      rfl

/-- The entries of a request's own registry are the records of its marks. -/
theorem record_of_own {marks : List Mark} {entry : JString × TaintRecord}
    (h : entry ∈ (ownRegistry marks).entries) : ∃ mark ∈ marks, mark.record = some entry.2 := by
  induction marks using List.reverseRecOn with
  | nil => cases h
  | append_singleton marks mark ih =>
      have hold : entry ∈ (ownRegistry marks).entries →
          ∃ mark' ∈ marks ++ [mark], mark'.record = some entry.2 := by
        intro hmem
        obtain ⟨mark', hmark', hrecord⟩ := ih hmem
        exact ⟨mark', List.mem_append_left _ hmark', hrecord⟩
      rw [own_registry_append, Mark.register] at h
      split at h
      · exact hold h
      · next text record hmarked =>
          rcases OrderedMap.mem_set h with rfl | hentry
          · refine ⟨mark, List.mem_append_right _ (List.mem_singleton_self mark), ?_⟩
            rw [Mark.record, hmarked]
            rfl
          · exact hold hentry

/-- Undisturbed, a text is found just when the request alone would find it, and as what the request
has marked. What it has marked is not forgotten, so one of its entries that occurs in the text is
found, or one before it. -/
theorem Undisturbed.look_up {marks : List Mark} {shared : OrderedMap JString TaintRecord}
    {text : JString} (h : Undisturbed marks shared text)
    (hcovers : (ownRegistry marks).Covers shared) :
    (lookUp shared text).isSome = (lookUp (ownRegistry marks) text).isSome ∧
      ∀ record, lookUp shared text = some record → ∃ mark ∈ marks, mark.record = some record := by
  unfold lookUp
  cases hshared : shared.get? text with
  | some record =>
      have hown := h.same record hshared
      rw [hown]
      refine ⟨rfl, fun found hfound ↦ ?_⟩
      obtain rfl : record = found := Option.some.inj hfound
      exact record_of_own (OrderedMap.get_eq_some_iff.mp hown)
  | none =>
      have hown : (ownRegistry marks).get? text = none := by
        by_contra hsome
        have hkey := hcovers _ (Option.isSome_iff_ne_none.mpr hsome)
        rw [hshared] at hkey
        cases hkey
      rw [hown]
      show (Option.map _ _).isSome = (Option.map _ _).isSome ∧ ∀ record, Option.map _ _ = _ → _
      rw [Option.isSome_map, Option.isSome_map]
      refine ⟨OrderedMap.find_of_own (h.first hshared) fun entry hentry hoccurs ↦ ?_,
        fun record hfound ↦ ?_⟩
      · obtain ⟨other, hother, hkey⟩ := OrderedMap.get_is_some_iff.mp
          (hcovers entry.1 (OrderedMap.get_is_some_iff.mpr ⟨entry, hentry, rfl⟩))
        refine ⟨other, hother, ?_⟩
        unfold occursIn at hoccurs ⊢
        rwa [hkey]
      · obtain ⟨entry, hentry, rfl⟩ := Option.map_eq_some_iff.mp hfound
        exact record_of_own (h.first hshared entry hentry)

/-- A request that has a process of its own is not disturbed. -/
theorem undisturbed_alone (marks : List Mark) (text : JString) :
    Undisturbed marks (ownRegistry marks) text where
  same _ h := h
  first _ _ h := List.mem_of_find?_eq_some h

/-! ## Runs -/

/-- The requests of a context have its traces, and the registry has the keys that they have marked. -/
structure Serving.Sound (s : Serving) : Prop where
  traces : ∀ context, (s.requests context).length = (s.process.traces context).length
  covers : ∀ context, ∀ marks ∈ s.requests context, (ownRegistry marks).Covers s.process.registry

theorem Serving.sound_start : Serving.start.Sound :=
  ⟨fun _ ↦ rfl, nofun⟩

/-- A request that starts or ends leaves the marks of the others as they are. -/
theorem Serving.Sound.replace {s : Serving} (h : s.Sound) (context : Nat)
    {traces : List Trace} {requests : List (List Mark)} (hlength : requests.length = traces.length)
    (hcovers : ∀ marks ∈ requests, (ownRegistry marks).Covers s.process.registry) :
    Serving.Sound ⟨{ s.process with traces := Function.update s.process.traces context traces },
      Function.update s.requests context requests⟩ := by
  constructor
  · intro other
    show (Function.update s.requests context requests other).length =
      (Function.update s.process.traces context traces other).length
    by_cases heq : other = context
    · rw [heq, Function.update_self, Function.update_self, hlength]
    · rw [Function.update_of_ne heq, Function.update_of_ne heq, h.traces]
  · intro other marks hmarks
    change marks ∈ Function.update s.requests context requests other at hmarks
    by_cases heq : other = context
    · rw [heq, Function.update_self] at hmarks
      exact hcovers marks hmarks
    · rw [Function.update_of_ne heq] at hmarks
      exact h.covers other marks hmarks

/-- The registry and the traces after a mark. -/
theorem mark_tainted_eq (p : Process) (context : Nat) (mark : Mark) :
    (p.markTainted context mark).registry = mark.register p.registry ∧
      ∀ other, ((p.markTainted context mark).traces other).length = (p.traces other).length := by
  unfold Process.markTainted Mark.register
  cases mark.marked with
  | none => exact ⟨rfl, fun _ ↦ rfl⟩
  | some marked =>
      refine ⟨rfl, fun other ↦ ?_⟩
      show (Function.update p.traces context _ other).length = _
      by_cases heq : other = context
      · rw [heq, Function.update_self, List.length_modifyHead]
      · rw [Function.update_of_ne heq]

/-- A mark is entered into the registry, for the request that made it. -/
theorem Serving.Sound.mark {s : Serving} (h : s.Sound) (context : Nat) (mark : Mark) :
    (s.step (.markTainted context mark)).2.Sound := by
  obtain ⟨hregistry, htraces⟩ := mark_tainted_eq s.process context mark
  constructor
  · intro other
    show (Function.update s.requests context _ other).length =
      ((s.process.markTainted context mark).traces other).length
    rw [htraces, ← h.traces]
    by_cases heq : other = context
    · rw [heq, Function.update_self, List.length_modifyHead]
    · rw [Function.update_of_ne heq]
  · intro other marks hmarks
    show (ownRegistry marks).Covers (s.process.markTainted context mark).registry
    rw [hregistry]
    have hold : marks ∈ s.requests other → (ownRegistry marks).Covers
        (mark.register s.process.registry) := fun hmem ↦
      covers_register_shared (h.covers other marks hmem) mark
    change marks ∈ Function.update s.requests context _ other at hmarks
    by_cases heq : other = context
    · subst heq
      rw [Function.update_self] at hmarks
      cases hrequests : s.requests other with
      | nil =>
          rw [hrequests] at hmarks
          cases hmarks
      | cons first rest =>
          rw [hrequests, List.modifyHead_cons] at hmarks
          rcases List.mem_cons.mp hmarks with rfl | hrest
          · rw [own_registry_append]
            exact covers_register (h.covers other first (hrequests ▸ List.mem_cons_self)) mark
          · exact hold (hrequests ▸ List.mem_cons_of_mem _ hrest)
    · rw [Function.update_of_ne heq] at hmarks
      exact hold hmarks

/-- A call keeps that. -/
theorem Serving.Sound.step {s : Serving} (h : s.Sound) (call : Call) : (s.step call).2.Sound := by
  cases call with
  | startTraceContext context traceId route method =>
      refine h.replace context (congrArg Nat.succ (h.traces context)) fun marks hmarks ↦ ?_
      rcases List.mem_cons.mp hmarks with rfl | hold
      · exact OrderedMap.covers_empty _
      · exact h.covers context marks hold
  | markTainted context mark => exact h.mark context mark
  | check context sink value => exact h
  | inspectQuery context value =>
      have hcall : (s.step (.inspectQuery context value)).2.process.traces = s.process.traces ∧
          (s.step (.inspectQuery context value)).2.process.registry = s.process.registry := by
        show (s.process.inspectQuery context value).2.traces = _ ∧
          (s.process.inspectQuery context value).2.registry = _
        unfold Process.inspectQuery
        split <;> exact ⟨rfl, rfl⟩
      refine ⟨fun other ↦ ?_, fun other marks hmarks ↦ ?_⟩
      · rw [hcall.1]
        exact h.traces other
      · rw [hcall.2]
        exact h.covers other marks hmarks
  | endTraceContext context =>
      refine h.replace context ?_ fun marks hmarks ↦ h.covers context marks (List.mem_of_mem_tail hmarks)
      rw [List.length_tail, List.length_tail, h.traces]

/-- A check that others are not in the way of reports just when the request alone would, and what the
request has marked. -/
theorem Serving.Sound.check {s : Serving} (h : s.Sound) {call : Call} {context : Nat} {sink : Sink}
    {value : Value} {marks : List Mark} (hundisturbed : s.Undisturbed call)
    (hchecks : call.checks = some (context, sink, value))
    (hrequest : (s.requests context).head? = some marks) :
    (s.process.checkSink context sink value).isSome = findsAlone marks value ∧
      ∀ finding, s.process.checkSink context sink value = some finding →
        ∃ mark ∈ marks, finding.sourceKind = mark.sourceKind := by
  have hmem : marks ∈ s.requests context := List.mem_of_mem_head? hrequest
  have htrace : (s.process.currentTrace context).isSome := by
    unfold Process.currentTrace
    rw [List.isSome_head?, ← List.length_pos_iff, ← h.traces]
    exact List.length_pos_of_mem hmem
  cases value with
  | other => exact ⟨rfl, nofun⟩
  | string text =>
      obtain ⟨hfound, hown⟩ := (hundisturbed context sink text marks hchecks hrequest).look_up
        (h.covers context marks hmem)
      unfold Process.checkSink
      dsimp only
      rw [is_tainted_eq htrace, Option.isSome_map, hfound, findsAlone]
      refine ⟨rfl, fun finding hfinding ↦ ?_⟩
      obtain ⟨record, hrecord, rfl⟩ := Option.map_eq_some_iff.mp hfinding
      obtain ⟨mark, hmark, hmarked⟩ := hown record hrecord
      exact ⟨mark, hmark, source_kind_of_record hmarked⟩

/-- Runs without disturbance keep requests apart. -/
theorem isolated : Isolated Serving.Undisturbed := by
  intro run run' call call' hrun hrun' context context' sink value marks hchecks hchecks' s s'
    hrequest hrequest'
  obtain ⟨-, hcall⟩ := Machine.meets_concat.mp hrun
  obtain ⟨-, hcall'⟩ := Machine.meets_concat.mp hrun'
  have hsound : ∀ run, (Machine.final Serving.step .start run).Sound :=
    Machine.invariant_final (fun s call hs ↦ hs.step call) Serving.sound_start
  obtain ⟨hfound, hown⟩ := (hsound run).check hcall hchecks hrequest
  obtain ⟨hfound', -⟩ := (hsound run').check hcall' hchecks' hrequest'
  exact ⟨hfound.trans hfound'.symm, hown⟩

/-- The query of a request that has marked nothing. -/
def adminQuery : Call :=
  .check 2 checkSqlSink (.string (java "SELECT name FROM admin"))

/-- Another request has marked a word of the query, and is done. -/
def otherRequest : List Call :=
  runWithRequest 1 (java "node-trace-1") (java "/users") (java "GET")
    [(java "role", .string (java "admin"))] ++ [.endTraceContext 1]

/-- A request that has marked nothing. -/
def bareRequest : List Call :=
  runWithRequest 2 (java "node-trace-2") (java "/report") (java "GET") []

end Aegis.NodeAgent

namespace Aegis

open Aegis.Server

/-- What the checks of a request find, and what the hooks block, depends only on their arguments and
on what the request has marked, in the runs of both agents in which what other requests have left in
the registry is never in the way. -/
theorem requests_isolated (lib : Library) :
    PythonAgent.Isolated lib PythonAgent.Serving.Undisturbed ∧
      NodeAgent.Isolated NodeAgent.Serving.Undisturbed :=
  ⟨PythonAgent.isolated lib, NodeAgent.isolated⟩

/-- What another request has marked is found in the query of a request that has marked nothing. -/
theorem requests_not_isolated :
    ¬ PythonAgent.Isolated plainLibrary (fun _ _ ↦ True) ∧
      ¬ NodeAgent.Isolated fun _ _ ↦ True := by
  constructor
  · intro h
    have hsame := (h (py "BLOCK") (py "BLOCK")
      (PythonAgent.otherRequest ++ PythonAgent.bareRequest) PythonAgent.bareRequest
      PythonAgent.adminQuery PythonAgent.adminQuery (Machine.meets_true _ _)
      (Machine.meets_true _ _) 2 2 _ _ [] rfl rfl (by decide) (by decide)).1
    exact absurd hsame (by decide +kernel)
  · intro h
    have hsame := (h (NodeAgent.otherRequest ++ NodeAgent.bareRequest) NodeAgent.bareRequest
      NodeAgent.adminQuery NodeAgent.adminQuery (Machine.meets_true _ _) (Machine.meets_true _ _)
      2 2 _ _ [] rfl rfl (by decide) (by decide)).1
    exact absurd hsame (by decide +kernel)

end Aegis
