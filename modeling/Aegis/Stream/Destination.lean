import Aegis.Lib.Checked
import Aegis.Server.Paths

/-!
# Where the stream is

`build_sink` of the gateway and `build_source` of the worker: two readings of one URI. Whether an
authority is taken is a parameter, `isNetloc`; the gateway raises its error for one that is not.
-/

namespace Aegis.Stream

open Server

/-- A constant of the source: the scheme of a file. -/
def FILE : PyStr := py "file:"

/-- The scheme of a broker. -/
def KAFKA : PyStr := py "kafka://"

/-! ## The gateway -/

/-- What the gateway publishes to. -/
inductive Sink where
  | memory
  | kafka (servers topic : PyStr)
  | file (path : PosixPath)
  deriving DecidableEq

/-- `DEFAULT_TOPIC`. -/
def DEFAULT_TOPIC : PyStr := py "runtime-events"

/-- `topic or DEFAULT_TOPIC`. -/
def topicOr (topic : PyStr) : PyStr :=
  if topic.isEmpty then DEFAULT_TOPIC else topic

/-- `_file_destination_path(destination)`. -/
def fileDestinationPath (isNetloc : PyStr → Bool) (destination : PyStr) :
    Except PyException PosixPath := do
  let parsed ← urlsplit isNetloc destination
  if !parsed.query.isEmpty || !parsed.fragment.isEmpty then .error .ValueError
  else
    let path := unquote parsed.path
    let path := if parsed.netloc.isEmpty then path else py "//" ++ parsed.netloc ++ path
    if path.isEmpty then .error .ValueError else .ok (.ofStr (url2pathname path))

/-- `build_sink(destination)`. -/
def buildSink (isNetloc : PyStr → Bool) (destination : PyStr) : Except PyException Sink :=
  if destination = py "memory://" then .ok .memory
  else if KAFKA.isPrefixOf destination then
    let remainder := cut 47 (destination.drop KAFKA.length)
    if remainder.1.isEmpty then .error .ValueError
    else .ok (.kafka remainder.1 (topicOr remainder.2))
  else if FILE.isPrefixOf destination then
    (fileDestinationPath isNetloc destination).map .file
  else .error .ValueError

/-! ## The worker -/

/-- What the worker reads from. -/
inductive Source where
  | kafka (servers topic group : PyStr)
  | file (path cursor : PosixPath)
  deriving DecidableEq

/-- `FileCursor.for_source(source_path, override)`. -/
def cursorFor (path : PosixPath) (override : PyStr) : Except PyException PosixPath :=
  if override.isEmpty then path.withName (path.name ++ py ".cursor") else .ok (.ofStr override)

/-- The path the worker makes of a URI of a file. -/
def fileSourcePath (uri : PyStr) : PosixPath :=
  .ofStr ((uri.drop FILE.length).dropWhile (· == 47))

/-- `build_source(uri, consumer_group=…, cursor_override=…)`. -/
def buildSource (uri consumerGroup cursorOverride : PyStr) : Except PyException Source :=
  if KAFKA.isPrefixOf uri then
    let remainder := cut 47 (uri.drop KAFKA.length)
    .ok (.kafka remainder.1 (topicOr remainder.2) consumerGroup)
  else if FILE.isPrefixOf uri then
    (cursorFor (fileSourcePath uri) cursorOverride).map (.file (fileSourcePath uri))
  else .error .ValueError

/-! ## Where they agree -/

/-- A character that the gateway reads in its own way: a tab, the end of a line, or what a query or
a fragment begins with. -/
def isSpecial (c : PyChar) : Bool :=
  isUnsafe c || c.val == 35 || c.val == 63

/-- A path without what only the gateway interprets. -/
structure Plain (path : PyStr) : Prop where
  relative : path.head? ≠ some 47
  characters : ∀ c ∈ path, isSpecial c = false
  escapes : hasEscape path = false

instance (path : PyStr) : Decidable (Plain path) :=
  decidable_of_iff (path.head? ≠ some 47 ∧ path.all (fun c ↦ !isSpecial c) = true ∧
      hasEscape path = false)
    ⟨fun h ↦ ⟨h.1, by simpa using h.2.1, h.2.2⟩,
      fun h ↦ ⟨h.relative, by simpa using h.characters, h.escapes⟩⟩

/-- After the scheme of a file comes the path. -/
theorem after_scheme_file (path : PyStr) : afterScheme (FILE ++ path) = path := by
  have hscheme : (FILE ++ path).takeWhile (· != 58) = py "file" := rfl
  have hlength : (FILE ++ path).length = path.length + 5 := rfl
  simp only [afterScheme, hscheme, hlength]
  rw [if_pos]
  · rfl
  · rw [Bool.and_eq_true, Bool.and_eq_true, decide_eq_true_eq]
    refine ⟨⟨?_, rfl⟩, rfl⟩
    show 4 < path.length + 5
    omega

/-- The gateway reads the path without the characters it removes. -/
theorem urlsplit_file (isNetloc : PyStr → Bool) (path : PyStr) :
    urlsplit isNetloc (FILE ++ path) =
      let located := splitNetloc (path.filter fun c ↦ !isUnsafe c)
      if isNetloc located.1 then
        let marked := cut 35 located.2
        let asked := cut 63 marked.1
        .ok ⟨located.1, asked.1, asked.2, marked.2⟩
      else .error .ValueError := by
  have hscheme : afterScheme (((FILE ++ path).dropWhile fun c ↦ c.val ≤ 32).filter fun c ↦
      !isUnsafe c) = path.filter fun c ↦ !isUnsafe c :=
    after_scheme_file (path.filter fun c ↦ !isUnsafe c)
  simp only [urlsplit, hscheme]

/-- What the gateway makes of the URI of a file: the authority and the path it splits off, without
a query or a fragment, and not both empty. -/
theorem file_destination_path_eq_ok {isNetloc : PyStr → Bool} {rest : PyStr} {path : PosixPath}
    (h : fileDestinationPath isNetloc (FILE ++ rest) = .ok path) :
    let located := splitNetloc (rest.filter fun c ↦ !isUnsafe c)
    let text := if located.1.isEmpty then unquote (cut 63 (cut 35 located.2).1).1
      else py "//" ++ located.1 ++ unquote (cut 63 (cut 35 located.2).1).1
    text ≠ [] ∧ path = .ofStr (unquote text) := by
  intro located text
  obtain ⟨parsed, hparsed, h⟩ := Checked.bind_eq_ok.mp h
  rw [urlsplit_file] at hparsed
  dsimp only at hparsed
  split at hparsed
  swap
  · cases hparsed
  obtain rfl := Except.ok.inj hparsed
  split at h
  · cases h
  have h : (if text.isEmpty then .error .ValueError else .ok (.ofStr (unquote text))) =
    (.ok path : Except PyException PosixPath) := h
  cases hempty : text.isEmpty with
  | true =>
      rw [hempty] at h
      cases h
  | false =>
      rw [hempty] at h
      exact ⟨List.isEmpty_eq_false_iff.mp hempty, (Except.ok.inj h).symm⟩

/-! ## The authority -/

/-- What is split off has no more solid characters than the whole. -/
theorem solid_split_netloc_le (url : PyStr) :
    solid (splitNetloc url).1 + solid (splitNetloc url).2 ≤ solid url := by
  unfold splitNetloc
  split
  · dsimp only
    rw [← solid_append, List.takeWhile_append_dropWhile]
    exact (List.drop_sublist 2 url).countP_le
  · exact (Nat.zero_add _).le

/-- A path without a slash in front has no authority. -/
theorem split_netloc_of_relative {url : PyStr} (h : url.head? ≠ some 47) :
    splitNetloc url = ([], url) := by
  rw [splitNetloc, if_neg]
  intro htwo
  have hhead := congrArg List.head? htwo
  rw [List.head?_take, if_neg (by decide)] at hhead
  exact h hhead

theorem solid_cut_le (separator : PyChar) (text : PyStr) :
    solid (cut separator text).1 ≤ solid text :=
  (List.takeWhile_sublist _).countP_le

/-- Without the separator there is nothing to cut. -/
theorem cut_of_not_mem {separator : PyChar} {text : PyStr} (h : separator ∉ text) :
    (cut separator text).1 = text := by
  refine List.takeWhile_eq_self_iff.mpr fun c hc ↦ ?_
  simpa using fun heq : c = separator ↦ h (heq ▸ hc)

/-- Cutting at a solid character that is there takes it away. -/
theorem solid_cut_lt {separator : PyChar} {text : PyStr} (hsolid : isSolid separator = true)
    (hmem : separator ∈ text) : solid (cut separator text).1 < solid text := by
  have hsplit := List.takeWhile_append_dropWhile (p := (· != separator)) (l := text)
  have hrest : separator ∈ text.dropWhile (· != separator) := by
    rw [← hsplit, List.mem_append] at hmem
    refine hmem.resolve_left fun h ↦ ?_
    have := List.mem_takeWhile_imp h
    simp at this
  have hpos : 0 < solid (text.dropWhile (· != separator)) :=
    List.countP_pos_iff.mpr ⟨separator, hrest, hsolid⟩
  have hsum := congrArg solid hsplit
  rw [solid_append] at hsum
  show solid (text.takeWhile _) < _
  omega

/-- What the gateway's path is made of has no more solid characters than the URI has after its
scheme, and fewer when something there is not plain. -/
theorem solid_destination_lt {isNetloc : PyStr → Bool} {rest : PyStr} {path : PosixPath}
    (h : fileDestinationPath isNetloc (FILE ++ rest) = .ok path) (hrelative : rest.head? ≠ some 47)
    (hnot : ¬Plain rest) : (path.parts.map solid).sum < solid rest := by
  obtain ⟨-, rfl⟩ := file_destination_path_eq_ok h
  rw [PosixPath.sum_solid_parts]
  refine Nat.lt_of_le_of_lt (solid_unquote_le _) ?_
  generalize hurl : rest.filter (fun c ↦ !isUnsafe c) = url
  generalize hlocated : splitNetloc url = located
  have hle := solid_split_netloc_le url
  rw [hlocated] at hle
  -- The slashes before an authority are not solid.
  suffices hsplit : solid located.1 + solid (unquote (cut 63 (cut 35 located.2).1).1) < solid rest by
    split
    · rename_i hempty
      rw [List.isEmpty_iff.mp hempty] at hsplit
      exact (Nat.zero_add _).symm.trans_lt hsplit
    · rw [solid_append, solid_append]
      show 0 + solid located.1 + _ < _
      omega
  have hunquote := solid_unquote_le (cut 63 (cut 35 located.2).1).1
  have hasked := solid_cut_le 63 (cut 35 located.2).1
  have hmarked := solid_cut_le 35 located.2
  have hfilter : solid url ≤ solid rest := hurl ▸ List.filter_sublist.countP_le
  by_cases hunsafe : ∃ c ∈ rest, isUnsafe c = true
  · obtain ⟨c, hc, hunsafe⟩ := hunsafe
    have hsolid : isSolid c = true := by
      simp only [isUnsafe, Bool.or_eq_true, beq_iff_eq] at hunsafe
      simp only [isSolid, Bool.and_eq_true, bne_iff_ne]
      omega
    have hsum : solid rest = solid url + solid (rest.filter fun c ↦ !!isUnsafe c) :=
      hurl ▸ List.countP_eq_countP_filter_add rest isSolid _
    have hpos : 0 < solid (rest.filter fun c ↦ !!isUnsafe c) :=
      List.countP_pos_iff.mpr ⟨c, List.mem_filter.mpr ⟨hc, by simpa using hunsafe⟩, hsolid⟩
    omega
  · have hsame : url = rest := by
      rw [← hurl, List.filter_eq_self]
      exact fun c hc ↦ by simpa using fun h ↦ hunsafe ⟨c, hc, h⟩
    rw [hsame, split_netloc_of_relative hrelative] at hlocated
    obtain rfl := hlocated
    show solid [] + solid (unquote (cut 63 (cut 35 rest).1).1) < solid rest
    rw [show solid [] = 0 from rfl, Nat.zero_add]
    by_cases hfragment : (35 : PyChar) ∈ rest
    · have := solid_cut_lt (by decide) hfragment
      dsimp only at *
      omega
    rw [cut_of_not_mem hfragment] at *
    by_cases hquery : (63 : PyChar) ∈ rest
    · have := solid_cut_lt (by decide) hquery
      dsimp only at *
      omega
    rw [cut_of_not_mem hquery] at *
    refine solid_unquote_lt ?_
    by_contra hescape
    refine hnot ⟨hrelative, fun c hc ↦ ?_, by simpa using hescape⟩
    have hsafe : isUnsafe c = false := by simpa using fun h ↦ hunsafe ⟨c, hc, h⟩
    have hmark : c ≠ 35 := fun h ↦ hfragment (h ▸ hc)
    have hask : c ≠ 63 := fun h ↦ hquery (h ▸ hc)
    simp only [isSpecial, hsafe, Bool.false_or, Bool.or_eq_false_iff, beq_eq_false_iff_ne]
    exact ⟨fun h ↦ hmark (Fin.ext h), fun h ↦ hask (Fin.ext h)⟩

/-- A slash is no escape. -/
theorem unquote_slash (text : PyStr) : unquote (47 :: text) = 47 :: unquote text := by
  have hescape : escape (47 :: text) = none := by
    match text with
    | [] => rfl
    | [_] => rfl
    | _ :: _ :: _ => rfl
  show decodeTokens none (tokensFrom 0 (47 :: text)) = _
  rw [tokensFrom, if_pos rfl, hescape]
  rfl

/-- Neither is a slash what a query or a fragment begins with. -/
theorem cut_slash {separator : PyChar} (h : separator ≠ 47) (text : PyStr) :
    (cut separator (47 :: text)).1 = 47 :: (cut separator text).1 :=
  @List.takeWhile_cons_of_pos _ (· != separator) _ _ (bne_iff_ne.mpr h.symm)

theorem root_of_slash (text : PyStr) : (PosixPath.ofStr (47 :: text)).root ≠ [] := by
  show (if _ then _ else _) ≠ []
  split <;> exact nofun

/-- After a slash the gateway finds an absolute path. -/
theorem root_destination_ne_nil {isNetloc : PyStr → Bool} {rest : PyStr} {path : PosixPath}
    (h : fileDestinationPath isNetloc (FILE ++ 47 :: rest) = .ok path) : path.root ≠ [] := by
  obtain ⟨htext, rfl⟩ := file_destination_path_eq_ok h
  rw [List.filter_cons_of_pos rfl] at *
  generalize (rest.filter fun c ↦ !isUnsafe c) = url at *
  have hpath : ∀ text : PyStr, unquote (cut 63 (cut 35 (47 :: text)).1).1 =
      47 :: unquote (cut 63 (cut 35 text).1).1 := by
    intro text
    rw [cut_slash (by decide), cut_slash (by decide), unquote_slash]
  suffices hslash : ∀ text, text ≠ [] → text = (if (splitNetloc (47 :: url)).1.isEmpty then
      unquote (cut 63 (cut 35 (splitNetloc (47 :: url)).2).1).1
      else py "//" ++ (splitNetloc (47 :: url)).1 ++
        unquote (cut 63 (cut 35 (splitNetloc (47 :: url)).2).1).1) → ∃ after, text = 47 :: after by
    obtain ⟨after, hafter⟩ := hslash _ htext rfl
    rw [hafter, unquote_slash]
    exact root_of_slash _
  intro text htext heq
  split at heq
  swap
  · exact ⟨_, heq⟩
  unfold splitNetloc at heq
  split at heq
  swap
  · exact ⟨_, heq.trans (hpath url)⟩
  dsimp only at heq
  generalize (47 :: url).drop 2 = after at heq
  -- Without an authority the path begins with what ended it.
  have hhead := List.head?_dropWhile_not
    (fun c : PyChar ↦ c.val != 47 && c.val != 63 && c.val != 35) after
  cases hrest : after.dropWhile fun c : PyChar ↦ c.val != 47 && c.val != 63 && c.val != 35 with
  | nil =>
      rw [hrest] at heq
      exact absurd heq htext
  | cons c tail =>
      rw [hrest] at heq hhead
      have hc : c = 47 ∨ c = 63 ∨ c = 35 := by
        simp only [List.head?_cons, Bool.and_eq_false_iff, bne_eq_false_iff_eq, or_assoc] at hhead
        exact hhead.imp Fin.ext (Or.imp Fin.ext Fin.ext)
      rcases hc with rfl | rfl | rfl
      · exact ⟨_, heq.trans (hpath tail)⟩
      · exact absurd heq htext
      · exact absurd heq htext

/-- A plain path is read as it stands. -/
theorem file_destination_of_plain {isNetloc : PyStr → Bool} {rest : PyStr} {path : PosixPath}
    (h : fileDestinationPath isNetloc (FILE ++ rest) = .ok path) (hplain : Plain rest) :
    path = .ofStr rest := by
  obtain ⟨-, rfl⟩ := file_destination_path_eq_ok h
  have hfilter : rest.filter (fun c ↦ !isUnsafe c) = rest := by
    refine List.filter_eq_self.mpr fun c hc ↦ ?_
    have := hplain.characters c hc
    simp_all [isSpecial]
  have hmark : (35 : PyChar) ∉ rest := fun h ↦ absurd (hplain.characters _ h) (by decide)
  have hask : (63 : PyChar) ∉ rest := fun h ↦ absurd (hplain.characters _ h) (by decide)
  rw [hfilter, split_netloc_of_relative hplain.relative]
  show PosixPath.ofStr (unquote (unquote (cut 63 (cut 35 rest).1).1)) = _
  rw [cut_of_not_mem hmark, cut_of_not_mem hask, unquote_of_not_escape hplain.escapes,
    unquote_of_not_escape hplain.escapes]

/-- The worker takes the slashes away. -/
theorem file_source_path_file (rest : PyStr) :
    fileSourcePath (FILE ++ rest) = .ofStr (rest.dropWhile (· == 47)) := by
  rw [fileSourcePath, List.drop_left]

/-- The gateway's path is the worker's exactly when there is nothing in the URI that only the
gateway interprets. -/
theorem file_paths_agree_iff {isNetloc : PyStr → Bool} {rest : PyStr} {path : PosixPath}
    (h : fileDestinationPath isNetloc (FILE ++ rest) = .ok path) :
    path = fileSourcePath (FILE ++ rest) ↔ Plain rest := by
  rw [file_source_path_file]
  by_cases hrelative : rest.head? = some 47
  · obtain ⟨tail, rfl⟩ : ∃ tail, rest = 47 :: tail := List.head?_eq_some_iff.mp hrelative
    refine iff_of_false (fun heq ↦ root_destination_ne_nil h ?_) fun hplain ↦
      hplain.relative hrelative
    have hhead := List.head?_dropWhile_not (· == (47 : PyChar)) (47 :: tail)
    rw [heq, PosixPath.ofStr]
    refine if_neg fun hslash ↦ ?_
    rw [hslash] at hhead
    exact absurd hhead (by decide)
  · have hsource : rest.dropWhile (· == 47) = rest := by
      cases rest with
      | nil => rfl
      | cons c tail =>
          refine List.dropWhile_cons_of_neg fun hc ↦ hrelative ?_
          rw [beq_iff_eq.mp hc]
          rfl
    rw [hsource]
    refine ⟨fun heq ↦ ?_, file_destination_of_plain h⟩
    by_contra hnot
    have hlt := solid_destination_lt h hrelative hnot
    rw [heq, PosixPath.sum_solid_parts] at hlt
    exact absurd hlt (lt_irrefl _)

/-! ## The two builders -/

/-- Of a URI of a file the gateway builds the sink of its path. -/
theorem build_sink_file {isNetloc : PyStr → Bool} {rest : PyStr} {path : PosixPath} :
    buildSink isNetloc (FILE ++ rest) = .ok (.file path) ↔
      fileDestinationPath isNetloc (FILE ++ rest) = .ok path := by
  have hbuild : buildSink isNetloc (FILE ++ rest) =
      (fileDestinationPath isNetloc (FILE ++ rest)).map .file := by
    have hmemory : FILE ++ rest ≠ py "memory://" := fun h ↦
      absurd (show (102 : PyChar) = 109 from Option.some.inj (congrArg List.head? h)) (by decide)
    rw [buildSink, if_neg hmemory, if_neg, if_pos]
    · rfl
    · exact Bool.false_ne_true
  rw [hbuild]
  cases fileDestinationPath isNetloc (FILE ++ rest) with
  | error e => exact iff_of_false nofun nofun
  | ok other => simp [Except.map]

/-- The worker builds the source of its path, when it can name its cursor. -/
theorem build_source_file {rest group override : PyStr} {path : PosixPath} :
    (∃ cursor, buildSource (FILE ++ rest) group override = .ok (.file path cursor)) ↔
      path = fileSourcePath (FILE ++ rest) ∧
        (override ≠ [] ∨ (fileSourcePath (FILE ++ rest)).parts ≠ []) := by
  have hbuild : buildSource (FILE ++ rest) group override =
      (cursorFor (fileSourcePath (FILE ++ rest)) override).map
        (.file (fileSourcePath (FILE ++ rest))) := by
    rw [buildSource, if_neg, if_pos]
    · rfl
    · exact Bool.false_ne_true
  have hcursor : (∃ cursor, cursorFor (fileSourcePath (FILE ++ rest)) override = .ok cursor) ↔
      override ≠ [] ∨ (fileSourcePath (FILE ++ rest)).parts ≠ [] := by
    unfold cursorFor PosixPath.withName
    cases override with
    | nil => by_cases hparts : (fileSourcePath (FILE ++ rest)).parts = [] <;> simp [hparts]
    | cons c override => simp
  rw [hbuild, ← hcursor]
  cases cursorFor (fileSourcePath (FILE ++ rest)) override with
  | error e => simp [Except.map]
  | ok cursor => simp [Except.map, eq_comm]

/-- For a URI of a file that the gateway accepts, the worker reads from the path the gateway writes
to if and only if what follows the scheme is plain, and names something or the cursor has a path of
its own. -/
theorem destination_agrees_iff {isNetloc : PyStr → Bool} {rest group override : PyStr}
    {path : PosixPath} (h : buildSink isNetloc (FILE ++ rest) = .ok (.file path)) :
    (∃ cursor, buildSource (FILE ++ rest) group override = .ok (.file path cursor)) ↔
      Plain rest ∧ (override ≠ [] ∨ ∃ part ∈ rest.splitOn 47, PosixPath.isName part = true) := by
  rw [build_sink_file] at h
  rw [build_source_file, file_paths_agree_iff h]
  refine and_congr_right fun hplain ↦ or_congr_right ?_
  rw [← (file_paths_agree_iff h).mpr hplain, file_destination_of_plain h hplain]
  show (rest.splitOn 47).filter PosixPath.isName ≠ [] ↔ _
  rw [ne_eq, List.filter_eq_nil_iff]
  push Not
  rfl

/-- The gateway writes below the root, the worker reads below its working directory. -/
theorem absolute_destination_differs :
    buildSink (fun _ ↦ true) (py "file:///var/log/aegis/events.ndjson") =
        .ok (.file ⟨py "/", [py "var", py "log", py "aegis", py "events.ndjson"]⟩) ∧
      buildSource (py "file:///var/log/aegis/events.ndjson") [] [] =
        .ok (.file ⟨[], [py "var", py "log", py "aegis", py "events.ndjson"]⟩
          ⟨[], [py "var", py "log", py "aegis", py "events.ndjson.cursor"]⟩) := by
  decide +kernel

/-- A relative path is read from where it is written to. -/
theorem relative_destination_agrees :
    ∃ cursor, buildSource (FILE ++ py ".local-data/aegis-events.ndjson") [] [] =
      .ok (.file ⟨[], [py ".local-data", py "aegis-events.ndjson"]⟩ cursor) :=
  have hsink : buildSink (fun _ ↦ true) (FILE ++ py ".local-data/aegis-events.ndjson") =
      .ok (.file ⟨[], [py ".local-data", py "aegis-events.ndjson"]⟩) := by decide +kernel
  (destination_agrees_iff hsink).mpr ⟨by decide +kernel,
    .inr ⟨py ".local-data", by decide +kernel, by decide⟩⟩

end Aegis.Stream
