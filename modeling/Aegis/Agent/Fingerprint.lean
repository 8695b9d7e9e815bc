import Aegis.Agent.Finding

/-!
# Stability of the stack fingerprint

The fingerprint is made of the application frames among the frames that are kept of a stack. It is
that of the five innermost application frames when these are kept, so two stacks with the same
innermost application frames have one fingerprint just when as many of them are kept
(`fingerprint_stable_iff`).
-/

namespace Aegis.Agent

namespace SinkDetector

/-- A frame of the agent itself, which is not kept. -/
def isAgentFrame (element : StackTraceElement) : Bool :=
  element.className.startsWith (java "dev.aegis.agent.")

/-- The class and the method of each of the five innermost application frames. -/
def innermost (d : SinkDetector) (stack : List StackTraceElement) : List (JString × JString) :=
  (((stack.filter fun element ↦ !isAgentFrame element).filter fun element ↦
    d.isApplicationCode element.className).map fun element ↦
      (element.className, element.methodName)).take FINGERPRINT_DEPTH

/-- How many of the five innermost application frames are among the frames that are kept. -/
def reached (d : SinkDetector) (stack : List StackTraceElement) : Nat :=
  min FINGERPRINT_DEPTH (((stack.filter fun element ↦ !isAgentFrame element).take
    MAX_FRAMES).countP fun element ↦ d.isApplicationCode element.className)

/-- The text of some frames that is digested. -/
def frameText (frames : List (JString × JString)) : JString :=
  frames.flatMap fun frame ↦ frame.1 ++ java "#" ++ frame.2 ++ java ";"

/-- What meets a condition at the front of a list is the front of what meets it. -/
theorem filter_take {α : Type} (p : α → Bool) (n : Nat) (xs : List α) :
    (xs.take n).filter p = (xs.filter p).take ((xs.take n).countP p) := by
  have hsplit : xs.filter p = (xs.take n).filter p ++ (xs.drop n).filter p := by
    rw [← List.filter_append, List.take_append_drop]
  rw [hsplit, List.countP_eq_length_filter, List.take_left]

/-- The fingerprint of a stack is that of the innermost application frames that are kept. -/
theorem fingerprint_capture_frames (platform : Platform) (d : SinkDetector)
    (stack : List StackTraceElement) :
    fingerprint platform (d.captureFrames stack) =
      platform.sha256 (frameText ((d.innermost stack).take (d.reached stack))) := by
  unfold fingerprint captureFrames innermost reached frameText
  rw [← List.map_take, List.filter_map, ← List.map_take, List.flatMap_map, List.take_take,
    ← List.map_take, List.flatMap_map]
  show platform.sha256 (List.flatMap _ (List.take _ (List.filter
    (fun element ↦ d.isApplicationCode element.className)
      (List.take MAX_FRAMES (stack.filter fun element ↦ !isAgentFrame element))))) = _
  rw [filter_take, List.take_take, min_right_comm, min_self]

/-- More frames have a longer text. -/
theorem frame_text_take_lt {frames : List (JString × JString)} {m n : Nat} (h : m < n)
    (hn : n ≤ frames.length) :
    (frameText (frames.take m)).length < (frameText (frames.take n)).length := by
  have hsplit : frames.take n = frames.take m ++ (frames.take n).drop m := by
    conv_lhs => rw [← List.take_append_drop m (frames.take n), List.take_take, min_eq_left h.le]
  obtain ⟨frame, rest, hrest⟩ : ∃ frame rest, (frames.take n).drop m = frame :: rest := by
    refine List.exists_cons_of_ne_nil (List.ne_nil_of_length_pos ?_)
    rw [List.length_drop, List.length_take]
    omega
  have hmark : (java ";").length = 1 := by decide
  rw [hsplit, hrest, frameText, frameText, List.flatMap_append, List.flatMap_cons]
  simp only [List.length_append]
  omega

/-- No more of the innermost frames are kept than there are. -/
theorem reached_le (d : SinkDetector) (stack : List StackTraceElement) :
    d.reached stack ≤ (d.innermost stack).length := by
  unfold reached innermost
  rw [List.length_take, List.length_map, List.countP_eq_length_filter]
  exact min_le_min_left _ ((List.take_sublist _ _).filter _).length_le

/-- Two stacks with the same innermost application frames, whatever their line numbers and their
other frames, have one fingerprint just when as many of the innermost frames are kept of both. -/
theorem fingerprint_stable_iff (d : SinkDetector) {stack stack' : List StackTraceElement}
    (h : d.innermost stack = d.innermost stack') :
    (∀ platform, fingerprint platform (d.captureFrames stack) =
        fingerprint platform (d.captureFrames stack')) ↔
      d.reached stack = d.reached stack' := by
  constructor
  · intro hsame
    have htext := hsame { asciiPlatform with sha256 := id }
    rw [fingerprint_capture_frames, fingerprint_capture_frames, ← h] at htext
    have hlength := congrArg List.length htext
    have hle := d.reached_le stack
    have hle' := d.reached_le stack'
    rw [← h] at hle'
    rcases lt_trichotomy (d.reached stack) (d.reached stack') with hlt | heq | hgt
    · exact absurd hlength (frame_text_take_lt hlt hle').ne
    · exact heq
    · exact absurd hlength (frame_text_take_lt hgt hle).ne'
  · intro hreached platform
    rw [fingerprint_capture_frames, fingerprint_capture_frames, h, hreached]

/-- A detector without application packages of its own. -/
def plainDetector : SinkDetector :=
  ⟨⟨[], .NONE, 0, false⟩, []⟩

/-- A query method of the application. -/
def findFrame (lineNumber : Int) : StackTraceElement :=
  ⟨java "com.acme.Repo", java "find", lineNumber⟩

/-- A frame of a framework. -/
def filterFrame : StackTraceElement :=
  ⟨java "org.apache.catalina.core.ApplicationFilterChain", java "doFilter", 164⟩

/-- A reformat and an upgrade leave the fingerprint as it is. -/
theorem fingerprint_stable_upgrade :
    fingerprint asciiPlatform (plainDetector.captureFrames [findFrame 40, filterFrame]) =
      fingerprint asciiPlatform (plainDetector.captureFrames
        [filterFrame, filterFrame, findFrame 187, filterFrame]) :=
  (plainDetector.fingerprint_stable_iff (by decide +kernel)).mpr (by decide +kernel) asciiPlatform

/-- Beneath twenty-four frames of a framework, the application frame is not kept. -/
theorem fingerprint_lost_frame :
    plainDetector.innermost [findFrame 40] =
        plainDetector.innermost (List.replicate 24 filterFrame ++ [findFrame 40]) ∧
      ¬ ∀ platform, fingerprint platform (plainDetector.captureFrames [findFrame 40]) =
        fingerprint platform (plainDetector.captureFrames
          (List.replicate 24 filterFrame ++ [findFrame 40])) := by
  refine ⟨by decide +kernel, fun h ↦ ?_⟩
  exact absurd (h { asciiPlatform with sha256 := id }) (by decide +kernel)

end SinkDetector

end Aegis.Agent
