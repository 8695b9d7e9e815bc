import Mathlib.Algebra.GroupWithZero.Nat
import Aegis.Agent.SpoolEffects

/-!
# The names of segments

A segment is named by the clock and a sequence number, both in decimal and filled up with zeros, so
that the order of names is that of the numbers as long as the names are of one length. The listing
is the strictly sorted list of the segments of the directory.
-/

namespace Aegis.Agent

/-! ## Numbers in decimal -/

/-- The number that digits stand for. -/
def decimalValue (digits : JString) (n : Nat) : Nat :=
  digits.foldl (fun n c ↦ 10 * n + (c.toNat - 48)) n

/-- Text of digits. -/
def Digits (s : JString) : Prop :=
  ∀ c ∈ s, 48 ≤ c.toNat ∧ c.toNat ≤ 57

/-- What stands behind a number moves it by less than one at its place. -/
theorem value_of_bounds {s : JString} (hs : Digits s) (n : Nat) :
    n * 10 ^ s.length ≤ decimalValue s n ∧ decimalValue s n < (n + 1) * 10 ^ s.length := by
  induction s generalizing n with
  | nil => simp [decimalValue]
  | cons c s ih =>
      obtain ⟨hc, hs⟩ := List.forall_mem_cons.mp hs
      obtain ⟨hlow, hhigh⟩ := ih hs (10 * n + (c.toNat - 48))
      have hpower : 10 ^ (c :: s).length = 10 * 10 ^ s.length := by rw [List.length_cons, Nat.pow_succ']
      rw [hpower]
      change _ ≤ decimalValue s (10 * n + (c.toNat - 48)) ∧ decimalValue s (10 * n + (c.toNat - 48)) < _
      constructor
      · refine le_trans ?_ hlow
        rw [← Nat.mul_assoc]
        exact Nat.mul_le_mul_right _ (by omega)
      · refine lt_of_lt_of_le hhigh ?_
        rw [← Nat.mul_assoc]
        exact Nat.mul_le_mul_right _ (by omega)

/-- Digits that come first in the order of texts come first as numbers. -/
theorem value_of_le {s t : JString} (hs : Digits s) (ht : Digits t) (hlength : s.length = t.length)
    (h : s ≤ t) (n : Nat) : decimalValue s n ≤ decimalValue t n := by
  induction s generalizing t n with
  | nil =>
      rw [List.length_nil, eq_comm, List.length_eq_zero_iff] at hlength
      rw [hlength]
  | cons c s ih =>
      cases t with
      | nil => cases hlength
      | cons d t =>
          obtain ⟨hc, hsrest⟩ := List.forall_mem_cons.mp hs
          obtain ⟨hd, htrest⟩ := List.forall_mem_cons.mp ht
          have htail : s.length = t.length := by simpa using hlength
          change decimalValue s (10 * n + (c.toNat - 48)) ≤ decimalValue t (10 * n + (d.toNat - 48))
          rcases List.cons_le_cons_iff.mp h with hlt | ⟨rfl, hle⟩
          · rw [UInt16.lt_iff_toNat_lt] at hlt
            refine (value_of_bounds hsrest _).2.le.trans (le_trans ?_ (value_of_bounds htrest _).1)
            rw [htail]
            exact Nat.mul_le_mul_right _ (by omega)
          · exact ih hsrest htrest htail hle _

/-- The smaller of two numbers comes first when their digits are as many. -/
theorem lt_of_value_of_lt {s t : JString} (hs : Digits s) (ht : Digits t)
    (hlength : s.length = t.length) (h : decimalValue s 0 < decimalValue t 0) : s < t := by
  by_contra hnot
  exact absurd (value_of_le ht hs hlength.symm (List.not_lt.mp hnot) 0) (Nat.not_le.mpr h)

/-- The code units of digits. -/
theorem code_units_digits (digits : List Char) (h : ∀ c ∈ digits, c.isDigit = true) :
    java (String.ofList digits) = digits.map jchar ∧ Digits (digits.map jchar) ∧
      ∀ n, decimalValue (digits.map jchar) n = Nat.ofDigitChars 10 digits n := by
  have hjava : java (String.ofList digits) = digits.flatMap codeUnits := by
    rw [java, String.toList_ofList]
  rw [hjava]
  clear hjava
  induction digits with
  | nil => exact ⟨rfl, fun c hc ↦ (nomatch hc), fun _ ↦ rfl⟩
  | cons c digits ih =>
      obtain ⟨hc, hdigits⟩ := List.forall_mem_cons.mp h
      obtain ⟨hunits, hrange, hvalue⟩ := ih hdigits
      have hlow : 48 ≤ c.toNat ∧ c.toNat ≤ 57 := by
        rw [Char.isDigit, Bool.and_eq_true, decide_eq_true_eq, decide_eq_true_eq, ge_iff_le,
          UInt32.le_iff_toNat_le, UInt32.le_iff_toNat_le] at hc
        exact hc
      have htoNat : (jchar c).toNat = c.toNat := by
        simp only [jchar, Nat.toUInt16_eq, UInt16.toNat_ofNat']
        omega
      have hone : codeUnits c = [jchar c] := if_pos (by omega)
      refine ⟨?_, ?_, fun n ↦ ?_⟩
      · rw [List.flatMap_cons, hone, hunits]
        rfl
      · rw [List.map_cons]
        refine List.forall_mem_cons.mpr ⟨?_, hrange⟩
        rw [htoNat]
        exact hlow
      · rw [Nat.ofDigitChars_cons, ← hvalue, List.map_cons]
        change decimalValue (digits.map jchar) (10 * n + ((jchar c).toNat - 48)) = _
        rw [htoNat]
        rfl

/-- A number in decimal stands for itself. -/
theorem digit_string_spec (n : Nat) : Digits (digitString n) ∧ decimalValue (digitString n) 0 = n := by
  obtain ⟨hunits, hrange, hvalue⟩ := code_units_digits (Nat.toDigits 10 n)
    fun c hc ↦ Nat.isDigit_of_mem_toDigits (by decide) (by decide) hc
  rw [digitString, hunits]
  exact ⟨hrange, (hvalue 0).trans (Nat.ofDigitChars_toDigits (by decide) (by decide))⟩

theorem length_digit_string (n : Nat) : (digitString n).length = (Nat.toDigits 10 n).length := by
  obtain ⟨hunits, -, -⟩ := code_units_digits (Nat.toDigits 10 n)
    fun c hc ↦ Nat.isDigit_of_mem_toDigits (by decide) (by decide) hc
  rw [digitString, hunits, List.length_map]

/-- Zeros in front do not change a number. -/
theorem padded_spec (width n : Nat) :
    Digits (padded width n) ∧ decimalValue (padded width n) 0 = n := by
  obtain ⟨hdigits, hvalue⟩ := digit_string_spec n
  have hzero : ∀ count, decimalValue (List.replicate count (jchar '0')) 0 = 0 := by
    intro count
    induction count with
    | zero => rfl
    | succ count ih => exact ih
  refine ⟨fun c hc ↦ ?_, ?_⟩
  · rcases List.mem_append.mp hc with hc | hc
    · rw [List.eq_of_mem_replicate hc]
      decide
    · exact hdigits c hc
  · rw [decimalValue, padded, List.foldl_append]
    change decimalValue (digitString n) (decimalValue (List.replicate _ _) 0) = n
    rw [hzero, hvalue]

theorem length_padded (width n : Nat) :
    (padded width n).length = max width (Nat.toDigits 10 n).length := by
  rw [padded, List.length_append, List.length_replicate, length_digit_string]
  omega

/-- Numbers filled up to one length are in the order of their texts. -/
theorem padded_lt {width n m : Nat} (hlength : (padded width n).length = (padded width m).length)
    (h : n < m) : padded width n < padded width m := by
  obtain ⟨hn, hvaluen⟩ := padded_spec width n
  obtain ⟨hm, hvaluem⟩ := padded_spec width m
  exact lt_of_value_of_lt hn hm hlength (by rwa [hvaluen, hvaluem])

/-- A part that comes first decides the order of texts. -/
theorem append_lt_append {s t : JString} (hlength : s.length = t.length) (h : s < t)
    (x y : JString) : s ++ x < t ++ y := by
  induction s generalizing t with
  | nil =>
      rw [List.length_nil, eq_comm, List.length_eq_zero_iff] at hlength
      rw [hlength] at h
      exact absurd h (List.lt_irrefl _)
  | cons c s ih =>
      cases t with
      | nil => cases hlength
      | cons d t =>
          have htail : s.length = t.length := by simpa using hlength
          rw [List.cons_append, List.cons_append, List.cons_lt_cons_iff]
          rcases List.cons_lt_cons_iff.mp h with hlt | ⟨hhead, hlt⟩
          · exact .inl hlt
          · exact .inr ⟨hhead, ih htail hlt⟩

namespace Spool

/-! ## Names -/

/-- How the names of the segments of a millisecond begin. -/
def clockPart (millis : Nat) : JString :=
  PREFIX ++ padded 13 millis ++ java "-"

/-- The name of the segment of a millisecond and a sequence number. -/
def segmentName (millis sequence : Nat) : JString :=
  clockPart millis ++ padded 4 sequence ++ SUFFIX

/-- The name is that of a segment. -/
theorem is_segment_name (millis sequence : Nat) : isSegment (segmentName millis sequence) = true := by
  rw [isSegment, Bool.and_eq_true]
  refine ⟨List.isPrefixOf_iff_prefix.mpr ?_, List.isSuffixOf_iff_suffix.mpr ?_⟩
  · simp only [segmentName, clockPart, List.append_assoc]
    exact List.prefix_append _ _
  · exact List.suffix_append _ _

/-- The clock part begins the name. -/
theorem clock_part_prefix (millis sequence : Nat) :
    clockPart millis <+: segmentName millis sequence := by
  rw [segmentName, List.append_assoc]
  exact List.prefix_append _ _

/-- A sequence number has four digits. -/
theorem length_padded_sequence {sequence : Nat} (h : sequence < 10000) :
    (padded 4 sequence).length = 4 := by
  rw [length_padded]
  exact max_eq_left ((Nat.length_toDigits_le_iff (by decide) (by decide)).mpr h)

/-- Names of one length are in the order of the clock and then of the sequence number. -/
theorem segment_name_lt {millis millis' sequence sequence' : Nat} (hsequence : sequence < 10000)
    (hsequence' : sequence' < 10000)
    (hlength : (segmentName millis sequence).length = (segmentName millis' sequence').length)
    (h : millis < millis' ∨ millis = millis' ∧ sequence < sequence') :
    segmentName millis sequence < segmentName millis' sequence' := by
  have hfour := length_padded_sequence hsequence
  have hfour' := length_padded_sequence hsequence'
  rcases h with h | ⟨rfl, h⟩
  · simp only [segmentName, clockPart, List.append_assoc] at hlength ⊢
    simp only [List.length_append, hfour, hfour'] at hlength
    have hclock : (padded 13 millis).length = (padded 13 millis').length := by omega
    exact List.append_left_lt (append_lt_append hclock (padded_lt hclock h) _ _)
  · simp only [segmentName, List.append_assoc]
    have hnumber : (padded 4 sequence).length = (padded 4 sequence').length := by omega
    exact List.append_left_lt (append_lt_append hnumber (padded_lt hnumber h) _ _)

/-! ## The listing -/

variable {s t : Storage}

/-- A segment is listed once. -/
theorem nodup_segments (s : Storage) : (segments s).Nodup :=
  (List.perm_insertionSort _ _).nodup_iff.mpr (s.files.nodupKeys.filter _)

/-- The listing is strictly sorted. -/
theorem pairwise_segments (s : Storage) : (segments s).Pairwise (· < ·) := by
  have hsorted : (segments s).Pairwise (· ≤ ·) := List.pairwise_insertionSort _ _
  refine (hsorted.and (nodup_segments s)).imp fun {a b} ⟨hle, hne⟩ ↦ ?_
  by_contra hnot
  exact hne (List.le_antisymm hle (List.not_lt.mp hnot))

/-- A strictly sorted list of the segments is the listing. -/
theorem segments_eq {listed : List JString} (hsorted : listed.Pairwise (· < ·))
    (h : ∀ path, path ∈ listed ↔ path ∈ s.files.keys ∧ isSegment path = true) :
    segments s = listed :=
  (pairwise_segments s).eq_of_mem_iff hsorted fun path ↦ mem_segments_iff.trans (h path).symm

/-- The listing is that of the files. -/
theorem segments_congr (h : s.files = t.files) : segments s = segments t := by
  rw [segments, segments, h]

/-- The segments after a write. -/
theorem mem_segments_put {target path : JString} {bytes : Bytes} :
    path ∈ segments (s.put target bytes) ↔
      path = target ∧ isSegment path = true ∨ path ∈ segments s := by
  rw [mem_segments_iff, mem_segments_iff, ← or_and_right]
  refine and_congr_left fun _ ↦ ?_
  show path ∈ (s.files.insert target ((s.bytesOf target).getD [] ++ bytes)).keys ↔ _
  exact AList.mem_insert _

/-- Writing to a segment that is there changes no listing. -/
theorem segments_put_of_mem {target : JString} (h : target ∈ segments s) (bytes : Bytes) :
    segments (s.put target bytes) = segments s := by
  refine segments_eq (pairwise_segments s) fun path ↦ ?_
  rw [← mem_segments_iff, mem_segments_put]
  refine (or_iff_right_of_imp ?_).symm
  rintro ⟨rfl, -⟩
  exact h

/-- A new segment that comes last by its name is listed last. -/
theorem segments_put_of_last {target : JString} (hsegment : isSegment target = true)
    (h : ∀ segment ∈ segments s, segment < target) (bytes : Bytes) :
    segments (s.put target bytes) = segments s ++ [target] := by
  refine segments_eq ?_ fun path ↦ ?_
  · refine List.pairwise_append.mpr ⟨pairwise_segments s, List.pairwise_singleton _ _, ?_⟩
    intro segment hmem other hother
    rw [List.mem_singleton.mp hother]
    exact h segment hmem
  · have himp : path = target → isSegment path = true := by
      rintro rfl
      exact hsegment
    rw [← mem_segments_iff, mem_segments_put, List.mem_append, List.mem_singleton,
      and_iff_left_of_imp himp, or_comm]

/-- Without its first segment the listing is the rest. -/
theorem segments_erase {segment : JString} {rest : List JString} (h : segments s = segment :: rest)
    (hfiles : t.files = s.files.erase segment) : segments t = rest := by
  have hsorted := pairwise_segments s
  rw [h, List.pairwise_cons] at hsorted
  refine segments_eq hsorted.2 fun path ↦ ?_
  have hmem : path ∈ segments s ↔ path = segment ∨ path ∈ rest := by rw [h, List.mem_cons]
  rw [mem_segments_iff] at hmem
  have hkeys : path ∈ t.files.keys ↔ path ≠ segment ∧ path ∈ s.files.keys := by
    rw [hfiles]
    exact AList.mem_erase
  rw [hkeys, and_assoc, hmem, and_or_left]
  constructor
  · intro hpath
    refine .inr ⟨?_, hpath⟩
    rintro rfl
    exact List.lt_irrefl _ (hsorted.1 path hpath)
  · rintro (⟨hne, heq⟩ | ⟨-, hpath⟩)
    · exact absurd heq hne
    · exact hpath

end Spool

end Aegis.Agent
