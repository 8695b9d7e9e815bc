import Aegis.Server.IpAddress
import Aegis.Server.Json.RoundTrip

/-!
# Where a text leaves a reader

A reader that only keeps track of strings and of brackets. What the scanner takes for a value
leaves it where it was, and a text that has been begun and then begins again, as a line does whose
end was not written, leaves it nowhere: such a text is never read.
-/

namespace Aegis.Server.Json

/-! ## Places -/

/-- Where a reader stands, with so many brackets open. -/
inductive Place where
  /-- Before a value, or in a number or a name. -/
  | outside (brackets : Nat)
  /-- In a string. -/
  | inside (brackets : Nat)
  /-- In a string, after a backslash. -/
  | escaped (brackets : Nat)
  /-- After a string, a list or an object. -/
  | after (brackets : Nat)
  /-- In no text of a value. -/
  | lost
  deriving DecidableEq

namespace Place

/-- A bracket is closed. -/
def close : Nat → Place
  | 0 => lost
  | n + 1 => after n

/-- The place after one more character. -/
def next : Place → PyChar → Place
  | outside n, c =>
      if c = pyChar '"' then inside n
      else if c = pyChar '\x7b' ∨ c = pyChar '[' then outside (n + 1)
      else if c = pyChar '\x7d' ∨ c = pyChar ']' then close n
      else outside n
  | inside n, c =>
      if c = pyChar '"' then after n else if c = pyChar '\\' then escaped n else inside n
  | escaped n, _ => inside n
  | after n, c =>
      if isSpace c then after n
      else if (c = pyChar ',' ∨ c = pyChar ':') ∧ n ≠ 0 then outside n
      else if c = pyChar '\x7d' ∨ c = pyChar ']' then close n
      else lost
  | lost, _ => lost

/-- The place after a text. -/
def through (p : Place) (text : PyStr) : Place :=
  text.foldl next p

@[simp] theorem through_nil (p : Place) : p.through [] = p := rfl

@[simp] theorem through_cons (p : Place) (c : PyChar) (text : PyStr) :
    p.through (c :: text) = (p.next c).through text := rfl

@[simp] theorem through_append (p : Place) (s t : PyStr) :
    p.through (s ++ t) = (p.through s).through t :=
  List.foldl_append

@[simp] theorem through_lost (text : PyStr) : lost.through text = lost := by
  induction text with
  | nil => rfl
  | cons c text ih => exact ih

/-- Once something was begun, the reader is not before everything again. -/
theorem next_ne_start {p : Place} (h : p ≠ outside 0) (c : PyChar) : p.next c ≠ outside 0 := by
  cases p with
  | outside n =>
      have hn : n ≠ 0 := fun hn ↦ h (congrArg outside hn)
      cases n with
      | zero => exact absurd rfl hn
      | succ n =>
          rw [next]
          split_ifs <;> simp [close]
  | inside n =>
      rw [next]
      split_ifs <;> simp
  | escaped n => simp [next]
  | after n =>
      rw [next]
      split_ifs with hspace hcomma
      · simp
      · simpa using hcomma.2
      · cases n <;> simp [close]
      · simp
  | lost => simp [next]

theorem through_ne_start {p : Place} (h : p ≠ outside 0) (text : PyStr) :
    p.through text ≠ outside 0 := by
  induction text generalizing p with
  | nil => exact h
  | cons c text ih => exact ih (next_ne_start h c)

/-- A value may have ended here. -/
def Settled (n : Nat) (p : Place) : Prop :=
  p = outside n ∨ p = after n

/-- White space leaves a reader where it is. -/
theorem Settled.space {n : Nat} {p : Place} (h : p.Settled n) {c : PyChar} (hc : isSpace c) :
    p.next c = p := by
  simp only [isSpace, Bool.or_eq_true, decide_eq_true_eq] at hc
  rcases h with rfl | rfl <;> rcases hc with ((rfl | rfl) | rfl) | rfl <;> rfl

/-- So does all of it. -/
theorem Settled.through_space {n : Nat} {p : Place} (h : p.Settled n) {text : PyStr}
    (hspace : ∀ c ∈ text, isSpace c) : p.through text = p := by
  induction text with
  | nil => rfl
  | cons c text ih =>
      obtain ⟨hc, htext⟩ := List.forall_mem_cons.mp hspace
      rw [through_cons, h.space hc, ih htext]

/-- Between brackets, another item follows a comma or a colon. -/
theorem Settled.separator {n : Nat} {p : Place} (h : p.Settled (n + 1)) {c : PyChar}
    (hc : c = pyChar ',' ∨ c = pyChar ':') : p.next c = outside (n + 1) := by
  rcases h with rfl | rfl <;> rcases hc with rfl | rfl <;> rfl

/-- A bracket ends what stands between brackets. -/
theorem Settled.close {n : Nat} {p : Place} (h : p.Settled (n + 1)) {c : PyChar}
    (hc : c = pyChar '\x7d' ∨ c = pyChar ']') : p.next c = after n := by
  rcases h with rfl | rfl <;> rcases hc with rfl | rfl <;> rfl

end Place

open Place

/-! ## What is scanned -/

/-- What is read, within so many brackets at least, leaves a reader where it was. -/
def Balanced {α : Type} (low : Nat) (read : Reader PyChar α) : Prop :=
  ∀ text value rest, read text = some (value, rest) →
    ∃ taken, text = taken ++ rest ∧ ∀ n, low ≤ n → ((outside n).through taken).Settled n

/-- What is read anywhere is read within brackets. -/
theorem Balanced.within {α : Type} {read : Reader PyChar α} (h : Balanced 0 read) :
    Balanced 1 read := by
  intro text value rest hread
  obtain ⟨taken, htaken, hsettled⟩ := h text value rest hread
  exact ⟨taken, htaken, fun n _ ↦ hsettled n n.zero_le⟩

/-- The white space at the front. -/
theorem exists_skip_space (text : PyStr) :
    ∃ blank, text = blank ++ skipSpace text ∧ ∀ c ∈ blank, isSpace c :=
  ⟨text.takeWhile isSpace, List.takeWhile_append_dropWhile.symm, fun _ hc ↦
    List.mem_takeWhile_imp hc⟩

/-- A digit of an escape is no character that `hexValue` refuses. -/
theorem ne_of_hex_value {c d : PyChar} (h : (hexValue c).isSome) (hd : hexValue d = none) :
    c ≠ d := by
  rintro rfl
  rw [hd] at h
  cases h

/-- A string ends at its closing quotation mark. -/
theorem through_scan_units {text rest : PyStr} {units : List StringUnit}
    (h : scanUnits text = some (units, rest)) :
    ∃ taken, text = taken ++ rest ∧ ∀ n, (inside n).through taken = after n := by
  fun_induction scanUnits text generalizing units rest with
  | case1 => cases h
  | case2 more =>
      obtain ⟨-, rfl⟩ := Prod.mk.inj (Option.some.inj h)
      exact ⟨[pyChar '"'], rfl, fun _ ↦ rfl⟩
  | case3 => cases h
  | case4 d₁ d₂ d₃ d₄ more _ ih =>
      obtain ⟨digits, hdigits, h⟩ := Option.bind_eq_some_iff.mp h
      obtain ⟨⟨units', rest'⟩, hrest, heq⟩ := Option.map_eq_some_iff.mp h
      obtain ⟨-, rfl⟩ := Prod.mk.inj heq
      obtain ⟨taken, rfl, hthrough⟩ := ih hrest
      have hinside : ∀ d ∈ [d₁, d₂, d₃, d₄], ∀ n, (inside n).next d = inside n := by
        intro d hd n
        have hhex := is_some_of_map hdigits d hd
        rw [next, if_neg (ne_of_hex_value hhex (by decide)),
          if_neg (ne_of_hex_value hhex (by decide))]
      refine ⟨pyChar '\\' :: pyChar 'u' :: d₁ :: d₂ :: d₃ :: d₄ :: taken, rfl, fun n ↦ ?_⟩
      have hescape : ((inside n).next (pyChar '\\')).next (pyChar 'u') = inside n := rfl
      rw [through_cons, through_cons, hescape]
      simp only [through_cons, hinside _ _ n, List.mem_cons, true_or, or_true]
      exact hthrough n
  | case5 => cases h
  | case6 e more _ _ ih =>
      obtain ⟨c, -, h⟩ := Option.bind_eq_some_iff.mp h
      obtain ⟨⟨units', rest'⟩, hrest, heq⟩ := Option.map_eq_some_iff.mp h
      obtain ⟨-, rfl⟩ := Prod.mk.inj heq
      obtain ⟨taken, rfl, hthrough⟩ := ih hrest
      exact ⟨pyChar '\\' :: e :: taken, rfl, fun n ↦ hthrough n⟩
  | case7 => cases h
  | case8 c more hquote hescape _ ih =>
      obtain ⟨⟨units', rest'⟩, hrest, heq⟩ := Option.map_eq_some_iff.mp h
      obtain ⟨-, rfl⟩ := Prod.mk.inj heq
      obtain ⟨taken, rfl, hthrough⟩ := ih hrest
      refine ⟨c :: taken, rfl, fun n ↦ ?_⟩
      rw [through_cons, next, if_neg hquote, if_neg hescape]
      exact hthrough n

/-- A string is taken with both of its quotation marks. -/
theorem through_scan_string {text rest s : PyStr} (h : scanString text = some (s, rest)) :
    ∃ taken, text = taken ++ rest ∧ ∀ n, (inside n).through taken = after n := by
  obtain ⟨⟨units, after⟩, hunits, heq⟩ := Option.map_eq_some_iff.mp h
  obtain ⟨-, rfl⟩ := Prod.mk.inj heq
  exact through_scan_units hunits

/-! ## Numbers and names -/

/-- A character that neither begins nor ends anything. -/
def Plain (c : PyChar) : Prop :=
  c ≠ pyChar '"' ∧ c ≠ pyChar '\x7b' ∧ c ≠ pyChar '[' ∧ c ≠ pyChar '\x7d' ∧ c ≠ pyChar ']'

instance (c : PyChar) : Decidable (Plain c) :=
  inferInstanceAs (Decidable (_ ∧ _))

/-- Such characters leave a reader before or in a number or a name. -/
theorem through_plain {text : PyStr} (h : ∀ c ∈ text, Plain c) (n : Nat) :
    (outside n).through text = outside n := by
  induction text with
  | nil => rfl
  | cons c text ih =>
      obtain ⟨⟨hquote, hopen, hopen', hclose, hclose'⟩, htext⟩ := List.forall_mem_cons.mp h
      rw [through_cons, next, if_neg hquote, if_neg (not_or.mpr ⟨hopen, hopen'⟩),
        if_neg (not_or.mpr ⟨hclose, hclose'⟩), ih htext]

/-- Only such characters stand between a text and its rest. -/
def Leads (text rest : PyStr) : Prop :=
  ∃ taken, text = taken ++ rest ∧ ∀ c ∈ taken, Plain c

theorem Leads.refl (text : PyStr) : Leads text text :=
  ⟨[], rfl, fun _ h ↦ absurd h List.not_mem_nil⟩

theorem Leads.trans {text middle rest : PyStr} (h : Leads text middle) (h' : Leads middle rest) :
    Leads text rest := by
  obtain ⟨taken, rfl, htaken⟩ := h
  obtain ⟨more, rfl, hmore⟩ := h'
  exact ⟨taken ++ more, (List.append_assoc _ _ _).symm, List.forall_mem_append.mpr ⟨htaken, hmore⟩⟩

theorem Leads.cons {c : PyChar} {text rest : PyStr} (hc : Plain c) (h : Leads text rest) :
    Leads (c :: text) rest := by
  obtain ⟨taken, rfl, htaken⟩ := h
  exact ⟨c :: taken, rfl, List.forall_mem_cons.mpr ⟨hc, htaken⟩⟩

/-- A digit is such a character. -/
theorem plain_of_digit {c : PyChar} (h : isDigit c = true) : Plain c := by
  have hval : 48 ≤ c.val ∧ c.val ≤ 57 := by simpa [isDigit] using h
  refine ⟨?_, ?_, ?_, ?_, ?_⟩ <;>
  · rintro rfl
    exact absurd hval (by decide)

theorem leads_digits (text : PyStr) : Leads text (text.dropWhile isDigit) :=
  ⟨text.takeWhile isDigit, List.takeWhile_append_dropWhile.symm, fun _ hc ↦
    plain_of_digit (List.mem_takeWhile_imp hc)⟩

theorem leads_scan_whole {text whole rest : PyStr} (h : scanWhole text = some (whole, rest)) :
    Leads text rest := by
  cases text with
  | nil => cases h
  | cons c text =>
      rw [scanWhole] at h
      split_ifs at h with hzero hdigit
      · obtain ⟨-, rfl⟩ := Prod.mk.inj (Option.some.inj h)
        exact (Leads.refl _).cons (hzero ▸ by decide)
      · obtain ⟨-, rfl⟩ := Prod.mk.inj (Option.some.inj h)
        exact (leads_digits text).cons (plain_of_digit hdigit)

theorem leads_scan_fraction (text : PyStr) : Leads text (scanFraction text).2 := by
  unfold scanFraction
  split
  · next c d rest =>
      split_ifs with hpoint
      · obtain ⟨rfl, hd⟩ := hpoint
        exact ((leads_digits rest).cons (plain_of_digit hd)).cons (by decide)
      · exact Leads.refl _
  · exact Leads.refl _

theorem leads_scan_sign (text : PyStr) : Leads text (scanSign text).2 := by
  unfold scanSign
  split
  · split_ifs with hminus hplus
    · exact (Leads.refl _).cons (hminus ▸ by decide)
    · exact (Leads.refl _).cons (hplus ▸ by decide)
    · exact Leads.refl _
  · exact Leads.refl _

theorem leads_scan_exponent (text : PyStr) : Leads text (scanExponent text).2 := by
  unfold scanExponent
  split
  · next c rest =>
      by_cases he : (c = pyChar 'e' ∨ c = pyChar 'E') ∧ (scanSign rest).2.takeWhile isDigit ≠ []
      · dsimp only
        rw [if_pos he]
        refine ((leads_scan_sign rest).trans (leads_digits _)).cons ?_
        rcases he.1 with rfl | rfl <;> decide
      · dsimp only
        rw [if_neg he]
        exact Leads.refl _
  · exact Leads.refl _

theorem leads_scan_number {text rest : PyStr} {value : Json}
    (h : scanNumber text = some (value, rest)) : Leads text rest := by
  obtain ⟨⟨whole, after⟩, hwhole, heq⟩ := Option.map_eq_some_iff.mp h
  obtain ⟨-, rfl⟩ := Prod.mk.inj heq
  have hleads := ((leads_scan_whole hwhole).trans (leads_scan_fraction after)).trans
    (leads_scan_exponent _)
  by_cases hminus : text.head? = some (pyChar '-')
  · obtain ⟨rest, rfl⟩ : ∃ rest, text = pyChar '-' :: rest := by
      cases text with
      | nil => cases hminus
      | cons c rest => exact ⟨rest, by rw [Option.some.inj hminus]⟩
    rw [if_pos hminus] at hleads
    exact hleads.cons (by decide)
  · rw [if_neg hminus] at hleads
    exact hleads

theorem leads_scan_constant {text rest : PyStr} {value : Json}
    (h : scanConstant text = some (value, rest)) : Leads text rest := by
  have hnames : constants.all (fun p ↦ p.1.all fun c ↦ decide (Plain c)) = true := by decide
  obtain ⟨⟨name, constant⟩, hp, hread⟩ := List.exists_of_findSome?_eq_some h
  dsimp only at hread
  split_ifs at hread with hprefix
  obtain ⟨-, rfl⟩ := Prod.mk.inj (Option.some.inj hread)
  obtain ⟨more, rfl⟩ := List.isPrefixOf_iff_prefix.mp hprefix
  refine ⟨name, by rw [List.drop_left], fun c hc ↦ ?_⟩
  exact of_decide_eq_true (List.all_eq_true.mp (List.all_eq_true.mp hnames _ hp) c hc)

/-! ## Values -/

theorem taken_of_leads {text rest : PyStr} (h : Leads text rest) :
    ∃ taken, text = taken ++ rest ∧ ∀ n, 0 ≤ n → ((outside n).through taken).Settled n := by
  obtain ⟨taken, rfl, htaken⟩ := h
  exact ⟨taken, rfl, fun n _ ↦ .inl (through_plain htaken n)⟩

/-- Items up to a closing bracket leave a reader behind it. -/
theorem through_items {α : Type} {item : Reader PyChar α} {close : PyChar}
    (hitem : Balanced 1 item) (hclose : close = pyChar '\x7d' ∨ close = pyChar ']') {fuel : Nat}
    {text rest : PyStr} {values : List α}
    (h : Reader.items item skipSpace (pyChar ',') close fuel text = some (values, rest)) :
    ∃ taken, text = taken ++ rest ∧ ∀ n, (outside (n + 1)).through taken = after n := by
  induction fuel generalizing text values with
  | zero => cases h
  | succ fuel ih =>
      rw [Reader.items] at h
      obtain ⟨blank, hblank, hspace⟩ := exists_skip_space text
      split at h
      · cases h
      next value middle hvalue =>
      obtain ⟨taken, htaken, hsettled⟩ := hitem _ _ _ hvalue
      obtain ⟨blank', hblank', hspace'⟩ := exists_skip_space middle
      split at h
      · cases h
      next c more hmore =>
      -- the text up to the character after the first item
      have htext : text = blank ++ (taken ++ (blank' ++ c :: more)) := by
        rw [hblank, htaken, hblank', hmore]
      have hplace : ∀ n, (outside (n + 1)).through (blank ++ (taken ++ (blank' ++ [c]))) =
          Place.next ((outside (n + 1)).through taken) c := by
        intro n
        have hstart : (outside (n + 1)).through blank = outside (n + 1) :=
          Settled.through_space (.inl rfl) hspace
        rw [through_append, hstart, through_append, through_append,
          (hsettled (n + 1) n.succ_pos).through_space hspace']
        rfl
      split_ifs at h with hend hcomma
      · obtain ⟨-, rfl⟩ := Prod.mk.inj (Option.some.inj h)
        refine ⟨blank ++ (taken ++ (blank' ++ [c])), by simp [htext], fun n ↦ ?_⟩
        rw [hplace]
        exact (hsettled (n + 1) n.succ_pos).close (hend ▸ hclose)
      · obtain ⟨⟨values', rest'⟩, hrest, heq⟩ := Option.map_eq_some_iff.mp h
        obtain ⟨-, rfl⟩ := Prod.mk.inj heq
        obtain ⟨taken', rfl, hthrough⟩ := ih hrest
        refine ⟨blank ++ (taken ++ (blank' ++ [c])) ++ taken', by simp [htext], fun n ↦ ?_⟩
        rw [through_append, hplace, (hsettled (n + 1) n.succ_pos).separator (.inl hcomma)]
        exact hthrough n

/-- So do none. -/
theorem through_enclosed {α : Type} {item : Reader PyChar α} {close : PyChar}
    (hitem : Balanced 1 item) (hclose : close = pyChar '\x7d' ∨ close = pyChar ']')
    {text rest : PyStr} {values : List α}
    (h : Reader.enclosed item skipSpace (pyChar ',') close text = some (values, rest)) :
    ∃ taken, text = taken ++ rest ∧ ∀ n, (outside (n + 1)).through taken = after n := by
  rw [Reader.enclosed] at h
  obtain ⟨blank, hblank, hspace⟩ := exists_skip_space text
  split at h
  · cases h
  next c more hmore =>
  split_ifs at h with hend
  · obtain ⟨-, rfl⟩ := Prod.mk.inj (Option.some.inj h)
    refine ⟨blank ++ [c], by rw [hblank, hmore]; simp, fun n ↦ ?_⟩
    rw [through_append, Settled.through_space (.inl rfl) hspace]
    exact Settled.close (.inl rfl) (hend ▸ hclose)
  · exact through_items hitem hclose h

/-- A key and its value stand between brackets. -/
theorem balanced_scan_field {scan : Reader PyChar Json} (hscan : Balanced 0 scan) :
    Balanced 1 (scanField scan) := by
  intro text field rest h
  cases text with
  | nil => cases h
  | cons c text =>
      rw [scanField] at h
      split_ifs at h with hquote
      obtain ⟨⟨key, middle⟩, hkey, hfield⟩ := Option.bind_eq_some_iff.mp h
      obtain ⟨taken, rfl, hthrough⟩ := through_scan_string hkey
      obtain ⟨blank, hblank, hspace⟩ := exists_skip_space middle
      dsimp only at hfield
      split at hfield
      · cases hfield
      next d more hmore =>
      split_ifs at hfield with hcolon
      obtain ⟨⟨value, rest'⟩, hvalue, heq⟩ := Option.map_eq_some_iff.mp hfield
      obtain ⟨-, rfl⟩ := Prod.mk.inj heq
      obtain ⟨blank', hblank', hspace'⟩ := exists_skip_space more
      obtain ⟨taken', htaken', hsettled⟩ := hscan _ _ _ hvalue
      refine ⟨c :: (taken ++ (blank ++ d :: (blank' ++ taken'))), ?_, fun n hn ↦ ?_⟩
      · rw [hblank, hmore, hblank', htaken']
        simp
      · obtain ⟨n, rfl⟩ : ∃ m, n = m + 1 := ⟨n - 1, by omega⟩
        have hstart : (outside (n + 1)).next c = inside (n + 1) := if_pos hquote
        rw [through_cons, hstart, through_append, hthrough, through_append,
          Settled.through_space (.inr rfl) hspace, through_cons,
          Settled.separator (.inr rfl) (.inr hcolon), through_append,
          Settled.through_space (.inl rfl) hspace']
        exact hsettled (n + 1) (Nat.zero_le _)

/-- What the scanner takes for a value leaves a reader where it was. -/
theorem balanced_scan_once (depth : Nat) : Balanced 0 (scanOnce depth) := by
  induction depth with
  | zero => exact fun _ _ _ h ↦ by cases h
  | succ depth ih =>
      intro text value rest h
      cases text with
      | nil => cases h
      | cons c text =>
          rw [scanOnce] at h
          split_ifs at h with hquote hobject hlist
          · obtain ⟨⟨s, after'⟩, hs, heq⟩ := Option.map_eq_some_iff.mp h
            obtain ⟨-, rfl⟩ := Prod.mk.inj heq
            obtain ⟨taken, rfl, hthrough⟩ := through_scan_string hs
            subst hquote
            exact ⟨_ :: taken, rfl, fun n _ ↦ .inr (hthrough n)⟩
          · obtain ⟨⟨fields, after'⟩, hfields, heq⟩ := Option.map_eq_some_iff.mp h
            obtain ⟨-, rfl⟩ := Prod.mk.inj heq
            obtain ⟨taken, rfl, hthrough⟩ :=
              through_enclosed (balanced_scan_field ih) (.inl rfl) hfields
            subst hobject
            exact ⟨_ :: taken, rfl, fun n _ ↦ .inr (hthrough n)⟩
          · obtain ⟨⟨items, after'⟩, hitems, heq⟩ := Option.map_eq_some_iff.mp h
            obtain ⟨-, rfl⟩ := Prod.mk.inj heq
            obtain ⟨taken, rfl, hthrough⟩ := through_enclosed ih.within (.inr rfl) hitems
            subst hlist
            exact ⟨_ :: taken, rfl, fun n _ ↦ .inr (hthrough n)⟩
          · rcases Option.or_eq_some_iff.mp h with h | ⟨-, h⟩
            · exact taken_of_leads (leads_scan_constant h)
            · exact taken_of_leads (leads_scan_number h)

/-- A text that is read leaves a reader where it was. -/
theorem settled_of_loads {text : PyStr} {value : Json} (h : loads text = some value) (n : Nat) :
    ((outside n).through text).Settled n := by
  unfold loads at h
  split_ifs at h
  obtain ⟨⟨read, rest⟩, hread, hrest⟩ := Option.bind_eq_some_iff.mp h
  dsimp only at hrest
  split_ifs at hrest with hend
  obtain ⟨blank, hblank, hspace⟩ := exists_skip_space text
  obtain ⟨taken, htaken, hsettled⟩ := balanced_scan_once _ _ _ _ hread
  obtain ⟨blank', hblank', hspace'⟩ := exists_skip_space rest
  rw [hend, List.append_nil] at hblank'
  rw [hblank, htaken, through_append, Settled.through_space (.inl rfl) hspace, through_append,
    (hsettled n n.zero_le).through_space (hblank' ▸ hspace')]
  exact hsettled n n.zero_le

/-! ## A text that begins again -/

/-- Text of an object, within which an object with a key begins again, is not read. `c` is the
first character of the key. -/
theorem loads_eq_none_of_restart {begun : PyStr} (hbegun : begun.head? = some (pyChar '\x7b'))
    {c : PyChar} (hc : isSpace c = false ∧ Plain c ∧ c ≠ pyChar ',' ∧ c ≠ pyChar ':')
    {more : PyStr} {value : Json}
    (h : loads (pyChar '\x7b' :: pyChar '"' :: c :: more) = some value) :
    loads (begun ++ pyChar '\x7b' :: pyChar '"' :: c :: more) = none := by
  obtain ⟨hspace, ⟨-, -, -, hclose, hclose'⟩, hcomma, hcolon⟩ := hc
  rw [Option.eq_none_iff_forall_ne_some]
  intro other hother
  have hwhole := settled_of_loads hother 0
  rw [through_append] at hwhole
  -- After a string, the key makes no sense.
  have hkey : ∀ n, (after n).next c = lost := by
    intro n
    rw [next, if_neg (by simp [hspace]), if_neg (by simp [hcomma, hcolon]),
      if_neg (not_or.mpr ⟨hclose, hclose'⟩)]
  have hlost : ∀ n, (inside n).through (pyChar '\x7b' :: pyChar '"' :: c :: more) = lost := by
    intro n
    have htwice : ((inside n).next (pyChar '\x7b')).next (pyChar '"') = after n := rfl
    rw [through_cons, through_cons, htwice, through_cons, hkey, through_lost]
  have hstarted : (outside 0).through begun ≠ outside 0 := by
    obtain ⟨rest, rfl⟩ : ∃ rest, begun = pyChar '\x7b' :: rest := by
      cases begun with
      | nil => cases hbegun
      | cons d rest => exact ⟨rest, by rw [Option.some.inj hbegun]⟩
    rw [through_cons]
    exact through_ne_start (by decide) rest
  generalize (outside 0).through begun = p at hwhole hstarted
  cases p with
  | outside n =>
      cases n with
      | zero => exact hstarted rfl
      | succ n =>
          rcases settled_of_loads h (n + 1) with hend | hend <;> rw [hend] at hwhole <;>
          · rcases hwhole with hwhole | hwhole <;> simp at hwhole
  | inside n =>
      rw [hlost] at hwhole
      rcases hwhole with hwhole | hwhole <;> cases hwhole
  | escaped n =>
      have hsame : (escaped n).through (pyChar '\x7b' :: pyChar '"' :: c :: more) =
          (inside n).through (pyChar '\x7b' :: pyChar '"' :: c :: more) := rfl
      rw [hsame, hlost] at hwhole
      rcases hwhole with hwhole | hwhole <;> cases hwhole
  | after n =>
      have hopen : (after n).next (pyChar '\x7b') = lost := by
        rw [next, if_neg (by decide), if_neg (fun h ↦ absurd h.1 (by decide)), if_neg (by decide)]
      rw [through_cons, hopen, through_lost] at hwhole
      rcases hwhole with hwhole | hwhole <;> cases hwhole
  | lost =>
      rw [through_lost] at hwhole
      rcases hwhole with hwhole | hwhole <;> cases hwhole

end Aegis.Server.Json
