import WebLint.Json.Reader

/-!
# What JSON texts stand for

The grammar of the JSON data format, as relations between a text, what its beginning stands for,
and the text that follows.  They are said without any reader, so that a text may stand for a
value whether or not somebody can read it.

What is proved here:

* `units?_of_quoted` — a text in quotes is read;
* `number?_of_numeral` — a number is read up to its end;
* `Spells.isRead` — so is all that is made of them, when there is fuel for the characters it
  takes;
* `parse?_of_denotes` — every JSON text is read as what it stands for;
* `Denotes.unique` — a text stands for one value only.
-/

namespace WebLint
namespace Json

/-! ## The grammar -/

/-- Whether a text is another one behind a gap between two tokens. -/
def Gap (s t : Text) : Prop := ∃ gap, s = gap ++ t ∧ ∀ c ∈ gap, isGap c = true

/-- Whether a text starts with digits. -/
def Digits (s t : Text) : Prop := ∃ ds, s = ds ++ t ∧ ds ≠ [] ∧ ∀ c ∈ ds, c.isDigit = true

/-- Whether a text starts with a whole number without a sign.  Only zero starts with a zero. -/
inductive Whole : Text → Text → Prop
  | zero {t : Text} : Whole ('0' :: t) t
  | digits {c : Char} {s t : Text} (hc : c ≠ '0') (h : Digits (c :: s) t) : Whole (c :: s) t

/-- Whether a text starts with a fraction, or with none. -/
inductive Fraction : Text → Text → Prop
  | none {t : Text} : Fraction t t
  | point {s t : Text} (h : Digits s t) : Fraction ('.' :: s) t

/-- Whether a text starts with an exponent, or with none. -/
inductive Exponent : Text → Text → Prop
  | none {t : Text} : Exponent t t
  | plain {e : Char} {s t : Text} (he : e = 'e' ∨ e = 'E') (h : Digits s t) : Exponent (e :: s) t
  | signed {e sign : Char} {s t : Text} (he : e = 'e' ∨ e = 'E') (hsign : sign = '+' ∨ sign = '-')
      (h : Digits s t) : Exponent (e :: sign :: s) t

/-- Whether a text starts with a number. -/
inductive Numeral : Text → Text → Prop
  | positive {s t u v : Text} (hwhole : Whole s t) (hfraction : Fraction t u)
      (hexponent : Exponent u v) : Numeral s v
  | negative {s t u v : Text} (hwhole : Whole s t) (hfraction : Fraction t u)
      (hexponent : Exponent u v) : Numeral ('-' :: s) v

/-- Whether a text behind the quote that opens it stands for other characters, up to the quote
that closes it.  Characters beyond the first sixteen bits may be escaped as two halves. -/
inductive Quoted : Text → Text → Text → Prop
  | close {t : Text} : Quoted ('\"' :: t) [] t
  | plain {c : Char} {s text t : Text} (hcontrol : 32 ≤ c.toNat) (hquote : c ≠ '\"')
      (hbackslash : c ≠ '\\') (h : Quoted s text t) : Quoted (c :: s) (c :: text) t
  | escape {e c : Char} {s text t : Text} (hc : escaped? e = some c) (h : Quoted s text t) :
      Quoted ('\\' :: e :: s) (c :: text) t
  | unit {a b c d : Char} {u : Nat} {s text t : Text} (hu : hexUnit a b c d = some u)
      (hhigh : isHigh u = false) (hlow : isLow u = false) (h : Quoted s text t) :
      Quoted ('\\' :: 'u' :: a :: b :: c :: d :: s) (Char.ofNat u :: text) t
  | pair {a b c d a' b' c' d' : Char} {u v : Nat} {s text t : Text}
      (hu : hexUnit a b c d = some u) (hhigh : isHigh u = true) (hv : hexUnit a' b' c' d' = some v)
      (hlow : isLow v = true) (h : Quoted s text t) :
      Quoted ('\\' :: 'u' :: a :: b :: c :: d :: '\\' :: 'u' :: a' :: b' :: c' :: d' :: s)
        (Char.ofNat (0x10000 + (u - 0xD800) * 0x400 + (v - 0xDC00)) :: text) t

/-- What a piece of a JSON text may stand for. -/
inductive Phrase where
  /-- A value. -/
  | value (j : Json)
  /-- Values between commas, and the bracket that closes the list. -/
  | items (js : List Json)
  /-- A field. -/
  | field (name : Text) (j : Json)
  /-- Fields between commas, and the brace that closes the object. -/
  | fields (fs : List (Text × Json))

/-- Whether a text starts with a phrase, and with what it goes on. -/
inductive Spells : Text → Phrase → Text → Prop
  | null {t : Text} : Spells ("null".toList ++ t) (.value .null) t
  | truth {t : Text} : Spells ("true".toList ++ t) (.value (.bool true)) t
  | falsehood {t : Text} : Spells ("false".toList ++ t) (.value (.bool false)) t
  | number {literal t : Text} (h : Numeral (literal ++ t) t) :
      Spells (literal ++ t) (.value (.number literal)) t
  | string {s text t : Text} (h : Quoted s text t) : Spells ('\"' :: s) (.value (.string text)) t
  | emptyArray {s t : Text} (h : Gap s (']' :: t)) : Spells ('[' :: s) (.value (.array [])) t
  | array {s t : Text} {js : List Json} (h : Spells s (.items js) t) :
      Spells ('[' :: s) (.value (.array js)) t
  | emptyObject {s t : Text} (h : Gap s ('\x7d' :: t)) :
      Spells ('\x7b' :: s) (.value (.object [])) t
  | object {s t : Text} {fs : List (Text × Json)} (h : Spells s (.fields fs) t) :
      Spells ('\x7b' :: s) (.value (.object fs)) t
  | lastItem {s a b t : Text} {j : Json} (hfront : Gap s a) (h : Spells a (.value j) b)
      (hback : Gap b (']' :: t)) : Spells s (.items [j]) t
  | item {s a b c t : Text} {j : Json} {js : List Json} (hfront : Gap s a)
      (h : Spells a (.value j) b) (hback : Gap b (',' :: c)) (hrest : Spells c (.items js) t) :
      Spells s (.items (j :: js)) t
  | field {s a b c d t name : Text} {j : Json} (hfront : Gap s ('\"' :: a))
      (hname : Quoted a name b) (hcolon : Gap b (':' :: c)) (hgap : Gap c d)
      (h : Spells d (.value j) t) : Spells s (.field name j) t
  | lastField {s b t name : Text} {j : Json} (h : Spells s (.field name j) b)
      (hback : Gap b ('\x7d' :: t)) : Spells s (.fields [(name, j)]) t
  | fields {s b c t name : Text} {j : Json} {fs : List (Text × Json)}
      (h : Spells s (.field name j) b) (hback : Gap b (',' :: c))
      (hrest : Spells c (.fields fs) t) : Spells s (.fields ((name, j) :: fs)) t

/-- Whether a text stands for a value. -/
def Denotes (s : Text) (j : Json) : Prop :=
  ∃ a b, Gap s a ∧ Spells a (.value j) b ∧ Gap b []

/-! ## Gaps -/

variable {s t a b : Text}

theorem Gap.refl (t : Text) : Gap t t := ⟨[], rfl, by simp⟩

theorem Gap.length_le (h : Gap s t) : t.length ≤ s.length := by
  obtain ⟨gap, rfl, -⟩ := h
  simp

theorem Gap.skipGap_eq (h : Gap s t) : skipGap s = skipGap t := by
  obtain ⟨gap, rfl, hgap⟩ := h
  rw [skipGap, List.dropWhile_append_of_pos hgap, skipGap]

theorem skipGap_cons {c : Char} (hc : isGap c = false) (s : Text) :
    skipGap (c :: s) = c :: s := by
  rw [skipGap, List.dropWhile_cons_of_neg (by simp [hc])]

/-- A gap is followed by the token behind it. -/
theorem Gap.skipGap_cons {c : Char} (hc : isGap c = false) (h : Gap s (c :: t)) :
    skipGap s = c :: t := by
  rw [h.skipGap_eq, Json.skipGap_cons hc]

/-- Whether a text is what may follow a value: nothing, a gap, a comma or a closing bracket. -/
def EndsValue (t : Text) : Prop :=
  ∀ c ∈ t.head?, isGap c = true ∨ c = ',' ∨ c = ']' ∨ c = '\x7d'

theorem Gap.endsValue (h : Gap s t) (ht : EndsValue t) : EndsValue s := by
  obtain ⟨gap, rfl, hgap⟩ := h
  cases gap with
  | nil => exact ht
  | cons d gap =>
    intro c hc
    obtain rfl : d = c := by simpa using hc
    exact .inl (hgap d List.mem_cons_self)

/-! ## Numbers -/

/-- Whether a text does not go on with a digit. -/
def EndsDigits (t : Text) : Prop := ∀ c ∈ t.head?, c.isDigit = false

theorem digits?_of_digits (h : Digits s t) (ht : EndsDigits t) : digits? s = some t := by
  obtain ⟨ds, rfl, hne, hds⟩ := h
  have hrest : (ds ++ t).dropWhile Char.isDigit = t := by
    rw [List.dropWhile_append_of_pos hds]
    cases t with
    | nil => rfl
    | cons c t => rw [List.dropWhile_cons_of_neg (by simpa using ht c)]
  have hlength := List.length_pos_iff.2 hne
  rw [digits?]
  simp only [hrest]
  rw [if_pos (by rw [List.length_append]; omega)]

/-- Digits start with a digit. -/
theorem Digits.exists_cons (h : Digits s t) :
    ∃ c a, s = c :: a ∧ c.isDigit = true ∧ t.length ≤ a.length := by
  obtain ⟨ds, rfl, hne, hds⟩ := h
  obtain ⟨d, ds, rfl⟩ := List.exists_cons_of_ne_nil hne
  exact ⟨d, ds ++ t, rfl, hds d List.mem_cons_self, by simp⟩

/-- What may follow a value does not carry on a number. -/
theorem EndsValue.ends {c : Char} (ht : EndsValue t) (hc : c ∈ t.head?) :
    c.isDigit = false ∧ c ≠ '.' ∧ c ≠ 'e' ∧ c ≠ 'E' := by
  rcases ht c hc with hgap | rfl | rfl | rfl
  · simp only [isGap, Bool.or_eq_true, beq_iff_eq] at hgap
    rcases hgap with ((rfl | rfl) | rfl) | rfl <;> decide
  · decide
  · decide
  · decide

/-- Behind its mark an exponent may have a sign. -/
theorem skipExponent_mark {e : Char} (he : e = 'e' ∨ e = 'E') (s : Text) :
    skipExponent (e :: s) =
      match s with
      | '+' :: rest => digits? rest
      | '-' :: rest => digits? rest
      | rest => digits? rest :=
  if_pos he

theorem skipExponent_of_exponent (h : Exponent s t) (ht : EndsValue t) :
    skipExponent s = some t := by
  have hdigits : EndsDigits t := fun c hc => (ht.ends hc).1
  cases h with
  | none =>
    cases s with
    | nil => rfl
    | cons c s =>
      obtain ⟨-, -, hsmall, hlarge⟩ := ht.ends (c := c) rfl
      exact if_neg (by simp [hsmall, hlarge])
  | plain he hds =>
    have hread := digits?_of_digits hds hdigits
    obtain ⟨d, a, rfl, hd, -⟩ := hds.exists_cons
    rw [skipExponent_mark he]
    -- a sign would be no digit
    split
    · rename_i heq
      rw [(List.cons.inj heq).1] at hd
      cases hd
    · rename_i heq
      rw [(List.cons.inj heq).1] at hd
      cases hd
    · exact hread
  | signed he hsign hds =>
    have hread := digits?_of_digits hds hdigits
    rw [skipExponent_mark he]
    rcases hsign with rfl | rfl
    · exact hread
    · exact hread

/-- A number does not go on behind its exponent, or where it has none. -/
theorem Exponent.ends {c : Char} (h : Exponent s t) (ht : EndsValue t) (hc : c ∈ s.head?) :
    c.isDigit = false ∧ c ≠ '.' := by
  cases h with
  | none => exact ⟨(ht.ends hc).1, (ht.ends hc).2.1⟩
  | plain he | signed he =>
    obtain rfl : _ = c := by simpa using hc
    rcases he with rfl | rfl <;> decide

theorem skipFraction_of_fraction (h : Fraction s t) (hdigits : EndsDigits t)
    (hpoint : ∀ c ∈ t.head?, c ≠ '.') : skipFraction s = some t := by
  cases h with
  | none =>
    unfold skipFraction
    split
    · exact absurd rfl (hpoint '.' rfl)
    · rfl
  | point hds => exact digits?_of_digits hds hdigits

theorem Fraction.endsDigits (h : Fraction s t) (ht : EndsDigits t) : EndsDigits s := by
  cases h with
  | none => exact ht
  | point =>
    intro c hc
    obtain rfl : '.' = c := by simpa using hc
    decide

theorem whole?_of_whole (h : Whole s t) (ht : EndsDigits t) : whole? s = some t := by
  cases h with
  | zero => rfl
  | digits hc hds =>
    unfold whole?
    split
    · rename_i heq
      exact absurd (List.cons.inj heq).1 hc
    · exact digits?_of_digits hds ht

/-- A number is skipped up to its end. -/
theorem skipNumber_of_numeral (h : Numeral s t) (ht : EndsValue t) : skipNumber s = some t := by
  have hunsigned : ∀ {s u v : Text}, Whole s u → Fraction u v → Exponent v t →
      ((whole? s).bind skipFraction).bind skipExponent = some t := by
    intro s u v hwhole hfraction hexponent
    have hdigits : EndsDigits v := fun c hc => (hexponent.ends ht hc).1
    have hpoint : ∀ c ∈ v.head?, c ≠ '.' := fun c hc => (hexponent.ends ht hc).2
    rw [whole?_of_whole hwhole (hfraction.endsDigits hdigits), Option.bind_some,
      skipFraction_of_fraction hfraction hdigits hpoint, Option.bind_some,
      skipExponent_of_exponent hexponent ht]
  cases h with
  | positive hwhole hfraction hexponent =>
    have hread := hunsigned hwhole hfraction hexponent
    unfold skipNumber
    split
    · -- a whole number does not start with a sign
      cases hwhole with
      | digits _ hds =>
        obtain ⟨d, a, heq, hd, -⟩ := hds.exists_cons
        rw [← (List.cons.inj heq).1] at hd
        cases hd
    · exact hread
  | negative hwhole hfraction hexponent => exact hunsigned hwhole hfraction hexponent

/-- A number is read up to its end, as it is written. -/
theorem number?_of_numeral {literal : Text} (h : Numeral (literal ++ t) t) (ht : EndsValue t) :
    number? (literal ++ t) = some (.number literal, t) := by
  rw [number?, skipNumber_of_numeral h ht]
  simp

/-! ## Texts in quotes -/

/-- A unit that is no half of a pair is a character. -/
theorem charsOf_cons {u : Nat} (hhigh : isHigh u = false) (hlow : isLow u = false)
    (us : List Nat) : charsOf (u :: us) = (charsOf us).map (Char.ofNat u :: ·) := by
  cases us with
  | nil => simp [charsOf, hhigh, hlow]
  | cons v us => simp [charsOf, hhigh, hlow]

/-- A character is no half of a pair. -/
theorem charsOf_toNat_cons (c : Char) (us : List Nat) :
    charsOf (c.toNat :: us) = (charsOf us).map (c :: ·) := by
  have hvalid : c.toNat < 0xD800 ∨ 0xDFFF < c.toNat := by
    have h : c.toNat.isValidChar := c.valid
    rcases h with h | h
    · exact .inl h
    · exact .inr h.1
  have hhigh : isHigh c.toNat = false := by
    simp only [isHigh, Bool.and_eq_false_iff, decide_eq_false_iff_not]
    omega
  have hlow : isLow c.toNat = false := by
    simp only [isLow, Bool.and_eq_false_iff, decide_eq_false_iff_not]
    omega
  rw [charsOf_cons hhigh hlow, Char.ofNat_toNat]

/-- A text in quotes is read unit by unit. -/
theorem units?_of_quoted {text : Text} (h : Quoted s text t) :
    ∃ us, units? s = some (us, t) ∧ charsOf us = some text := by
  induction h with
  | close => exact ⟨[], by simp [units?], rfl⟩
  | @plain c s text t hcontrol hquote hbackslash _ ih =>
    obtain ⟨us, hunits, hchars⟩ := ih
    refine ⟨c.toNat :: us, ?_, by simp [charsOf_toNat_cons, hchars]⟩
    have hallowed : ¬ (c.toNat < 32 ∨ c = '\\') := by
      rintro (h | h)
      · omega
      · exact hbackslash h
    rw [units?]
    · simp [hallowed, hunits]
    all_goals simp_all
  | @escape e c s text t hc _ ih =>
    obtain ⟨us, hunits, hchars⟩ := ih
    refine ⟨c.toNat :: us, ?_, by simp [charsOf_toNat_cons, hchars]⟩
    rw [units?]
    · simp [hc, hunits]
    · -- what stands behind `\u` is no letter of an escape
      rintro a b c d rest rfl
      cases hc
  | @unit _ _ _ _ u _ _ _ hu hhigh hlow _ ih =>
    obtain ⟨us, hunits, hchars⟩ := ih
    exact ⟨u :: us, by simp [units?, hu, hunits], by simp [charsOf_cons hhigh hlow, hchars]⟩
  | @pair _ _ _ _ _ _ _ _ u v _ _ _ hu hhigh hv hlow _ ih =>
    obtain ⟨us, hunits, hchars⟩ := ih
    exact ⟨u :: v :: us, by simp [units?, hu, hv, hunits],
      by simp [charsOf, hhigh, hlow, hchars]⟩

theorem quoted?_of_quoted {text : Text} (h : Quoted s text t) : quoted? s = some (text, t) := by
  obtain ⟨us, hunits, hchars⟩ := units?_of_quoted h
  simp [quoted?, hunits, hchars]

theorem Quoted.length_lt {text : Text} (h : Quoted s text t) : t.length < s.length := by
  induction h with
  | close => simp
  | plain _ _ _ _ ih => exact Nat.lt_succ_of_lt ih
  | escape _ _ ih | unit _ _ _ _ ih | pair _ _ _ _ _ ih =>
    simp only [List.length_cons]
    omega

/-! ## Values -/

theorem skipGap_skipGap (t : Text) : skipGap (skipGap t) = skipGap t := by
  induction t with
  | nil => rfl
  | cons c t ih =>
    by_cases hc : isGap c = true
    · simpa [skipGap, hc] using ih
    · simp [skipGap, hc]

theorem word?_eq_none {c d : Char} (h : c ≠ d) (word t : Text) :
    word? (c :: word) (d :: t) = none := by
  simp [word?, h]

/-- A number starts with a sign or with a digit. -/
theorem Numeral.exists_cons (h : Numeral s t) :
    ∃ c a, s = c :: a ∧ (c = '-' ∨ c.isDigit = true) ∧ t.length ≤ a.length := by
  have hfraction : ∀ {s t : Text}, Fraction s t → t.length ≤ s.length := by
    intro s t h
    cases h with
    | none => exact Nat.le_refl _
    | point h =>
      obtain ⟨d, a, rfl, -, hle⟩ := h.exists_cons
      simp only [List.length_cons]
      omega
  have hexponent : ∀ {s t : Text}, Exponent s t → t.length ≤ s.length := by
    intro s t h
    cases h with
    | none => exact Nat.le_refl _
    | plain _ h | signed _ _ h =>
      obtain ⟨d, a, rfl, -, hle⟩ := h.exists_cons
      simp only [List.length_cons]
      omega
  have hwhole : ∀ {s t : Text}, Whole s t →
      ∃ c a, s = c :: a ∧ c.isDigit = true ∧ t.length ≤ a.length := by
    intro s t h
    cases h with
    | zero => exact ⟨'0', t, rfl, by decide, Nat.le_refl _⟩
    | digits _ h => exact h.exists_cons
  cases h with
  | positive hw hf he =>
    obtain ⟨c, a, rfl, hc, hle⟩ := hwhole hw
    exact ⟨c, a, rfl, .inr hc, Nat.le_trans (hexponent he) (Nat.le_trans (hfraction hf) hle)⟩
  | negative hw hf he =>
    obtain ⟨c, a, rfl, -, hle⟩ := hwhole hw
    exact ⟨'-', c :: a, rfl, .inl rfl,
      Nat.le_trans (hexponent he) (Nat.le_trans (hfraction hf) (Nat.le_succ_of_le hle))⟩

/-- What a number starts with is no other token. -/
theorem ne_of_isNumeric {c d : Char} (hc : c = '-' ∨ c.isDigit = true) (hsign : d ≠ '-')
    (hdigit : d.isDigit = false) : c ≠ d := by
  rintro rfl
  rcases hc with rfl | hc
  · exact hsign rfl
  · rw [hdigit] at hc
    cases hc

/-- What starts like a number is read as one. -/
theorem value?_of_isNumeric {c : Char} {g : Text} (hc : c = '-' ∨ c.isDigit = true)
    (hg : skipGap g = c :: a) (n : Nat) : value? (n + 1) g = number? (c :: a) := by
  rw [value?, hg]
  split
  · rename_i heq
    exact absurd (List.cons.inj heq).1 (ne_of_isNumeric hc (by decide) (by decide))
  · rename_i heq
    exact absurd (List.cons.inj heq).1 (ne_of_isNumeric hc (by decide) (by decide))
  · rename_i heq
    exact absurd (List.cons.inj heq).1 (ne_of_isNumeric hc (by decide) (by decide))
  · have hno : ∀ d word, d ≠ '-' → d.isDigit = false → word? (d :: word) (c :: a) = none :=
      fun d word hsign hdigit => word?_eq_none (ne_of_isNumeric hc hsign hdigit).symm word a
    simp [hno]

variable {ph : Phrase}

/-- Every phrase takes some characters. -/
theorem Spells.length_lt (h : Spells s ph t) : t.length < s.length := by
  induction h with
  | null | truth | falsehood =>
    rw [List.length_append]
    exact Nat.lt_add_of_pos_left (by decide)
  | number h =>
    obtain ⟨c, a, heq, -, hle⟩ := h.exists_cons
    rw [heq, List.length_cons]
    omega
  | string h => exact Nat.lt_succ_of_lt h.length_lt
  | emptyArray h | emptyObject h => exact Nat.lt_succ_of_le (Nat.le_of_lt h.length_le)
  | array _ ih | object _ ih => exact Nat.lt_succ_of_lt ih
  | lastItem hfront _ hback ih =>
    exact Nat.lt_of_lt_of_le (Nat.lt_trans hback.length_le ih) hfront.length_le
  | item hfront _ hback _ ih ihrest =>
    have hcomma : _ < _ := Nat.lt_trans hback.length_le ih
    exact Nat.lt_of_lt_of_le (Nat.lt_trans ihrest hcomma) hfront.length_le
  | field hfront hname hcolon hgap _ ih =>
    have hvalue := Nat.lt_of_lt_of_le ih hgap.length_le
    have hbehind := Nat.lt_trans hvalue hcolon.length_le
    exact Nat.lt_trans (Nat.lt_trans hbehind hname.length_lt) hfront.length_le
  | lastField _ hback ih => exact Nat.lt_trans hback.length_le ih
  | fields _ hback _ ih ihrest => exact Nat.lt_trans ihrest (Nat.lt_trans hback.length_le ih)

/-- So there is fuel for it where there is as much as it takes characters. -/
theorem Spells.exists_fuel (h : Spells s ph t) {m : Nat} (hfuel : s.length ≤ m + t.length) :
    ∃ n, m = n + 1 :=
  ⟨m - 1, by have := h.length_lt; omega⟩

/-- A value starts with a token of its own, which closes nothing. -/
theorem Spells.exists_cons {j : Json} (h : Spells s (.value j) t) :
    ∃ c a, s = c :: a ∧ isGap c = false ∧ c ≠ ']' ∧ c ≠ '\x7d' := by
  cases h with
  | null => exact ⟨'n', "ull".toList ++ t, rfl, by decide⟩
  | truth => exact ⟨'t', "rue".toList ++ t, rfl, by decide⟩
  | falsehood => exact ⟨'f', "alse".toList ++ t, rfl, by decide⟩
  | number h =>
    obtain ⟨c, a, heq, hc, -⟩ := h.exists_cons
    have hne : ∀ d, d ≠ '-' → d.isDigit = false → c ≠ d := fun d => ne_of_isNumeric hc
    refine ⟨c, a, heq, ?_, hne _ (by decide) (by decide), hne _ (by decide) (by decide)⟩
    simp [isGap, hne]
  | string | emptyArray | array | emptyObject | object => exact ⟨_, _, rfl, by decide⟩

/-- Whether a field is read at the start of a text when there is some fuel. -/
def ReadsField (fuel : Nat) (s name : Text) (j : Json) (t : Text) : Prop :=
  ∃ a b c, skipGap s = '\"' :: a ∧ quoted? a = some (name, b) ∧ skipGap b = ':' :: c ∧
    value? fuel c = some (j, t)

/-- What is read at the start of a text when there is some fuel. -/
def Phrase.IsRead (fuel : Nat) (s : Text) : Phrase → Text → Prop
  | .value j, t => EndsValue t → value? fuel s = some (j, t)
  | .items js, t => items? fuel s = some (js, t)
  | .field name j, t => EndsValue t → ReadsField fuel s name j t
  | .fields fs, t => fields? fuel s = some (fs, t)

section

variable {n : Nat} {g c name : Text} {j : Json} {js : List Json} {fs : List (Text × Json)}

/-- A list with something in it is read behind its bracket. -/
theorem value?_array {d : Char} (hg : skipGap g = '[' :: s) (hs : skipGap s = d :: a)
    (hd : d ≠ ']') (hread : items? n (skipGap s) = some (js, t)) :
    value? (n + 1) g = some (.array js, t) := by
  rw [value?, hg]
  simp only
  split
  · rename_i heq
    rw [hs] at heq
    exact absurd (List.cons.inj heq).1 hd
  · rw [hread]
    rfl

/-- An object with something in it is read behind its brace. -/
theorem value?_object (hg : skipGap g = '\x7b' :: s) (hs : skipGap s = '\"' :: a)
    (hread : fields? n (skipGap s) = some (fs, t)) : value? (n + 1) g = some (.object fs, t) := by
  rw [value?, hg]
  simp only
  split
  · rename_i heq
    rw [hs] at heq
    cases heq
  · rw [hread]
    rfl

theorem items?_singleton (hvalue : value? n g = some (j, b)) (hback : Gap b (']' :: t)) :
    items? (n + 1) g = some ([j], t) := by
  rw [items?]
  simp [hvalue, hback.skipGap_cons rfl]

theorem items?_cons (hvalue : value? n g = some (j, b)) (hback : Gap b (',' :: c))
    (hrest : items? n c = some (js, t)) : items? (n + 1) g = some (j :: js, t) := by
  rw [items?]
  simp [hvalue, hback.skipGap_cons rfl, hrest]

theorem fields?_singleton (h : ReadsField n g name j b) (hback : Gap b ('\x7d' :: t)) :
    fields? (n + 1) g = some ([(name, j)], t) := by
  obtain ⟨a, e, d, hquote, hname, hcolon, hvalue⟩ := h
  rw [fields?]
  simp [hquote, hname, hcolon, hvalue, hback.skipGap_cons rfl]

theorem fields?_cons (h : ReadsField n g name j b) (hback : Gap b (',' :: c))
    (hrest : fields? n c = some (fs, t)) : fields? (n + 1) g = some ((name, j) :: fs, t) := by
  obtain ⟨a, e, d, hquote, hname, hcolon, hvalue⟩ := h
  rw [fields?]
  simp [hquote, hname, hcolon, hvalue, hback.skipGap_cons rfl, hrest]

end

theorem Spells.skipGap_of_items {js : List Json} (h : Spells s (.items js) t) :
    ∃ c a, skipGap s = c :: a ∧ c ≠ ']' := by
  cases h with
  | lastItem hfront h | item hfront h =>
    obtain ⟨c, a, rfl, hc, hbracket, -⟩ := h.exists_cons
    exact ⟨c, a, hfront.skipGap_cons hc, hbracket⟩

theorem Spells.skipGap_of_field {name : Text} {j : Json} (h : Spells s (.field name j) t) :
    ∃ a, skipGap s = '\"' :: a := by
  cases h with
  | field hfront => exact ⟨_, hfront.skipGap_cons rfl⟩

theorem Spells.skipGap_of_fields {fs : List (Text × Json)} (h : Spells s (.fields fs) t) :
    ∃ a, skipGap s = '\"' :: a := by
  cases h with
  | lastField h | fields h => exact h.skipGap_of_field

/-- In front of a comma or a bracket that closes, a value ends. -/
theorem Gap.endsValue_of_cons {c : Char} (h : Gap s (c :: t))
    (hc : c = ',' ∨ c = ']' ∨ c = '\x7d') : EndsValue s := by
  refine h.endsValue fun d hd => ?_
  obtain rfl : c = d := by simpa using hd
  exact .inr hc

/-- A phrase is read behind any gap, with as much fuel as it takes characters. -/
theorem Spells.isRead (h : Spells s ph t) :
    ∀ n g, s.length ≤ n + 1 + t.length → skipGap g = skipGap s → ph.IsRead (n + 1) g t := by
  induction h with
  | null | truth | falsehood =>
    intro n g _ hg _
    rw [value?, hg]
    simp [skipGap, isGap, word?]
  | @number literal t h =>
    intro n g _ hg ht
    obtain ⟨c, a, heq, hc, -⟩ := h.exists_cons
    obtain ⟨d, b, heq', hd, -⟩ := (Spells.number h).exists_cons
    rw [heq', skipGap_cons hd, ← heq', heq] at hg
    rw [value?_of_isNumeric hc hg, ← heq]
    exact number?_of_numeral h ht
  | @string s text t h =>
    intro n g _ hg _
    rw [value?, hg, skipGap_cons rfl]
    simp [quoted?_of_quoted h]
  | @emptyArray s t h =>
    intro n g _ hg _
    rw [value?, hg, skipGap_cons rfl]
    simp [h.skipGap_cons rfl]
  | @array s t js h ih =>
    intro n g hfuel hg _
    rw [List.length_cons] at hfuel
    obtain ⟨m, rfl⟩ := h.exists_fuel (m := n) (by omega)
    obtain ⟨c, a, hhead, hc⟩ := h.skipGap_of_items
    exact value?_array (hg.trans (skipGap_cons rfl s)) hhead hc
      (ih m _ (by omega) (skipGap_skipGap s))
  | @emptyObject s t h =>
    intro n g _ hg _
    rw [value?, hg, skipGap_cons rfl]
    simp [h.skipGap_cons rfl]
  | @object s t fs h ih =>
    intro n g hfuel hg _
    rw [List.length_cons] at hfuel
    obtain ⟨m, rfl⟩ := h.exists_fuel (m := n) (by omega)
    obtain ⟨a, hhead⟩ := h.skipGap_of_fields
    exact value?_object (hg.trans (skipGap_cons rfl s)) hhead
      (ih m _ (by omega) (skipGap_skipGap s))
  | @lastItem s a b t j hfront h hback ih =>
    intro n g hfuel hg
    have hfrontle := hfront.length_le
    have hbackle := hback.length_le
    rw [List.length_cons] at hbackle
    obtain ⟨m, rfl⟩ := h.exists_fuel (m := n) (by omega)
    exact items?_singleton (ih m g (by omega) (hg.trans hfront.skipGap_eq)
      (hback.endsValue_of_cons (by simp))) hback
  | @item s a b c t j js hfront h hback hrest ih ihrest =>
    intro n g hfuel hg
    have hfrontle := hfront.length_le
    have hbackle := hback.length_le
    have htaken := h.length_lt
    have hresttaken := hrest.length_lt
    rw [List.length_cons] at hbackle
    obtain ⟨m, rfl⟩ := h.exists_fuel (m := n) (by omega)
    exact items?_cons (ih m g (by omega) (hg.trans hfront.skipGap_eq)
      (hback.endsValue_of_cons (by simp))) hback (ihrest m c (by omega) rfl)
  | @field s a b c d t name j hfront hname hcolon hgap h ih =>
    intro n g hfuel hg ht
    have hfrontle := hfront.length_le
    have hnamelt := hname.length_lt
    have hcolonle := hcolon.length_le
    have hgaple := hgap.length_le
    simp only [List.length_cons] at hfrontle hcolonle
    exact ⟨a, b, c, hg.trans (hfront.skipGap_cons rfl), quoted?_of_quoted hname,
      hcolon.skipGap_cons rfl, ih n c (by omega) hgap.skipGap_eq ht⟩
  | @lastField s b t name j h hback ih =>
    intro n g hfuel hg
    have hbackle := hback.length_le
    rw [List.length_cons] at hbackle
    obtain ⟨m, rfl⟩ := h.exists_fuel (m := n) (by omega)
    exact fields?_singleton (ih m g (by omega) hg (hback.endsValue_of_cons (by simp))) hback
  | @fields s b c t name j fs h hback hrest ih ihrest =>
    intro n g hfuel hg
    have hbackle := hback.length_le
    have htaken := h.length_lt
    have hresttaken := hrest.length_lt
    rw [List.length_cons] at hbackle
    obtain ⟨m, rfl⟩ := h.exists_fuel (m := n) (by omega)
    exact fields?_cons (ih m g (by omega) hg (hback.endsValue_of_cons (by simp))) hback
      (ihrest m c (by omega) rfl)

/-! ## Whole texts -/

/-- **Every JSON text is read as what it stands for.** -/
theorem parse?_of_denotes {j : Json} (h : Denotes s j) : parse? s = some j := by
  obtain ⟨a, b, hfront, hvalue, hback⟩ := h
  have hlength := hfront.length_le
  have hends : EndsValue b := hback.endsValue (by simp [EndsValue])
  have hread : value? (s.length + 1) s = some (j, b) :=
    hvalue.isRead s.length s (by omega) hfront.skipGap_eq hends
  have hnothing : skipGap b = [] := by rw [hback.skipGap_eq]; rfl
  simp [parse?, hread, hnothing]

/-- **A text stands for one value only.** -/
theorem Denotes.unique {j k : Json} (hj : Denotes s j) (hk : Denotes s k) : j = k := by
  have hread := parse?_of_denotes hj
  rw [parse?_of_denotes hk] at hread
  exact (Option.some.inj hread).symm

end Json
end WebLint
