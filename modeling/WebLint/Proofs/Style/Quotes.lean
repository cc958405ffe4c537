import WebLint.Proofs.Tree
import WebLint.Style.Quotes

/-!
# What strings denote

Between its delimiters a string of a stylesheet holds characters that stand for
themselves, and escapes: a backslash in front of the end of a line denotes nothing,
one in front of hex digits the character with this number, and one in front of any
other character this character.  Changing the delimiters and taking the backslash
from those that were escaped leaves what the string denotes as it was.

What is proved here:

* `Denotes.unique` — a string denotes one sequence of characters;
* `Denotes.unescape` — it is denoted as well by the unescaped string between other
  delimiters, unless the string holds these;
* `ofString_eq_none_iff` — which strings are left alone;
* `ofString_literal` — the fix of any other one is a string that denotes the same and
  is left alone.
-/

namespace WebLint
namespace Quotes

/-! ## Escapes -/

/-- The characters that end a line. -/
def isLineEnd (c : Char) : Bool := c == '\n' || c == '\r' || c == '\x0c'

/-- The white space that may stand behind the digits of an escape. -/
def isWhite (c : Char) : Bool := c == ' ' || c == '\t' || isLineEnd c

/-- The hex digits. -/
def isHexDigit (c : Char) : Bool :=
  c.isDigit || ('a' ≤ c && c ≤ 'f') || ('A' ≤ c && c ≤ 'F')

/-- The value of a hex digit. -/
def digitValue (c : Char) : Nat :=
  if c.isDigit then c.toNat - '0'.toNat else c.toLower.toNat - 'a'.toNat + 10

/-- The number some hex digits stand for. -/
def codeOf (digits : Text) : Nat := digits.foldl (fun n c => 16 * n + digitValue c) 0

/-- The character with a number.  Zero and the numbers that no character has stand for the
replacement character. -/
def charOf (code : Nat) : Char :=
  if code = 0 ∨ ¬ code.isValidChar then '\ufffd' else Char.ofNat code

/-- Whether a text is one character of a class.  The two characters that end a line together
count as one. -/
def IsOne (p : Char → Bool) (u : Text) : Prop := u = ['\r', '\n'] ∨ ∃ c, p c = true ∧ u = [c]

/-- Whether some digits and perhaps one white space make an escape in front of `rest`: as many
digits as there are, but no more than six, and the white space if there is some. -/
structure IsCode (digits white rest : Text) : Prop where
  /-- There is a digit. -/
  nonempty : digits ≠ []
  /-- There are no more than six. -/
  short : digits.length ≤ 6
  /-- They are hex digits. -/
  hex : ∀ c ∈ digits, isHexDigit c = true
  /-- White space follows, or none. -/
  optional : white = [] ∨ IsOne isWhite white
  /-- With less than six digits, no digit is left behind. -/
  all_digits : digits.length < 6 → white = [] → ∀ c ∈ rest.head?, isHexDigit c = false
  /-- No white space is left behind when none is taken. -/
  all_white : white = [] → ∀ c ∈ rest.head?, isWhite c = false

/-- What stands between two delimiters, and the characters it denotes. -/
inductive Denotes (delimiter : Char) : Text → Text → Prop
  /-- Nothing denotes nothing. -/
  | nil : Denotes delimiter [] []
  /-- Most characters denote themselves. -/
  | plain {c : Char} {body chars : Text} (hdelimiter : c ≠ delimiter) (hbackslash : c ≠ '\\')
      (hline : isLineEnd c = false) (h : Denotes delimiter body chars) :
      Denotes delimiter (c :: body) (c :: chars)
  /-- An escaped end of a line denotes nothing. -/
  | lineEnd {u body chars : Text} (hu : IsOne isLineEnd u) (h : Denotes delimiter body chars) :
      Denotes delimiter ('\\' :: (u ++ body)) chars
  /-- Escaped digits denote a character by its number. -/
  | code {digits white body chars : Text} (hcode : IsCode digits white body)
      (h : Denotes delimiter body chars) :
      Denotes delimiter ('\\' :: (digits ++ (white ++ body))) (charOf (codeOf digits) :: chars)
  /-- Any other escaped character denotes itself. -/
  | char {c : Char} {body chars : Text} (hhex : isHexDigit c = false)
      (hline : isLineEnd c = false) (h : Denotes delimiter body chars) :
      Denotes delimiter ('\\' :: c :: body) (c :: chars)

/-! ## Classes of characters -/

theorem char_ne_backslash (q : Quote) : q.char ≠ '\\' := by
  cases q with
  | single => decide
  | double => decide

theorem isHexDigit_char (q : Quote) : isHexDigit q.char = false := by
  cases q with
  | single => decide
  | double => decide

theorem isWhite_char (q : Quote) : isWhite q.char = false := by
  cases q with
  | single => decide
  | double => decide

theorem isLineEnd_of_isWhite {c : Char} (h : isWhite c = false) : isLineEnd c = false := by
  rw [isWhite, Bool.or_eq_false_iff] at h
  exact h.2

/-- White space is no digit. -/
theorem isHexDigit_of_isWhite {c : Char} (h : isWhite c = true) : isHexDigit c = false := by
  simp only [isWhite, isLineEnd, Bool.or_eq_true, beq_iff_eq] at h
  rcases h with (rfl | rfl) | (rfl | rfl) | rfl
  · decide
  · decide
  · decide
  · decide
  · decide

theorem char_other_ne (q : Quote) : q.other.char ≠ q.char := by
  cases q with
  | single => decide
  | double => decide

theorem eq_other_of_ne {q p : Quote} (h : q ≠ p) : q = p.other := by
  cases q with
  | single =>
    cases p with
    | single => exact absurd rfl h
    | double => rfl
  | double =>
    cases p with
    | single => rfl
    | double => exact absurd rfl h

namespace IsOne

variable {p p' : Char → Bool} {u u' s s' : Text}

theorem exists_head (h : IsOne p u) (hp : p '\r' = true) :
    ∃ c tail, u = c :: tail ∧ p c = true := by
  rcases h with rfl | ⟨c, hc, rfl⟩
  · exact ⟨'\r', ['\n'], rfl, hp⟩
  · exact ⟨c, [], rfl, hc⟩

/-- Where one character of a class ends can be told, unless a line feed follows. -/
theorem unique (h : IsOne p u) (h' : IsOne p' u') (hs : '\n' ∉ s.head?) (hs' : '\n' ∉ s'.head?)
    (heq : u ++ s = u' ++ s') : u = u' ∧ s = s' := by
  rcases h with rfl | ⟨c, hc, rfl⟩
  · rcases h' with rfl | ⟨c', hc', rfl⟩
    · exact ⟨rfl, by simpa using heq⟩
    · obtain ⟨rfl, rfl⟩ := List.cons.inj heq
      exact absurd rfl hs'
  · rcases h' with rfl | ⟨c', hc', rfl⟩
    · obtain ⟨rfl, rfl⟩ := List.cons.inj heq
      exact absurd rfl hs
    · obtain ⟨rfl, rfl⟩ := List.cons.inj heq
      exact ⟨rfl, rfl⟩

end IsOne

namespace IsCode

variable {digits white rest digits' white' rest' : Text}

/-- The digits of an escape are the longest run of digits there, but no more than six. -/
theorem digits_eq (h : IsCode digits white rest) :
    digits = ((digits ++ (white ++ rest)).take 6).takeWhile isHexDigit := by
  rw [List.take_append, List.take_of_length_le h.short,
    List.takeWhile_append_of_pos h.hex]
  suffices hnone : ((white ++ rest).take (6 - digits.length)).takeWhile isHexDigit = [] by
    rw [hnone, List.append_nil]
  rcases Nat.lt_or_eq_of_le h.short with hlt | heq
  · obtain ⟨k, hk⟩ : ∃ k, 6 - digits.length = k + 1 := ⟨5 - digits.length, by omega⟩
    rw [hk]
    rcases h.optional with rfl | hwhite
    · cases rest with
      | nil => rfl
      | cons c rest =>
        rw [List.nil_append, List.take_succ_cons, List.takeWhile_cons_of_neg]
        simp [h.all_digits hlt rfl c rfl]
    · obtain ⟨c, tail, rfl, hc⟩ := hwhite.exists_head (by decide)
      rw [List.cons_append, List.take_succ_cons, List.takeWhile_cons_of_neg]
      simp [isHexDigit_of_isWhite hc]
  · rw [heq]
    rfl

/-- An escape with digits can be read in one way only. -/
theorem unique (h : IsCode digits white rest) (h' : IsCode digits' white' rest')
    (hrest : '\n' ∉ rest.head?) (hrest' : '\n' ∉ rest'.head?)
    (heq : digits ++ (white ++ rest) = digits' ++ (white' ++ rest')) :
    digits = digits' ∧ rest = rest' := by
  have hdigits : digits = digits' := by rw [h.digits_eq, heq, ← h'.digits_eq]
  rw [hdigits] at heq
  have hwhites := List.append_cancel_left heq
  refine ⟨hdigits, ?_⟩
  -- white space that one reading leaves behind is not taken by the other
  have hleft : ∀ {digits white' rest rest' : Text}, IsCode digits [] rest →
      IsOne isWhite white' → rest ≠ white' ++ rest' := by
    intro digits white' rest rest' h hwhite hrest
    obtain ⟨c, tail, rfl, hc⟩ := hwhite.exists_head (by decide)
    rw [h.all_white rfl c (by rw [hrest]; rfl)] at hc
    exact Bool.false_ne_true hc
  rcases h.optional with rfl | hwhite
  · rcases h'.optional with rfl | hwhite'
    · exact hwhites
    · exact absurd hwhites (hleft h hwhite')
  · rcases h'.optional with rfl | hwhite'
    · exact absurd hwhites.symm (hleft h' hwhite)
    · exact (hwhite.unique hwhite' hrest hrest' hwhites).2

end IsCode

/-! ## What a string denotes -/

namespace Denotes

variable {q : Quote} {body chars chars' : Text}

/-- Neither the delimiter nor the end of a line stands between two delimiters but behind a
backslash. -/
theorem head (h : Denotes q.char body chars) :
    ∀ c ∈ body.head?, c ≠ q.char ∧ isLineEnd c = false := by
  have hescape : '\\' ≠ q.char ∧ isLineEnd '\\' = false := ⟨(char_ne_backslash q).symm, by decide⟩
  intro c hc
  cases h with
  | nil => cases hc
  | plain hdelimiter _ hline _ =>
    obtain rfl := Option.some.inj hc
    exact ⟨hdelimiter, hline⟩
  | lineEnd _ _ =>
    obtain rfl := Option.some.inj hc
    exact hescape
  | code _ _ =>
    obtain rfl := Option.some.inj hc
    exact hescape
  | char _ _ _ =>
    obtain rfl := Option.some.inj hc
    exact hescape

theorem not_mem_head (h : Denotes q.char body chars) : '\n' ∉ body.head? := by
  intro hmem
  exact absurd (h.head _ hmem).2 (by decide)

/-- The three ways to read what stands behind a backslash. -/
theorem cases_escape {rest : Text} (h : Denotes q.char ('\\' :: rest) chars) :
    (∃ u body, IsOne isLineEnd u ∧ Denotes q.char body chars ∧ rest = u ++ body) ∨
      (∃ digits white body others, IsCode digits white body ∧ Denotes q.char body others ∧
        rest = digits ++ (white ++ body) ∧ chars = charOf (codeOf digits) :: others) ∨
      ∃ c body others, isHexDigit c = false ∧ isLineEnd c = false ∧
        Denotes q.char body others ∧ rest = c :: body ∧ chars = c :: others := by
  cases h with
  | plain _ hbackslash _ _ => exact absurd rfl hbackslash
  | lineEnd hu h => exact Or.inl ⟨_, _, hu, h, rfl⟩
  | code hcode h => exact Or.inr (Or.inl ⟨_, _, _, _, hcode, h, rfl, rfl⟩)
  | char hhex hline h => exact Or.inr (Or.inr ⟨_, _, _, hhex, hline, h, rfl, rfl⟩)

/-- The end of a line is no digit. -/
theorem lineEnd_ne_digits {u body digits rest : Text} (hu : IsOne isLineEnd u)
    (hne : digits ≠ []) (hhex : ∀ c ∈ digits, isHexDigit c = true) :
    u ++ body ≠ digits ++ rest := by
  intro heq
  obtain ⟨c, tail, rfl, hc⟩ := hu.exists_head (by decide)
  obtain ⟨d, digits, rfl⟩ := List.exists_cons_of_ne_nil hne
  obtain ⟨rfl, -⟩ := List.cons.inj heq
  have hwhite : isWhite c = true := by rw [isWhite, hc, Bool.or_true]
  have hdigit := hhex c List.mem_cons_self
  rw [isHexDigit_of_isWhite hwhite] at hdigit
  exact Bool.false_ne_true hdigit

/-- A string denotes one sequence of characters. -/
theorem unique (h : Denotes q.char body chars) (h' : Denotes q.char body chars') :
    chars = chars' := by
  induction h generalizing chars' with
  | nil => cases h' with
    | nil => rfl
  | plain _ hbackslash _ _ ih =>
    cases h' with
    | plain _ _ _ h' => rw [ih h']
    | lineEnd _ _ => exact absurd rfl hbackslash
    | code _ _ => exact absurd rfl hbackslash
    | char _ _ _ => exact absurd rfl hbackslash
  | lineEnd hu h ih =>
    rcases h'.cases_escape with ⟨u', body', hu', h', heq⟩ |
      ⟨digits, white, body', others, hcode, h', heq, rfl⟩ | ⟨c, body', others, _, hline, _, heq, _⟩
    · obtain ⟨-, rfl⟩ := hu.unique hu' h.not_mem_head h'.not_mem_head heq
      exact ih h'
    · exact absurd heq (lineEnd_ne_digits hu hcode.nonempty hcode.hex)
    · obtain ⟨d, tail, rfl, hd⟩ := hu.exists_head (by decide)
      rw [(List.cons.inj heq).1, hline] at hd
      exact absurd hd Bool.false_ne_true
  | code hcode h ih =>
    rcases h'.cases_escape with ⟨u', body', hu', h', heq⟩ |
      ⟨digits, white, body', others, hcode', hbody', heq, rfl⟩ |
      ⟨c, body', others, hhex, _, _, heq, _⟩
    · exact absurd heq.symm (lineEnd_ne_digits hu' hcode.nonempty hcode.hex)
    · obtain ⟨rfl, rfl⟩ := hcode.unique hcode' h.not_mem_head hbody'.not_mem_head heq
      rw [ih hbody']
    · obtain ⟨d, digits, rfl⟩ := List.exists_cons_of_ne_nil hcode.nonempty
      rw [← (List.cons.inj heq).1, hcode.hex d List.mem_cons_self] at hhex
      exact absurd hhex.symm Bool.false_ne_true
  | char hhex hline h ih =>
    rcases h'.cases_escape with ⟨u', body', hu', h', heq⟩ |
      ⟨digits, white, body', others, hcode, h', heq, rfl⟩ | ⟨c, body', others, _, _, h', heq, rfl⟩
    · obtain ⟨d, tail, rfl, hd⟩ := hu'.exists_head (by decide)
      rw [← (List.cons.inj heq).1, hline] at hd
      exact absurd hd Bool.false_ne_true
    · obtain ⟨d, digits, rfl⟩ := List.exists_cons_of_ne_nil hcode.nonempty
      rw [(List.cons.inj heq).1, hcode.hex d List.mem_cons_self] at hhex
      exact absurd hhex.symm Bool.false_ne_true
    · obtain ⟨rfl, rfl⟩ := List.cons.inj heq
      rw [ih h']

end Denotes

/-! ## Unescaping -/

section Unescape

variable {delimiter c : Char} {u body chars : Text}

/-- An escaped delimiter loses its backslash. -/
theorem unescape_escaped : unescape delimiter ('\\' :: delimiter :: body) =
    delimiter :: unescape delimiter body := by
  rw [unescape, if_pos ⟨rfl, rfl⟩]

/-- A character stays, unless it is a backslash in front of a delimiter. -/
theorem unescape_cons (h : c = '\\' → delimiter ∉ body.head?) :
    unescape delimiter (c :: body) = c :: unescape delimiter body := by
  cases body with
  | nil => rfl
  | cons d rest =>
    rw [unescape, if_neg]
    rintro ⟨hc, rfl⟩
    exact h hc rfl

/-- A text without backslashes stays. -/
theorem unescape_append (h : '\\' ∉ u) :
    unescape delimiter (u ++ body) = u ++ unescape delimiter body := by
  induction u with
  | nil => rfl
  | cons c u ih =>
    rw [List.mem_cons, not_or] at h
    obtain ⟨hc, hu⟩ := h
    rw [List.cons_append, unescape_cons fun heq => absurd heq.symm hc, ih hu]
    rfl

/-- A backslash in front of anything but a delimiter stays. -/
theorem unescape_backslash (hne : u ≠ []) (hbackslash : '\\' ∉ u) (hhead : delimiter ∉ u.head?) :
    unescape delimiter ('\\' :: (u ++ body)) = '\\' :: (u ++ unescape delimiter body) := by
  rw [unescape_cons, unescape_append hbackslash]
  intro _
  obtain ⟨d, rest, rfl⟩ := List.exists_cons_of_ne_nil hne
  exact hhead

/-- What is unescaped starts as before, unless it starts with a delimiter now. -/
theorem head_unescape (h : c ∈ (unescape delimiter body).head?) :
    c ∈ body.head? ∨ c = delimiter := by
  cases body with
  | nil => cases h
  | cons d rest =>
    cases rest with
    | nil => exact Or.inl h
    | cons e rest =>
      rw [unescape] at h
      split at h
      · rename_i hescaped
        rw [← Option.some.inj h]
        exact Or.inr hescaped.2
      · exact Or.inl h

end Unescape

theorem IsOne.not_mem {p : Char → Bool} {u : Text} (h : IsOne p u) (hp : p '\\' = false) :
    '\\' ∉ u := by
  rcases h with rfl | ⟨c, hc, rfl⟩
  · decide
  · intro hmem
    rw [← List.mem_singleton.1 hmem, hp] at hc
    exact Bool.false_ne_true hc

theorem IsCode.not_mem {digits white rest : Text} (h : IsCode digits white rest) :
    '\\' ∉ digits ∧ '\\' ∉ white := by
  constructor
  · intro hmem
    exact absurd (h.hex _ hmem) (by decide)
  · rcases h.optional with rfl | hwhite
    · exact List.not_mem_nil
    · exact hwhite.not_mem (by decide)

/-- An escape with digits stays one when what stands behind it is unescaped. -/
theorem IsCode.unescape {q : Quote} {digits white rest : Text} (h : IsCode digits white rest) :
    IsCode digits white (Quotes.unescape q.char rest) where
  nonempty := h.nonempty
  short := h.short
  hex := h.hex
  optional := h.optional
  all_digits hlt hwhite c hc := by
    rcases head_unescape hc with hc | rfl
    · exact h.all_digits hlt hwhite c hc
    · exact isHexDigit_char q
  all_white hwhite c hc := by
    rcases head_unescape hc with hc | rfl
    · exact h.all_white hwhite c hc
    · exact isWhite_char q

/-- What a string denotes is denoted as well by the unescaped string between other delimiters,
unless it holds these. -/
theorem Denotes.unescape {q p : Quote} {body chars : Text} (h : Denotes q.char body chars)
    (hp : p.char ∉ body) : Denotes p.char (Quotes.unescape q.char body) chars := by
  have hquote : ∀ {c : Char}, c = q.char → isHexDigit c = false ∧ isLineEnd c = false := by
    rintro c rfl
    exact ⟨isHexDigit_char q, isLineEnd_of_isWhite (isWhite_char q)⟩
  induction h with
  | nil => exact .nil
  | plain _ hbackslash hline _ ih =>
    rw [List.mem_cons, not_or] at hp
    rw [unescape_cons fun heq => absurd heq hbackslash]
    exact .plain (Ne.symm hp.1) hbackslash hline (ih hp.2)
  | @lineEnd u body chars hu h ih =>
    rw [List.mem_cons, not_or, List.mem_append, not_or] at hp
    obtain ⟨c, tail, htail, hc⟩ := hu.exists_head (by decide)
    have hhead : q.char ∉ u.head? := by
      rw [htail]
      intro hmem
      rw [(hquote (Option.some.inj hmem)).2] at hc
      exact Bool.false_ne_true hc
    rw [unescape_backslash (by simp [htail]) (hu.not_mem (by decide)) hhead]
    exact .lineEnd hu (ih hp.2.2)
  | @code digits white body chars hcode h ih =>
    rw [List.mem_cons, not_or, List.mem_append, List.mem_append, not_or, not_or] at hp
    obtain ⟨hdigits, hwhite⟩ := hcode.not_mem
    obtain ⟨d, rest, rfl⟩ := List.exists_cons_of_ne_nil hcode.nonempty
    have hhead : q.char ∉ (d :: rest).head? := by
      intro hmem
      have hd := hcode.hex d List.mem_cons_self
      rw [(hquote (Option.some.inj hmem)).1] at hd
      exact Bool.false_ne_true hd
    rw [unescape_backslash (List.cons_ne_nil d rest) hdigits hhead, unescape_append hwhite]
    exact .code hcode.unescape (ih hp.2.2.2)
  | @char c body chars hhex hline h ih =>
    rw [List.mem_cons, not_or, List.mem_cons, not_or] at hp
    by_cases hc : c = q.char
    · -- the delimiter is the only character that loses its backslash
      rw [hc, unescape_escaped]
      exact .plain (hc ▸ Ne.symm hp.2.1) (char_ne_backslash q) (hquote rfl).2 (ih hp.2.2)
    · have hstays : '\\' = '\\' → q.char ∉ (c :: body).head? :=
        fun _ hmem => hc (Option.some.inj hmem)
      -- what stands behind an escaped backslash is no delimiter
      rw [unescape_cons hstays, unescape_cons fun _ hmem => (h.head _ hmem).1 rfl]
      exact .char hhex hline (ih hp.2.2)

/-! ## The rule -/

/-- What stands between two delimiters has one in front of it and one behind. -/
theorem inside?_eq_some_iff {delimiter : Char} {s inner : Text} :
    inside? delimiter s = some inner ↔ s = delimiter :: inner ++ [delimiter] := by
  constructor
  · intro h
    cases s with
    | nil => cases h
    | cons c rest =>
      rw [inside?] at h
      split at h
      · rename_i hends
        obtain ⟨rfl, hlast⟩ := hends
        obtain ⟨init, rfl⟩ := List.getLast?_eq_some_iff.1 hlast
        rw [← Option.some.inj h, List.dropLast_concat]
        rfl
      · cases h
  · rintro rfl
    simp [inside?]

theorem char_inj {q p : Quote} : q.char = p.char ↔ q = p := by
  constructor
  · intro h
    refine Decidable.byContradiction fun hne => ?_
    rw [eq_other_of_ne hne] at h
    exact char_other_ne p h
  · rintro rfl
    rfl

/-- What stands between the delimiters of a string, if they are those that are asked for. -/
theorem inside?_delimited (q p : Quote) (body : Text) :
    inside? p.char (q.char :: body ++ [q.char]) = if q = p then some body else none := by
  split
  · rename_i hqp
    rw [hqp]
    exact inside?_eq_some_iff.2 rfl
  · rename_i hqp
    refine Option.eq_none_iff_forall_ne_some.2 fun inner hinner => hqp ?_
    have heq := inside?_eq_some_iff.1 hinner
    exact char_inj.1 (List.cons.inj heq).1

/-- A string is left alone when it has the expected delimiters or holds them. -/
theorem requote?_eq_none_iff {q expected : Quote} {body : Text} :
    requote? expected (q.char :: body ++ [q.char]) = none ↔
      q = expected ∨ expected.char ∈ body := by
  rw [requote?, inside?_delimited]
  by_cases hq : q = expected.other
  · have hne : q ≠ expected := by
      rintro rfl
      exact char_other_ne q (congrArg Quote.char hq.symm)
    simp [hq ▸ hne, hq]
  · have heq : q = expected := Decidable.byContradiction fun hne => hq (eq_other_of_ne hne)
    rw [if_neg hq]
    simp [heq]

variable {t : Text} {n : Node} {quote expected : Quote} {body chars : Text}

theorem ofString_eq_none_iff (htext : n.text t = quote.char :: body ++ [quote.char]) :
    ofString t expected n = none ↔ quote = expected ∨ expected.char ∈ body := by
  rw [ofString, Option.map_eq_none_iff, htext, requote?_eq_none_iff]

/-- **Changing quotes keeps what a string denotes.**  A string is left alone when it has the
expected delimiters or holds them.  The fix of any other one is a string with the expected
delimiters that denotes the same characters, and no others, and that is left alone wherever it
stands. -/
theorem ofString_literal (htext : n.text t = quote.char :: body ++ [quote.char])
    (hbody : Denotes quote.char body chars) :
    (ofString t expected n = none ↔ quote = expected ∨ expected.char ∈ body) ∧
      ∀ v, ofString t expected n = some v → ∃ body',
        v.fix = some (.replace n.span (expected.char :: body' ++ [expected.char])) ∧
          (∀ chars', Denotes expected.char body' chars' ↔ chars' = chars) ∧
          ∀ (t' : Text) (n' : Node), n'.text t' = expected.char :: body' ++ [expected.char] →
            ofString t' expected n' = none := by
  have hnone : ofString t expected n = none ↔ quote = expected ∨ expected.char ∈ body :=
    ofString_eq_none_iff htext
  refine ⟨hnone, fun v hv => ?_⟩
  have hfound : ¬ (quote = expected ∨ expected.char ∈ body) := by
    rw [← hnone, hv]
    exact Option.some_ne_none v
  rw [not_or] at hfound
  obtain ⟨hquote, hheld⟩ := hfound
  have hdenotes := hbody.unescape hheld
  refine ⟨unescape quote.char body, ?_, ?_, ?_⟩
  · rw [ofString, requote?, htext, inside?_delimited, ← eq_other_of_ne hquote] at hv
    simp only [if_true, Option.bind_some, List.contains_eq_mem, hheld, decide_false,
      Bool.false_eq_true, if_false, Option.map_some] at hv
    rw [← Option.some.inj hv]
  · intro chars'
    constructor
    · exact fun h => h.unique hdenotes
    · rintro rfl
      exact hdenotes
  · exact fun t' n' htext' => (ofString_eq_none_iff htext').2 (Or.inl rfl)

/-- A string with escapes of every kind, one of them right in front of a delimiter. -/
def escapedBody : Text := "\\\\\\\"\\61 \\\"\\\nx".toList

/-- The node of a string with this body and nothing else in the text. -/
def escapedString : Node := .construct "string_value" 0 15

theorem denotes_escapedBody : Denotes Quote.double.char escapedBody "\\\"a\"x".toList := by
  have hx : Denotes Quote.double.char ['x'] ['x'] := .plain (by decide) (by decide) (by decide) .nil
  have hline := hx.lineEnd (u := ['\n']) (Or.inr ⟨'\n', by decide, rfl⟩)
  have hquoted := hline.char (c := '\"') (by decide) (by decide)
  have hcode : IsCode ['6', '1'] [' '] ('\\' :: '\"' :: '\\' :: (['\n'] ++ ['x'])) :=
    { nonempty := by decide
      short := by decide
      hex := List.forall_mem_cons.2 ⟨by decide, List.forall_mem_singleton.2 (by decide)⟩
      optional := Or.inr (Or.inr ⟨' ', by decide, rfl⟩)
      all_digits := fun _ hwhite => absurd hwhite (by decide)
      all_white := fun hwhite => absurd hwhite (by decide) }
  have hletter := hquoted.code hcode
  exact (hletter.char (c := '\"') (by decide) (by decide)).char (c := '\\') (by decide) (by decide)

theorem ofString_escapedString :
    escapedString.text (Quote.double.char :: escapedBody ++ [Quote.double.char]) =
        Quote.double.char :: escapedBody ++ [Quote.double.char] ∧
      Denotes Quote.double.char escapedBody "\\\"a\"x".toList ∧
      ∃ v body', ofString (Quote.double.char :: escapedBody ++ [Quote.double.char]) .single
          escapedString = some v ∧
        v.fix = some (.replace ⟨0, 15⟩ (Quote.single.char :: body' ++ [Quote.single.char])) ∧
        ∀ chars', Denotes Quote.single.char body' chars' ↔ chars' = "\\\"a\"x".toList := by
  have htext : escapedString.text (Quote.double.char :: escapedBody ++ [Quote.double.char]) =
      Quote.double.char :: escapedBody ++ [Quote.double.char] := by decide
  obtain ⟨hnone, hsome⟩ := @ofString_literal _ _ _ .single _ _ htext denotes_escapedBody
  obtain ⟨v, hv⟩ := Option.ne_none_iff_exists'.1 fun h => absurd (hnone.1 h) (by decide)
  obtain ⟨body', hfix, hdenotes, -⟩ := hsome v hv
  exact ⟨htext, denotes_escapedBody, v, body', hv, hfix, hdenotes⟩

end Quotes
end WebLint
