/-!
# Texts and byte offsets

A text is a list of characters, but every position in it is a *byte offset*
into its UTF-8 form: the ranges of syntax nodes, of diagnostics and of fixes
are all counted in bytes.  This file sets up the cutting of a text at a byte
offset, the test for an offset to fall between two characters, the splitting
into lines and the trimming of blanks.

What is proved here:

* `takeBytes_append_dropBytes` — cutting a text loses nothing;
* `byteLength_takeBytes_le` — the part before the cut never passes the offset;
* `byteLength_takeBytes_of_isBoundary` — and reaches it exactly on a boundary.
-/

namespace WebLint

/-- A text, as its characters. -/
abbrev Text := List Char

namespace Text

/-! ## Bytes -/

/-- The number of bytes of the UTF-8 form of a text. -/
def byteLength : Text → Nat
  | [] => 0
  | c :: t => c.utf8Size + byteLength t

/-- The longest beginning of a text that takes at most `n` bytes. -/
def takeBytes : Text → Nat → Text
  | [], _ => []
  | c :: t, n => if c.utf8Size ≤ n then c :: takeBytes t (n - c.utf8Size) else []

/-- What follows the longest beginning that takes at most `n` bytes. -/
def dropBytes : Text → Nat → Text
  | [], _ => []
  | c :: t, n => if c.utf8Size ≤ n then dropBytes t (n - c.utf8Size) else c :: t

/-- Whether the offset `n` falls between two characters, or at either end. -/
def isBoundary : Text → Nat → Bool
  | _, 0 => true
  | [], _ + 1 => false
  | c :: t, n + 1 => decide (c.utf8Size ≤ n + 1) && isBoundary t (n + 1 - c.utf8Size)

/-- The bytes `start..stop` of a text. -/
def slice (t : Text) (start stop : Nat) : Text :=
  (t.dropBytes start).takeBytes (stop - start)

@[simp] theorem byteLength_nil : byteLength [] = 0 := rfl

@[simp] theorem byteLength_cons (c : Char) (t : Text) :
    byteLength (c :: t) = c.utf8Size + byteLength t := rfl

@[simp] theorem byteLength_append (s t : Text) :
    byteLength (s ++ t) = byteLength s + byteLength t := by
  induction s with
  | nil => simp
  | cons c s ih => simp [ih, Nat.add_assoc]

/-- Cutting a text loses nothing. -/
theorem takeBytes_append_dropBytes (t : Text) (n : Nat) :
    t.takeBytes n ++ t.dropBytes n = t := by
  induction t generalizing n with
  | nil => rfl
  | cons c t ih =>
    by_cases h : c.utf8Size ≤ n
    · simp [takeBytes, dropBytes, h, ih]
    · simp [takeBytes, dropBytes, h]

/-- The part before the cut takes at most as many bytes as asked for. -/
theorem byteLength_takeBytes_le (t : Text) (n : Nat) : (t.takeBytes n).byteLength ≤ n := by
  induction t generalizing n with
  | nil => simp [takeBytes]
  | cons c t ih =>
    by_cases h : c.utf8Size ≤ n
    · have := ih (n - c.utf8Size)
      simp only [takeBytes, h, if_true, byteLength_cons]
      omega
    · simp [takeBytes, h]

/-- On a boundary the cut is exact. -/
theorem byteLength_takeBytes_of_isBoundary (t : Text) (n : Nat) (h : t.isBoundary n = true) :
    (t.takeBytes n).byteLength = n := by
  induction t generalizing n with
  | nil =>
    cases n with
    | zero => rfl
    | succ n => simp [isBoundary] at h
  | cons c t ih =>
    cases n with
    | zero =>
      have := Char.utf8Size_pos c
      have hc : ¬ c.utf8Size ≤ 0 := by omega
      simp [takeBytes, hc]
    | succ n =>
      simp only [isBoundary, Bool.and_eq_true, decide_eq_true_eq] at h
      have := ih _ h.2
      simp only [takeBytes, h.1, if_true, byteLength_cons]
      omega

/-! ## Lines -/

/-- The lines of a text, without the line feeds between them.  A text that
ends with a line feed has an empty last line. -/
def lines : Text → List Text
  | [] => [[]]
  | c :: t =>
    if c = '\n' then [] :: lines t
    else
      match lines t with
      | [] => [[c]]
      | l :: ls => (c :: l) :: ls

/-- The lines of a list together with the offset each of them starts at, the
first one starting at `start`. -/
def placeLines (start : Nat) : List Text → List (Nat × Text)
  | [] => []
  | l :: ls => (start, l) :: placeLines (start + l.byteLength + 1) ls

/-- The lines of a text, each with the offset it starts at. -/
def placedLines (t : Text) : List (Nat × Text) :=
  placeLines 0 t.lines

/-- What stands after the last line feed. -/
def lastLine (t : Text) : Text :=
  (t.reverse.takeWhile (· != '\n')).reverse

/-- What stands before the first line feed. -/
def firstLine (t : Text) : Text :=
  t.takeWhile (· != '\n')

/-- The number of line feeds before the offset `n`. -/
def row (t : Text) (n : Nat) : Nat :=
  (t.takeBytes n).count '\n'

/-! ## Blanks -/

/-- The characters with the Unicode property `White_Space`. -/
def isSpace (c : Char) : Bool :=
  (0x09 ≤ c.toNat && c.toNat ≤ 0x0D) || c.toNat == 0x20 || c.toNat == 0x85 ||
  c.toNat == 0xA0 || c.toNat == 0x1680 || (0x2000 ≤ c.toNat && c.toNat ≤ 0x200A) ||
  c.toNat == 0x2028 || c.toNat == 0x2029 || c.toNat == 0x202F || c.toNat == 0x205F ||
  c.toNat == 0x3000

/-- Whether a text holds nothing but white space. -/
def isBlank (t : Text) : Bool := t.all isSpace

/-- A text without the characters of a class at its two ends. -/
def trimBoth (p : Char → Bool) (t : Text) : Text :=
  ((t.dropWhile p).reverse.dropWhile p).reverse

/-- A text without the white space at its two ends. -/
def trim (t : Text) : Text := trimBoth isSpace t

/-- A text with its ASCII capitals made small. -/
def toLower (t : Text) : Text := t.map Char.toLower

end Text

end WebLint
