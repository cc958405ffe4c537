import WebLint.Json.Printer
import WebLint.Proofs.Json.Grammar

/-!
# What is printed can be read

A value is printed over several lines, with its texts escaped.  What is printed stands for the
value by the grammar, whatever characters its texts hold, and so everybody who reads by the
grammar reads the value.

What is proved here:

* `escapeChar_cases` — how a character is written;
* `quoted_append` — a text that is escaped stands for itself;
* `numeral_toDigits` — the digits of a natural number make a number;
* `Regular.spells` — a value is spelled by what is printed, at any depth;
* `Regular.denotes` — a printed value is a text that stands for it.
-/

namespace WebLint
namespace Json

/-! ## Texts -/

theorem hexValue_hexDigit : ∀ n < 16, hexValue (hexDigit n) = some n := by decide

/-- A character is escaped by a letter or by its number, or it is written as it is. -/
theorem escapeChar_cases (c : Char) :
    (∃ e, escaped? e = some c ∧ escapeChar c = ['\\', e]) ∨
    (c.toNat < 32 ∧ escapeChar c =
      ['\\', 'u', '0', '0', hexDigit (c.toNat / 16), hexDigit (c.toNat % 16)]) ∨
    (32 ≤ c.toNat ∧ c ≠ '\"' ∧ c ≠ '\\' ∧ escapeChar c = [c]) := by
  by_cases hletter : c ∈ ['\"', '\\', '\x08', '\t', '\n', '\x0c', '\r']
  · left
    simp only [List.mem_cons, List.not_mem_nil, or_false] at hletter
    rcases hletter with rfl | rfl | rfl | rfl | rfl | rfl | rfl <;> exact ⟨_, by decide, rfl⟩
  · right
    simp only [List.mem_cons, List.not_mem_nil, or_false, not_or] at hletter
    obtain ⟨hquote, hbackslash, hbackspace, htab, hnewline, hfeed, hreturn⟩ := hletter
    simp only [escapeChar, hquote, hbackslash, hbackspace, htab, hnewline, hfeed, hreturn, if_false]
    by_cases hcontrol : c.toNat < 32
    · exact .inl ⟨hcontrol, if_pos hcontrol⟩
    · exact .inr ⟨by omega, hquote, hbackslash, if_neg hcontrol⟩

/-- The last two of four digits make any number of eight bits. -/
theorem hexUnit_hexDigit {n : Nat} (hn : n < 256) :
    hexUnit '0' '0' (hexDigit (n / 16)) (hexDigit (n % 16)) = some n := by
  have hzero : hexValue '0' = some 0 := by decide
  have hfirst := hexValue_hexDigit (n / 16) (by omega)
  have hsecond := hexValue_hexDigit (n % 16) (by omega)
  simp [hexUnit, hzero, hfirst, hsecond]
  omega

/-- An escaped character stands for the character. -/
theorem Quoted.escapeChar_append {s text t : Text} (h : Quoted s text t) (c : Char) :
    Quoted (escapeChar c ++ s) (c :: text) t := by
  obtain ⟨e, he, heq⟩ | ⟨hcontrol, heq⟩ | ⟨hcontrol, hquote, hbackslash, heq⟩ := escapeChar_cases c
  · rw [heq]
    exact .escape he h
  · have hunit := hexUnit_hexDigit (n := c.toNat) (by omega)
    have hhigh : isHigh c.toNat = false := by simp [isHigh]; omega
    have hlow : isLow c.toNat = false := by simp [isLow]; omega
    have hquoted := Quoted.unit hunit hhigh hlow h
    rw [Char.ofNat_toNat] at hquoted
    rw [heq]
    exact hquoted
  · rw [heq]
    exact .plain hcontrol hquote hbackslash h

/-- An escaped text stands for itself, up to the quote behind it. -/
theorem quoted_append (text t : Text) : Quoted (text.flatMap escapeChar ++ '\"' :: t) text t := by
  induction text with
  | nil => exact .close
  | cons c text ih =>
    rw [List.flatMap_cons, List.append_assoc]
    exact ih.escapeChar_append c

theorem quote_append (text t : Text) :
    quote text ++ t = '\"' :: (text.flatMap escapeChar ++ '\"' :: t) := by
  simp [quote]

/-! ## Numbers -/

/-- The digits of a number that is not zero start with one that is not zero. -/
theorem exists_toDigits_eq_cons {n : Nat} (hn : 0 < n) :
    ∃ c ds, Nat.toDigits 10 n = c :: ds ∧ c ≠ '0' := by
  induction n using Nat.strongRecOn with
  | ind n ih =>
    rw [Nat.toDigits_eq_if (by omega)]
    split
    · rename_i hlt
      refine ⟨_, [], rfl, ?_⟩
      have hdigit : ∀ m < 10, 0 < m → m.digitChar ≠ '0' := by decide
      exact hdigit n hlt hn
    · obtain ⟨c, ds, hdigits, hc⟩ := ih (n / 10) (by omega) (by omega)
      exact ⟨c, ds ++ [(n % 10).digitChar], by rw [hdigits, List.cons_append], hc⟩

/-- The digits of a natural number make a number. -/
theorem numeral_toDigits (n : Nat) (t : Text) : Numeral (Nat.toDigits 10 n ++ t) t := by
  refine .positive (t := t) (u := t) ?_ .none .none
  rcases Nat.eq_zero_or_pos n with rfl | hn
  · exact .zero
  · obtain ⟨c, ds, hdigits, hc⟩ := exists_toDigits_eq_cons hn
    have hall : ∀ d ∈ Nat.toDigits 10 n, d.isDigit = true := fun d hd =>
      Nat.isDigit_of_mem_toDigits (by omega) (by omega) hd
    rw [hdigits] at hall ⊢
    exact .digits hc ⟨c :: ds, rfl, List.cons_ne_nil c ds, hall⟩

/-! ## Values -/

/-- Whether all numbers in a value are spelled as numbers. -/
inductive Regular : Json → Prop
  | null : Regular .null
  | bool (b : Bool) : Regular (.bool b)
  | number {literal : Text} (h : ∀ t, Numeral (literal ++ t) t) : Regular (.number literal)
  | string (text : Text) : Regular (.string text)
  | array {js : List Json} (h : ∀ j ∈ js, Regular j) : Regular (.array js)
  | object {fs : List (Text × Json)} (h : ∀ f ∈ fs, Regular f.2) : Regular (.object fs)

theorem gap_newLine (depth : Nat) (t : Text) : Gap (newLine depth ++ t) t := by
  refine ⟨newLine depth, rfl, fun c hc => ?_⟩
  rcases List.mem_cons.1 hc with rfl | hc
  · decide
  · rw [List.eq_of_mem_replicate hc]
    decide

/-- Whether a value is spelled by what is printed, at any depth. -/
def IsSpelled (j : Json) : Prop := ∀ depth t, Spells (print depth j ++ t) (.value j) t

/-- The values of a list are spelled by what is printed, the first one behind the bracket. -/
theorem spells_items (depth : Nat) {j : Json} {js : List Json} (hj : IsSpelled j)
    (hjs : ∀ k ∈ js, IsSpelled k) (t : Text) :
    Spells (newLine (depth + 1) ++ (print (depth + 1) j ++ (printItems (depth + 1) js ++
      (newLine depth ++ ']' :: t)))) (.items (j :: js)) t := by
  induction js generalizing j with
  | nil => exact .lastItem (gap_newLine _ _) (hj _ _) (gap_newLine _ _)
  | cons k js ih =>
    have hrest := ih (hjs k List.mem_cons_self) fun l hl => hjs l (List.mem_cons_of_mem k hl)
    refine .item (gap_newLine _ _) (hj _ _) (Gap.refl _) ?_
    simpa [printItems] using hrest

/-- A field is spelled by what is printed, behind a new line. -/
theorem spells_field {depth : Nat} {name : Text} {j : Json} (hj : IsSpelled j) (t : Text) :
    Spells (newLine depth ++ (quote name ++ (": ".toList ++ (print depth j ++ t))))
      (.field name j) t := by
  have hgap : Gap (' ' :: (print depth j ++ t)) (print depth j ++ t) :=
    ⟨[' '], rfl, by simp [isGap]⟩
  rw [quote_append]
  exact .field (gap_newLine _ _) (quoted_append _ _) (Gap.refl _) hgap (hj _ _)

/-- The fields of an object are spelled by what is printed, the first one behind the brace. -/
theorem spells_fields (depth : Nat) (name : Text) {j : Json} {fs : List (Text × Json)}
    (hj : IsSpelled j) (hfs : ∀ f ∈ fs, IsSpelled f.2) (t : Text) :
    Spells (newLine (depth + 1) ++ (quote name ++ (": ".toList ++ (print (depth + 1) j ++
      (printFields (depth + 1) fs ++ (newLine depth ++ '\x7d' :: t)))))) (.fields ((name, j) :: fs))
      t := by
  induction fs generalizing name j with
  | nil => exact .lastField (spells_field hj _) (gap_newLine _ _)
  | cons f fs ih =>
    have hrest := ih f.1 (hfs f List.mem_cons_self) fun g hg =>
      hfs g (List.mem_cons_of_mem f hg)
    refine .fields (spells_field hj _) (Gap.refl _) ?_
    simpa [printFields] using hrest

/-- A value is spelled by what is printed. -/
theorem Regular.spells {j : Json} (h : Regular j) : IsSpelled j := by
  induction h with
  | null => exact fun _ _ => .null
  | bool b =>
    intro depth t
    cases b with
    | true => exact .truth
    | false => exact .falsehood
  | number h => exact fun _ t => .number (h t)
  | string text =>
    intro depth t
    rw [print, quote_append]
    exact .string (quoted_append text t)
  | @array js h ih =>
    intro depth t
    cases js with
    | nil => exact .emptyArray (Gap.refl _)
    | cons j js =>
      have hitems := spells_items depth (ih j List.mem_cons_self)
        (fun k hk => ih k (List.mem_cons_of_mem j hk)) t
      simpa [print] using Spells.array hitems
  | @object fs h ih =>
    intro depth t
    cases fs with
    | nil => exact .emptyObject (Gap.refl _)
    | cons f fs =>
      have hfields := spells_fields depth f.1 (ih f List.mem_cons_self)
        (fun g hg => ih g (List.mem_cons_of_mem f hg)) t
      simpa [print] using Spells.object hfields

/-- **A printed value is a text that stands for it**, also in front of a gap. -/
theorem Regular.denotes {j : Json} (h : Regular j) {gap : Text} (hgap : Gap gap []) :
    Denotes (pretty j ++ gap) j :=
  ⟨_, gap, Gap.refl _, h.spells 0 gap, hgap⟩

end Json
end WebLint
