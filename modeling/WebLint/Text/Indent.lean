import WebLint.Text

/-!
# Indentation

The blanks a line starts with, and how many spaces there should be.  Widths
are counted in machine words of 64 bits.  What a width should be does not depend
on that, but a run of the program comes to an end at a width that outgrows them.

What is proved here:

* `isFitting_spaces` — a line indented by as many spaces as expected fits;
* `eq_spaces_of_isFitting`, `isFitting_iff` — and no other indentation does.
-/

namespace WebLint
namespace Indent

/-- The characters lines are indented with. -/
def isBlank (c : Char) : Bool := c == ' ' || c == '\t'

/-- The indentation of a line. -/
def ofLine (line : Text) : Text := line.takeWhile isBlank

/-- The indentation made of `width` spaces. -/
def spaces (width : Nat) : Text := List.replicate width ' '

/-- The width of something nested `levels` levels of `width` spaces deep in
something that is itself indented by `base` spaces. -/
def nested (base levels width : Nat) : Nat := base + levels * width

/-- Whether a width outgrows a machine word. -/
def outgrows (width : Nat) : Bool := decide (UInt64.size ≤ width)

/-- Whether an indentation is as wide as expected and free of tabs. -/
def isFitting (indent : Text) (expected : Nat) : Bool :=
  indent.length == expected && !indent.contains '\t'

@[simp] theorem outgrows_iff {width : Nat} : outgrows width = true ↔ UInt64.size ≤ width :=
  decide_eq_true_iff

/-- A line indented by as many spaces as expected fits. -/
theorem isFitting_spaces (width : Nat) : isFitting (spaces width) width = true := by
  simp [isFitting, spaces]

/-- Blanks that fit are as many spaces as expected. -/
theorem eq_spaces_of_isFitting {indent : Text} {expected : Nat}
    (blank : indent.all isBlank = true) (h : isFitting indent expected = true) :
    indent = spaces expected := by
  simp only [isFitting, Bool.and_eq_true, beq_iff_eq, Bool.not_eq_true',
    List.contains_eq_mem, decide_eq_false_iff_not] at h
  refine List.eq_replicate_iff.2 ⟨h.1, fun c hc => ?_⟩
  have := List.all_eq_true.1 blank c hc
  simp only [isBlank, Bool.or_eq_true, beq_iff_eq] at this
  rcases this with rfl | rfl
  · rfl
  · exact absurd hc h.2

/-- Blanks fit when they are as many spaces as expected. -/
theorem isFitting_iff {indent : Text} {expected : Nat} (blank : indent.all isBlank = true) :
    isFitting indent expected = true ↔ indent = spaces expected := by
  constructor
  · exact eq_spaces_of_isFitting blank
  · rintro rfl
    exact isFitting_spaces expected

end Indent
end WebLint
