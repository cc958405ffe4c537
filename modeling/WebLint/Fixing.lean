import WebLint.Diagnostic
import WebLint.Log

/-!
# Applying fixes

Fixes are applied from the start of a text to its end.  A fix whose range is
no range of the text is dropped, and one that starts inside the range of a fix
applied before it is skipped: it has to be found again in the new text.
-/

namespace WebLint
namespace Fixing

/-- Whether the range of a fix is a range of the text, cut between characters. -/
def isValid (t : Text) (f : Fix) : Bool :=
  decide (f.start ≤ f.stop) && t.isBoundary f.start && t.isBoundary f.stop

/-- Whether `f` comes no later than `g`: by start, then by end. -/
def le (f g : Fix) : Bool :=
  ((Ord.compare f.start g.start).then (Ord.compare f.stop g.stop)).isLE

/-- Fixes in the order they are applied in. -/
def sort (fixes : List Fix) : List Fix := fixes.mergeSort le

/-- The fixes of some diagnostics. -/
def fixesOf (ds : List Diagnostic) : List Fix := ds.filterMap (·.fix)

/-- What applying fixes gives. -/
structure Result where
  /-- Whether some fix has been skipped. -/
  skipped : Bool
  /-- The new text. -/
  text : Text
  deriving DecidableEq, Repr, Inhabited

/-- Apply fixes in order to the bytes of a text from `cursor` on. -/
def splice (t : Text) (cursor : Nat) : List Fix → Result
  | [] => ⟨false, t.dropBytes cursor⟩
  | f :: fs =>
    if f.start < cursor then ⟨true, (splice t cursor fs).text⟩
    else
      let rest := splice t f.stop fs
      ⟨rest.skipped, t.slice cursor f.start ++ f.content ++ rest.text⟩

/-- Apply fixes to a text. -/
def apply (fixes : List Fix) (t : Text) : Result :=
  splice t 0 ((sort fixes).filter (isValid t))

/-- Apply fixes to a text, and log those that are dropped. -/
def applyLogged (fixes : List Fix) (t : Text) : Logged Result := do
  Logged.logAll (((sort fixes).filter fun f => !isValid t f).map fun f =>
    ⟨.debug, .fixing,
      "Dropping invalid fix " ++ toString f.start ++ ".." ++ toString f.stop⟩)
  return apply fixes t

end Fixing
end WebLint
