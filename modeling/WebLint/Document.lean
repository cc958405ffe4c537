import WebLint.Failure
import WebLint.Tree

/-!
# Documents

What a checker reads of a file.  A stylesheet or a script is a document as a
whole.  Of markup only the contents of its `<style>` or `<script>` elements
are: its *regions*, which are parsed together as one document but keep their
places in the file.
-/

namespace WebLint

/-- A part of a file written in the language of the document. -/
structure Region where
  /-- The bytes of the region. -/
  span : Span
  /-- How far the statements at its top are indented. -/
  baseIndent : Nat
  deriving DecidableEq, Repr, Inhabited

namespace Region

/-! ## Regions of markup -/

/-- The number of spaces the first line that is not blank starts with. -/
def firstIndent (t : Text) : Nat :=
  match t.lines.find? fun l => !Text.isBlank l with
  | some l => (l.takeWhile (· == ' ')).length
  | none => 0

/-- The kind of the elements that hold a language. -/
def elementKind : Language → String
  | .style => "style_element"
  | .script => "script_element"

/-- The types of the scripts that browsers run. -/
def scriptTypes : List Text :=
  ["module", "text/javascript", "application/javascript", "text/ecmascript",
    "application/ecmascript"].map String.toList

/-- The value of an attribute, without its quotes, in small letters. -/
def attributeValue (t : Text) (parts : List Node) : Text :=
  match parts with
  | _ :: value :: _ =>
    ((Text.trimBoth (fun c => c == '\"' || c == '\'') (value.text t)).trim).toLower
  | _ => []

/-- Whether an attribute has the name `type`, in any case. -/
def isTypeAttribute (t : Text) (n : Node) : Bool :=
  n.kind == "attribute" &&
    match n.namedChildren with
    | name :: _ => (name.text t).toLower == "type".toList
    | [] => false

/-- Whether an element holds code: a style element always does, and a script
element unless the first of its `type` attributes names something else. -/
def holdsCode (t : Text) (element : Node) : Bool :=
  element.kind != "script_element" ||
    match element.namedChildren.head? with
    | none => true
    | some tag =>
      if tag.kind != "start_tag" then true
      else
        match tag.namedChildren.find? (isTypeAttribute t) with
        | none => true
        | some typing =>
          let value := attributeValue t typing.namedChildren
          value.isEmpty || scriptTypes.contains value

/-- The regions directly in an element. -/
def ofElement (t : Text) (element : Node) : List Region :=
  if holdsCode t element then
    (element.namedChildren.filter (·.kind == "raw_text")).map fun n =>
      ⟨n.span, firstIndent (n.text t)⟩
  else []

mutual

/-- The regions of a language in a tree of markup.  Elements of the language
are not searched for further ones. -/
def ofMarkup (t : Text) (language : Language) : Node → List Region
  | .mk l cs =>
    if l.kind = elementKind language then ofElement t (.mk l cs)
    else ofMarkupAll t language cs

/-- The regions of a language in the named trees of a list. -/
def ofMarkupAll (t : Text) (language : Language) : List Node → List Region
  | [] => []
  | n :: ns =>
    (if n.isNamed then ofMarkup t language n else []) ++ ofMarkupAll t language ns

end

/-- Whether spans are in order and apart, the first starting no earlier than
`first`. -/
def inOrder (first : Nat) : List Span → Bool
  | [] => true
  | s :: ss => decide (first ≤ s.start) && decide (s.start ≤ s.stop) && inOrder s.stop ss

end Region

/-- A file, as the checker of a language reads it. -/
structure Document where
  /-- The file. -/
  file : Path
  /-- Its text. -/
  text : Text
  /-- The language. -/
  language : Language
  /-- The parts written in the language, unless the whole file is. -/
  regions : Option (List Region)
  deriving DecidableEq, Repr, Inhabited

namespace Document

/-- The document of a file.  Markup is parsed to find its regions. -/
def ofFile (parser : Parser) (file : Path) (text : Text) (language : Language) : Document where
  file := file
  text := text
  language := language
  regions :=
    if file.isMarkup then some (Region.ofMarkup text language (parser .html text none).root)
    else none

/-- Whether there is nothing to check. -/
def isEmpty (d : Document) : Bool :=
  match d.regions with
  | none => false
  | some regions => regions.isEmpty

/-- How far the statements at the top of the region at an offset are indented. -/
def baseIndent (d : Document) (offset : Nat) : Nat :=
  match d.regions with
  | none => 0
  | some regions =>
    match regions.find? fun r => decide (r.span.start ≤ offset) && decide (offset ≤ r.span.stop) with
    | some r => r.baseIndent
    | none => 0

/-- Whether the bytes `start..stop` lie in a part written in the language. -/
def contains (d : Document) (start stop : Nat) : Bool :=
  match d.regions with
  | none => decide (stop ≤ d.text.byteLength)
  | some regions =>
    regions.any fun r => decide (r.span.start ≤ start) && decide (stop ≤ r.span.stop)

/-- The ranges to parse, none for the whole text. -/
def ranges (d : Document) : Option (List Span) :=
  match d.regions with
  | none => none
  | some [] => none
  | some regions => some (regions.map (·.span))

/-- The tree of a document. -/
def parse (parser : Parser) (d : Document) : Except Failure Node :=
  if Region.inOrder 0 (d.ranges.getD []) then
    let parse := parser d.language.grammar d.text d.ranges
    if parse.hasError then .error (.malformed d.file) else .ok parse.root
  else .error (.invalidRegions d.language d.file)

end Document

end WebLint
