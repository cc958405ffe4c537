import WebLint.Path

/-!
# Languages

Every rule is about one of two languages.  A file is handed to the checkers of
the languages it may hold, which its extension tells: stylesheets, scripts, or
markup, which embeds both.
-/

namespace WebLint

/-- A language with a checker of its own. -/
inductive Language where
  /-- Stylesheets, and the `<style>` elements of markup. -/
  | style
  /-- Scripts, and the `<script>` elements of markup. -/
  | script
  deriving DecidableEq, Repr, Inhabited

namespace Language

/-- Both languages, stylesheets first. -/
def all : List Language := [.style, .script]

/-- The name of a language. -/
def name : Language → String
  | .style => "style"
  | .script => "script"

end Language

namespace Path

/-- The extension in small letters. -/
def kind (p : Path) : Option String :=
  p.extension.map fun e => String.ofList (e.map Char.toLower)

/-- Whether a file is markup, by its extension. -/
def isMarkup (p : Path) : Bool :=
  match p.kind with
  | some e => ["html", "htm"].contains e
  | none => false

/-- The languages a file may hold, by its extension. -/
def languages (p : Path) : List Language :=
  match p.kind with
  | none => []
  | some e =>
    if ["css"].contains e then [.style]
    else if ["js", "mjs", "cjs"].contains e then [.script]
    else if ["html", "htm"].contains e then Language.all
    else []

/-- Whether some checker handles the file. -/
def isLintable (p : Path) : Bool := !p.languages.isEmpty

end Path

end WebLint
