import WebLint.CommandLine.Arguments
import WebLint.Text.Similarity

/-!
# Usage

What a user is told about the arguments of the command: the help, the version,
and what is wrong with arguments that cannot be followed, with the flag or the
value that may have been meant.
-/

namespace WebLint

/-- The styles of what a user is told about the arguments. -/
inductive UsageStyle where
  /-- The title of a part. -/
  | heading
  /-- The word `error`. -/
  | failure
  /-- What is to be written as it stands. -/
  | literal
  /-- What would have been right. -/
  | valid
  /-- What is wrong. -/
  | invalid
  deriving DecidableEq, Repr, Inhabited

namespace UsageStyle

/-- What turns a style on. -/
def opening : UsageStyle → String
  | .heading => "\x1b[1m\x1b[4m"
  | .failure => "\x1b[1m\x1b[31m"
  | .literal => "\x1b[1m"
  | .valid => "\x1b[32m"
  | .invalid => "\x1b[33m"

/-- A text in a style, if there are colours. -/
def paint (colors : Bool) (style : UsageStyle) (text : String) : String :=
  if colors then style.opening ++ text ++ "\x1b[0m" else text

end UsageStyle

namespace Usage

/-- The version of the command. -/
def versionText : String := "lint 0.1.0\n"

/-- The values a flag may have, as a note. -/
def valuesNote (colors : Bool) (f : Flag) : String :=
  "[possible values: " ++ ", ".intercalate (f.values.map (UsageStyle.valid.paint colors)) ++ "]"

/-- The name of the command. -/
def commandName (colors : Bool) : String := UsageStyle.literal.paint colors "lint"

/-- How the command is used when nothing more is known. -/
def generalUse (colors : Bool) : String := commandName colors ++ " [OPTIONS] <FILES>..."

/-- The title in front of how the command is used. -/
def useTitle (colors : Bool) : String := UsageStyle.heading.paint colors "Usage:" ++ " "

/-- The title of a part of the help. -/
def title (colors : Bool) (text : String) : String :=
  UsageStyle.heading.paint colors (text ++ ":") ++ "\n"

/-- A flag as the help lists it: its short name if it has one, and its long
name. -/
def listed (colors : Bool) (f : Flag) : String :=
  (match f.short with
    | some c => "  " ++ UsageStyle.literal.paint colors ("-" ++ String.singleton c) ++ ", "
    | none => "      ") ++
    UsageStyle.literal.paint colors ("--" ++ f.long)

/-- The help. -/
def helpText (colors : Bool) : String :=
  "lint: check stylesheets and scripts against a bundled set of rules\n\n" ++
  useTitle colors ++ generalUse colors ++ "\n\n" ++
  title colors "Arguments" ++
  "  <FILES>...  List of files, directories or glob patterns to check. " ++
  "Directories are searched recursively.\n\n" ++
  title colors "Options" ++
  listed colors .fix ++ "                            " ++
  "Automatically fix issues detected by the linter.\n" ++
  listed colors .outputFormat ++ " <OUTPUT_FORMAT>  " ++
  "Output serialization format for violations. [default: concise] " ++
  valuesNote false .outputFormat ++ "\n" ++
  listed colors .help ++ "                           " ++
  "Print help (see more with '--help')\n" ++
  listed colors .version ++ "                        Print version\n\n" ++
  title colors "Global options" ++
  listed colors .logLevel ++ " <LOG_LEVEL>  " ++
  "The log level. One of: `error`, `warn`, `info`, `debug`, or `trace`. " ++
  "Defaults to `warn` " ++ valuesNote false .logLevel ++ "\n" ++
  listed colors .noColor ++ "               " ++
  "Disable colored output. To turn colored output off, either set this option or set " ++
  "the environment variable `NO_COLOR` to any non-zero value\n\n" ++
  "Files ending with .css are checked as stylesheets, " ++
  "files ending with .js, .mjs or .cjs as scripts, " ++
  "and the <style> and <script> elements of .html and .htm files as both.\n"

/-! ## Errors -/

/-- The place of the value of a flag. -/
def valuePlace : Flag → String
  | .outputFormat => " <OUTPUT_FORMAT>"
  | .logLevel => " <LOG_LEVEL>"
  | _ => ""

/-- A flag as it is written in a message, with the place of its value. -/
def label (f : Flag) : String := "--" ++ f.long ++ valuePlace f

/-- A flag as it is written to use it. -/
def written (colors : Bool) (f : Flag) : String :=
  UsageStyle.literal.paint colors ("--" ++ f.long) ++ valuePlace f

/-- How the command is used with some flags. -/
def useWith (colors : Bool) (flags : List Flag) : String :=
  if flags.isEmpty then generalUse colors
  else
    commandName colors ++ " " ++ " ".intercalate (flags.eraseDups.map (written colors)) ++
      " <FILES>..."

/-- The first line of a message. -/
def headline (colors : Bool) (text : String) : String :=
  UsageStyle.failure.paint colors "error:" ++ " " ++ text

/-- The part of a message that says how the command is used. -/
def useNote (colors : Bool) (use : String) : String := "\n\n" ++ useTitle colors ++ use

/-- A hint. -/
def tip (colors : Bool) (text : String) : String :=
  "\n\n  " ++ UsageStyle.valid.paint colors "tip:" ++ " " ++ text

/-- The hint that something similar exists. -/
def similarTip (colors : Bool) (what name : String) : String :=
  tip colors ("a similar " ++ what ++ " exists: '" ++ UsageStyle.valid.paint colors name ++ "'")

/-- The hint how a word that looks like a flag is written as a file. -/
def escapeTip (colors : Bool) (word : String) : String :=
  tip colors ("to pass '" ++ UsageStyle.invalid.paint colors word ++ "' as a value, use '" ++
    UsageStyle.valid.paint colors ("-- " ++ word) ++ "'")

/-- The end of a message. -/
def helpHint (colors : Bool) : String :=
  "\n\nFor more information, try '" ++ UsageStyle.literal.paint colors "--help" ++ "'.\n"

/-- What a user is told about a word that looks like a flag and is none. -/
def unexpected (colors : Bool) (word : String) : String :=
  headline colors ("unexpected argument '" ++ UsageStyle.invalid.paint colors word ++ "' found")

/-- What a user is told about an unknown long flag. -/
def unknownLongText (colors : Bool) (name : String) (used : List Flag) : String :=
  let word := "--" ++ name
  match (Similarity.best? name (Flag.all.map Flag.long)).bind Flag.ofLong with
  | some f =>
    unexpected colors word ++ similarTip colors "argument" ("--" ++ f.long) ++
      useNote colors (useWith colors (used ++ [f]))
  | none =>
    unexpected colors word ++ escapeTip colors word ++ useNote colors (useWith colors used)

/-- What a user is told about an unknown short flag. -/
def unknownShortText (colors : Bool) (name : Char) : String :=
  let word := "-" ++ String.singleton name
  unexpected colors word ++ escapeTip colors word ++ useNote colors (generalUse colors)

/-- What a user is told about a flag that is written twice. -/
def repeatedText (colors : Bool) (f : Flag) : String :=
  headline colors
    ("the argument '" ++ UsageStyle.invalid.paint colors (label f) ++
      "' cannot be used multiple times") ++
    useNote colors (generalUse colors)

/-- What a user is told about a value of a flag that takes none. -/
def needlessValueText (colors : Bool) (f : Flag) (value : String) (used : List Flag) : String :=
  headline colors
    ("unexpected value '" ++ UsageStyle.invalid.paint colors value ++ "' for '" ++
      UsageStyle.literal.paint colors (label f) ++ "' found; no more were expected") ++
    useNote colors (useWith colors (used ++ [f]))

/-- What a user is told about a value a flag cannot have. -/
def invalidValueText (colors : Bool) (f : Flag) (value : String) : String :=
  let what :=
    if value = "" then
      "a value is required for '" ++ UsageStyle.invalid.paint colors (label f) ++
        "' but none was supplied"
    else
      "invalid value '" ++ UsageStyle.invalid.paint colors value ++ "' for '" ++
        UsageStyle.literal.paint colors (label f) ++ "'"
  let hint :=
    match Similarity.best? value f.values with
    | some v => similarTip colors "value" v
    | none => ""
  headline colors what ++ "\n  " ++ valuesNote colors f ++ hint

/-- What a user is told about arguments that cannot be followed. -/
def errorText (colors : Bool) : UsageError → String
  | .help => helpText colors
  | .version => versionText
  | .missingFiles => helpText colors
  | .repeated f => repeatedText colors f ++ helpHint colors
  | .needlessValue f value used => needlessValueText colors f value used ++ helpHint colors
  | .invalidValue f value => invalidValueText colors f value ++ helpHint colors
  | .unknownLong name used => unknownLongText colors name used ++ helpHint colors
  | .unknownShort name => unknownShortText colors name ++ helpHint colors

end Usage
end WebLint
