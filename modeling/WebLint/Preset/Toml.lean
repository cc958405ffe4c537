import WebLint.Preset.Setting

/-!
# TOML documents

Presets are written in TOML.  The reader below takes a document to the table
of settings it holds: comments, bare, quoted and dotted keys, table headers,
the four kinds of strings, whole numbers in four bases, arrays and inline
tables.  Floating-point numbers, dates, truth values and arrays of tables are
not read: no preset holds any, so a document with one is refused either way.

A table may be opened once by a header, and is extended by dotted keys only
while nothing but dotted keys has made it; keys are never given twice.

This stands for the package `toml`, which is not part of the program.  Assumed
of it is that it reads the language as it is specified, as far as presets use
it.  Nothing is proved of presets from this reader: they are taken as the
tables it yields, whatever these are.
-/

namespace WebLint
namespace Toml

/-! ## Characters -/

/-- Spaces and tabs. -/
def isGap (c : Char) : Bool := c == ' ' || c == '\t'

/-- The characters of a bare key. -/
def isBare (c : Char) : Bool := c.isAlphanum || c == '-' || c == '_'

/-- The characters a comment or a string may hold: no control character but
the tab. -/
def isPrintable (c : Char) : Bool := c == '\t' || (0x20 ≤ c.toNat && c.toNat != 0x7F)

/-- The rest of a text after its gap. -/
def skipGap (cs : List Char) : List Char := cs.dropWhile isGap

/-- The rest of a text after a comment, if it starts with one. -/
def skipComment : List Char → List Char
  | '#' :: cs => cs.dropWhile isPrintable
  | cs => cs

/-- The rest of a text after a line break. -/
def newline? : List Char → Option (List Char)
  | '\n' :: cs => some cs
  | '\r' :: '\n' :: cs => some cs
  | _ => none

/-- The rest of a text after the end of a line: a gap, perhaps a comment, and
then a line break or the end of the document. -/
def endLine? (cs : List Char) : Option (List Char) :=
  match skipComment (skipGap cs) with
  | [] => some []
  | rest => newline? rest

/-- The rest of a text after gaps, comments and line breaks. -/
def skipLines : Nat → List Char → List Char
  | 0, cs => cs
  | fuel + 1, cs =>
    let rest := skipComment (skipGap cs)
    match newline? rest with
    | some rest => skipLines fuel rest
    | none => rest

/-- The rest of a text after gaps and line breaks, without comments. -/
def skipBreaks : Nat → List Char → List Char
  | 0, cs => cs
  | fuel + 1, cs =>
    match newline? (skipGap cs) with
    | some rest => skipBreaks fuel rest
    | none => skipGap cs

/-! ## Strings -/

/-- The value of a hexadecimal digit. -/
def hexValue? (c : Char) : Option Nat :=
  if c.isDigit then some (c.toNat - '0'.toNat)
  else if 'a' ≤ c ∧ c ≤ 'f' then some (c.toNat - 'a'.toNat + 10)
  else if 'A' ≤ c ∧ c ≤ 'F' then some (c.toNat - 'A'.toNat + 10)
  else none

/-- The number written by digits of a base. -/
def digits? (base : Nat) (cs : List Char) : Option Nat :=
  cs.foldlM
    (fun n c => (hexValue? c).bind fun d => if d < base then some (n * base + d) else none) 0

/-- The character of a code point, surrogates left out. -/
def scalar? (n : Nat) : Option Char :=
  if n < 0xD800 ∨ (0xDFFF < n ∧ n < 0x110000) then some (Char.ofNat n) else none

/-- The character of an escape with `width` hexadecimal digits. -/
def codePoint? (width : Nat) (cs : List Char) : Option (Char × List Char) :=
  if cs.length < width then none
  else (digits? 16 (cs.take width)).bind fun n => (scalar? n).map fun c => (c, cs.drop width)

/-- The character of an escape, from what follows the backslash. -/
def escape? : List Char → Option (Char × List Char)
  | 'b' :: cs => some ('\x08', cs)
  | 'f' :: cs => some ('\x0c', cs)
  | 'n' :: cs => some ('\n', cs)
  | 'r' :: cs => some ('\r', cs)
  | 't' :: cs => some ('\t', cs)
  | '\"' :: cs => some ('\"', cs)
  | '\\' :: cs => some ('\\', cs)
  | 'u' :: cs => codePoint? 4 cs
  | 'U' :: cs => codePoint? 8 cs
  | _ => none

/-- A string on one line between double quotes, from behind the first. -/
def basicString : Nat → List Char → List Char → Option (List Char × List Char)
  | 0, _, _ => none
  | _ + 1, _, [] => none
  | fuel + 1, done, c :: cs =>
    if c = '\"' then some (done.reverse, cs)
    else if c = '\\' then (escape? cs).bind fun e => basicString fuel (e.1 :: done) e.2
    else if isPrintable c then basicString fuel (c :: done) cs
    else none

/-- A string on one line between apostrophes, from behind the first. -/
def literalString (cs : List Char) : Option (List Char × List Char) :=
  let body := cs.takeWhile fun c => c != '\'' && isPrintable c
  match cs.drop body.length with
  | '\'' :: rest => some (body, rest)
  | _ => none

/-- The end of a string of several lines, from the first of a run of its
delimiters: three close it, and up to two more belong to it. -/
def closeLong (delimiter : Char) (cs : List Char) : Option (List Char × List Char) :=
  let run := cs.takeWhile (· == delimiter)
  if run.length < 3 then none
  else
    let kept := Nat.min (run.length - 3) 2
    some (run.take kept, cs.drop (kept + 3))

/-- A string of several lines, from behind its first delimiter.  Only double
quotes know escapes, and a backslash at the end of a line joins it to the next
text. -/
def longString (delimiter : Char) : Nat → List Char → List Char →
    Option (List Char × List Char)
  | 0, _, _ => none
  | _ + 1, _, [] => none
  | fuel + 1, done, c :: cs =>
    if c = delimiter then
      match closeLong delimiter (c :: cs) with
      | some (more, rest) => some (done.reverse ++ more, rest)
      | none => longString delimiter fuel (c :: done) cs
    else if c = '\\' ∧ delimiter = '\"' then
      match newline? (skipGap cs) with
      | some rest => longString delimiter fuel done (skipBreaks rest.length rest)
      | none => (escape? cs).bind fun e => longString delimiter fuel (e.1 :: done) e.2
    else
      match newline? (c :: cs) with
      | some rest => longString delimiter fuel ('\n' :: done) rest
      | none => if isPrintable c then longString delimiter fuel (c :: done) cs else none

/-- The text of a long string after its first line break, which does not
belong to it. -/
def skipNewline (cs : List Char) : List Char := (newline? cs).getD cs

/-! ## Keys -/

/-- One part of a key. -/
def keyPart : List Char → Option (String × List Char)
  | '\"' :: cs => (basicString (cs.length + 1) [] cs).map fun s => (String.ofList s.1, s.2)
  | '\'' :: cs => (literalString cs).map fun s => (String.ofList s.1, s.2)
  | cs =>
    let name := cs.takeWhile isBare
    if name = [] then none else some (String.ofList name, cs.drop name.length)

/-- A key with its dots, and the gaps around it. -/
def key : Nat → List Char → Option (List String × List Char)
  | 0, _ => none
  | fuel + 1, cs =>
    (keyPart (skipGap cs)).bind fun part =>
      match skipGap part.2 with
      | '.' :: rest => (key fuel rest).map fun more => (part.1 :: more.1, more.2)
      | rest => some ([part.1], rest)

/-! ## Numbers -/

/-- Digits with single underscores between them. -/
def digitRun (isOne : Char → Bool) : List Char → Option (List Char × List Char)
  | [] => none
  | c :: cs =>
    if isOne c then
      match cs with
      | '_' :: d :: rest =>
        if isOne d then (digitRun isOne (d :: rest)).map fun r => (c :: r.1, r.2) else none
      | ['_'] => none
      | d :: rest =>
        if isOne d then (digitRun isOne (d :: rest)).map fun r => (c :: r.1, r.2)
        else some ([c], d :: rest)
      | [] => some ([c], [])
    else none

/-- The largest number TOML knows. -/
def maxNumber : Nat := UInt64.size / 2 - 1

/-- Whether a character is a digit of a base. -/
def isDigitOf (base : Nat) (c : Char) : Bool := (hexValue? c).any fun d => decide (d < base)

/-- A number in a base, from its digits on. -/
def numberIn (base limit : Nat) (cs : List Char) : Option (Nat × List Char) :=
  (digitRun (isDigitOf base) cs).bind fun run =>
    (digits? base run.1).bind fun n => if n ≤ limit then some (n, run.2) else none

/-- A number in base ten: a leading zero stands alone. -/
def decimal (limit : Nat) : List Char → Option (Nat × List Char)
  | '0' :: cs => some (0, cs)
  | cs => numberIn 10 limit cs

/-- A number.  Negative ones are no setting of any rule. -/
def number : List Char → Option (Setting × List Char)
  | '0' :: 'x' :: cs => (numberIn 16 maxNumber cs).map fun n => (.number n.1, n.2)
  | '0' :: 'o' :: cs => (numberIn 8 maxNumber cs).map fun n => (.number n.1, n.2)
  | '0' :: 'b' :: cs => (numberIn 2 maxNumber cs).map fun n => (.number n.1, n.2)
  | '+' :: cs => (decimal maxNumber cs).map fun n => (.number n.1, n.2)
  | '-' :: cs =>
    (decimal (maxNumber + 1) cs).map fun n => (if n.1 = 0 then .number 0 else .other, n.2)
  | cs => (decimal maxNumber cs).map fun n => (.number n.1, n.2)

/-! ## Tables -/

/-- What stands under a key of a table that is still being read. -/
inductive Item where
  /-- A value, which is complete. -/
  | value (setting : Setting)
  /-- A table.  It is `implied` until a header opens it, and `dotted` when a
  dotted key made it. -/
  | section (implied dotted : Bool) (fields : List (String × Item))
  deriving Inhabited

/-- The fields of a table that is still being read. -/
abbrev Fields := List (String × Item)

/-- What stands under a key. -/
def Fields.get? (fields : Fields) (name : String) : Option Item :=
  (fields.find? (·.1 == name)).map (·.2)

/-- The fields with another item under a key. -/
def Fields.set (fields : Fields) (name : String) (item : Item) : Fields :=
  if fields.any (·.1 == name) then
    fields.map fun f => if f.1 == name then (name, item) else f
  else fields ++ [(name, item)]

/-- Give a value to a key below the tables of a dotted path. -/
def Fields.put (path : List String) (name : String) (value : Setting) (fields : Fields) :
    Option Fields :=
  match path with
  | [] => if (fields.get? name).isSome then none else some (fields.set name (.value value))
  | k :: ks =>
    match fields.get? k with
    | none => (Fields.put ks name value []).map fun sub => fields.set k (.section true true sub)
    | some (.section implied dotted sub) =>
      if !implied || (ks.isEmpty && !dotted) then none
      else (Fields.put ks name value sub).map fun sub =>
        fields.set k (.section implied dotted sub)
    | some (.value _) => none

/-- Open the table of a header. -/
def Fields.openTable (path : List String) (fields : Fields) : Option Fields :=
  match path with
  | [] => some fields
  | [k] =>
    match fields.get? k with
    | none => some (fields.set k (.section false false []))
    | some (.section true false sub) => some (fields.set k (.section false false sub))
    | _ => none
  | k :: ks =>
    match fields.get? k with
    | none => (Fields.openTable ks []).map fun sub => fields.set k (.section true false sub)
    | some (.section implied dotted sub) =>
      (Fields.openTable ks sub).map fun sub => fields.set k (.section implied dotted sub)
    | some (.value _) => none

/-- Change the fields of the table at a path. -/
def Fields.update (path : List String) (change : Fields → Option Fields) (fields : Fields) :
    Option Fields :=
  match path with
  | [] => change fields
  | k :: ks =>
    match fields.get? k with
    | some (.section implied dotted sub) =>
      (Fields.update ks change sub).map fun sub => fields.set k (.section implied dotted sub)
    | _ => none

mutual

/-- The setting an item stands for. -/
def Item.toSetting : Item → Setting
  | .value setting => setting
  | .section _ _ fields => .table (fieldSettings fields)

/-- The settings the fields of a table stand for. -/
def fieldSettings : List (String × Item) → List (String × Setting)
  | [] => []
  | (name, item) :: rest => (name, item.toSetting) :: fieldSettings rest

end

/-! ## Values -/

mutual

/-- A value. -/
def value : Nat → List Char → Option (Setting × List Char)
  | 0, _ => none
  | fuel + 1, cs =>
    match cs with
    | '\"' :: '\"' :: '\"' :: rest =>
      (longString '\"' (rest.length + 1) [] (skipNewline rest)).map fun s =>
        (.text (String.ofList s.1), s.2)
    | '\"' :: rest =>
      (basicString (rest.length + 1) [] rest).map fun s => (.text (String.ofList s.1), s.2)
    | '\'' :: '\'' :: '\'' :: rest =>
      (longString '\'' (rest.length + 1) [] (skipNewline rest)).map fun s =>
        (.text (String.ofList s.1), s.2)
    | '\'' :: rest => (literalString rest).map fun s => (.text (String.ofList s.1), s.2)
    | '[' :: rest => (arrayItems fuel [] rest).map fun a => (.list a.1, a.2)
    | '{' :: rest =>
      match skipGap rest with
      | '}' :: rest => some (.table [], rest)
      | rest => (inlineFields fuel [] rest).map fun t => (.table (fieldSettings t.1), t.2)
    | rest => number rest

/-- The items of an array, from behind its bracket or a comma. -/
def arrayItems : Nat → List Setting → List Char → Option (List Setting × List Char)
  | 0, _, _ => none
  | fuel + 1, done, cs =>
    match skipLines cs.length cs with
    | ']' :: rest => some (done.reverse, rest)
    | start =>
      (value fuel start).bind fun item =>
        match skipLines item.2.length item.2 with
        | ',' :: rest => arrayItems fuel (item.1 :: done) rest
        | ']' :: rest => some ((item.1 :: done).reverse, rest)
        | _ => none

/-- The fields of an inline table, from behind its brace or a comma. -/
def inlineFields : Nat → Fields → List Char → Option (Fields × List Char)
  | 0, _, _ => none
  | fuel + 1, done, cs =>
    (key (cs.length + 1) cs).bind fun path =>
      match path.2 with
      | '=' :: rest =>
        (value fuel (skipGap rest)).bind fun item =>
          (done.put path.1.dropLast (path.1.getLastD "") item.1).bind fun fields =>
            match skipGap item.2 with
            | ',' :: rest => inlineFields fuel fields rest
            | '}' :: rest => some (fields, rest)
            | _ => none
      | _ => none

end

/-! ## Documents -/

/-- The lines of a document: `current` is the path of the table the last
header opened. -/
def document : Nat → List String → Fields → List Char → Option Fields
  | 0, _, _, _ => none
  | fuel + 1, current, fields, cs =>
    match skipLines cs.length cs with
    | [] => some fields
    | '[' :: rest =>
      (key (rest.length + 1) rest).bind fun path =>
        match path.2 with
        | ']' :: rest =>
          (endLine? rest).bind fun rest =>
            (fields.openTable path.1).bind fun fields => document fuel path.1 fields rest
        | _ => none
    | start =>
      (key (start.length + 1) start).bind fun path =>
        match path.2 with
        | '=' :: rest =>
          (value (rest.length + 1) (skipGap rest)).bind fun item =>
            (endLine? item.2).bind fun rest =>
              (fields.update current
                (Fields.put path.1.dropLast (path.1.getLastD "") item.1)).bind fun fields =>
                document fuel current fields rest
        | _ => none

/-- The text without a byte order mark at its start. -/
def skipMark : List Char → List Char
  | '\uFEFF' :: cs => cs
  | cs => cs

/-- The settings of a document, if it is one. -/
def parse? (text : List Char) : Option Setting :=
  let cs := skipMark text
  (document (cs.length + 1) [] [] cs).map fun fields => .table (fieldSettings fields)

end Toml

namespace Preset

/-- The preset a TOML document holds. -/
def parse (source : Text) : Except PresetError Preset :=
  match Toml.parse? source with
  | some s => ofSetting s
  | none => .error .malformed

end Preset

end WebLint
