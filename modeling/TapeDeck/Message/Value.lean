import TapeDeck.Message.Directive

/-!
# Message values

A *value* fills a directive of a message pattern: a text, a 64-bit integer,
a truth value, a list of texts, nothing, a value that shows itself by a
name, a plain failure with its message, or a *fault*: an error whose message
is itself a pattern filled with values.

A fault's message is its pattern filled with its values and then
*condensed*: the message is cut at each `": "`, and a part equal to the part
before it is dropped.  So `"tapeloader: %v"` filled with
`"tapeloader: open x: no such file"` reads `tapeloader: open x: no such file`.

How a value fills a directive:

* a verb that the value's kind takes lays it out (`%d` of an integer, `%s`
  of a text, `%t` of a truth value);
* an error shows its message, and a named value its name, under `%v`, `%s`,
  `%x`, `%X` and `%q`; `%w` takes an error's message where errors may be
  wrapped;
* a verb the value does not take gives `%!d(string=text)`: the verb, the
  kind of the value and its plain text;
* a directive with no value left gives `%!v(MISSING)`, and values left over
  are listed at the end as `%!(EXTRA int64=3, string=x)`;
* `%%` is a percent sign.

The kinds are named as the messages show them: `string`, `int64`, `bool`
and `[]string`; a failure or a named value carries its own kind name.
-/

namespace TapeDeck.Message

/-- A value that fills a directive of a pattern. -/
inductive Value where
  /-- A text. -/
  | text (s : String)
  /-- A 64-bit signed integer. -/
  | int (n : Int)
  /-- A truth value. -/
  | flag (b : Bool)
  /-- A list of texts. -/
  | texts (ss : List String)
  /-- No value at all. -/
  | nil
  /-- A value that shows itself by a name. -/
  | named (kind name : String)
  /-- An error with a fixed message. -/
  | failure (kind message : String)
  /-- An error whose message is a pattern filled with values. -/
  | fault (pattern : String) (values : List Value)
deriving Inhabited, Repr

/-- What a directive needs to know of a value. -/
structure Shown where
  /-- The kind name, as bad verbs and extra values show it. -/
  kind : String
  /-- Whether the value is nothing. -/
  isNil : Bool := false
  /-- Whether the value is an error. -/
  isError : Bool := false
  /-- The message of an error, or the name of a named value. -/
  own : Option String := none
  /-- The integer, for a width or precision taken from a value. -/
  asInt : Option Int := none
  /-- The value under a directive, from its data alone. -/
  data : Flags → Char → String

/-- The text of a refused verb: the verb, the kind and the plain text. -/
def badVerb (verb : Char) (kind plain : String) : String :=
  "%!" ++ verb.toString ++ "(" ++ kind ++ "=" ++ plain ++ ")"

/-- A text of some kind under a directive. -/
def textData (kind s : String) (fl : Flags) (verb : Char) : String :=
  (layoutText fl verb s).getD (badVerb verb kind s)

/-- A character put at the front of the first of a list of parts. -/
def consFirst (c : Char) : List (List Char) → List (List Char)
  | [] => [[c]]
  | p :: ps => (c :: p) :: ps

/-- The characters of a text cut at each `": "`, from the left: the text up to
the first `": "` is a part, and the rest after it is cut again. -/
def cutParts : List Char → List (List Char)
  | [] => [[]]
  | [c] => [[c]]
  | c :: d :: rest =>
    if c = ':' ∧ d = ' ' then [] :: cutParts rest else consFirst c (cutParts (d :: rest))

/-- The parts of a text between its `": "` separators. -/
def parts (s : String) : List String := (cutParts s.toList).map String.ofList

/-- Parts with each part equal to the one before it dropped. -/
def condenseParts {α : Type} [DecidableEq α] : List α → List α
  | a :: b :: rest => if a = b then condenseParts (b :: rest) else a :: condenseParts (b :: rest)
  | l => l

/-- A message with each repeated `": "`-separated part dropped. -/
def condense (s : String) : String := ": ".intercalate (condenseParts (parts s))

/-! ## Patterns -/

/-- Flags read from the front of a directive. -/
def readFlags : List Char → Flags → List Char × Flags
  | '#' :: r, fl => readFlags r { fl with sharp := true }
  | '0' :: r, fl => readFlags r { fl with zero := !fl.minus }
  | '+' :: r, fl => readFlags r { fl with plus := true }
  | '-' :: r, fl => readFlags r { fl with minus := true, zero := false }
  | ' ' :: r, fl => readFlags r { fl with space := true }
  | r, fl => (r, fl)

/-- A decimal number read from the front, if there is a digit. -/
def readNum (cs : List Char) : Option Nat × List Char :=
  let ds := cs.takeWhile Char.isDigit
  if ds.isEmpty then (none, cs)
  else (some (ds.foldl (fun n c => n * 10 + (c.toNat - 48)) 0), cs.drop ds.length)

/-- The value at an index as a width or precision, if it is an integer. -/
def intArg (args : List Shown) (i : Nat) : Option Int :=
  (args[i]?.bind (·.asInt)).filter fun n => n.natAbs ≤ 1000000

/-- A value under a directive.  `wraps` says whether `%w` may show an error. -/
def Shown.fill (v : Shown) (wraps : Bool) (fl : Flags) (verb : Char) : String :=
  if v.isNil then
    if verb = 'v' ∨ verb = 'T' then pad fl "<nil>" else "%!" ++ verb.toString ++ "(<nil>)"
  else if verb = 'T' then pad fl v.kind
  else
    let plain := v.data {} 'v'
    match v.own with
    | some t =>
      if verb = 'v' ∨ verb = 's' ∨ verb = 'x' ∨ verb = 'X' ∨ verb = 'q' then
        (layoutText fl verb t).getD t
      else if verb = 'w' then
        if wraps ∧ v.isError then pad fl t else badVerb 'w' v.kind plain
      else v.data fl verb
    | none =>
      if verb = 'w' then badVerb 'w' v.kind plain else v.data fl verb

/-- The pattern filled from the values, one directive after another.  `fuel`
bounds the directives read; the pattern's length is enough. -/
def fillFrom (wraps : Bool) (args : List Shown) : Nat → List Char → Nat → String
  | 0, _, _ => ""
  | fuel + 1, cs, i =>
    let lit := cs.takeWhile (· ≠ '%')
    let cs := cs.drop lit.length
    match cs with
    | [] => String.ofList lit ++ extra i
    | _ :: cs =>
      let (cs, fl) := readFlags cs {}
      -- the width, from the pattern or from a value
      let (fl, cs, i, note) :=
        match cs with
        | '*' :: rest =>
          match intArg args i with
          | some w =>
            if w < 0 then ({ fl with width := some w.natAbs, minus := true, zero := false }, rest, i + 1, "")
            else ({ fl with width := some w.toNat }, rest, i + 1, "")
          | none => (fl, rest, (if i < args.length then i + 1 else i), "%!(BADWIDTH)")
        | _ =>
          let (w, rest) := readNum cs
          ({ fl with width := w }, rest, i, "")
      -- the precision
      let (fl, cs, i, note) :=
        match cs with
        | '.' :: c :: rest =>
          if c = '*' then
            match intArg args i with
            | some p =>
              if p < 0 then ({ fl with prec := none }, rest, i + 1, note ++ "%!(BADPREC)")
              else ({ fl with prec := some p.toNat }, rest, i + 1, note)
            | none => (fl, rest, (if i < args.length then i + 1 else i), note ++ "%!(BADPREC)")
          else
            let (p, rest) := readNum (c :: rest)
            ({ fl with prec := some (p.getD 0) }, rest, i, note)
        | _ => (fl, cs, i, note)
      match cs with
      | [] => String.ofList lit ++ note ++ "%!(NOVERB)"
      | verb :: cs =>
        let (out, i) :=
          if verb = '%' then ("%", i)
          else match args[i]? with
            | none => ("%!" ++ verb.toString ++ "(MISSING)", i)
            | some a =>
              let fl := if verb = 'v' ∨ verb = 'w' then { fl with sharp := false, plus := false } else fl
              (a.fill wraps fl verb, i + 1)
        String.ofList lit ++ note ++ out ++ fillFrom wraps args fuel cs i
where
  /-- The values not used by any directive. -/
  extra (i : Nat) : String :=
    let rest := args.drop i
    if rest.isEmpty then ""
    else "%!(EXTRA " ++ ", ".intercalate (rest.map fun a =>
      if a.isNil then "<nil>" else a.kind ++ "=" ++ a.fill wraps {} 'v') ++ ")"

/-- A pattern filled with values. -/
def fillShown (wraps : Bool) (pattern : String) (args : List Shown) : String :=
  fillFrom wraps args (pattern.length + 1) pattern.toList 0

mutual

/-- What a directive needs to know of a value. -/
def Value.shown : Value → Shown
  | .text s => { kind := "string", data := textData "string" s }
  | .int n =>
    { kind := "int64", asInt := some n,
      data := fun fl verb => (layoutNumber fl verb n).getD (badVerb verb "int64" (toString n)) }
  | .flag b =>
    { kind := "bool",
      data := fun fl verb =>
        if verb = 't' ∨ verb = 'v' then pad fl (toString b) else badVerb verb "bool" (toString b) }
  | .texts ss =>
    { kind := "[]string",
      data := fun fl verb => "[" ++ " ".intercalate (ss.map fun s => textData "string" s fl verb) ++ "]" }
  | .nil => { kind := "<nil>", isNil := true, data := fun _ _ => "<nil>" }
  | .named k s => { kind := k, own := some s, data := textData k s }
  | .failure k m => { kind := k, isError := true, own := some m, data := textData k m }
  | .fault p vs =>
    let shown := Value.shownList vs
    { kind := "curated.curated", isError := true,
      own := some (condense (fillShown true p shown)),
      data := fun fl verb =>
        "\x7b" ++ textData "string" p fl verb ++ " [" ++
          " ".intercalate (shown.map fun s => s.data fl verb) ++ "]\x7d" }

/-- What directives need to know of each value of a list. -/
def Value.shownList : List Value → List Shown
  | [] => []
  | v :: vs => v.shown :: Value.shownList vs

end

/-- A pattern filled with values.  `wraps` says whether `%w` may show an error. -/
def fill (wraps : Bool) (pattern : String) (values : List Value) : String :=
  fillShown wraps pattern (Value.shownList values)

/-- The text of a value as the directive `%v` shows it; an error shows its message. -/
def Value.display (v : Value) : String := v.shown.fill false {} 'v'

/-- The message of a fault: its pattern filled with its values, condensed. -/
def faultMessage (pattern : String) (values : List Value) : String :=
  condense (fill true pattern values)

end TapeDeck.Message
