import TapeDeck.Text.Case

/-!
# Tape locations

A tape is named by a slash-separated path, or by a URL.

The *extension* of a path is its text from the last dot after the last
slash, dot included, or nothing.  The *base* is the last part, trailing
slashes aside; the base of the empty path is `.` and of a path of slashes
is `/`.

The *scheme* of a name read as a URL is the run of letters, digits, `+`,
`-` and `.` before the first colon, starting with a letter, in small
letters; a name without one has the empty scheme.  A name that is no
well-formed URL counts as a local file, scheme `file`.  A name is no
well-formed URL when it holds a control character, starts with a colon,
has a colon in its first part without a scheme, has a `%` not followed by
two hex digits, or has an authority (`//host`) with a port that is not a
number.
-/

namespace TapeDeck.Location

/-- The extension of a path: from the last dot of its last part, or empty. -/
def extension (path : String) : String :=
  let cs := path.toList
  let tail := (cs.reverse.takeWhile (· ≠ '/')).reverse
  match tail.reverse.findIdx? (· = '.') with
  | some i => String.ofList (tail.drop (tail.length - 1 - i))
  | none => ""

/-- The last part of a path, trailing slashes aside. -/
def base (path : String) : String :=
  if path.isEmpty then "."
  else
    let cs := path.toList.reverse.dropWhile (· = '/')
    if cs.isEmpty then "/" else String.ofList (cs.takeWhile (· ≠ '/')).reverse

/-- Whether a character may follow the first of a scheme. -/
def schemeChar (c : Char) : Bool := c.isAlphanum || c = '+' || c = '-' || c = '.'

/-- Whether every `%` of a text starts a two-digit hex escape. -/
def escapesOk : List Char → Bool
  | '%' :: a :: b :: rest => a.isHexDigit && b.isHexDigit && escapesOk rest
  | '%' :: _ => false
  | _ :: rest => escapesOk rest
  | [] => true

/-- Whether an authority's host has a port that is a number, or none. -/
def portOk (authority : List Char) : Bool :=
  let host := (authority.reverse.takeWhile (· ≠ '@')).reverse
  if host.head? = some '[' then
    match (host.reverse.takeWhile (· ≠ ']')).reverse with
    | [] => true
    | ':' :: port => port.all Char.isDigit
    | _ => false
  else
    let port := (host.reverse.takeWhile (· ≠ ':')).reverse
    if host.contains ':' then port.all Char.isDigit else true

/-- The scheme and the rest of a name, or `none` when it is no well-formed URL. -/
def parse? (name : String) : Option (String × List Char) :=
  let cs := name.toList
  let url := cs.takeWhile (· ≠ '#')
  let frag := cs.drop (url.length + 1)
  if cs.any (fun c => c.toNat < 0x20 ∨ c.toNat = 0x7f) then none
  else if !escapesOk frag then none
  else
    let (scheme, rest) : Option (List Char) × List Char :=
      match url with
      | ':' :: _ => (none, [])
      | c :: _ =>
        if !c.isAlpha then (some [], url)
        else
          let run := url.takeWhile schemeChar
          match url.drop run.length with
          | ':' :: rest => (some run, rest)
          | _ => (some [], url)
      | [] => (some [], [])
    match scheme with
    | none => none
    | some sch =>
      let rest := rest.takeWhile (· ≠ '?')
      let scheme := Case.lowerText (String.ofList sch)
      if rest.head? ≠ some '/' then
        if !sch.isEmpty then some (scheme, rest)
        else if (rest.takeWhile (· ≠ '/')).contains ':' then none
        else if escapesOk rest then some (scheme, rest) else none
      else
        let hasAuthority := (rest.take 2 = ['/', '/']) && (!sch.isEmpty || rest.take 3 ≠ ['/', '/', '/'])
        if hasAuthority then
          let auth := (rest.drop 2).takeWhile (· ≠ '/')
          let path := (rest.drop 2).drop auth.length
          if portOk auth && escapesOk auth && escapesOk path then some (scheme, rest) else none
        else if escapesOk rest then some (scheme, rest) else none

/-- The scheme of a name; `file` when the name is no well-formed URL. -/
def scheme (name : String) : String :=
  match parse? name with
  | some (s, _) => s
  | none => "file"

end TapeDeck.Location
