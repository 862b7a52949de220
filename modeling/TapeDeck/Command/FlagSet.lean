import TapeDeck.Text.Number
import TapeDeck.Message.Directive

/-!
# Flag sets

A flag set reads the flags at the front of a command line.  A flag is `-name`
or `--name`, with its value either joined by `=` (`-rate=22050`) or, for a
flag that is not a truth value, in the next argument (`-rate 22050`).  A truth
flag given without a value is set to true.

Reading stops at the first argument that is not a flag (a lone `-` is not
one), or after `--`, which is dropped.  It fails at the first flag that is
malformed, unknown, lacks its value or has one that does not read; flags read
before that keep their values.  An unknown `-help` or `-h` asks for help
instead of failing.

The help text lists the flags in order of their names, each with the name of
its kind of value, its usage and its default when that is not the zero value.
-/

namespace TapeDeck

/-- The value of a flag. -/
inductive FlagValue where
  | bool (b : Bool)
  | int (n : Int)
  | text (s : String)
  deriving DecidableEq, Repr

/-- How a default value is written in a help text. -/
def FlagValue.defaultText : FlagValue → String
  | .bool b => if b then "true" else "false"
  | .int n => toString n
  | .text s => s

/-- Whether a value is the zero value of its kind. -/
def FlagValue.isZero : FlagValue → Bool
  | .bool b => !b
  | .int n => n == 0
  | .text s => s.isEmpty

/-- One flag: its name, usage text, default and current value. -/
structure Flag where
  name : String
  usage : String
  default : FlagValue
  value : FlagValue
  deriving Repr

/-- The flags a command line may give, in the order they were defined. -/
structure FlagSet where
  flags : List Flag := []
  deriving Repr

/-- Why reading the flags stopped before the arguments that are not flags. -/
inductive FlagStop where
  /-- Help was asked for. -/
  | help
  /-- A flag could not be read; the message says why. -/
  | failure (message : String)
  deriving DecidableEq, Repr

namespace FlagSet

/-- Adds a flag with a default value, which is also its value. -/
def add (fs : FlagSet) (name usage : String) (v : FlagValue) : FlagSet :=
  { flags := fs.flags ++ [{ name, usage, default := v, value := v }] }

/-- The flag of a name. -/
def find? (fs : FlagSet) (name : String) : Option Flag :=
  fs.flags.find? (·.name == name)

/-- The value of a flag. -/
def value? (fs : FlagSet) (name : String) : Option FlagValue :=
  (fs.find? name).map (·.value)

/-- Sets the value of a flag. -/
def set (fs : FlagSet) (name : String) (v : FlagValue) : FlagSet :=
  { flags := fs.flags.map fun f => if f.name == name then { f with value := v } else f }

/-- Sets a flag from the text given for it: the new set, or the message of a
value that does not read.  A value that does not read is still stored as the
value it reads as (false, zero, or a clamped number). -/
def assign (fs : FlagSet) (f : Flag) (given : String) : FlagSet × Option String :=
  match f.value with
  | .bool _ =>
    let (b, ok) := Number.readBool given
    (fs.set f.name (.bool b), if ok then none else
      some ("invalid boolean value " ++ Message.quote given ++ " for -" ++ f.name ++ ": parse error"))
  | .int _ =>
    let (n, problem) := Number.readInt given
    (fs.set f.name (.int n), problem.map fun p =>
      "invalid value " ++ Message.quote given ++ " for flag -" ++ f.name ++ ": " ++ p.text)
  | .text _ => (fs.set f.name (.text given), none)

/-- A flag argument split into its name and the value joined to it by `=`
(an `=` at the front belongs to the name). -/
def splitValue (name : String) : String × Option String :=
  match name.toList with
  | [] => ("", none)
  | c :: cs =>
    match cs.idxOf? '=' with
    | none => (name, none)
    | some i => (String.ofList (c :: cs.take i), some (String.ofList (cs.drop (i + 1))))

/-- Reads flags from the front of the arguments: the flag set with the values
read, and the arguments left after the flags, or why reading stopped. -/
def parse (fs : FlagSet) : List String → FlagSet × Except FlagStop (List String)
  | [] => (fs, .ok [])
  | s :: rest =>
    if s.length < 2 || s.front != '-' then (fs, .ok (s :: rest))
    else if s == "--" then (fs, .ok rest)
    else
      let name := if (s.drop 1).startsWith "-" then (s.drop 2).copy else (s.drop 1).copy
      if name.isEmpty || name.front == '-' || name.front == '=' then
        (fs, .error (.failure ("bad flag syntax: " ++ s)))
      else
        let (name, joined) := splitValue name
        match fs.find? name with
        | none =>
          if name == "help" || name == "h" then (fs, .error .help)
          else (fs, .error (.failure ("flag provided but not defined: -" ++ name)))
        | some f =>
          let isBool := match f.value with
            | .bool _ => true
            | _ => false
          match joined with
          | some v =>
            match fs.assign f v with
            | (fs, none) => parse fs rest
            | (fs, some m) => (fs, .error (.failure m))
          | none =>
            if isBool then parse (fs.set name (.bool true)) rest
            else match rest with
              | v :: more =>
                match fs.assign f v with
                | (fs, none) => parse fs more
                | (fs, some m) => (fs, .error (.failure m))
              | [] => (fs, .error (.failure ("flag needs an argument: -" ++ name)))

/-- The name shown for a flag's value in help, and its usage with a name in
back quotes unquoted.  Truth flags show no name. -/
def usageParts (f : Flag) : String × String :=
  let tick := '\x60'
  let u := f.usage.toList
  match u.idxOf? tick with
  | none => (fallback, f.usage)
  | some i =>
    let after := u.drop (i + 1)
    match after.idxOf? tick with
    | none => (fallback, f.usage)
    | some j =>
      let name := after.take j
      (String.ofList name, String.ofList (u.take i ++ name ++ after.drop (j + 1)))
where
  fallback : String := match f.value with
    | .bool _ => ""
    | .int _ => "int"
    | .text _ => "string"

/-- The help line of one flag. -/
def flagHelp (f : Flag) : String :=
  let (kind, usage) := usageParts f
  let head := "  -" ++ f.name ++ (if kind.isEmpty then "" else " " ++ kind)
  let head := head ++ (if head.utf8ByteSize ≤ 4 then "\t" else "\n    \t")
  let dflt := if f.default.isZero then ""
    else match f.default with
      | .text s => " (default " ++ Message.quote s ++ ")"
      | d => " (default " ++ d.defaultText ++ ")"
  head ++ (usage.replace "\n" "\n    \t") ++ dflt ++ "\n"

/-- The flags in order of their names. -/
def sorted (fs : FlagSet) : List Flag :=
  fs.flags.mergeSort (fun a b => decide (a.name ≤ b.name))

/-- The help text of every flag, in order of their names. -/
def defaults (fs : FlagSet) : String :=
  String.join (fs.sorted.map flagHelp)

end FlagSet

end TapeDeck
