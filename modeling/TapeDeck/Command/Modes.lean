import TapeDeck.Command.FlagSet
import TapeDeck.Text.Case

/-!
# Layered command lines

A command line is read in layers.  Each layer has its own flags and,
optionally, a list of *modes*; reading a layer takes its flags from the front
of the arguments left by the layer before, and then, if it has modes, takes
the next argument as the mode when it names one (in any case), or selects the
first mode without taking anything.

The modes selected so far form a *path*, written with `/` between the
modes (`WAV/SUB`).  Messages about a layer start with its *banner*: the path
in lower case, or the program name before any mode is selected.
-/

namespace TapeDeck

/-- What reading one layer of a command line came to. -/
inductive LayerResult where
  /-- The flags were read; go on with the mode selected. -/
  | proceed
  /-- Help was asked for; the text is the help of the layer. -/
  | help (text : String)
  /-- The layer could not be read. -/
  | failure (message : String)
  deriving DecidableEq, Repr

/-- A command line being read layer by layer. -/
structure Modes where
  /-- The flags of the current layer. -/
  flags : FlagSet := {}
  /-- Every argument of the command line. -/
  args : List String := []
  /-- How many arguments the layers read so far have taken. -/
  taken : Nat := 0
  /-- The modes of the current layer, upper case; the first is the default. -/
  subModes : List String := []
  /-- The modes selected so far. -/
  path : List String := []
  /-- Help printed after the flags and modes of the current layer. -/
  extraHelp : String := ""
  deriving Repr

namespace Modes

/-- The program name, the banner before any mode is selected. -/
def programName : String := "zxtape"

/-- Begins a new layer: no flags, no modes, no extra help. -/
def newMode (md : Modes) : Modes :=
  { md with flags := {}, subModes := [], extraHelp := "" }

/-- Begins reading a command line. -/
def ofArgs (args : List String) : Modes :=
  newMode { args }

/-- The most recently selected mode, or the empty text. -/
def mode (md : Modes) : String := md.path.getLast?.getD ""

/-- The selected modes, separated by slashes. -/
def pathText (md : Modes) : String := "/".intercalate md.path

/-- Adds modes to the current layer, in upper case. -/
def addSubModes (md : Modes) (ms : List String) : Modes :=
  { md with subModes := md.subModes ++ ms.map Case.upperText }

/-- Sets the help printed after flags and modes. -/
def setExtraHelp (md : Modes) (help : String) : Modes :=
  { md with extraHelp := help }

/-- Adds a flag to the current layer. -/
def addFlag (md : Modes) (name usage : String) (v : FlagValue) : Modes :=
  { md with flags := md.flags.add name usage v }

/-- The arguments not yet taken by a flag or a mode. -/
def remaining (md : Modes) : List String := md.args.drop md.taken

/-- A remaining argument by position, or the empty text. -/
def arg (md : Modes) (i : Int) : String :=
  if i < 0 then "" else (md.remaining[i.toNat]?).getD ""

/-- How messages about the current layer begin. -/
def banner (md : Modes) : String :=
  if md.path.isEmpty then programName else Case.lowerText md.pathText

/-- The help of the current layer. -/
def helpText (md : Modes) : String :=
  let hasFlags := !md.flags.flags.isEmpty
  if !hasFlags && md.subModes.isEmpty && md.extraHelp.isEmpty then
    "No help available for " ++ md.banner ++ "\n"
  else
    "Usage of " ++ md.banner ++ "\n" ++
    (if hasFlags then md.flags.defaults else "") ++
    (match md.subModes with
      | [] => ""
      | first :: _ => "  modes: " ++ ", ".intercalate md.subModes ++ "\n" ++
        "    default: " ++ first ++ "\n") ++
    (if md.extraHelp.isEmpty then "" else "\n" ++ md.extraHelp ++ "\n")

/-- Selects the mode named by the first remaining argument, or the default
mode; a layer without modes selects nothing. -/
def selectMode (md : Modes) : Modes :=
  match md.subModes with
  | [] => md
  | first :: _ =>
    let named := Case.upperText (md.arg 0)
    if md.subModes.contains named then
      { md with path := md.path ++ [named], taken := md.taken + 1 }
    else { md with path := md.path ++ [first] }

/-- Reads the current layer: its flags, then its mode. -/
def parse (md : Modes) : Modes × LayerResult :=
  match md.flags.parse md.remaining with
  | (fs, .error .help) => ({ md with flags := fs }, .help { md with flags := fs }.helpText)
  | (fs, .error (.failure m)) => ({ md with flags := fs }, .failure (md.banner ++ ": " ++ m))
  | (fs, .ok rest) =>
    (selectMode { md with flags := fs, taken := md.args.length - rest.length }, .proceed)

end Modes

end TapeDeck
