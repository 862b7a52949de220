/-!
# Version

The program reports a version and a revision.  The version is the release
number when one was given to the build; otherwise `unreleased` when the build
came from a version-controlled tree, and `local` when it did not.  The
revision is the tree's revision, marked `+dirty` when the tree had changes,
or `no revision information`.
-/

namespace TapeDeck.Version

/-- The program's name, as the version line shows it. -/
def applicationName : String := "zxtape"

/-- What a build recorded about the tree it came from: setting keys and
values, in order. -/
abbrev BuildSettings := List (String × String)

/-- The facts a version is worked out from. -/
structure BuildFacts where
  /-- Whether the tree was under version control. -/
  controlled : Bool := false
  /-- The tree's revision, or the empty text. -/
  revision : String := ""
  /-- Whether the tree had changes. -/
  modified : Bool := false
  deriving DecidableEq, Repr

/-- Reads the facts from build settings; a later setting of a key wins. -/
def BuildFacts.ofSettings (settings : BuildSettings) : BuildFacts :=
  settings.foldl (fun f (k, v) =>
    if k == "vcs" then { f with controlled := true }
    else if k == "vcs.revision" then { f with revision := v }
    else if k == "vcs.modified" then { f with modified := v == "true" }
    else f) {}

/-- The version and the revision, from the release number (empty when there
is none) and the build settings when the build recorded any. -/
def ofBuild (number : String) (settings : Option BuildSettings) : String × String :=
  let f := BuildFacts.ofSettings (settings.getD [])
  let rev := if f.revision.isEmpty then "no revision information"
    else if f.modified then f.revision ++ "+dirty" else f.revision
  if !number.isEmpty then (number, rev)
  else if f.controlled then ("unreleased", rev)
  else ("local", rev)

/-- The release number of this build: there is none. -/
def number : String := ""

/-- The version, the revision, and whether this build is a release.  This
build records no settings. -/
def current : String × String × Bool :=
  let (v, r) := ofBuild number none
  (v, r, !number.isEmpty && v == number)

end TapeDeck.Version
