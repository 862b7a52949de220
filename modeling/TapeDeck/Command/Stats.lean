/-!
# Run-time statistics

Playback can offer live statistics of the running program on a local web
address.  This build leaves the statistics server out: it is not available,
and launching it does nothing and writes nothing.
-/

namespace TapeDeck.Stats

/-- Where the statistics server would listen. -/
def address : String := "localhost:12650"

/-- Whether this build has the statistics server. -/
def available : Bool := false

/-- What launching the server writes out. -/
def launch : String := ""

end TapeDeck.Stats
