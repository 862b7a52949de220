import TapeDeck.Audio.Renderer
import TapeDeck.Audio.SampleBuffer
import TapeDeck.Audio.Wav
import TapeDeck.Block.Format
import TapeDeck.Block.Id
import TapeDeck.Block.Timing
import TapeDeck.ByteRing
import TapeDeck.Circular
import TapeDeck.Catalogue
import TapeDeck.Catalogue.Graph
import TapeDeck.Catalogue.Listing
import TapeDeck.Command.FlagSet
import TapeDeck.Command.Launch
import TapeDeck.Command.Modes
import TapeDeck.Command.Stats
import TapeDeck.Digest.Sha1
import TapeDeck.Fifo
import TapeDeck.FileStore
import TapeDeck.Loader
import TapeDeck.Log
import TapeDeck.Message.Directive
import TapeDeck.Message.Fault
import TapeDeck.Message.Value
import TapeDeck.Pulse.Consumer
import TapeDeck.Pulse.Generator
import TapeDeck.Pulse.Queue
import TapeDeck.Pulse.Register
import TapeDeck.Session
import TapeDeck.Session.Event
import TapeDeck.Session.Rank
import TapeDeck.Session.Shelf
import TapeDeck.Source
import TapeDeck.Terminal
import TapeDeck.Text.BoxTable
import TapeDeck.Text.Case
import TapeDeck.Text.Duration
import TapeDeck.Text.Hex
import TapeDeck.Text.Location
import TapeDeck.Text.Number
import TapeDeck.Version
import TapeDeck.Main
import TapeDeck.Proofs.Ring
import TapeDeck.Proofs.Queue
import TapeDeck.Proofs.Stream
import TapeDeck.Proofs.Reader
import TapeDeck.Proofs.Playback
import TapeDeck.Proofs.Blocks
import TapeDeck.Proofs.Feeding
import TapeDeck.Proofs.Walk
import TapeDeck.Proofs.Catalogue
import TapeDeck.Proofs.Loops
import TapeDeck.Proofs.Calls
import TapeDeck.Proofs.Events
import TapeDeck.Proofs.Restart
import TapeDeck.Proofs.Recording
import TapeDeck.Proofs.Credit
import TapeDeck.Proofs.Durations
import TapeDeck.Proofs.Tiling
import TapeDeck.Proofs.Truncation
import TapeDeck.Proofs.Skipping
import TapeDeck.Proofs.Rendering
import TapeDeck.Proofs.Buffering
import TapeDeck.Proofs.Logging
import TapeDeck.Proofs.Condensing
import TapeDeck.Proofs.Decoding
import TapeDeck.Proofs.Counters
