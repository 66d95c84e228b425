import TileEvents.Handle
import TileEvents.Mask.Lines
import TileEvents.Platform.Trace
import TileEvents.Proofs.ExactlyOnce
import TileEvents.Proofs.Modes
import TileEvents.Proofs.Footprint
import TileEvents.Proofs.Watchdog
import TileEvents.Proofs.Raising
import TileEvents.Proofs.Reposted
import TileEvents.Scenario
import TileEvents.Text.Record
import TileEvents.Proofs.Cutting
import TileEvents.Proofs.Silenced
import TileEvents.Proofs.Slicing
import TileEvents.Proofs.Pairs
import TileEvents.Proofs.Foreign
import TileEvents.Proofs.KeepsMasks
import TileEvents.Proofs.Freshness
import TileEvents.Proofs.AnyAsleep
import TileEvents.Proofs.Queries
import TileEvents.Proofs.Numbering
import TileEvents.Proofs.Settling
import TileEvents.Proofs.Retiring
import TileEvents.Proofs.Looking
import TileEvents.Proofs.SpuriousWakes
import TileEvents.Proofs.SoundSleep
import TileEvents.Proofs.MaskedOut
import TileEvents.Proofs.Refusals
import TileEvents.Proofs.Additive
import TileEvents.Proofs.OwnSleep
import TileEvents.Proofs.OnTime
import TileEvents.Proofs.Decoding
