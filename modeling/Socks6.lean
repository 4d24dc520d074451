import Socks6.Json.Setting
import Socks6.Cursor.Indexed
import Socks6.Message
import Socks6.Proofs.Incremental
import Socks6.Proofs.Writing
import Socks6.Proofs.Head
import Socks6.Proofs.Record
import Socks6.Proofs.Body
import Socks6.Proofs.Facts
import Socks6.Proofs.Apply
import Socks6.Proofs.Block
import Socks6.Proofs.Lawful
import Socks6.Proofs.Description
import Socks6.Proofs.Charge
import Socks6.Proofs.RoundTrip
import Socks6.Proofs.Grammar
import Socks6.Proofs.Invariant
import Socks6.Proofs.Replay
import Socks6.Proofs.Dropping
import Socks6.Proofs.Persistence
import Socks6.Proofs.Abandoning
import Socks6.Proofs.Order
import Socks6.OptionSet.InPlace
import Socks6.Proofs.Refusal
import Socks6.Proofs.Accounting
import Socks6.Proofs.Retention
import Socks6.Proofs.Filling
import Socks6.Proofs.Growth
import Socks6.Proofs.Agreement
import Socks6.Proofs.Irredundance
import Socks6.Proofs.Forwarding
import Socks6.Proofs.Offering
import Socks6.Proofs.Exactness
import Socks6.Proofs.BothLegs
import Socks6.Proofs.Neutrality
import Socks6.Proofs.Layout
import Socks6.Proofs.Shortage
import Socks6.Proofs.Inversion
import Socks6.Proofs.Windows
import Socks6.Proofs.Safety
