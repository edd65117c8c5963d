import Zre.Lib.Dict
import Zre.Lib.Attendance
import Zre.Duo
import Zre.Gossip
import Zre.Proofs.RoundTrip
import Zre.Proofs.Crash
import Zre.Proofs.Record
import Zre.Proofs.Healing
import Zre.Proofs.BeaconFormat
import Zre.Proofs.Hub
import Zre.Proofs.Dissemination
import Zre.Proofs.Rediscovery
import Zre.Proofs.EventOrder
import Zre.Proofs.Candidates
import Zre.Proofs.Signals
import Zre.Proofs.Binding
import Zre.Proofs.Numbers
import Zre.Proofs.Secrets
import Zre.Proofs.Expiry
import Zre.Proofs.Counters
import Zre.Proofs.Commands
import Zre.Proofs.OwnHello
import Zre.Proofs.Redials
import Zre.Proofs.Tuples
import Zre.Proofs.Alerts
import Zre.Proofs.Refusals
import Zre.Proofs.Baseline
import Zre.Proofs.Reaping
import Zre.Proofs.Waves
import Zre.Proofs.Hosts
import Zre.Proofs.Broadcasts
import Zre.Proofs.Setters
import Zre.Proofs.Resends
import Zre.Proofs.Departure
import Zre.Proofs.Gathering
import Zre.Proofs.Owners
import Zre.Proofs.Flood
import Zre.Proofs.Detector
import Zre.Proofs.Rosters
import Zre.Proofs.Beacons
