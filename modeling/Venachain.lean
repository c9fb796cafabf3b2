import Venachain.Istanbul.Basic
import Venachain.Istanbul.Validator
import Venachain.Istanbul.CommittedSeal
import Venachain.Istanbul.Snapshot
import Venachain.Istanbul.Replay
import Venachain.Istanbul.Verify
import Venachain.Istanbul.VerifyHeaders
import Venachain.Istanbul.Cascade
import Venachain.Istanbul.Extra
import Venachain.Miner.Worker
import Venachain.Miner.Recommit
import Venachain.Eth.Peer
import Venachain.Miner.Selection
import Venachain.Vm.ReturnBytes
import Venachain.Miner.Pipeline
import Venachain.Eth.PeerSet
import Venachain.Istanbul.Propose
import Venachain.Istanbul.Lifecycle
import Venachain.Eth.Handshake
import Venachain.Miner.WorkLoop
