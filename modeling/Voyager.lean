import Voyager.File.ChunkPipe
import Voyager.File.Splitter
import Voyager.Infinity.Address
import Voyager.Chunk.Format
import Voyager.Feeds.Update
import Voyager.Kademlia.Balanced
import Voyager.Kademlia.Retry
import Voyager.Kademlia.Monotone
import Voyager.Kademlia.Bootnodes
import Voyager.Kademlia.PeerSig
import Voyager.Kademlia.Snapshot
import Voyager.Chequebook.Init
import Voyager.Localstore.Pin
import Voyager.Localstore.GetMulti
import Voyager.Api.ChunkCount
import Voyager.Encoding.Hex
import Voyager.Api.Pss
import Voyager.Encoding.Utf8
import Voyager.Api.Origin
import Voyager.Debugapi.Settlements
import Voyager.Ifi.Address
import Voyager.Hive.Broadcast
import Voyager.Hive.Handler
import Voyager.Pingpong.Protocol
import Voyager.Netstore.Get
import Voyager.Node.Overlay
