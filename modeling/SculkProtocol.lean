import SculkProtocol.Auth.IdentityText
import SculkProtocol.Auth.IssuedTokens
import SculkProtocol.Auth.SelfSign
import SculkProtocol.Client.PumpChains
import SculkProtocol.Client.Reports
import SculkProtocol.Codec.CraftingData
import SculkProtocol.Codec.DynamicValue
import SculkProtocol.Codec.InventoryTransaction
import SculkProtocol.Codec.LevelChunk
import SculkProtocol.Codec.Nbt.TagCount
import SculkProtocol.Codec.PlayerAuthInput
import SculkProtocol.Codec.Recipes
import SculkProtocol.Codec.SubChunk
import SculkProtocol.Decoding.Decoder
import SculkProtocol.Handshake.SessionKey
import SculkProtocol.Server.CallbackOrder
import SculkProtocol.Server.FlushPending
import SculkProtocol.Server.FlushTimers
import SculkProtocol.Server.Ingress
import SculkProtocol.Server.PacketTasks
import SculkProtocol.Server.SessionClose
import SculkProtocol.Session.BatchGrammar
import SculkProtocol.Session.Conversation
import SculkProtocol.Session.Disconnect
import SculkProtocol.Session.FlushFailure
import SculkProtocol.Session.InflateLoop
import SculkProtocol.Session.Linearization
import SculkProtocol.Session.SendOrder
import SculkProtocol.Session.Sequence
import SculkProtocol.Ssl.UnusedBits
import SculkProtocol.Stop
import SculkProtocol.Teardown.PeerCalls
import SculkProtocol.Thread.DelayedTasks
import SculkProtocol.Thread.PoolTeardown
import SculkProtocol.Thread.StrandDelivery
import SculkProtocol.Utility.BitsetTexts
import SculkProtocol.Utility.StickyOverflow
