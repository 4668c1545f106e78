import Shyake.Alike.Address
import Shyake.Alike.KeyBytes
import Shyake.Alike.Parties
import Shyake.Alike.Pow
import Shyake.Alike.RelayHandlers
import Shyake.Alike.Releases
import Shyake.Client.Cli.Bound
import Shyake.Client.Cli.Compose
import Shyake.Client.Cli.Config
import Shyake.Client.Cli.Csv
import Shyake.Client.Cli.Destroy
import Shyake.Client.Cli.Subject
import Shyake.Client.Cli.SubjectCell
import Shyake.Client.Cli.Update
import Shyake.Client.Cli.WordWrap
import Shyake.Client.CJson.Texts
import Shyake.Client.Decoded
import Shyake.Client.DraftBytes
import Shyake.Client.Rotations
import Shyake.Client.DraftLaws
import Shyake.Client.EncTrip
import Shyake.Client.FindRef
import Shyake.Client.KeyPairs
import Shyake.Client.KnownHosts
import Shyake.Client.Pow
import Shyake.Client.Readers
import Shyake.Client.Rotate
import Shyake.Client.RoundTrip
import Shyake.Client.SaveDraft
import Shyake.Client.SecretKeys
import Shyake.Client.Tamper
import Shyake.Client.Timestamps
import Shyake.Client.Trust
import Shyake.Go.Api.ClientIP
import Shyake.Go.Api.CurrentKey
import Shyake.Go.Api.Durable
import Shyake.Go.Api.Fingerprint
import Shyake.Go.Api.Gate
import Shyake.Go.Api.Identical
import Shyake.Go.Api.Limiter
import Shyake.Go.Api.Once
import Shyake.Go.Api.Outbound
import Shyake.Go.Api.Spent
import Shyake.Go.Fresh
import Shyake.Go.ImportD1
import Shyake.Go.Protocol.Stored
import Shyake.Go.PublicAddr
import Shyake.Go.TtlSet.Forgets
import Shyake.Gui.Server
import Shyake.Gui.Session
import Shyake.Net.Relay
import Shyake.Worker.Atomic
