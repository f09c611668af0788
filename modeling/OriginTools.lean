import OriginTools.Attest.Cookie
import OriginTools.Attest.Registry
import OriginTools.Attest.Trust
import OriginTools.Canary.Merkle
import OriginTools.Canary.SourceTree
import OriginTools.Channel.Delivery
import OriginTools.Crawler.BreadthFirst
import OriginTools.Crawler.Robots
import OriginTools.Identity.Delegation
import OriginTools.Network.Address
import OriginTools.Network.Auth
import OriginTools.Network.Inbox
import OriginTools.Network.Online
import OriginTools.Network.Stream
import OriginTools.Pass.Reopen
import OriginTools.Payments.AuditEdits
import OriginTools.Payments.DeadLetters
import OriginTools.Payments.EventStatus
import OriginTools.Payments.Exported
import OriginTools.Payments.Idempotence
import OriginTools.Payments.Interleaving
import OriginTools.Payments.Retry
import OriginTools.Payments.SignedBody
import OriginTools.Payments.SpentReceipts
import OriginTools.Proof.DataLeaves
import OriginTools.Secrets.Recover
import OriginTools.Secrets.Verify
import OriginTools.Vcs.Bisect
import OriginTools.Vcs.Bundle
import OriginTools.Vcs.CommitLog
import OriginTools.Vcs.Datagram
import OriginTools.Vcs.Gc
import OriginTools.Vcs.Ignore
import OriginTools.Vcs.Markers
import OriginTools.Vcs.Published
import OriginTools.Vcs.RebasePlan
import OriginTools.Vcs.Refs
import OriginTools.Vcs.StreamRoundTrip
import OriginTools.Vcs.TreeCodec
import OriginTools.Wallet.NativeRail
