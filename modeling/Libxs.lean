import Libxs.YQueue
import Libxs.Pipe.Delivery
import Libxs.Rotor.Fairness
import Libxs.Fq.Atomicity
import Libxs.Lb.Atomicity
import Libxs.XSub.Forwarding
import Libxs.TopicFilter.Matching
import Libxs.TopicFilter.Subscriptions
import Libxs.Sub.Options
import Libxs.XPub.Upstream
import Libxs.Req.Proofs
import Libxs.XRespondent.Routing
import Libxs.XRep.Assertions
import Libxs.Rep.Replying
import Libxs.Own.Shutdown
import Libxs.Ctx.Stopping
import Libxs.Ctx.Slots
import Libxs.Sub.Receiving
import Libxs.SocketBase.Polling
import Libxs.Mailbox.Delivery
import Libxs.PgmReceiver.Subscriptions
import Libxs.PgmSender.Joining
import Libxs.PrefixFilter.Uniqueness
import Libxs.PrefixFilter.Representation
import Libxs.XPub.Malformed
import Libxs.ReqSession.BackPressure
import Libxs.Surveyor.Availability
import Libxs.Surveyor.Deadline
import Libxs.SessionBase.Linger
import Libxs.SocketBase.Starvation
import Libxs.SocketBase.Endpoints
import Libxs.SocketBase.Inproc
import Libxs.Address
import Libxs.Connecter
import Libxs.IoThread
import Libxs.Poll
import Libxs.Dist.References
import Libxs.Decoder.Allocation
import Libxs.StreamEngine
