import Viewstamp.Batch
import Viewstamp.Run
import Viewstamp.Transport.Router

/- The stream coordinator: an endpoint, its connections and the router between them.

   Bytes of a connection advance its record layer, may validate its identity, are decoded
   and handed to the endpoint; what the endpoint then says is routed. Every call that may
   have installed a membership reconciles the routing with it before anything is routed.
   Only a request of the node's own application goes straight from the endpoint to the
   pump: it never installs one. `installed`, `routes` and `delivered` are records for the
   proofs, which no function reads. -/
namespace Viewstamp

/-- A message as it was handed to the endpoint: its connection when the message was decoded and
    when it was handed over. Both are `none` for a request of the node's own application. -/
structure Delivery (R : Type) where
  decodedFrom : Option (PeerRouter.Entry R)
  handedFrom : Option (PeerRouter.Entry R)
  sender : Peer
  msg : Message

/-- The table and the membership as `pump` routes a message. -/
structure RoutePoint (R : Type) where
  router : PeerRouter R
  membership : Membership

structure StreamCoordinator (S R : Type) where
  endpoint : Node S
  /-- How many of the endpoint's messages have been polled. -/
  polled : Nat
  router : PeerRouter R
  lastReconciledConfigId : Checksum
  installed : List Membership
  routes : List (RoutePoint R) := []
  delivered : List (Delivery R) := []

/-- `STAGE_CHUNK`. -/
def stageChunk : Nat := 64 * 1024

/-- What the devices and the block lane do. -/
def Input.isCompletion {S : Type} : Input S → Bool
  | .appendDone _ _ | .appendCancelled _ _ | .readDone _ _ _ | .rootDone _
  | .checkpointDone _ _ | .checkpointReadDone _ _ _ | .blockDone _ _ | .rot _ | .cancels _ => true
  | _ => false

namespace StreamCoordinator

variable {S R : Type}

def quarantineConnLimit : Nat := 8

/-- `with_outbound_cap`; `polled` counts what the endpoint said in earlier incarnations. -/
def withOutboundCap (endpoint : Node S) (polled cap : Nat) : StreamCoordinator S R where
  endpoint
  polled
  router := .withOutboundCap cap
  lastReconciledConfigId := endpoint.membership.configId
  installed := [endpoint.membership]

def new (endpoint : Node S) (polled : Nat) : StreamCoordinator S R :=
  withOutboundCap endpoint polled defaultOutboundCap

variable (io : RecordIo R) (codec : WireCodec)

/-! ## Routing -/

def closeConnById (c : StreamCoordinator S R) (id : ConnId) : StreamCoordinator S R :=
  { c with router := c.router.modifyConn id (·.abort io .identityRejected) }

/-- Close a connection that the endpoint's membership puts elsewhere; a quarantined one that it
    still does not know stays. -/
def reconcileConn (c : StreamCoordinator S R) (bound : ConnId × MemberId × Peer) :
    StreamCoordinator S R :=
  let (id, member, boundPeer) := bound
  match c.endpoint.membership.slotOf member with
  | none => if boundPeer.isReplica then c.closeConnById io id else c
  | some newSlot => if .replica newSlot ≠ boundPeer then c.closeConnById io id else c

def reconcileRouting (c : StreamCoordinator S R) : StreamCoordinator S R :=
  let current := c.endpoint.membership.configId
  let c := { c with installed := c.installed ++ [c.endpoint.membership] }
  if current = c.lastReconciledConfigId then c
  else
    let c := c.router.validatedMemberConns.foldl (reconcileConn io) c
    { c with lastReconciledConfigId := current }

/-- Route one message of the endpoint. -/
def routeOne (selfId : ReplicaId) (c : StreamCoordinator S R) (o : Outgoing) :
    StreamCoordinator S R :=
  { c with
    router := (c.router.route io codec o.recipient o.msg selfId).2
    routes := c.routes ++ [⟨c.router, c.endpoint.membership⟩] }

def pump (c : StreamCoordinator S R) : StreamCoordinator S R :=
  let outgoing := c.endpoint.emitted.reverse.drop c.polled
  let c := { c with router := c.router.reapClosed, polled := c.endpoint.emitted.length }
  match c.endpoint.localSlotOpt with
  | none => c
  | some selfId => outgoing.foldl (routeOne io codec selfId) c

def settle (c : StreamCoordinator S R) : StreamCoordinator S R :=
  (c.reconcileRouting io).pump io codec

/-! ## Identities -/

/-- The connections bound under a member's quarantine key. -/
def quarantined (c : StreamCoordinator S R) : List ConnId :=
  (c.router.validatedMemberConns.filter fun (_, _, boundPeer) => boundPeer.isMember).map (·.1)

def evictQuarantinedIfFull (c : StreamCoordinator S R) : StreamCoordinator S R :=
  if c.quarantined.length < quarantineConnLimit then c
  else match c.quarantined.min? with
    | some victim => c.closeConnById io victim
    | none => c

/-- Bind the identity a settled handshake has attested. A peer that claims to be this node is
    refused before its slot is looked up, and so is a bare slot claim. -/
def tryNoteEstablishedMember (c : StreamCoordinator S R) (id : ConnId) : StreamCoordinator S R :=
  match c.router.conns.get? id with
  | none => c
  | some e =>
    if !PeerRouter.awaits io e then c
    else match e.conn.handshakeIdentity io with
      | some (.member m) =>
        if m = c.endpoint.config.localMember then c.closeConnById io id
        else match c.endpoint.membership.slotOf m with
          | none =>
            let c := c.evictQuarantinedIfFull io
            { c with router := c.router.noteEstablishedQuarantined io id m }
          | some slot => { c with router := c.router.noteEstablishedMember io id m slot }
      | some (.client _) => { c with router := c.router.noteEstablished io id }
      | some (.replica _) | none => c.closeConnById io id

/-! ## The endpoint -/

variable [StateMachine S]

/-- Hand a message to the endpoint. -/
def hand (c : StreamCoordinator S R) (now : Instant) (d : Delivery R) : StreamCoordinator S R :=
  { c with
    endpoint := c.endpoint.handleMessage now d.sender d.msg
    delivered := c.delivered ++ [d] }

/-- `deliver_inbound`: a request that would not fit a frame as a prepare is dropped. -/
def deliverInbound (id : ConnId) (decodedFrom : PeerRouter.Entry R) (now : Instant)
    (c : StreamCoordinator S R) (inbound : Peer × Message) : StreamCoordinator S R :=
  let (sender, msg) := inbound
  let d := ⟨some decodedFrom, c.router.conns.get? id, sender, msg⟩
  match msg with
  | .request r => if maxRequestBodyLen < r.body.length then c else c.hand now d
  | _ => c.hand now d

/-- Decode what a connection holds and hand it over. -/
def deliverDecoded (c : StreamCoordinator S R) (id : ConnId) (now : Instant) :
    StreamCoordinator S R :=
  match c.router.conns.get? id with
  | none => c
  | some e =>
    let (decoded, _, conn) := e.conn.pollDecoded codec
    let c := { c with router := c.router.modifyConn id fun _ => conn }
    decoded.foldl (deliverInbound id e now) c

/-- One chunk of a read, once the record layer has taken it. -/
def handleChunk (c : StreamCoordinator S R) (id : ConnId) (conn : Conn R) (peerFinished : Bool)
    (now : Instant) : StreamCoordinator S R :=
  let c := { c with router := c.router.modifyConn id fun _ => conn }
  let c := (c.tryNoteEstablishedMember io id).deliverDecoded codec id now
  let c := if peerFinished then
      { c with router := c.router.modifyConn id fun conn => conn.finalize.2 } else c
  c.settle io codec

/-- The loop of `handle_conn_data` over the chunks of a read. It ends without a pump when the
    connection is gone, and stays where it is when the record layer does not come back. -/
def dataLoop (intakeFuel : Nat) (id : ConnId) (eof : Bool) (now : Instant) :
    Nat → StreamCoordinator S R → Bytes → StreamCoordinator S R
  | 0, c, _ => c
  | fuel + 1, c, rest =>
    let chunk := rest.take stageChunk
    let rest := rest.drop stageChunk
    let last := rest.isEmpty
    match c.router.conns.get? id with
    | none => c
    | some e =>
      if e.conn.isClosed then c.pump io codec
      else match e.conn.handleData io intakeFuel chunk (eof && last) now with
        | none => c
        | some (result, conn) =>
          let peerFinished := match result with
            | .ok fin => fin
            | .error _ => false
          let c := c.handleChunk io codec id conn peerFinished now
          if last then c.pump io codec else dataLoop intakeFuel id eof now fuel c rest

/-- Every chunk but the last takes bytes off the read. -/
def handleConnData (c : StreamCoordinator S R) (id : ConnId) (bytes : Bytes) (eof : Bool)
    (now : Instant) (intakeFuel : Nat) : StreamCoordinator S R :=
  c.dataLoop io codec intakeFuel id eof now (bytes.length + 1) bytes

def submitClientRequest (c : StreamCoordinator S R) (now : Instant) (request : Request) :
    StreamCoordinator S R :=
  if maxRequestBodyLen < request.body.length then c
  else match c.endpoint.localSlotOpt with
    | none => c
    | some selfId =>
      let c := c.hand now ⟨none, none, .client request.client, .request request⟩
      let c := { c with router := (c.router.route io codec .backups (.request request) selfId).2 }
      c.pump io codec

def handleTimeout (c : StreamCoordinator S R) (now : Instant) : StreamCoordinator S R :=
  { c with endpoint := c.endpoint.handleTimeout now }.settle io codec

/-- Feed a completion to the endpoint, if it can come. -/
def complete (n : Node S) (done : Input S) : Node S :=
  if done.isCompletion then (n.handle done).getD n else n

/-- `handle_storage`, `handle_storage_deferred` and `on_block_done`: whatever the lanes report
    is fed to the endpoint in turn. -/
def handleStorage (c : StreamCoordinator S R) (done : List (Input S)) : StreamCoordinator S R :=
  { c with endpoint := done.foldl complete c.endpoint }.settle io codec

/-! ## Runs -/

/-- A call of the driver. -/
inductive Call (S R : Type) where
  | registerDialed (peer : Peer) (r : R)
  | registerAccepted (peer : Peer) (r : R)
  | handleConnData (id : ConnId) (bytes : Bytes) (eof : Bool) (now : Instant) (intakeFuel : Nat)
  | handleTimeout (now : Instant)
  | handleStorage (done : List (Input S))
  | submitClientRequest (now : Instant) (request : Request)
  | proposeMembership (now : Instant) (delta : SingleVoterDelta) (accept : Bool)
  | solicitHealthProofs (now : Instant) (lifetime : Nat)
  | reconcileRouting
  | closeConnById (id : ConnId)
  | pollConnTransmit
  | pollConnClosed

def step (c : StreamCoordinator S R) : Call S R → StreamCoordinator S R
  | .registerDialed peer r =>
    { c with router := (c.router.registerDialed io peer (.fromParts r)).2 }
  | .registerAccepted peer r =>
    { c with router := (c.router.registerAccepted io peer (.fromParts r)).2 }
  | .handleConnData id bytes eof now intakeFuel =>
    c.handleConnData io codec id bytes eof now intakeFuel
  | .handleTimeout now => c.handleTimeout io codec now
  | .handleStorage done => c.handleStorage io codec done
  | .submitClientRequest now request => c.submitClientRequest io codec now request
  | .proposeMembership now delta accept =>
    { c with endpoint := (c.endpoint.proposeMembership now delta accept).1 }
  | .solicitHealthProofs now lifetime =>
    { c with endpoint := c.endpoint.solicitHealthProofs now lifetime }
  | .reconcileRouting => c.reconcileRouting io
  | .closeConnById id => c.closeConnById io id
  | .pollConnTransmit => { c with router := (c.router.pollTransmit io).2 }
  | .pollConnClosed => { c with router := c.router.pollClosed.2 }

def run (c : StreamCoordinator S R) (calls : List (Call S R)) : StreamCoordinator S R :=
  calls.foldl (step io codec) c

end StreamCoordinator

end Viewstamp
