import Mathlib.Data.Rat.Defs
import Mathlib.Algebra.Order.Ring.Rat
import AgentTorrent.Framework.ExpiryTable
import AgentTorrent.Identity
import AgentTorrent.Manifest

open Framework

namespace AgentTorrent

abbrev Time := ℚ

def peerTtlSeconds : Time := 30

def msgBeacon : PyStr := lit "BEACON"

/-- One row of the gossip-derived peer table. The port is kept as the JSON value
that passed the check, since True passes it as 1. -/
@[ext] structure PeerInfo where
  peerId : PeerId
  host : PyStr
  tcpPort : Json
  manifest : Manifest
  lastSeen : Time

abbrev PeerTable := Table PeerInfo.peerId

/-- A datagram with its source host and the clock when it is handled. -/
structure Datagram where
  data : Bytes
  host : PyStr
  now : Time

/-- isinstance(v, int) and 0 < v < 65536 -/
def isPort : Json → Bool
  | .int n => 0 < n ∧ n<65536
  | .bool b => b
  | _ => false

variable (P : Platform)

/-- Identity.open(json.loads(data.decode())) inside the first try of
_handle_beacon; none stands for a datagram that is logged and dropped. -/
def openData (data : Bytes) : Except PyExc (Option Opened) :=
  match P.loads data with
  | .error .value => .ok none
  | .error .recursion => .error .recursionError
  | .ok envelope => match openEnvelope P envelope with
    | .ok o => .ok (some o)
    | .error (.envelopeError _) | .error .valueError => .ok none
    | .error e => .error e

/-- The checks of _handle_beacon up to the row it would store. -/
def acceptBeacon (me : PeerId) (d : Datagram) : Except PyExc (Option PeerInfo) :=
  match openData P d.data with
  | .error e => .error e
  | .ok none => .ok none
  | .ok (some o) =>
    if o.sender=me then .ok none
    else if o.msgType≠msgBeacon then .ok none
    else
      let body := o.body.getD (.obj [])
      match body.getD (lit "tcp_port") .null with
      | .error e => .error e
      | .ok tcpPort =>
        if ¬isPort tcpPort then .ok none
        else match body.getD (lit "manifest") .null with
          | .error e => .error e
          | .ok v => match validateManifest v with
            | .error _ => .ok none
            | .ok manifest =>
              if manifest.peerId≠o.sender.val then .ok none
              else .ok (some ⟨o.sender,d.host,tcpPort,manifest,d.now⟩)

/-- _handle_beacon: the new table, and whether a reply goes to a new peer. -/
def handleBeacon (me : PeerId) (d : Datagram) (t : PeerTable) : Except PyExc (PeerTable×Bool) :=
  match acceptBeacon P me d with
  | .error e => .error e
  | .ok none => .ok (t,false)
  | .ok (some row) => .ok (t.put row,(t.find row.peerId).isNone)

/-- peers(): rows older than the cutoff are evicted, the others are listed. -/
def peers (now : Time) (t : PeerTable) : List PeerInfo×PeerTable :=
  let live := t.keep fun p => now-peerTtlSeconds ≤ p.lastSeen
  (live.sorted,live)

/-- What recvfrom does in one round of _recv_loop. -/
inductive RecvFrom
  | timeout
  | osError
  | datagram (d : Datagram)

/-- The peer table and whether the receive thread is alive. -/
structure Discovery where
  table : PeerTable
  receiving : Bool

def Discovery.start : Discovery := ⟨.empty,true⟩

/-- One round of _recv_loop. An exception that leaves _handle_beacon ends it. -/
def recvRound (me : PeerId) (s : Discovery) (r : RecvFrom) : Discovery :=
  if ¬s.receiving then s
  else match r with
    | .timeout => s
    | .osError => {s with receiving := false}
    | .datagram d => match handleBeacon P me d s.table with
      | .error _ => {s with receiving := false}
      | .ok (t,_) => {s with table := t}

/-- What happens at a peer's discovery: a round of the receive loop, or a call
of peers() by another thread. -/
inductive DiscoveryEvent
  | received (r : RecvFrom)
  | peers (now : Time)

def Discovery.step (me : PeerId) (s : Discovery) : DiscoveryEvent → Discovery
  | .received r => recvRound P me s r
  | .peers now => {s with table := (AgentTorrent.peers now s.table).2}

def Discovery.run (me : PeerId) (events : List DiscoveryEvent) : Discovery :=
  events.foldl (Discovery.step P me) .start

end AgentTorrent
