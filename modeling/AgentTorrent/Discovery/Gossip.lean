import Mathlib.Algebra.Order.BigOperators.Group.Finset
import AgentTorrent.Discovery.PeerTable
import AgentTorrent.Framework.Machine
import AgentTorrent.Wire.Stream

open Framework AgentTorrent.Json

namespace AgentTorrent

/-- What a Discovery beacons: the arguments of its constructor. A manifest is a value that
JSON carries. -/
structure BeaconPeer where
  identity : Identity
  tcpPort : Int
  manifest : Json
  carried : manifest.plain=true

/-- time.time() -/
abbrev Timestamp := {ts : PyFloat // ts.isFinite=true}

variable (P : Platform)

def BeaconPeer.id (peer : BeaconPeer) : PeerId := peer.identity.peerId P

def BeaconPeer.body (peer : BeaconPeer) : Json :=
  .obj [(lit "tcp_port",.int peer.tcpPort),(lit "manifest",peer.manifest)]

/-- Discovery._beacon_bytes -/
def beaconBytes (peer : BeaconPeer) (ts : Timestamp) : Except PyExc Bytes :=
  match sealEnvelope P peer.identity ts.val msgBeacon peer.body with
  | .error e => .error e
  | .ok envelope =>
    if P.dumpsDepth < envelope.depth then .error .recursionError else .ok envelope.dumps

/-- A datagram in _recv_loop, with the reply of _handle_beacon to a new peer: the id that
is answered and the datagram that is sent. A reply that sendto cannot send is lost. -/
def gossipRound (peer : BeaconPeer) (ts : Timestamp) (s : Discovery) (d : Datagram) :
    Discovery×Option (PeerId×Bytes) :=
  if ¬s.receiving then (s,none)
  else match acceptBeacon P (peer.id P) d with
    | .error _ => ({s with receiving := false},none)
    | .ok none => (s,none)
    | .ok (some row) =>
      let t := s.table.put row
      if (s.table.find row.peerId).isSome then ({s with table := t},none)
      else match beaconBytes P peer ts with
        | .error _ => (⟨t,false⟩,none)
        | .ok data => ({s with table := t},some (row.peerId,data))

/-- The ids that a call of peers() evicts. -/
def expired (now : Time) (t : PeerTable) : List PeerId :=
  (t.rows.filter fun p => p.lastSeen < now-peerTtlSeconds).map PeerInfo.peerId

/-- What the claims about replies count. -/
inductive GossipNote (ι : Type)
  | replied (p : ι) (q : PeerId)
  | evicted (p : ι) (q : PeerId)
  deriving DecidableEq

/-- The discoveries of a set of peers, the datagrams in flight, and all that happened,
oldest first. -/
structure Gossip (ι : Type) where
  nodes : ι → Discovery
  flight : List Bytes
  notes : List (GossipNote ι)

/-- What the network and the clocks choose. A datagram in flight may come to any peer. -/
inductive GossipAction (ι : Type)
  | deliver (k : Nat) (p : ι) (host : PyStr) (now : Time) (ts : Timestamp)
  | lose (k : Nat)
  | duplicate (k : Nat)
  | inject (data : Bytes)
  | broadcast (p : ι) (ts : Timestamp)
  | peers (p : ι) (now : Time)

variable {ι : Type} [DecidableEq ι] (members : ι → BeaconPeer)

def gossipMachine : Machine (Gossip ι) (GossipAction ι) where
  init s := s.notes=[]
  step s
    | .deliver k p host now ts => match s.flight[k]? with
      | none => none
      | some data =>
        let next := gossipRound P (members p) ts (s.nodes p) ⟨data,host,now⟩
        some ⟨Function.update s.nodes p next.1,
          s.flight.eraseIdx k++next.2.toList.map Prod.snd,
          s.notes++next.2.toList.map fun reply => .replied p reply.1⟩
    | .lose k => if k < s.flight.length then some {s with flight := s.flight.eraseIdx k} else none
    | .duplicate k => match s.flight[k]? with
      | none => none
      | some data => some {s with flight := s.flight++[data]}
    | .inject data => some {s with flight := s.flight++[data]}
    | .broadcast p ts => match beaconBytes P (members p) ts with
      | .error _ => some s
      | .ok data => some {s with flight := s.flight++[data]}
    | .peers p now => some {s with
        nodes := Function.update s.nodes p
          {s.nodes p with table := (AgentTorrent.peers now (s.nodes p).table).2}
        notes := s.notes++(expired now (s.nodes p).table).map (.evicted p)}

/-- A delivery or a loss. -/
def GossipAction.isTransit : GossipAction ι → Bool
  | .deliver .. | .lose _ => true
  | _ => false

/-- No periodic broadcast, no duplication, and no row expires. -/
def Quiet (s : Gossip ι) : GossipAction ι → Gossip ι → Prop
  | .deliver ..,_ | .lose _,_ => True
  | .peers p now,_ => expired now (s.nodes p).table=[]
  | _,_ => False

/-- The id under which a datagram opens. -/
def senderOf (data : Bytes) : Option PeerId := match openData P data with
  | .ok (some o) => some o.sender
  | _ => none

def unknownAt (ids : Finset PeerId) (t : PeerTable) : Finset PeerId :=
  ids.filter fun q => t.find q=none

def unknown [Fintype ι] (ids : Finset PeerId) (nodes : ι → Discovery) : Nat :=
  ∑p,(unknownAt ids (nodes p).table).card

/-- The ids of the peers and of the datagrams in flight. -/
def senders [Fintype ι] (s : Gossip ι) : Finset PeerId :=
  Finset.univ.image (fun p => (members p).id P)∪(s.flight.filterMap (senderOf P)).toFinset

def replies (p : ι) (q : PeerId) (notes : List (GossipNote ι)) : Nat :=
  notes.count (.replied p q)

def evictions (p : ι) (q : PeerId) (notes : List (GossipNote ι)) : Nat :=
  notes.count (.evicted p q)

section Round

variable {P} {peer : BeaconPeer} {ts : Timestamp} {s : Discovery} {d : Datagram} {data : Bytes}

/-- A round leaves the table as it is, or it puts the row of a beacon, whose sender is
answered only where it had no row. -/
theorem gossipRound_cases : ((gossipRound P peer ts s d).1.table=s.table ∧
      (gossipRound P peer ts s d).2=none) ∨
    ∃row,acceptBeacon P (peer.id P) d=.ok (some row) ∧
      (gossipRound P peer ts s d).1.table=s.table.put row ∧
      ∀reply,(gossipRound P peer ts s d).2=some reply → s.table.find row.peerId=none ∧
        reply.1=row.peerId ∧ beaconBytes P peer ts=.ok reply.2 := by
  unfold gossipRound
  by_cases hr : s.receiving=true
  · rw [if_neg (not_not.mpr hr)]
    split
    · exact .inl ⟨rfl,rfl⟩
    · exact .inl ⟨rfl,rfl⟩
    · rename_i row hrow
      refine .inr ⟨row,hrow,?_⟩
      dsimp only
      split_ifs with hk
      · exact ⟨rfl,fun _ h => by cases h⟩
      · split
        · exact ⟨rfl,fun _ h => by cases h⟩
        · rename_i bytes hb
          refine ⟨rfl,?_⟩
          intro reply h
          cases h
          exact ⟨Option.not_isSome_iff_eq_none.mp hk,rfl,hb⟩
  · rw [if_pos hr]
    exact .inl ⟨rfl,rfl⟩

/-- With the reply the table is what the receive loop makes of it. -/
theorem gossipRound_table : (gossipRound P peer ts s d).1.table=
    (recvRound P (peer.id P) s (.datagram d)).table := by
  unfold gossipRound recvRound handleBeacon
  by_cases hr : s.receiving=true
  · rw [if_neg (not_not.mpr hr),if_neg (not_not.mpr hr)]
    dsimp only
    rcases acceptBeacon P (peer.id P) d with e | _ | row
    · rfl
    · rfl
    · dsimp only
      split_ifs
      · rfl
      · split <;> rfl
  · rw [if_pos hr,if_pos hr]

theorem senderOf_accepted {me : PeerId} {row : PeerInfo}
    (h : acceptBeacon P me d=.ok (some row)) : senderOf P d.data=some row.peerId := by
  obtain ⟨o,ho,hs,-⟩ := (acceptBeacon_row P me h).opened
  rw [senderOf,ho]
  exact congrArg some hs

theorem beaconBytes_ok (h : beaconBytes P peer ts=.ok data) :
    ∃envelope,sealEnvelope P peer.identity ts.val msgBeacon peer.body=.ok envelope ∧
      envelope.depth ≤ P.dumpsDepth ∧ data=envelope.dumps := by
  unfold beaconBytes at h
  split at h
  · cases h
  · rename_i envelope he
    split_ifs at h with hd
    exact ⟨envelope,he,Nat.not_lt.mp hd,(Except.ok.inj h).symm⟩

/-- A beacon can be built where its numbers print and its manifest is not too deep. -/
theorem beaconBytes_prints (hd : peer.manifest.depth+3 ≤ P.dumpsDepth)
    (hi : P.intPrints peer.tcpPort=true) (hm : peer.manifest.intsAll P.intPrints=true) :
    ∃data,beaconBytes P peer ts=.ok data := by
  have depth : peer.body.depth=peer.manifest.depth+1 := by
    simp [BeaconPeer.body,Json.depth,Json.depthMembers]
  have ints : peer.body.intsAll P.intPrints=true := by
    simp [BeaconPeer.body,Json.intsAll,Json.intsAllMembers,hi,hm]
  have hs := @sealMessage_prints P peer.identity ts.val msgBeacon peer.body
    (by omega) ints
  unfold sealMessage at hs
  unfold beaconBytes
  cases he : sealEnvelope P peer.identity ts.val msgBeacon peer.body with
  | error e =>
    rw [he] at hs
    cases hs
  | ok envelope =>
    simp only [he] at hs
    split_ifs at hs with hdeep
    exact ⟨_,if_neg hdeep⟩

theorem BeaconPeer.sendable (peer : BeaconPeer) (ts : Timestamp) :
    Sendable msgBeacon ts.val peer.body := by
  refine ⟨rfl,?_,by decide,ts.property⟩
  have hk : ([lit "tcp_port",lit "manifest"] : List PyStr).Nodup := by decide
  have ht : (lit "tcp_port").all isCarried=true := by decide
  have hm : (lit "manifest").all isCarried=true := by decide
  simp [BeaconPeer.body,Json.plain,Json.plainMembers,peer.carried,ht,hm,hk]

/-- An honest beacon opens as its sender's, if at all. -/
theorem beacon_sender {float : PyStr → PyFloat} (hP : P.Lawful float) (hR : P.ReadsLines float)
    (h : beaconBytes P peer ts=.ok data) {q : PeerId} (hq : senderOf P data=some q) :
    q=peer.id P := by
  obtain ⟨envelope,hseal,hd,rfl⟩ := beaconBytes_ok h
  have hl := hR.dumps hd (sealed_readBack hP (peer.sendable ts) hseal)
  obtain ⟨msg,-,he⟩ := sealEnvelope_ok hseal
  simp only [senderOf,openData,hl] at hq
  split at hq
  · rename_i o ho
    split at ho
    · rename_i o' hopen
      cases ho
      cases hq
      obtain ⟨pubkey,sig,hp,hs,-⟩ := (openEnvelope_ok_iff _).mp hopen
      have hpay : some o.payload=some (sealPayload (peer.id P) ts.val msgBeacon peer.body) := by
        rw [← hp.carried,he]
        rfl
      have hsender := hp.sender
      rw [Option.some.inj hpay] at hsender
      have hid : some (Json.str (peer.id P).val)=some (.str (peerIdFromPubkey P pubkey).val) :=
        hsender
      rw [hs,Subtype.ext (Json.str.inj (Option.some.inj hid))]
    · cases ho
    · cases ho
    · cases ho
  · cases hq

end Round

section Deliver

variable {P members} {s t : Gossip ι} {k : Nat} {p : ι} {host : PyStr} {now : Time} {ts : Timestamp}
  {data : Bytes}

theorem step_deliver (hk : s.flight[k]?=some data) {n : Discovery} {reply : Option (PeerId×Bytes)}
    (hr : gossipRound P (members p) ts (s.nodes p) ⟨data,host,now⟩=(n,reply)) :
    (gossipMachine P members).step s (.deliver k p host now ts)=
      some ⟨Function.update s.nodes p n,s.flight.eraseIdx k++reply.toList.map Prod.snd,
        s.notes++reply.toList.map fun a => .replied p a.1⟩ := by
  simp only [gossipMachine,hk,hr]

/-- A delivery takes a datagram out of the flight and puts a reply in at most. -/
theorem deliver_cases
    (h : (gossipMachine P members).step s (.deliver k p host now ts)=some t) :
    ∃data n reply,s.flight[k]?=some data ∧
      t=⟨Function.update s.nodes p n,s.flight.eraseIdx k++reply.toList.map Prod.snd,
        s.notes++reply.toList.map fun a => .replied p a.1⟩ ∧
      ((n.table=(s.nodes p).table ∧ reply=none) ∨
        ∃row,acceptBeacon P ((members p).id P) ⟨data,host,now⟩=.ok (some row) ∧
          n.table=(s.nodes p).table.put row ∧
          ∀answer,reply=some answer → (s.nodes p).table.find row.peerId=none ∧
            answer.1=row.peerId ∧ beaconBytes P (members p) ts=.ok answer.2) := by
  cases hk : s.flight[k]? with
  | none => simp [gossipMachine,hk] at h
  | some data =>
    rw [step_deliver hk rfl] at h
    exact ⟨data,_,_,rfl,(Option.some.inj h).symm,gossipRound_cases⟩

end Deliver

section Table

variable {t : PeerTable} {row : PeerInfo} {q : PeerId}

theorem find_put_none : (t.put row).find q=none ↔ row.peerId≠q ∧ t.find q=none := by
  rw [Table.find_put]
  split_ifs with h <;> simp [h]

/-- A call of peers() drops the rows that it evicts and no other. -/
theorem find_peers (now : Time) : (AgentTorrent.peers now t).2.find q=none ↔
    t.find q=none ∨ q∈expired now t := by
  rw [peers,Table.find_keep]
  constructor
  · intro h
    cases hf : t.find q with
    | none => exact .inl rfl
    | some row =>
      obtain ⟨hm,hk⟩ := (Table.find_eq_some_iff t q row).mp hf
      rw [hf,Option.filter_some] at h
      split_ifs at h with hl
      refine .inr (List.mem_map.mpr ⟨row,List.mem_filter.mpr ⟨hm,?_⟩,hk⟩)
      exact decide_eq_true (not_le.mp fun he => hl (decide_eq_true he))
  · intro h
    rcases h with h | h
    · rw [h]
      rfl
    · obtain ⟨row,hm,hk⟩ := List.mem_map.mp h
      obtain ⟨hr,hl⟩ := List.mem_filter.mp hm
      rw [(Table.find_eq_some_iff t q row).mpr ⟨hr,hk⟩,Option.filter_some,if_neg]
      exact fun he => not_le.mpr (of_decide_eq_true hl) (of_decide_eq_true he)

end Table

section Termination

variable [Fintype ι]

/-- All that can come into a table is known beforehand. -/
structure Closed (ids : Finset PeerId) (s : Gossip ι) : Prop where
  members : ∀p,(members p).id P∈ids
  flight : ∀data∈s.flight,∀q,senderOf P data=some q → q∈ids

/-- A first sight pays for the reply and for the delivery that brought it. -/
def potential (ids : Finset PeerId) (s : Gossip ι) : Nat :=
  2*unknown ids s.nodes+s.flight.length

variable {P members} {ids : Finset PeerId} {s t : Gossip ι}

section Unknown

variable {m n : ι → Discovery} (h : ∀p q,(n p).table.find q=none → (m p).table.find q=none)

include h

omit [DecidableEq ι] in
theorem unknown_le : unknown ids n ≤ unknown ids m :=
  Finset.sum_le_sum fun p _ =>
    Finset.card_le_card (Finset.monotone_filter_right ids fun q _ => h p q)

omit [DecidableEq ι] in
theorem unknown_lt {p : ι} {q : PeerId} (hi : q∈ids) (hm : (m p).table.find q=none)
    (hn : (n p).table.find q≠none) : unknown ids n < unknown ids m := by
  have mono (r : ι) : unknownAt ids (n r).table ⊆ unknownAt ids (m r).table :=
    Finset.monotone_filter_right ids fun q _ => h r q
  refine Finset.sum_lt_sum (fun r _ => Finset.card_le_card (mono r))
    ⟨p,Finset.mem_univ p,Finset.card_lt_card ⟨mono p,fun hsub => ?_⟩⟩
  exact hn (Finset.mem_filter.mp (hsub (Finset.mem_filter.mpr ⟨hi,hm⟩))).2

end Unknown

/-- The delivery of one datagram uses up some of the potential, whatever it brings. -/
theorem deliver_potential {float : PyStr → PyFloat} (hP : P.Lawful float) (hR : P.ReadsLines float)
    (hc : Closed P members ids s) {k : Nat} {p : ι} {host : PyStr} {now : Time}
    {ts : Timestamp} (h : (gossipMachine P members).step s (.deliver k p host now ts)=some t) :
    Closed P members ids t ∧ potential ids t+1 ≤ potential ids s := by
  obtain ⟨data,n,reply,hk,rfl,round⟩ := deliver_cases h
  have hl := (List.getElem?_eq_some_iff.mp hk).1
  have hdata := List.mem_of_getElem? hk
  have cut : (s.flight.eraseIdx k).length+1=s.flight.length := by
    rw [List.length_eraseIdx_of_lt hl]
    omega
  have kept (r : ι) (q : PeerId) (hq : (Function.update s.nodes p n r).table.find q=none) :
      (s.nodes r).table.find q=none := by
    by_cases hr : r=p
    · subst hr
      rw [Function.update_self] at hq
      rcases round with ⟨ht,-⟩ | ⟨row,-,ht,-⟩
      · exact ht ▸ hq
      · exact (find_put_none.mp (ht ▸ hq)).2
    · rw [Function.update_of_ne hr] at hq
      exact hq
  cases reply with
  | none =>
    refine ⟨⟨hc.members,fun d hd => hc.flight d (List.mem_of_mem_eraseIdx (by simpa using hd))⟩,?_⟩
    have hle : unknown ids _ ≤ unknown ids s.nodes := unknown_le kept
    simp only [potential,Option.toList_none,List.map_nil,List.append_nil]
    omega
  | some reply =>
    rcases round with ⟨-,hn⟩ | ⟨row,hrow,ht,hreply⟩
    · cases hn
    · obtain ⟨hnew,-,hbytes⟩ := hreply reply rfl
      have known := hc.flight data hdata row.peerId (senderOf_accepted hrow)
      refine ⟨⟨hc.members,?_⟩,?_⟩
      · intro d hd q hq
        rcases List.mem_append.mp hd with hd | hd
        · exact hc.flight d (List.mem_of_mem_eraseIdx hd) q hq
        · have he : d=reply.2 := by simpa using hd
          subst he
          obtain rfl : q=(members p).id P := beacon_sender hP hR hbytes hq
          exact hc.members p
      · have hlt := unknown_lt kept known hnew (by simp [ht])
        simp only [potential,Option.toList_some,List.map_cons,List.map_nil,List.length_append,
          List.length_singleton]
        omega

/-- In a quiet run each delivery and each loss uses up some of the potential. -/
theorem quiet_potential {float : PyStr → PyFloat} (hP : P.Lawful float) (hR : P.ReadsLines float)
    (act : GossipAction ι) (hc : Closed P members ids s) (hq : Quiet s act t)
    (h : (gossipMachine P members).step s act=some t) :
    Closed P members ids t ∧
      potential ids t+(if act.isTransit then 1 else 0) ≤ potential ids s := by
  cases act with
  | deliver k p host now ts => exact deliver_potential hP hR hc h
  | lose k =>
    simp only [gossipMachine] at h
    split_ifs at h with hk
    cases h
    refine ⟨⟨hc.members,fun d hd => hc.flight d (List.mem_of_mem_eraseIdx hd)⟩,?_⟩
    simp only [potential,GossipAction.isTransit,if_true,List.length_eraseIdx_of_lt hk]
    omega
  | peers p now =>
    cases h
    refine ⟨⟨hc.members,hc.flight⟩,?_⟩
    have kept (r : ι) (q : PeerId) (hf : (Function.update s.nodes p
        ⟨(AgentTorrent.peers now (s.nodes p).table).2,(s.nodes p).receiving⟩ r).table.find q=none) :
        (s.nodes r).table.find q=none := by
      by_cases hr : r=p
      · subst hr
        rw [Function.update_self] at hf
        exact (find_peers now |>.mp hf).resolve_right (by rw [show expired _ _=[] from hq]; simp)
      · rw [Function.update_of_ne hr] at hf
        exact hf
    have hle : unknown ids _ ≤ unknown ids s.nodes := unknown_le kept
    simp only [potential,GossipAction.isTransit,Bool.false_eq_true,if_false]
    omega
  | _ => exact absurd hq id

end Termination

section Replies

variable {P members} {s t : Gossip ι}

/-- One where the peer is still to be answered. -/
def absence (t : PeerTable) (q : PeerId) : Nat := if t.find q=none then 1 else 0

/-- Each answer fills a row that was empty at first or has been evicted. -/
def Balanced (s : Gossip ι) : Prop := ∀p q,
  replies p q s.notes+absence (s.nodes p).table q ≤ 1+evictions p q s.notes

theorem absence_put (row : PeerInfo) (t : PeerTable) (q : PeerId) :
    absence (t.put row) q=if row.peerId=q then 0 else absence t q := by
  simp only [absence,find_put_none]
  by_cases h : row.peerId=q <;> simp [h]

theorem balanced_deliver (hb : Balanced s) {k : Nat} {p : ι} {host : PyStr} {now : Time}
    {ts : Timestamp} (h : (gossipMachine P members).step s (.deliver k p host now ts)=some t) :
    Balanced t := by
  obtain ⟨data,n,reply,hk,rfl,round⟩ := deliver_cases h
  intro r q
  have hrq := hb r q
  simp only [replies,evictions,List.count_append] at hrq ⊢
  have noEviction : (reply.toList.map fun a => GossipNote.replied p a.1).count (.evicted r q)=0 := by
    cases reply <;> simp
  rw [noEviction]
  by_cases hr : r=p
  · subst hr
    rw [Function.update_self]
    rcases round with ⟨ht,rfl⟩ | ⟨row,-,ht,hreply⟩
    · simpa [ht] using hrq
    · rw [ht,absence_put]
      cases reply with
      | none =>
        simp only [Option.toList_none,List.map_nil,List.count_nil]
        split_ifs <;> omega
      | some reply =>
        obtain ⟨hnew,hid,-⟩ := hreply reply rfl
        simp only [Option.toList_some,List.map_cons,List.map_nil,List.count_singleton,hid]
        by_cases hq : row.peerId=q
        · -- The answer takes the place of the row that was missing.
          subst hq
          simp only [absence,hnew,if_true] at hrq
          simp
          omega
        · simp [hq]
          omega
  · rw [Function.update_of_ne hr]
    have other : (reply.toList.map fun a => GossipNote.replied p a.1).count (.replied r q)=0 := by
      cases reply <;> simp [Ne.symm hr]
    omega

theorem balanced_peers (hb : Balanced s) {p : ι} {now : Time}
    (h : (gossipMachine P members).step s (.peers p now)=some t) : Balanced t := by
  cases h
  intro r q
  have hrq := hb r q
  simp only [replies,evictions,List.count_append] at hrq ⊢
  have noReply : ((expired now (s.nodes p).table).map (GossipNote.evicted p)).count
      (.replied r q)=0 := List.count_eq_zero.mpr (by simp)
  rw [noReply]
  by_cases hr : r=p
  · subst hr
    rw [Function.update_self]
    have gone : absence (AgentTorrent.peers now (s.nodes r).table).2 q ≤
        absence (s.nodes r).table q+
          ((expired now (s.nodes r).table).map (GossipNote.evicted r)).count (.evicted r q) := by
      unfold absence
      split_ifs with h1 h2
      · omega
      · have hm := (find_peers now).mp h1 |>.resolve_left h2
        have := List.count_pos_iff.mpr (List.mem_map_of_mem (f := GossipNote.evicted r) hm)
        omega
      · omega
      · omega
    dsimp only
    omega
  · rw [Function.update_of_ne hr]
    omega

theorem balanced {s : Gossip ι} (h : (gossipMachine P members).Reachable s) : Balanced s := by
  refine @Machine.Reachable.invariant _ _ (gossipMachine P members) Balanced ?_ ?_ s h
  · intro s hs p q
    have hn : s.notes=[] := hs
    simp only [replies,evictions,hn,List.count_nil,absence]
    split_ifs <;> omega
  · intro s act t hb hs
    cases act with
    | deliver k p host now ts => exact balanced_deliver hb hs
    | peers p now => exact balanced_peers hb hs
    | lose k =>
      simp only [gossipMachine] at hs
      split_ifs at hs
      cases hs
      exact hb
    | duplicate k =>
      simp only [gossipMachine] at hs
      split at hs
      · cases hs
      · cases hs
        exact hb
    | inject data =>
      cases hs
      exact hb
    | broadcast p ts =>
      simp only [gossipMachine] at hs
      split at hs
      · cases hs
        exact hb
      · cases hs
        exact hb

end Replies

omit [DecidableEq ι] in
variable {P members} in
theorem closed_senders [Fintype ι] (s : Gossip ι) : Closed P members (senders P members s) s := by
  constructor
  · intro p
    exact Finset.mem_union_left _ (Finset.mem_image_of_mem _ (Finset.mem_univ p))
  · intro data hd q hq
    exact Finset.mem_union_right _ (List.mem_toFinset.mpr (List.mem_filterMap.mpr ⟨data,hd,hq⟩))

/-- Replies to new peers never loop. From any tables and any datagrams in flight, without
broadcasts and without expiry, there are at most as many deliveries and losses as datagrams in
flight and twice the rows that are missing. And in every run a peer answers the beacons of
another at most once more than it has evicted its row. -/
theorem replies_never_loop [Fintype ι] {float : PyStr → PyFloat} (hP : P.Lawful float)
    (hR : P.ReadsLines float) :
    (∀s acts t,(gossipMachine P members).run s acts=some t →
      (gossipMachine P members).Meets Quiet s acts →
      acts.countP GossipAction.isTransit ≤
        2*unknown (senders P members s) s.nodes+s.flight.length) ∧
    ∀s,(gossipMachine P members).Reachable s → ∀p q,
      replies p q s.notes ≤ 1+evictions p q s.notes := by
  constructor
  · intro s acts t hr hm
    have h := Machine.Meets.countP_le _ (fun s act t hc hq hs => quiet_potential hP hR act hc hq hs)
      (closed_senders s) hr hm
    exact (Nat.le_add_right _ _).trans h
  · intro s hs p q
    exact (Nat.le_add_right _ _).trans (balanced hs p q)

section Sample

/-- The worker and the requester. -/
def gossipMembers : Bool → BeaconPeer
  | true => ⟨workerIdentity,40123,workerManifest,by decide⟩
  | false => ⟨requesterIdentity,40122,.obj [(lit "peer_id",.str requesterId.val),
      (lit "harnesses",.obj []),(lit "max_runtime_seconds",.int 60),
      (lit "accepts_tasks",.bool false)],by decide⟩

/-- Nobody is known to anybody, and a beacon of the worker is in flight. -/
def sampleGossip : Gossip Bool := ⟨fun _ => .start,[workerBeacon.text],[]⟩

def sampleClock : Timestamp := ⟨requesterHandshake.ts,by decide⟩

theorem parsing_openData {m : Signed} (hm : m∈sampleTranscript) (hp : m.envelope.plain=true)
    (hi : m.envelope.intsAll parsingPlatform.intPrints=true)
    (hd : m.envelope.depth ≤ parsingPlatform.dumpsDepth) :
    openData parsingPlatform m.text=.ok (some m.opened) :=
  openData_of_opens (parsing_readsLines.dumps hd (dumps_readBack parsing_lawful hp hi))
    (transcript_opens sampleTranscript_consistent hm)

theorem parsing_accepts : acceptBeacon parsingPlatform ((gossipMembers false).id parsingPlatform)
    (beaconAt 5)=.ok (some (workerRow 5)) := by
  have hm : workerBeacon∈sampleTranscript := by simp [sampleTranscript]
  have hid : (gossipMembers false).id parsingPlatform=requesterId := by decide
  have hd := parsing_openData hm (by decide +kernel) (by decide +kernel) (by decide +kernel)
  rw [hid]
  exact acceptBeacon_of_opens hd rfl rfl rfl rfl

/-- The requester answers the worker's beacon, once. -/
theorem replies_never_loop_sample :
    ∃t,(gossipMachine parsingPlatform gossipMembers).step sampleGossip
        (.deliver 0 false (lit "192.168.1.20") 5 sampleClock)=some t ∧
      replies false workerId t.notes=1 ∧ replies false workerId t.notes ≤
        1+evictions false workerId t.notes ∧
      ∀acts u,(gossipMachine parsingPlatform gossipMembers).run t acts=some u →
        (gossipMachine parsingPlatform gossipMembers).Meets Quiet t acts →
        acts.countP GossipAction.isTransit ≤
          2*unknown (senders parsingPlatform gossipMembers t) t.nodes+t.flight.length := by
  have hb : (beaconBytes parsingPlatform (gossipMembers false) sampleClock).toBool=true := by
    decide +kernel
  obtain ⟨hrun,hreplies⟩ := replies_never_loop parsingPlatform gossipMembers parsing_lawful
    parsing_readsLines
  cases hbytes : beaconBytes parsingPlatform (gossipMembers false) sampleClock with
  | error e =>
    rw [hbytes] at hb
    cases hb
  | ok data =>
    have hround : gossipRound parsingPlatform (gossipMembers false) sampleClock .start (beaconAt 5)=
        (⟨Table.empty.put (workerRow 5),true⟩,some (workerId,data)) := by
      rw [gossipRound,parsing_accepts,hbytes]
      rfl
    have hk : sampleGossip.flight[0]?=some (beaconAt 5).data := rfl
    have hstep := @step_deliver _ _ _ gossipMembers _ 0 false _ _ _ _ hk _ _ hround
    refine ⟨_,hstep,rfl,?_,fun acts u => hrun _ acts u⟩
    refine hreplies _ ?_ false workerId
    exact ⟨sampleGossip,[_],rfl,by rw [Machine.run_cons,hstep]; rfl⟩

end Sample

end AgentTorrent
