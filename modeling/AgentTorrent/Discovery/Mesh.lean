import AgentTorrent.Discovery.Beacons

open Framework

namespace AgentTorrent

/-- A datagram on its way. Each peer has an address of its own, so the addresses are the
peers. -/
structure Packet (ι : Type) where
  src : ι
  dst : ι
  data : Bytes

/-- The discoveries of all peers, the datagrams in flight, and who sent beacons to whom from
_send_loop. -/
structure Mesh (ι : Type) where
  nodes : ι → Discovery
  flight : List (Packet ι)
  announced : List (ι×ι)

/-- sendto raises OSError for a datagram that is too long, and both callers only log that. -/
def Mesh.send {ι : Type} (pk : Packet ι) (s : Mesh ι) : Mesh ι :=
  if pk.data.length ≤ maxUdpPayload then {s with flight := s.flight++[pk]} else s

@[simp] theorem Mesh.send_nodes {ι : Type} (pk : Packet ι) (s : Mesh ι) :
    (s.send pk).nodes=s.nodes := by
  unfold send
  split_ifs <;> rfl

theorem Mesh.mem_send {ι : Type} {pk x : Packet ι} {s : Mesh ι} (h : x∈(s.send pk).flight) :
    x∈s.flight ∨ x=pk := by
  unfold send at h
  split_ifs at h
  · exact (List.mem_append.mp h).imp_right List.mem_singleton.mp
  · exact .inl h

/-- b puts the row into its table, with these datagrams then in flight. -/
def Mesh.learn {ι : Type} [DecidableEq ι] (b : ι) (row : PeerInfo) (flight : List (Packet ι))
    (s : Mesh ι) : Mesh ι :=
  {s with
    nodes := Function.update s.nodes b ⟨(s.nodes b).table.put row,true⟩
    flight := flight}

inductive MeshAction (ι : Type)
  /-- _send_loop of p sends to a target that reaches q -/
  | announce (p q : ι) (ts : Timestamp)
  | deliver (k : Nat) (now : Time) (ts : Timestamp)
  | lose (k : Nat)
  | duplicate (k : Nat)
  | peers (p : ι) (now : Time)
  | restart (p : ι)

variable (P : Platform) {ι : Type} [DecidableEq ι] (members : ι → BeaconPeer) (host : ι → PyStr)

/-- Discovery among peers whose datagrams come from and go to addresses: a reply goes to
where the beacon came from. -/
def meshMachine : Machine (Mesh ι) (MeshAction ι) where
  init s := s=⟨fun _ => .start,[],[]⟩
  step s
    | .announce p q ts => match beaconBytes P (members p) ts with
      | .error _ => none
      | .ok data => some ({s with announced := s.announced++[(p,q)]}.send ⟨p,q,data⟩)
    | .deliver k now ts => match s.flight[k]? with
      | none => none
      | some pk =>
        let next := gossipRound P (members pk.dst) ts (s.nodes pk.dst)
          ⟨pk.data.take recvBufsize,host pk.src,now⟩
        some ((next.2.map fun reply => ⟨pk.dst,pk.src,reply.2⟩).elim id Mesh.send
          {s with nodes := Function.update s.nodes pk.dst next.1,flight := s.flight.eraseIdx k})
    | .lose k => if k < s.flight.length then some {s with flight := s.flight.eraseIdx k} else none
    | .duplicate k => match s.flight[k]? with
      | none => none
      | some pk => some {s with flight := s.flight++[pk]}
    | .peers p now => some {s with
        nodes := Function.update s.nodes p
          {s.nodes p with table := (AgentTorrent.peers now (s.nodes p).table).2}}
    | .restart p => some {s with nodes := Function.update s.nodes p .start}

/-- The table of p has a row for q. -/
def Knows (s : Mesh ι) (p q : ι) : Prop :=
  ((s.nodes p).table.find ((members q).id P)).isSome=true

/-- q has heard of p, or a beacon of p is on its way to q. -/
def HeardFrom (s : Mesh ι) (p q : ι) : Prop :=
  Knows P members s q p ∨ ∃pk∈s.flight,pk.src=p ∧ pk.dst=q

/-- A beacon can be built at that time, and a datagram holds it. -/
def Sends (p : ι) (ts : Timestamp) : Prop :=
  ∃data,beaconBytes P (members p) ts=.ok data ∧ data.length ≤ maxUdpPayload

/-- Nothing is lost, no peer restarts and no row expires. -/
def Lossless (s : Mesh ι) : MeshAction ι → Mesh ι → Prop
  | .announce p _ ts,_ => Sends P members p ts
  | .deliver k _ ts,_ => ∀pk,s.flight[k]?=some pk → Sends P members pk.dst ts
  | .duplicate _,_ => True
  | .peers p now,_ => expired now (s.nodes p).table=[]
  | .lose _,_ | .restart _,_ => False

variable {P members host}

/-- Every datagram in flight is a beacon of its sender that recvfrom takes whole. -/
def Honest (P : Platform) (members : ι → BeaconPeer) (s : Mesh ι) : Prop :=
  ∀pk∈s.flight,pk.data.length ≤ maxUdpPayload ∧
    ∃ts,beaconBytes P (members pk.src) ts=.ok pk.data

omit [DecidableEq ι] in
theorem Honest.send {s : Mesh ι} {pk : Packet ι} (h : Honest P members s) {ts : Timestamp}
    (hb : beaconBytes P (members pk.src) ts=.ok pk.data) : Honest P members (s.send pk) := by
  unfold Mesh.send
  split_ifs with hl
  · intro q hq
    obtain hq | hq := List.mem_append.mp hq
    · exact h q hq
    · rw [List.mem_singleton.mp hq]
      exact ⟨hl,ts,hb⟩
  · exact h

omit [DecidableEq ι] in
theorem Honest.erase {s : Mesh ι} (h : Honest P members s) (k : Nat) (nodes : ι → Discovery) :
    Honest P members {s with nodes := nodes,flight := s.flight.eraseIdx k} :=
  fun pk hpk => h pk (List.mem_of_mem_eraseIdx hpk)

section Round

variable {peer : BeaconPeer} {ts : Timestamp} {s : Discovery} {d : Datagram} {row : PeerInfo}
  (hr : s.receiving=true)

include hr

theorem gossipRound_dropped (ha : acceptBeacon P (peer.id P) d=.ok none) :
    gossipRound P peer ts s d=(s,none) := by
  unfold gossipRound
  rw [if_neg (not_not.mpr hr),ha]

theorem gossipRound_known (ha : acceptBeacon P (peer.id P) d=.ok (some row))
    (hf : (s.table.find row.peerId).isSome=true) :
    gossipRound P peer ts s d=(⟨s.table.put row,true⟩,none) := by
  unfold gossipRound
  rw [if_neg (not_not.mpr hr),ha]
  simp only [hf,if_true,hr]

theorem gossipRound_new (ha : acceptBeacon P (peer.id P) d=.ok (some row))
    (hf : ¬(s.table.find row.peerId).isSome=true) {data : Bytes}
    (hd : beaconBytes P peer ts=.ok data) :
    gossipRound P peer ts s d=(⟨s.table.put row,true⟩,some (row.peerId,data)) := by
  unfold gossipRound
  rw [if_neg (not_not.mpr hr),ha]
  simp only [if_neg hf,hd,hr]

end Round

/-- A delivery takes the packet out of the flight. It leaves the table of the addressee as it
is, or it puts the row of a beacon there, whose source is answered where the row is new. -/
theorem meshDeliver_cases {s t : Mesh ι} {k : Nat} {now : Time} {ts : Timestamp}
    (h : (meshMachine P members host).step s (.deliver k now ts)=some t) :
    ∃pk n reply,s.flight[k]?=some pk ∧
      t=(reply.elim id Mesh.send
        {s with nodes := Function.update s.nodes pk.dst n,flight := s.flight.eraseIdx k}) ∧
      (n.table=(s.nodes pk.dst).table ∧ reply=none ∨
        ∃row,acceptBeacon P ((members pk.dst).id P)
            ⟨pk.data.take recvBufsize,host pk.src,now⟩=.ok (some row) ∧
          n.table=(s.nodes pk.dst).table.put row ∧
          ∀answer,reply=some answer → answer.src=pk.dst ∧ answer.dst=pk.src ∧
            (s.nodes pk.dst).table.find row.peerId=none ∧
            beaconBytes P (members pk.dst) ts=.ok answer.data) := by
  simp only [meshMachine] at h
  split at h
  · cases h
  · rename_i pk hk
    cases h
    refine ⟨pk,_,_,hk,rfl,?_⟩
    obtain ⟨ht,hn⟩ | ⟨row,hrow,ht,hreply⟩ := @gossipRound_cases P (members pk.dst) ts
      (s.nodes pk.dst) ⟨pk.data.take recvBufsize,host pk.src,now⟩
    · exact .inl ⟨ht,by rw [hn]; rfl⟩
    · refine .inr ⟨row,hrow,ht,?_⟩
      intro answer ha
      obtain ⟨reply,hr,rfl⟩ := Option.map_eq_some_iff.mp ha
      obtain ⟨hn,-,hb⟩ := hreply reply hr
      exact ⟨rfl,rfl,hn,hb⟩

theorem Honest.step {s t : Mesh ι} {a : MeshAction ι} (h : Honest P members s)
    (hs : (meshMachine P members host).step s a=some t) : Honest P members t := by
  cases a with
  | announce p q ts =>
    simp only [meshMachine] at hs
    split at hs
    · cases hs
    · rename_i data hb
      cases hs
      exact Honest.send (s := {s with announced := s.announced++[(p,q)]}) h hb
  | deliver k now ts =>
    obtain ⟨pk,n,reply,hk,rfl,round⟩ := meshDeliver_cases hs
    cases reply with
    | none => exact h.erase k _
    | some answer =>
      obtain ⟨-,hn⟩ | ⟨row,-,-,hreply⟩ := round
      · cases hn
      · obtain ⟨hsrc,-,-,hb⟩ := hreply answer rfl
        exact (h.erase k _).send (by rw [hsrc]; exact hb)
  | lose k =>
    simp only [meshMachine] at hs
    split_ifs at hs
    cases hs
    exact h.erase k s.nodes
  | duplicate k =>
    simp only [meshMachine] at hs
    split at hs
    · cases hs
    · rename_i pk hk
      cases hs
      intro q hq
      obtain hq | hq := List.mem_append.mp hq
      · exact h q hq
      · rw [List.mem_singleton.mp hq]
        exact h pk (List.mem_of_getElem? hk)
  | peers p now =>
    cases hs
    exact h
  | restart p =>
    cases hs
    exact h

theorem mesh_honest {s : Mesh ι} (h : (meshMachine P members host).Reachable s) :
    Honest P members s := by
  refine @Machine.Reachable.invariant _ _ (meshMachine P members host) (Honest P members) ?_ ?_ s h
  · intro s hi
    cases hi
    intro pk hpk
    cases hpk
  · exact fun s a t hs ht => hs.step ht

section Update

variable {s t : Mesh ι} {b p q : ι} {n : Discovery} (ht : t.nodes=Function.update s.nodes b n)

include ht

theorem knows_self : Knows P members t b q ↔
    (n.table.find ((members q).id P)).isSome=true := by
  rw [Knows,ht,Function.update_self]

theorem knows_of_ne (hp : p≠b) : Knows P members t p q ↔ Knows P members s p q := by
  rw [Knows,ht,Function.update_of_ne hp]
  rfl

end Update

/-- Peers that run the program: their keys sign, their ids differ, and none was started with a
runtime limit that hides it. -/
structure HonestPeers (P : Platform) (starts : ι → StartUp) : Prop where
  signs : ∀p msg,(starts p).identity.Signs P msg
  apart : ∀p q,(starts p).id P=(starts q).id P → p=q
  visible : ∀p,0 < (starts p).config.maxRuntimeSeconds

section Honest

variable {float : PyStr → PyFloat} (hP : P.Lawful float) (hR : P.ReadsLines float)
  {starts : ι → StartUp} (hM : HonestPeers P starts)

/-- What Peer.start hands to each Discovery. -/
abbrev beacons (starts : ι → StartUp) (p : ι) : BeaconPeer := (starts p).beacon hP

include hM hR

omit [DecidableEq ι] in
/-- A beacon of an honest peer makes its row at every other peer, and none at its own. -/
theorem honest_accepted {p q : ι} {ts : Timestamp} {data : Bytes}
    (hb : beaconBytes P (beacons hP starts p) ts=.ok data) (hl : data.length ≤ maxUdpPayload)
    (h : PyStr) (now : Time) :
    p=q ∧ acceptBeacon P ((starts q).id P) ⟨data.take recvBufsize,h,now⟩=.ok none ∨
    p≠q ∧ ∃row,acceptBeacon P ((starts q).id P) ⟨data.take recvBufsize,h,now⟩=.ok (some row) ∧
      Announces P (starts p) row ∧ row.host=h := by
  have ho := beacon_opens hP hR (hM.signs p) hb
  have hdata : data.take recvBufsize=data := List.take_of_length_le (hl.trans (by decide))
  rw [hdata]
  by_cases hpq : p=q
  · subst hpq
    exact .inl ⟨rfl,by simp only [acceptBeacon,ho,if_true]⟩
  · refine .inr ⟨hpq,?_⟩
    have hme : (starts p).id P≠(starts q).id P := fun e => hpq (hM.apart p q e)
    have hid : ((starts p).id P).val≠[] := by
      intro he
      have hv := ((starts p).id P).property
      rw [he] at hv
      cases hv
    have hs : ManifestSchema ((starts p).peer.manifest P) :=
      (buildManifest_valid hid _ _ _).mpr (hM.visible p)
    have hv : validateManifest ((starts p).peer.manifest P)=
        .ok ⟨_,rfl,(manifestProblems_nil_iff _).mpr hs⟩ :=
      (validateManifest_ok_iff _ _).mpr ⟨hs,rfl⟩
    have ha := acceptBeacon_opened hP (starts q) ⟨data,h,now⟩ ho hme
    rw [hv] at ha
    exact ⟨_,ha,⟨rfl,rfl,rfl⟩,rfl⟩

/-- What the delivery of a beacon does where nothing goes wrong. -/
theorem deliver_honest {s t : Mesh ι} {k : Nat} {now : Time} {ts : Timestamp}
    (hh : Honest P (beacons hP starts) s) (hr : ∀p,(s.nodes p).receiving=true)
    (hg : Lossless P (beacons hP starts) s (.deliver k now ts) t)
    (h : (meshMachine P (beacons hP starts) host).step s (.deliver k now ts)=some t) :
    ∃pk,s.flight[k]?=some pk ∧
      (pk.src=pk.dst ∧ t={s with flight := s.flight.eraseIdx k} ∨
      pk.src≠pk.dst ∧ ∃row answer,Announces P (starts pk.src) row ∧ row.host=host pk.src ∧
        t=s.learn pk.dst row (s.flight.eraseIdx k++answer) ∧
        (∀x∈answer,x.src=pk.dst ∧ x.dst=pk.src) ∧
        (¬Knows P (beacons hP starts) s pk.dst pk.src → answer≠[])) := by
  simp only [meshMachine] at h
  cases hk : s.flight[k]? with
  | none => simp [hk] at h
  | some pk =>
    refine ⟨pk,rfl,?_⟩
    obtain ⟨hl,ts₀,hb⟩ := hh pk (List.mem_of_getElem? hk)
    obtain ⟨data,hd,hdl⟩ := hg pk hk
    simp only [hk] at h
    obtain ⟨he,ha⟩ | ⟨hne,row,ha,hrow,hhost⟩ :=
      honest_accepted hP hR hM (q := pk.dst) hb hl (host pk.src) now
    · rw [gossipRound_dropped (hr pk.dst) ha] at h
      simp only [Function.update_eq_self] at h
      exact .inl ⟨he,(Option.some.inj h).symm⟩
    · have hid : row.peerId=(beacons hP starts pk.src).id P := hrow.peerId
      refine .inr ⟨hne,row,?_⟩
      by_cases hn : Knows P (beacons hP starts) s pk.dst pk.src
      · rw [gossipRound_known (hr pk.dst) ha (by rw [hid]; exact hn)] at h
        refine ⟨[],hrow,hhost,?_,by simp,fun hc => absurd hn hc⟩
        rw [List.append_nil]
        exact (Option.some.inj h).symm
      · rw [gossipRound_new (hr pk.dst) ha (by rw [hid]; exact hn) hd] at h
        refine ⟨[⟨pk.dst,pk.src,data⟩],hrow,hhost,?_,by simp,by simp⟩
        rw [← Option.some.inj h]
        show Mesh.send _ _=_
        unfold Mesh.send
        rw [if_pos hdl]
        rfl

variable (starts) in
/-- What holds in every lossless run. A peer that is listed hears from the one that lists it,
and only those hear from each other of whom one announced itself to the other. -/
structure Meshed (host : ι → PyStr) (s : Mesh ι) : Prop where
  receiving : ∀p,(s.nodes p).receiving=true
  honest : Honest P (beacons hP starts) s
  rows : ∀p q row,(s.nodes p).table.find ((starts q).id P)=some row →
    Announces P (starts q) row ∧ row.host=host q
  self : ∀p,¬Knows P (beacons hP starts) s p p
  known : ∀p q,Knows P (beacons hP starts) s p q → HeardFrom P (beacons hP starts) s p q
  told : ∀p q,p≠q → (p,q)∈s.announced → HeardFrom P (beacons hP starts) s p q
  grounds : ∀p q,p≠q → HeardFrom P (beacons hP starts) s p q →
    (p,q)∈s.announced ∨ (q,p)∈s.announced

omit hR hM [DecidableEq ι] in
theorem peers_unexpired {now : Time} {t : PeerTable} (h : expired now t=[]) :
    (AgentTorrent.peers now t).2=t := by
  refine Table.ext (List.filter_eq_self.mpr ?_)
  intro row hrow
  refine decide_eq_true (not_lt.mp fun hl => ?_)
  have hm : row.peerId∈expired now t :=
    List.mem_map.mpr ⟨row,List.mem_filter.mpr ⟨hrow,decide_eq_true hl⟩,rfl⟩
  rw [h] at hm
  cases hm

omit hR in
theorem knows_put {s t : Mesh ι} {a b : ι} {n : Discovery} {row : PeerInfo}
    (ht : t.nodes=Function.update s.nodes b n) (hn : n.table=(s.nodes b).table.put row)
    (hrow : row.peerId=(beacons hP starts a).id P) (p q : ι) :
    Knows P (beacons hP starts) t p q ↔ Knows P (beacons hP starts) s p q ∨ p=b ∧ q=a := by
  by_cases hp : p=b
  · subst hp
    rw [knows_self ht,hn,Table.find_put,hrow]
    by_cases hq : a=q
    · subst hq
      simp
    · have hne : (beacons hP starts a).id P≠(beacons hP starts q).id P :=
        fun e => hq (hM.apart a q e)
      rw [if_neg hne]
      simp [Knows,Ne.symm hq]
  · rw [knows_of_ne ht hp]
    simp [hp]

omit hR hM [DecidableEq ι] in
theorem mem_erased {l : List (Packet ι)} {k : Nat} {pk x : Packet ι} (hk : l[k]?=some pk)
    (hx : x∈l) (hne : x≠pk) : x∈l.eraseIdx k := by
  obtain ⟨i,hi⟩ := List.mem_iff_getElem?.mp hx
  refine List.mem_eraseIdx_iff_getElem?.mpr ⟨i,?_,hi⟩
  intro e
  rw [e,hk] at hi
  exact hne (Option.some.inj hi).symm

omit hR hM [DecidableEq ι] in
/-- A beacon on its way to its own sender is dropped there. -/
theorem Meshed.dropped {s : Mesh ι} {k : Nat} {pk : Packet ι}
    (hs : Meshed hP starts host s) (hk : s.flight[k]?=some pk)
    (he : pk.src=pk.dst) : Meshed hP starts host
      {s with flight := s.flight.eraseIdx k} := by
  have same (p q : ι) (hpq : p≠q) : HeardFrom P (beacons hP starts)
      {s with flight := s.flight.eraseIdx k} p q ↔ HeardFrom P (beacons hP starts) s p q := by
    refine or_congr Iff.rfl ⟨?_,?_⟩
    · intro h
      obtain ⟨x,hx,hxp⟩ := h
      exact ⟨x,List.mem_of_mem_eraseIdx hx,hxp⟩
    · intro h
      obtain ⟨x,hx,hsrc,hdst⟩ := h
      refine ⟨x,mem_erased hk hx ?_,hsrc,hdst⟩
      intro e
      exact hpq (by rw [← hsrc,← hdst,e,he])
  constructor
  · exact hs.receiving
  · exact hs.honest.erase k s.nodes
  · exact hs.rows
  · exact hs.self
  · intro p q hpq
    have hne : p≠q := fun e => hs.self q (e ▸ hpq)
    exact (same p q hne).mpr (hs.known p q hpq)
  · intro p q hne hpq
    exact (same p q hne).mpr (hs.told p q hne hpq)
  · intro p q hne hpq
    exact hs.grounds p q hne ((same p q hne).mp hpq)

omit hR in
/-- A beacon that arrives leaves its row, and a reply on its way where the row is new. -/
theorem Meshed.received {s t : Mesh ι} {k : Nat} {pk : Packet ι} {row : PeerInfo}
    {answer : List (Packet ι)} (hs : Meshed hP starts host s)
    (hk : s.flight[k]?=some pk) (hne : pk.src≠pk.dst) (hrow : Announces P (starts pk.src) row)
    (hhost : row.host=host pk.src) (ha : ∀x∈answer,x.src=pk.dst ∧ x.dst=pk.src)
    (hnew : ¬Knows P (beacons hP starts) s pk.dst pk.src → answer≠[])
    (ht : t=s.learn pk.dst row (s.flight.eraseIdx k++answer))
    (hh : Honest P (beacons hP starts) t) : Meshed hP starts host t := by
  subst ht
  have knows := knows_put hP hM (t := s.learn pk.dst row (s.flight.eraseIdx k++answer)) rfl
    rfl hrow.peerId
  have keeps (p q : ι) (h : HeardFrom P (beacons hP starts) s p q) : HeardFrom P (beacons hP starts)
      (s.learn pk.dst row (s.flight.eraseIdx k++answer)) p q := by
    obtain h | ⟨x,hx,hsrc,hdst⟩ := h
    · exact .inl ((knows q p).mpr (.inl h))
    · by_cases hxk : x=pk
      · subst hxk
        exact .inl ((knows q p).mpr (.inr ⟨hdst.symm,hsrc.symm⟩))
      · exact .inr ⟨x,List.mem_append_left _ (mem_erased hk hx hxk),hsrc,hdst⟩
  -- only the two ends of the delivered beacon can come to reach each other
  have came : HeardFrom P (beacons hP starts) s pk.src pk.dst :=
    .inr ⟨pk,List.mem_of_getElem? hk,rfl,rfl⟩
  have back {p q : ι} (h : HeardFrom P (beacons hP starts)
      (s.learn pk.dst row (s.flight.eraseIdx k++answer)) p q) :
      HeardFrom P (beacons hP starts) s p q ∨ p=pk.src ∧ q=pk.dst ∨ p=pk.dst ∧ q=pk.src := by
    obtain h | ⟨x,hx,hsrc,hdst⟩ := h
    · obtain h | ⟨hq,hp⟩ := (knows q p).mp h
      · exact .inl (.inl h)
      · exact .inr (.inl ⟨hp,hq⟩)
    · obtain hx | hx := List.mem_append.mp hx
      · exact .inl (.inr ⟨x,List.mem_of_mem_eraseIdx hx,hsrc,hdst⟩)
      · obtain ⟨h1,h2⟩ := ha x hx
        exact .inr (.inr ⟨hsrc.symm.trans h1,hdst.symm.trans h2⟩)
  constructor
  · intro p
    by_cases hp : p=pk.dst
    · subst hp
      simp only [Mesh.learn,Function.update_self]
    · simp only [Mesh.learn,Function.update_of_ne hp,hs.receiving p]
  · exact hh
  · intro p q r hr
    by_cases hp : p=pk.dst
    · subst hp
      simp only [Mesh.learn,Function.update_self,Table.find_put] at hr
      split_ifs at hr with hq
      · cases hr
        have he : pk.src=q := hM.apart pk.src q (hrow.peerId.symm.trans hq)
        exact ⟨he ▸ hrow,he ▸ hhost⟩
      · exact hs.rows _ q r hr
    · simp only [Mesh.learn,Function.update_of_ne hp] at hr
      exact hs.rows p q r hr
  · intro p hp
    obtain h | ⟨hd,hsrc⟩ := (knows p p).mp hp
    · exact hs.self p h
    · exact hne (hsrc.symm.trans hd)
  · intro p q hpq
    obtain h | ⟨rfl,rfl⟩ := (knows p q).mp hpq
    · exact keeps p q (hs.known p q h)
    · by_cases hn : Knows P (beacons hP starts) s pk.dst pk.src
      · exact keeps _ _ (hs.known _ _ hn)
      · obtain ⟨x,hx⟩ := List.exists_mem_of_ne_nil answer (hnew hn)
        exact .inr ⟨x,List.mem_append_right _ hx,ha x hx⟩
  · exact fun p q hpq hm => keeps p q (hs.told p q hpq hm)
  · intro p q hpq h
    obtain h | ⟨rfl,rfl⟩ | ⟨rfl,rfl⟩ := back h
    · exact hs.grounds p q hpq h
    · exact hs.grounds _ _ hne came
    · exact (hs.grounds _ _ hne came).symm

omit hR hM [DecidableEq ι] in
/-- One more datagram in flight, of a pair that has grounds to reach each other. -/
theorem Meshed.sent {s t : Mesh ι} (pk : Packet ι) (hs : Meshed hP starts host s)
    (hn : t.nodes=s.nodes) (hf : t.flight=s.flight++[pk])
    (hh : Honest P (beacons hP starts) t) (ha : ∀pq∈s.announced,pq∈t.announced)
    (ht : ∀pq∈t.announced,pq∈s.announced ∨ pq=(pk.src,pk.dst))
    (hg : pk.src≠pk.dst → (pk.src,pk.dst)∈t.announced ∨ (pk.dst,pk.src)∈t.announced) :
    Meshed hP starts host t := by
  have knows (p q : ι) : Knows P (beacons hP starts) t p q ↔ Knows P (beacons hP starts) s p q := by
    unfold Knows
    rw [hn]
  have reaches (p q : ι) : HeardFrom P (beacons hP starts) t p q ↔
      HeardFrom P (beacons hP starts) s p q ∨ pk.src=p ∧ pk.dst=q := by
    unfold HeardFrom
    rw [knows q p,hf,or_assoc]
    refine or_congr Iff.rfl ⟨?_,?_⟩
    · intro h
      obtain ⟨x,hx,hxp⟩ := h
      obtain hx | hx := List.mem_append.mp hx
      · exact .inl ⟨x,hx,hxp⟩
      · rw [List.mem_singleton.mp hx] at hxp
        exact .inr hxp
    · intro h
      obtain ⟨x,hx,hxp⟩ | h := h
      · exact ⟨x,List.mem_append_left _ hx,hxp⟩
      · exact ⟨pk,List.mem_append_right _ List.mem_cons_self,h⟩
  constructor
  · rw [hn]
    exact hs.receiving
  · exact hh
  · rw [hn]
    exact hs.rows
  · exact fun p hp => hs.self p ((knows p p).mp hp)
  · exact fun p q hpq => (reaches p q).mpr (.inl (hs.known p q ((knows p q).mp hpq)))
  · intro p q hpq hm
    obtain hm | he := ht _ hm
    · exact (reaches p q).mpr (.inl (hs.told p q hpq hm))
    · cases he
      exact (reaches _ _).mpr (.inr ⟨rfl,rfl⟩)
  · intro p q hpq h
    obtain h | ⟨rfl,rfl⟩ := (reaches p q).mp h
    · exact (hs.grounds p q hpq h).imp (ha _) (ha _)
    · exact hg hpq

theorem Meshed.step {s t : Mesh ι} {a : MeshAction ι} (hs : Meshed hP starts host s)
    (h : (meshMachine P (beacons hP starts) host).step s a=some t)
    (hg : Lossless P (beacons hP starts) s a t) : Meshed hP starts host t := by
  have hh := hs.honest.step h
  cases a with
  | announce p q ts =>
    obtain ⟨data,hb,hl⟩ := hg
    simp only [meshMachine,hb,Mesh.send,if_pos hl] at h
    cases h
    refine hs.sent hP ⟨p,q,data⟩ rfl rfl hh ?_ ?_ ?_
    · exact fun pq hpq => List.mem_append_left _ hpq
    · intro pq hpq
      exact (List.mem_append.mp hpq).imp_right List.mem_singleton.mp
    · exact fun _ => .inl (List.mem_append_right _ List.mem_cons_self)
  | deliver k now ts =>
    obtain ⟨pk,hk,⟨he,rfl⟩ | ⟨hne,row,answer,hrow,hhost,ht,ha,hnew⟩⟩ :=
      deliver_honest hP hR hM hs.honest hs.receiving hg h
    · exact hs.dropped hP hk he
    · exact hs.received hP hM hk hne hrow hhost ha hnew ht hh
  | duplicate k =>
    simp only [meshMachine] at h
    split at h
    · cases h
    · rename_i pk hk
      cases h
      refine hs.sent hP pk rfl rfl hh (fun _ h => h) (fun _ h => .inl h) ?_
      exact fun hne => hs.grounds _ _ hne (.inr ⟨pk,List.mem_of_getElem? hk,rfl,rfl⟩)
  | peers p now =>
    have he : (AgentTorrent.peers now (s.nodes p).table).2=(s.nodes p).table :=
      peers_unexpired hg
    simp only [meshMachine,he,Function.update_eq_self] at h
    cases h
    exact hs
  | lose k => exact absurd hg id
  | restart p => exact absurd hg id

theorem lossless_meshed {s : Mesh ι} (h : (meshMachine P (beacons hP starts) host).ReachableBy
    (Lossless P (beacons hP starts)) s) : Meshed hP starts host s := by
  refine @Machine.ReachableBy.invariant _ _ (meshMachine P (beacons hP starts) host) _
    (Meshed hP starts host) ?_ ?_ s h
  · intro s hi
    cases hi
    refine ⟨fun _ => rfl,?_,?_,?_,?_,?_,?_⟩
    · intro pk hpk
      cases hpk
    · intro p q row hr
      cases hr
    · intro p hp
      cases hp
    · intro p q hpq
      cases hpq
    · intro p q _ hm
      cases hm
    · intro p q _ hr
      obtain hr | ⟨pk,hpk,_⟩ := hr
      · cases hr
      · cases hpk
  · exact fun s a t _ hs ht hg => hs.step hP hR hM ht hg

variable (starts) in
/-- q sends p nothing of its own accord, does not restart and keeps its row of p. -/
def Unprompted (p q : ι) (s : Mesh ι) : MeshAction ι → Mesh ι → Prop
  | .announce x y _,_ => ¬(x=q ∧ y=p)
  | .restart x,_ => x≠q
  | .peers x now,_ => x=q → (beacons hP starts p).id P∉expired now (s.nodes q).table
  | _,_ => True

variable (starts) in
/-- q lists p, p does not list q, and no beacon of q is on its way to p. -/
structure OneSided (p q : ι) (s : Mesh ι) : Prop where
  honest : Honest P (beacons hP starts) s
  knows : Knows P (beacons hP starts) s q p
  unknown : ¬Knows P (beacons hP starts) s p q
  flight : ∀pk∈s.flight,¬(pk.src=q ∧ pk.dst=p)

theorem OneSided.step {s t : Mesh ι} {a : MeshAction ι} {p q : ι}
    (hs : OneSided hP starts p q s)
    (h : (meshMachine P (beacons hP starts) host).step s a=some t)
    (hg : Unprompted hP starts p q s a t) :
    OneSided hP starts p q t := by
  have hh := hs.honest.step h
  cases a with
  | announce x y ts =>
    simp only [meshMachine] at h
    split at h
    · cases h
    · rename_i data hb
      cases h
      refine ⟨hh,?_,?_,?_⟩
      · simpa [Knows] using hs.knows
      · simpa [Knows] using hs.unknown
      · intro pk hpk
        obtain hpk | rfl := Mesh.mem_send hpk
        · exact hs.flight pk hpk
        · exact hg
  | deliver k now ts =>
    obtain ⟨pk,n,reply,hk,ht,round⟩ := meshDeliver_cases h
    have hpk := List.mem_of_getElem? hk
    have hn : t.nodes=Function.update s.nodes pk.dst n := by
      rw [ht]
      cases reply with
      | none => rfl
      | some answer => exact Mesh.send_nodes _ _
    have old {x : Packet ι} (hx : x∈t.flight) : x∈s.flight ∨ reply=some x := by
      rw [ht] at hx
      cases reply with
      | none => exact .inl (List.mem_of_mem_eraseIdx hx)
      | some answer =>
        obtain hx | rfl := Mesh.mem_send hx
        · exact .inl (List.mem_of_mem_eraseIdx hx)
        · exact .inr rfl
    obtain ⟨htable,hnone⟩ | ⟨row,hrow,htable,hreply⟩ := round
    · have knows (x y : ι) : Knows P (beacons hP starts) t x y ↔
          Knows P (beacons hP starts) s x y := by
        by_cases hx : x=pk.dst
        · subst hx
          rw [knows_self hn,htable]
          rfl
        · exact knows_of_ne hn hx
      refine ⟨hh,(knows q p).mpr hs.knows,fun hk => hs.unknown ((knows p q).mp hk),?_⟩
      intro x hx
      obtain hx | hx := old hx
      · exact hs.flight x hx
      · rw [hnone] at hx
        cases hx
    · obtain ⟨hl,ts₀,hb⟩ := hs.honest pk hpk
      have hid : row.peerId=(beacons hP starts pk.src).id P := by
        have hsend := senderOf_accepted hrow
        rw [List.take_of_length_le (hl.trans (by decide))] at hsend
        exact beacon_sender hP hR hb hsend
      have knows := knows_put hP hM hn htable hid
      refine ⟨hh,(knows q p).mpr (.inl hs.knows),?_,?_⟩
      · intro hk
        obtain hk | ⟨hd,hsrc⟩ := (knows p q).mp hk
        · exact hs.unknown hk
        · exact hs.flight pk hpk ⟨hsrc.symm,hd.symm⟩
      · intro x hx
        obtain hx | hx := old hx
        · exact hs.flight x hx
        -- q would answer only a peer that it does not list
        · intro h
          obtain ⟨hsrc,hdst⟩ := h
          obtain ⟨h1,h2,hnew,-⟩ := hreply x hx
          have hk := hs.knows
          rw [Knows,← hsrc,← hdst,h1,h2,← hid,hnew] at hk
          cases hk
  | lose k =>
    simp only [meshMachine] at h
    split_ifs at h
    cases h
    exact ⟨hh,hs.knows,hs.unknown,fun pk hpk => hs.flight pk (List.mem_of_mem_eraseIdx hpk)⟩
  | duplicate k =>
    simp only [meshMachine] at h
    split at h
    · cases h
    · rename_i pk hk
      cases h
      refine ⟨hh,hs.knows,hs.unknown,?_⟩
      intro x hx
      obtain hx | hx := List.mem_append.mp hx
      · exact hs.flight x hx
      · rw [List.mem_singleton.mp hx]
        exact hs.flight pk (List.mem_of_getElem? hk)
  | peers x now =>
    cases h
    refine ⟨hh,?_,?_,hs.flight⟩
    · by_cases hx : q=x
      · subst hx
        refine (knows_self rfl).mpr (Option.isSome_iff_ne_none.mpr ?_)
        intro hf
        obtain hf | hf := (find_peers now).mp hf
        · exact Option.isSome_iff_ne_none.mp hs.knows hf
        · exact hg rfl hf
      · exact (knows_of_ne rfl hx).mpr hs.knows
    · by_cases hx : p=x
      · subst hx
        intro hk
        have hn := Option.not_isSome_iff_eq_none.mp hs.unknown
        exact Option.isSome_iff_ne_none.mp ((knows_self rfl).mp hk)
          ((find_peers now).mpr (.inl hn))
      · exact fun hk => hs.unknown ((knows_of_ne rfl hx).mp hk)
  | restart x =>
    cases h
    refine ⟨hh,(knows_of_ne rfl (Ne.symm hg)).mpr hs.knows,?_,hs.flight⟩
    by_cases hx : p=x
    · subst hx
      intro hk
      cases (knows_self rfl).mp hk
    · exact fun hk => hs.unknown ((knows_of_ne rfl hx).mp hk)

end Honest

section Sample

def meshPeers : Bool → StartUp
  | true => sampleStart workerKey 300
  | false => sampleStart requesterKey 60

def sampleAddress (p : Bool) : PyStr := if p then lit "192.168.1.20" else lit "192.168.1.10"

abbrev sampleMachine := meshMachine trustingPlatform (beacons trusting_lawful meshPeers)
  sampleAddress

def sendsAt (p : Bool) (ts : Timestamp) : Bool :=
  (beaconBytes trustingPlatform (beacons trusting_lawful meshPeers p) ts).toOption.any
    fun data => data.length ≤ maxUdpPayload

/-- The guard of lossless runs, for announcements and deliveries. -/
def losslessCheck (s : Mesh Bool) : MeshAction Bool → Bool
  | .announce p _ ts => sendsAt p ts
  | .deliver k _ ts => (s.flight[k]?).all fun pk => sendsAt pk.dst ts
  | _ => false

/-- A worker announces itself to a requester that cannot reach it by broadcast. -/
def sampleBootstrap : List (MeshAction Bool) :=
  [.announce true false sampleClock,.deliver 0 0 sampleClock,.deliver 0 1 sampleClock,
    .deliver 0 2 sampleClock]

def meshAfter (s : Mesh Bool) (acts : List (MeshAction Bool)) : Mesh Bool :=
  (sampleMachine.run s acts).getD s

def meshStart : Mesh Bool := ⟨fun _ => .start,[],[]⟩

/-- The worker restarts, and announces itself to the requester once more. -/
def sampleAgain : List (MeshAction Bool) :=
  [.announce true false sampleClock,.deliver 0 3 sampleClock]

def unpromptedCheck (_ : Mesh Bool) : MeshAction Bool → Bool
  | .announce x y _ => !(!x && y)
  | .deliver .. => true
  | _ => false

def meshRestarted : Mesh Bool := meshAfter meshStart (sampleBootstrap++[.restart true])

end Sample

end AgentTorrent
