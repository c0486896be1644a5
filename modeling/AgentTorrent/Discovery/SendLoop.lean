import AgentTorrent.Discovery.Gossip
import AgentTorrent.Python.IntText

namespace AgentTorrent

/-- The first and the last part of s.rpartition(sep), none where sep does not occur. -/
def rpartition (sep : CodePoint) : PyStr → Option (PyStr×PyStr)
  | [] => none
  | c::cs => match rpartition sep cs with
    | some (head,tail) => some (c::head,tail)
    | none => if c=sep then some ([],cs) else none

def colon : CodePoint := codePoint 0x3a

def broadcastTargets : List PyStr := [lit "255.255.255.255",lit "127.255.255.255"]

abbrev UdpTarget := PyStr×Int

/-- What _send_loop reads: what it beacons, the port that the socket is bound to, and the
entries that the user gave. -/
structure BeaconSender where
  peer : BeaconPeer
  discoveryPort : Int
  bound : 0 ≤ discoveryPort ∧ discoveryPort<65536
  bootstrapPeers : List PyStr

inductive SendTo
  | sent
  | osError
  | raised (e : PyExc)

/-- What one round of the loop meets: the clock, and the sends that fail. -/
structure SendRound where
  ts : Timestamp
  fails : UdpTarget → Bool

variable (P : Platform) (encodable : PyStr → Bool)

/-- sendto of a beacon. A UnicodeError is a ValueError. -/
def sendTo (r : SendRound) (addr : UdpTarget) : SendTo :=
  if ¬encodable addr.1 then .raised .valueError
  else if addr.2<0 ∨ 65535<addr.2 then .raised .overflowError
  else if r.fails addr then .osError
  else .sent

/-- The targets that a round adds for the entries. -/
def bootstrapTargets : List PyStr → Except PyExc (List UdpTarget)
  | [] => .ok []
  | entry::entries => match rpartition colon entry with
    | none => bootstrapTargets entries
    | some (host,port) =>
      if host=[] then bootstrapTargets entries
      else match pyInt P port with
        | none => .error .valueError
        | some n => match bootstrapTargets entries with
          | .error e => .error e
          | .ok targets => .ok ((host,n)::targets)

/-- The sends of a round, and the exception that leaves it. Only OSError has a handler. -/
def sendAll (r : SendRound) (data : Bytes) : List UdpTarget → List (Bytes×UdpTarget)×Option PyExc
  | [] => ([],none)
  | addr::addrs => match sendTo encodable r addr with
    | .raised e => ([(data,addr)],some e)
    | .sent | .osError =>
      let rest := sendAll r data addrs
      ((data,addr)::rest.1,rest.2)

variable (s : BeaconSender)

/-- One round of _send_loop. -/
def sendRound (r : SendRound) : List (Bytes×UdpTarget)×Option PyExc :=
  match beaconBytes P s.peer r.ts with
  | .error e => ([],some e)
  | .ok data => match bootstrapTargets P s.bootstrapPeers with
    | .error e => ([],some e)
    | .ok targets => sendAll encodable r data
        (broadcastTargets.map (fun h => (h,s.discoveryPort))++targets)

/-- The rounds that _send_loop makes, with what each attempts to send. An exception ends
the thread. -/
def sendLoop : List SendRound → List (SendRound×List (Bytes×UdpTarget))
  | [] => []
  | r::rs =>
    let done := sendRound P encodable s r
    (r,done.1)::if done.2.isNone then sendLoop rs else []

/-- The entry is a host name that can be encoded, a colon and a decimal port. -/
structure NamesTarget (entry host : PyStr) (n : Int) : Prop where
  split : ∃port,entry=host++colon::port ∧ port≠[] ∧ (∀c∈port,isDigit c=true) ∧ natOf port=n
  host : host≠[] ∧ encodable host=true
  port : 1 ≤ n ∧ n≤65535

/-- The round attempts to send the beacon to both broadcast addresses and to every entry
that names a target. -/
def Reaches (r : SendRound) (attempts : List (Bytes×UdpTarget)) : Prop :=
  ∃data,beaconBytes P s.peer r.ts=.ok data ∧
    (∀h∈broadcastTargets,(data,h,s.discoveryPort)∈attempts) ∧
    ∀entry∈s.bootstrapPeers,∀host n,NamesTarget encodable entry host n → (data,host,n)∈attempts

/-- Every round is made, and reaches all that it should. -/
def NeverSilenced : Prop :=
  ∀rounds,(sendLoop P encodable s rounds).length=rounds.length ∧
    ∀x∈sendLoop P encodable s rounds,Reaches P encodable s x.1 x.2

/-- An entry without a host is skipped; any other has a port that int() reads as a port
number, and a host that can be encoded. -/
def Addressable (entry : PyStr) : Prop :=
  ∀host port,rpartition colon entry=some (host,port) → host≠[] →
    encodable host=true ∧ ∃n,pyInt P port=some n ∧ 0 ≤ n ∧ n≤65535

section Targets

variable {P encodable} {entries : List PyStr} {targets : List UdpTarget} {r : SendRound} {data : Bytes}

theorem rpartition_snoc {sep : CodePoint} {head tail : PyStr} (h : sep∉tail) :
    rpartition sep (head++sep::tail)=some (head,tail) := by
  have none' : rpartition sep tail=none := by
    induction tail with
    | nil => rfl
    | cons c cs ih =>
      rw [List.mem_cons,not_or] at h
      rw [rpartition,ih h.2]
      exact if_neg (Ne.symm h.1)
  induction head with
  | nil =>
    rw [List.nil_append,rpartition,none']
    exact if_pos rfl
  | cons c cs ih => rw [List.cons_append,rpartition,ih]

/-- An entry that names a target is parted where the port begins. -/
theorem NamesTarget.parted {entry host : PyStr} {n : Int} (h : NamesTarget encodable entry host n) :
    ∃port,rpartition colon entry=some (host,port) ∧ ∀m,pyInt P port=some m → m=n := by
  obtain ⟨port,rfl,hp,hd,hn⟩ := h.split
  refine ⟨port,rpartition_snoc ?_,?_⟩
  · intro hm
    have := hd colon hm
    revert this
    decide
  · intro m hm
    rw [pyInt_digits hp hd] at hm
    split_ifs at hm
    rw [← Option.some.inj hm,hn]

/-- Every entry with a host is parsed, or there are no targets at all. -/
theorem bootstrapTargets_ok (h : bootstrapTargets P entries=.ok targets) :
    ∀entry∈entries,∀host port,rpartition colon entry=some (host,port) → host≠[] →
      ∃n,pyInt P port=some n ∧ (host,n)∈targets := by
  induction entries generalizing targets with
  | nil => exact fun entry hm => nomatch hm
  | cons first entries ih =>
    intro entry hm host port hpart hhost
    rw [bootstrapTargets] at h
    rcases List.mem_cons.mp hm with rfl | hm
    · rw [hpart] at h
      dsimp only at h
      rw [if_neg hhost] at h
      cases hn : pyInt P port with
      | none => simp [hn] at h
      | some n =>
        cases ht : bootstrapTargets P entries with
        | error e => simp [hn,ht] at h
        | ok rest =>
          rw [hn,ht] at h
          rw [← Except.ok.inj h]
          exact ⟨n,rfl,List.mem_cons_self⟩
    · split at h
      · exact ih h entry hm host port hpart hhost
      · split_ifs at h
        · exact ih h entry hm host port hpart hhost
        · split at h
          · cases h
          · split at h
            · cases h
            · rename_i ht
              obtain ⟨n,hn,hmem⟩ := ih ht entry hm host port hpart hhost
              rw [← Except.ok.inj h]
              exact ⟨n,hn,List.mem_cons_of_mem _ hmem⟩

/-- Addressable entries give targets that sendto takes. -/
theorem bootstrapTargets_addressable (h : ∀entry∈entries,Addressable P encodable entry) :
    ∃targets,bootstrapTargets P entries=.ok targets ∧
      ∀t∈targets,encodable t.1=true ∧ 0 ≤ t.2 ∧ t.2≤65535 := by
  induction entries with
  | nil => exact ⟨[],rfl,fun t ht => nomatch ht⟩
  | cons entry entries ih =>
    obtain ⟨targets,ht,hs⟩ := ih fun e hm => h e (List.mem_cons_of_mem entry hm)
    have haddr := h entry List.mem_cons_self
    rw [bootstrapTargets,ht]
    cases hp : rpartition colon entry with
    | none => exact ⟨targets,rfl,hs⟩
    | some parts =>
      obtain ⟨host,port⟩ := parts
      by_cases hh : host=[]
      · exact ⟨targets,by simp [hh],hs⟩
      · obtain ⟨he,n,hn,h0,h1⟩ := haddr host port hp hh
        refine ⟨(host,n)::targets,by simp [hh,hn],?_⟩
        intro t hm
        rcases List.mem_cons.mp hm with rfl | hm
        · exact ⟨he,h0,h1⟩
        · exact hs t hm

theorem sendTo_quiet {addr : UdpTarget} (h : encodable addr.1=true ∧ 0 ≤ addr.2 ∧ addr.2≤65535) :
    sendTo encodable r addr=.sent ∨ sendTo encodable r addr=.osError := by
  unfold sendTo
  rw [if_neg (by simpa using h.1),if_neg (by omega)]
  split_ifs
  · exact .inr rfl
  · exact .inl rfl

theorem sendTo_taken {addr : UdpTarget} (h : ∀e,sendTo encodable r addr≠.raised e) :
    encodable addr.1=true ∧ 0 ≤ addr.2 ∧ addr.2≤65535 := by
  by_cases he : encodable addr.1=true
  · by_cases hp : addr.2<0 ∨ 65535<addr.2
    · exact absurd (by rw [sendTo,if_neg (not_not.mpr he),if_pos hp]) (h .overflowError)
    · exact ⟨he,by omega⟩
  · exact absurd (by rw [sendTo,if_pos he]) (h .valueError)

/-- Sends that do not raise are all attempted, whichever of them fail. -/
theorem sendAll_quiet {addrs : List UdpTarget}
    (h : ∀addr∈addrs,encodable addr.1=true ∧ 0 ≤ addr.2 ∧ addr.2≤65535) :
    sendAll encodable r data addrs=(addrs.map fun addr => (data,addr),none) := by
  induction addrs with
  | nil => rfl
  | cons addr addrs ih =>
    have hrest := ih fun a hm => h a (List.mem_cons_of_mem addr hm)
    rcases sendTo_quiet (r := r) (h addr List.mem_cons_self) with hs | hs
    all_goals
      rw [sendAll,hs]
      dsimp only
      rw [hrest]
      rfl

/-- Where no exception leaves the round, sendto has taken every target. -/
theorem sendAll_none {addrs : List UdpTarget} (h : (sendAll encodable r data addrs).2=none) :
    ∀addr∈addrs,encodable addr.1=true ∧ 0 ≤ addr.2 ∧ addr.2≤65535 := by
  induction addrs with
  | nil => exact fun addr hm => nomatch hm
  | cons first addrs ih =>
    intro addr hm
    cases hs : sendTo encodable r first with
    | raised e => simp [sendAll,hs] at h
    | sent | osError =>
      simp only [sendAll,hs] at h
      rcases List.mem_cons.mp hm with rfl | hm
      · exact sendTo_taken fun e he => by rw [hs] at he; cases he
      · exact ih h addr hm

end Targets

section Rounds

variable {P encodable s} {r : SendRound}

/-- A round of a sender whose entries are addressable reaches everything. -/
theorem sendRound_reaches (hb : ∀h∈broadcastTargets,encodable h=true)
    (hs : ∀ts,∃data,beaconBytes P s.peer ts=.ok data)
    (ha : ∀entry∈s.bootstrapPeers,Addressable P encodable entry) :
    (sendRound P encodable s r).2=none ∧
      Reaches P encodable s r (sendRound P encodable s r).1 := by
  obtain ⟨data,hd⟩ := hs r.ts
  obtain ⟨targets,ht,htaken⟩ := bootstrapTargets_addressable ha
  have hall : ∀addr∈broadcastTargets.map (fun h => (h,s.discoveryPort))++targets,
      encodable addr.1=true ∧ 0 ≤ addr.2 ∧ addr.2≤65535 := by
    intro addr hm
    rcases List.mem_append.mp hm with hm | hm
    · obtain ⟨h,hh,rfl⟩ := List.mem_map.mp hm
      have := s.bound
      exact ⟨hb h hh,by dsimp only; omega⟩
    · exact htaken addr hm
  simp only [sendRound,hd,ht,sendAll_quiet hall]
  refine ⟨trivial,data,hd,?_,?_⟩
  · intro h hh
    refine List.mem_map.mpr ⟨_,List.mem_append_left _ (List.mem_map.mpr ⟨h,hh,rfl⟩),rfl⟩
  · intro entry hm host n hn
    obtain ⟨port,hp,hport⟩ := hn.parted (P := P)
    obtain ⟨m,hm',hmem⟩ := bootstrapTargets_ok ht entry hm host port hp hn.host.1
    rw [hport m hm'] at hmem
    exact List.mem_map.mpr ⟨_,List.mem_append_right _ hmem,rfl⟩

/-- A round that no exception leaves has read every entry. -/
theorem sendRound_none (h : (sendRound P encodable s r).2=none) :
    (∃data,beaconBytes P s.peer r.ts=.ok data) ∧
      ∀entry∈s.bootstrapPeers,Addressable P encodable entry := by
  unfold sendRound at h
  split at h
  · cases h
  · rename_i data hd
    split at h
    · cases h
    · rename_i targets ht
      have hall := sendAll_none h
      refine ⟨⟨data,hd⟩,?_⟩
      intro entry hm host port hp hh
      obtain ⟨n,hn,hmem⟩ := bootstrapTargets_ok ht entry hm host port hp hh
      obtain ⟨he,h0,h1⟩ := hall (host,n) (List.mem_append_right _ hmem)
      exact ⟨he,n,hn,h0,h1⟩

theorem sendLoop_cons_none (h : (sendRound P encodable s r).2=none) (rs : List SendRound) :
    sendLoop P encodable s (r::rs)=
      (r,(sendRound P encodable s r).1)::sendLoop P encodable s rs := by
  simp only [sendLoop,h,Option.isNone_none,if_true]

end Rounds

/-- The loop goes on for ever and reaches every target exactly where each entry with a host
has a port that int() reads as a port number and a host that can be encoded. -/
theorem never_silenced_iff (hb : ∀h∈broadcastTargets,encodable h=true) :
    NeverSilenced P encodable s ↔ (∀ts,∃data,beaconBytes P s.peer ts=.ok data) ∧
      ∀entry∈s.bootstrapPeers,Addressable P encodable entry := by
  constructor
  · intro h
    -- A round after the first one shows that no exception left the first.
    have quiet (r : SendRound) : (sendRound P encodable s r).2=none := by
      have hl := (h [r,r]).1
      by_contra hn
      have hf : (sendRound P encodable s r).2.isNone=false := by
        rw [Option.isNone_eq_false_iff]
        exact Option.isSome_iff_ne_none.mpr hn
      simp [sendLoop,hf] at hl
    refine ⟨fun ts => (sendRound_none (quiet ⟨ts,fun _ => false⟩)).1,?_⟩
    have ts : Timestamp := ⟨⟨ascii "1.5",by decide⟩,by decide⟩
    exact (sendRound_none (quiet ⟨ts,fun _ => false⟩)).2
  · intro h rounds
    obtain ⟨hs,ha⟩ := h
    induction rounds with
    | nil => exact ⟨rfl,fun x hx => nomatch hx⟩
    | cons r rounds ih =>
      obtain ⟨hnone,hreach⟩ := sendRound_reaches (r := r) hb hs ha
      rw [sendLoop_cons_none hnone]
      refine ⟨by rw [List.length_cons,List.length_cons,ih.1],?_⟩
      intro x hx
      rcases List.mem_cons.mp hx with rfl | hx
      · exact hreach
      · exact ih.2 x hx

section Sample

def asciiHost (host : PyStr) : Bool := host.all fun c => c.val<128

def seedSender (bootstrapPeers : List PyStr) : BeaconSender :=
  ⟨gossipMembers true,47474,by decide,bootstrapPeers⟩

theorem seed_addressable :
    Addressable samplePlatform asciiHost (lit "seed.example.org:47474") := by
  intro host port hp _
  have hparts : rpartition colon (lit "seed.example.org:47474")=
      some (lit "seed.example.org",lit "47474") := by decide
  rw [hparts] at hp
  cases hp
  exact ⟨by decide +kernel,47474,by decide +kernel,by decide,by decide⟩

theorem never_silenced_iff_sample :
    NeverSilenced samplePlatform asciiHost (seedSender [lit "seed.example.org:47474"]) := by
  refine (never_silenced_iff samplePlatform asciiHost _ ?_).mpr ⟨?_,?_⟩
  · have hall : broadcastTargets.all asciiHost=true := by decide
    exact List.all_eq_true.mp hall
  · intro ts
    exact beaconBytes_prints (by decide +kernel) (by decide +kernel) (by decide +kernel)
  · intro entry hm
    rw [List.mem_singleton.mp hm]
    exact seed_addressable

/-- An entry that ends with its colon ends the loop before the first send, to a good entry
and to the broadcast addresses too. -/
theorem bad_entry_silences :
    let s := seedSender [lit "seed.example.org:47474",lit "10.0.0.9:"]
    (∀r rs,sendLoop samplePlatform asciiHost s (r::rs)=[(r,[])]) ∧
      ¬NeverSilenced samplePlatform asciiHost s := by
  intro s
  have ht : bootstrapTargets samplePlatform s.bootstrapPeers=.error .valueError := by
    decide +kernel
  have hround (r : SendRound) : ∃e,sendRound samplePlatform asciiHost s r=([],some e) := by
    unfold sendRound
    cases beaconBytes samplePlatform s.peer r.ts with
    | error e => exact ⟨e,rfl⟩
    | ok data => exact ⟨.valueError,by simp only [ht]⟩
  have hloop (r : SendRound) (rs : List SendRound) :
      sendLoop samplePlatform asciiHost s (r::rs)=[(r,[])] := by
    obtain ⟨e,he⟩ := hround r
    simp [sendLoop,he]
  refine ⟨hloop,?_⟩
  intro h
  let r : SendRound := ⟨sampleClock,fun _ => false⟩
  obtain ⟨hl,-⟩ := h [r,r]
  rw [hloop] at hl
  cases hl

end Sample

end AgentTorrent
