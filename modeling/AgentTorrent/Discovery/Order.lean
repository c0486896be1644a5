import AgentTorrent.Discovery.BadDatagrams

open Framework

namespace AgentTorrent

variable (P : Platform) (me : PeerId)

def DiscoveryEvent.datagram : DiscoveryEvent → Option Datagram
  | .received (.datagram d) => some d
  | _ => none

/-- The datagrams of a history, in the order of their delivery. -/
def arrived (events : List DiscoveryEvent) : List Datagram :=
  events.filterMap DiscoveryEvent.datagram

/-- The receive loop lives through the history, and no call of peers() finds the row
of p expired. -/
structure Undisturbed (p : PeerId) (events : List DiscoveryEvent) : Prop where
  socket : .received .osError∉events
  shallow : ∀d,.received (.datagram d)∈events → Shallow P d
  harmless : ∀d,.received (.datagram d)∈events → ¬Crashing P me d
  fresh : ∀pre now post,events=pre++.peers now::post → ∀row,
    (Discovery.run P me pre).table.find p=some row → now-peerTtlSeconds ≤ row.lastSeen

section Runs

variable {P me} {p : PeerId} {events : List DiscoveryEvent}

theorem Undisturbed.before {e : DiscoveryEvent} (h : Undisturbed P me p (events++[e])) :
    Undisturbed P me p events where
  socket hm := h.socket (by simp [hm])
  shallow d hd := h.shallow d (by simp [hd])
  harmless d hd := h.harmless d (by simp [hd])
  fresh pre now post he := h.fresh pre now (post++[e]) (by simp [he])

/-- The row of p is that of its last accepted beacon, whatever came before and in which
order. -/
theorem Undisturbed.find (h : Undisturbed P me p events) :
    (Discovery.run P me events).receiving=true ∧ (Discovery.run P me events).table.find p=
      TableOp.latest PeerInfo.peerId p ((arrived events).filterMap (acceptedRow P me)) := by
  induction events using List.reverseRecOn with
  | nil => exact ⟨rfl,rfl⟩
  | append_singleton events e ih =>
    obtain ⟨hr,hf⟩ := ih h.before
    have hs : Discovery.run P me events=⟨(Discovery.run P me events).table,true⟩ := by rw [← hr]
    rw [run_snoc,arrived,List.filterMap_append,List.filterMap_append,← arrived]
    cases e with
    | peers now =>
      have hn : DiscoveryEvent.datagram (.peers now)=none := rfl
      refine ⟨hr,?_⟩
      have kept : ((Discovery.run P me events).table.find p).filter
          (fun row => now-peerTtlSeconds ≤ row.lastSeen)=
            (Discovery.run P me events).table.find p := by
        cases hrow : (Discovery.run P me events).table.find p with
        | none => rfl
        | some row => simpa [Option.filter] using h.fresh events now [] rfl row hrow
      simpa [Discovery.step,peers,Table.find_keep,hn] using kept.trans hf
    | received r =>
      rw [hs]
      cases r with
      | timeout =>
        have hn : DiscoveryEvent.datagram (.received .timeout)=none := rfl
        simpa [Discovery.step,recvRound,hn] using hf
      | osError => exact absurd (by simp) h.socket
      | datagram d =>
        have round := round_survives P me (h.shallow d (by simp)) (h.harmless d (by simp))
        change (recvRound P me _ _).receiving=true ∧ (recvRound P me _ _).table.find p=_
        rw [round]
        refine ⟨rfl,?_⟩
        cases hd : acceptedRow P me d with
        | none => simpa [DiscoveryEvent.datagram,hd] using hf
        | some row => simp [DiscoveryEvent.datagram,hd,TableOp.latest_snoc,TableOp.apply,hf]

end Runs

section Sample

/-- The worker's beacon after a restart on another port. -/
def restartedBeacon : Signed where
  pubkey := workerKey
  peerId := workerId
  ts := ⟨ascii "1760000105.25",by decide⟩
  msgType := msgBeacon
  body := .obj [(lit "tcp_port",.int 40124),(lit "manifest",workerManifest)]
  sig := bytesOf 32 0xc59cf46405aac2c180e8721cb63e02481efd5a36f814ebf34a1aa3c204d5b4d5++
    bytesOf 32 0x7675163491c3708f58f2f238c5dec4ece689e6513a7799920feab63822054305

def restartTranscript : List Signed := [workerBeacon,restartedBeacon]

def restartPlatform : Platform := .ofTranscript restartTranscript

/-- The value of a numeral without an exponent. -/
def PyFloat.value (f : PyFloat) : ℚ :=
  let digits := f.repr.filter fun b => b≠0x2e
  let places := f.repr.length-f.repr.idxOf 0x2e-1
  (digits.foldl (fun n b => 10*n+(b.toNat-48)) 0 : Nat)/10^places

def restartDatagram (m : Signed) (now : Time) : Datagram := ⟨m.text,lit "192.168.1.20",now⟩

/-- The beacon from before the restart comes after the one that was sealed later. -/
def staleArrivals : List Datagram :=
  [restartDatagram restartedBeacon 5,restartDatagram workerBeacon 6]

def restartRow (n : Int) (now : Time) : PeerInfo :=
  ⟨workerId,lit "192.168.1.20",.int n,workerSampleManifest,now⟩

end Sample

end AgentTorrent
