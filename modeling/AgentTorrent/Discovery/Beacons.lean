import AgentTorrent.Discovery.Gossip
import AgentTorrent.Peer.Selection

namespace AgentTorrent

open Json

/-- What a peer starts from: its key, its configuration, what its harness probes and its
environment are, and the port that its server socket got. -/
structure StartUp where
  identity : Identity
  config : PeerConfig
  probe : PyStr → Probe
  environ : PyStr → Option OsText
  tcpPort : Int
  bound : 0 < tcpPort ∧ tcpPort<65536

def recvBufsize : Nat := 65536

/-- The payload of an IPv4 datagram holds this many bytes. -/
def maxUdpPayload : Nat := 65507

namespace StartUp

/-- Peer.__init__ -/
def peer (s : StartUp) : Peer := ⟨s.identity,s.config,detectHarnesses s.probe s.environ⟩

def id (P : Platform) (s : StartUp) : PeerId := s.identity.peerId P

variable {P : Platform} {float : PyStr → PyFloat} (s : StartUp)

theorem manifest_plain (hP : P.Lawful float) : (s.peer.manifest P).plain=true := by
  have hv := detectHarnesses_plain s.probe s.environ
  have hid := hP.digest s.identity.pubkey
  have keys : ([lit "peer_id",lit "harnesses",lit "max_runtime_seconds",
    lit "accepts_tasks"] : List PyStr).Nodup := by decide
  have h1 : (lit "peer_id").all isCarried=true := by decide
  have h2 : (lit "harnesses").all isCarried=true := by decide
  have h3 : (lit "max_runtime_seconds").all isCarried=true := by decide
  have h4 : (lit "accepts_tasks").all isCarried=true := by decide
  change (buildManifest _ _ _ _).plain=true
  simp only [buildManifest,Json.plain,plainMembers,h1,h2,h3,h4,Bool.true_and,Bool.and_true,
    List.map_cons,List.map_nil,keys,decide_true]
  exact Bool.and_eq_true_iff.mpr ⟨hid,hv⟩

/-- What Peer.start hands to Discovery. -/
def beacon (hP : P.Lawful float) : BeaconPeer :=
  ⟨s.identity,s.tcpPort,s.peer.manifest P,s.manifest_plain hP⟩

end StartUp

/-- A row that tells what the sender of a beacon is. -/
structure Announces (P : Platform) (s : StartUp) (row : PeerInfo) : Prop where
  peerId : row.peerId=s.id P
  tcpPort : row.tcpPort=.int s.tcpPort
  manifest : row.manifest.json=s.peer.manifest P

/-- The datagram as recvfrom gives it makes a row of the sender in any table. -/
def Announced (P : Platform) (s receiver : StartUp) (data : Bytes) : Prop :=
  ∀host now,∃row,Announces P s row ∧ row.host=host ∧ row.lastSeen=now ∧
    ∀t : PeerTable,handleBeacon P (receiver.id P) ⟨data.take recvBufsize,host,now⟩ t=
      .ok (t.put row,(t.find row.peerId).isNone)

section Arrival

variable {P : Platform} {float : PyStr → PyFloat} {s receiver : StartUp} {ts : Timestamp} {data : Bytes}

/-- An honest beacon opens as what was sealed. -/
theorem beacon_opens (hP : P.Lawful float) (hR : P.ReadsLines float)
    (hsig : ∀msg,s.identity.Signs P msg) (hb : beaconBytes P (s.beacon hP) ts=.ok data) :
    openData P data=.ok (some ⟨s.id P,sealPayload (s.id P) ts.val msgBeacon (s.beacon hP).body⟩) := by
  obtain ⟨envelope,hseal,hd,rfl⟩ := beaconBytes_ok hb
  have hl := hR.dumps hd (sealed_readBack hP ((s.beacon hP).sendable ts) hseal)
  exact openData_of_opens hl (open_sealed hseal fun msg _ => hsig msg)

/-- The row of an honest beacon, where its manifest is valid. -/
theorem acceptBeacon_opened (hP : P.Lawful float) (receiver : StartUp) (d : Datagram)
    (ho : openData P d.data=
      .ok (some ⟨s.id P,sealPayload (s.id P) ts.val msgBeacon (s.beacon hP).body⟩))
    (hme : s.id P≠receiver.id P) : acceptBeacon P (receiver.id P) d=
      .ok (match validateManifest (s.peer.manifest P) with
        | .error _ => none
        | .ok manifest => some ⟨s.id P,d.host,.int s.tcpPort,manifest,d.now⟩) := by
  have htype : (⟨s.id P,sealPayload (s.id P) ts.val msgBeacon (s.beacon hP).body⟩ : Opened).msgType=
      msgBeacon := rfl
  have hbody : (⟨s.id P,sealPayload (s.id P) ts.val msgBeacon (s.beacon hP).body⟩ : Opened).body=
      some (s.beacon hP).body := rfl
  have hport : (s.beacon hP).body.getD (lit "tcp_port") .null=.ok (.int s.tcpPort) := rfl
  have hman : (s.beacon hP).body.getD (lit "manifest") .null=.ok (s.peer.manifest P) := rfl
  have hrange : isPort (.int s.tcpPort)=true := decide_eq_true s.bound
  simp only [acceptBeacon,ho,if_neg hme,htype,hbody,Option.getD_some,hport,hman,hrange,ne_eq,
    not_true_eq_false,if_false]
  cases hv : validateManifest (s.peer.manifest P) with
  | error e => rfl
  | ok manifest =>
    have hid : manifest.peerId=(s.id P).val := by
      rw [Manifest.peerId,((validateManifest_ok_iff _ _).mp hv).2]
      rfl
    simp only [hid,not_true_eq_false,if_false]

end Arrival

/-- A beacon is accepted at every other peer exactly where the runtime limit of its sender
is positive: the command line takes any integer, the check of a received manifest does not. -/
theorem beacon_accepted_iff {P : Platform} {float : PyStr → PyFloat} (hP : P.Lawful float)
    (hR : P.ReadsLines float) (s receiver : StartUp) (hsig : ∀msg,s.identity.Signs P msg)
    (hkey : receiver.identity.pubkey≠s.identity.pubkey)
    (hsha : P.sha1 receiver.identity.pubkey=P.sha1 s.identity.pubkey →
      receiver.identity.pubkey=s.identity.pubkey)
    (ts : Timestamp) (data : Bytes) (hb : beaconBytes P (s.beacon hP) ts=.ok data)
    (hfit : data.length ≤ maxUdpPayload) :
    Announced P s receiver data ↔ 0 < s.config.maxRuntimeSeconds := by
  have hme : s.id P≠receiver.id P := fun h => hkey (hsha h.symm)
  have hdata : data.take recvBufsize=data :=
    List.take_of_length_le (hfit.trans (by decide))
  have hrow (host : PyStr) (now : Time) := acceptBeacon_opened hP receiver
    ⟨data,host,now⟩ (beacon_opens hP hR hsig hb) hme
  have hid : (s.id P).val≠[] := by
    intro h
    have := (s.id P).property
    rw [h] at this
    cases this
  have hvalid : ManifestSchema (s.peer.manifest P) ↔ 0 < s.config.maxRuntimeSeconds :=
    buildManifest_valid hid _ _ _
  unfold Announced
  rw [hdata]
  constructor
  · intro h
    by_contra hn
    obtain ⟨row,-,-,-,ht⟩ := h [] 0
    have ht := ht .empty
    have hbad : ∀manifest,validateManifest (s.peer.manifest P)≠.ok manifest := by
      intro manifest hm
      exact hn (hvalid.mp ((validateManifest_ok_iff _ _).mp hm).1)
    cases hv : validateManifest (s.peer.manifest P) with
    | ok manifest => exact hbad manifest hv
    | error e =>
      simp only [handleBeacon,hrow,hv] at ht
      cases congrArg Prod.snd (Except.ok.inj ht)
  · intro h host now
    have hs := hvalid.mpr h
    obtain ⟨manifest,hm⟩ : ∃manifest : Manifest,manifest.json=s.peer.manifest P :=
      ⟨⟨s.peer.manifest P,rfl,(manifestProblems_nil_iff _).mpr hs⟩,rfl⟩
    have hv : validateManifest (s.peer.manifest P)=.ok manifest :=
      (validateManifest_ok_iff _ _).mpr ⟨hs,hm⟩
    refine ⟨⟨s.id P,host,.int s.tcpPort,manifest,now⟩,⟨rfl,rfl,hm⟩,rfl,rfl,?_⟩
    intro t
    simp only [handleBeacon,hrow,hv]

section Sample

/-- A platform whose signatures all verify. -/
def trustingPlatform : Platform := {parsingPlatform with verify := fun _ _ _ => true}

theorem trusting_readsLines : trustingPlatform.ReadsLines readFloat := ⟨fun _ _ _ _ => rfl⟩

theorem trusting_lawful : trustingPlatform.Lawful readFloat where
  digest := sample_lawful.digest
  small := sample_lawful.small
  floats := sample_lawful.floats

/-- A worker with claude and a local model whose name is not UTF-8. -/
def sampleStart (pubkey : Bytes) (maxRuntimeSeconds : Int) : StartUp where
  identity := ⟨pubkey,fun _ => List.replicate 64 0⟩
  config := ⟨maxRuntimeSeconds,true,false,1,[]⟩
  probe := fun name => if name=lit "claude" then
    .exited 0 ⟨lit " 2.0.1 (Claude Code)\n",by decide⟩ ⟨[],rfl⟩ else .absent
  environ := fun name =>
    if name=lit "AGENTTORRENT_API_BASE_URL" then some ⟨lit "http://127.0.0.1:8080",by decide⟩
    else if name=lit "AGENTTORRENT_API_MODEL" then some ⟨[codePoint 0xdc80],by decide⟩
    else none
  tcpPort := 40123
  bound := by decide

theorem sampleStart_signs {pubkey : Bytes} (h : pubkey.length=32) (n : Int) (msg : Bytes) :
    (sampleStart pubkey n).identity.Signs trustingPlatform msg :=
  ⟨h,List.length_replicate,rfl⟩

theorem sampleStart_beacon (n : Int) (h : ((beaconBytes trustingPlatform
    ((sampleStart workerKey n).beacon trusting_lawful) sampleClock).toOption.any
      fun data => data.length ≤ maxUdpPayload)=true) :
    ∃data,beaconBytes trustingPlatform ((sampleStart workerKey n).beacon trusting_lawful)
      sampleClock=.ok data ∧ data.length ≤ maxUdpPayload := by
  cases hb : beaconBytes trustingPlatform ((sampleStart workerKey n).beacon trusting_lawful)
      sampleClock with
  | error e =>
    rw [hb] at h
    cases h
  | ok data =>
    rw [hb] at h
    exact ⟨data,rfl,of_decide_eq_true h⟩

theorem beacon_accepted_iff_sample :
    ∃data,beaconBytes trustingPlatform ((sampleStart workerKey 300).beacon trusting_lawful)
        sampleClock=.ok data ∧
      Announced trustingPlatform (sampleStart workerKey 300) (sampleStart requesterKey 60) data := by
  obtain ⟨data,hb,hfit⟩ := sampleStart_beacon 300 (by decide +kernel)
  exact ⟨data,hb,(beacon_accepted_iff trusting_lawful trusting_readsLines _ _
    (sampleStart_signs (by decide) 300) (by decide) (by decide) sampleClock data hb
    hfit).mpr (by decide)⟩

/-- A peer that is started with --max-runtime 0 sends beacons that every other peer drops. -/
theorem zero_runtime_invisible :
    ∃data,beaconBytes trustingPlatform ((sampleStart workerKey 0).beacon trusting_lawful)
        sampleClock=.ok data ∧ data.length ≤ maxUdpPayload ∧
      (∀host now t,handleBeacon trustingPlatform ((sampleStart requesterKey 60).id trustingPlatform)
        ⟨data,host,now⟩ t=.ok (t,false)) ∧
      ¬Announced trustingPlatform (sampleStart workerKey 0) (sampleStart requesterKey 60) data := by
  obtain ⟨data,hb,hfit⟩ := sampleStart_beacon 0 (by decide +kernel)
  have hme : (sampleStart workerKey 0).id trustingPlatform≠
      (sampleStart requesterKey 60).id trustingPlatform := by decide
  have hv : validateManifest ((sampleStart workerKey 0).peer.manifest trustingPlatform)=
      .error (.manifestError (lit "max_runtime_seconds must be a positive integer")) := by
    have hp : manifestProblems ((sampleStart workerKey 0).peer.manifest trustingPlatform)=
        [lit "max_runtime_seconds must be a positive integer"] := by decide
    have ho : ((sampleStart workerKey 0).peer.manifest trustingPlatform).isObj=true := rfl
    have hn : manifestProblems ((sampleStart workerKey 0).peer.manifest trustingPlatform)≠[] := by
      rw [hp]
      exact List.cons_ne_nil _ _
    rw [validateManifest,dif_pos ho,dif_neg hn,hp]
    rfl
  have hdrop (host : PyStr) (now : Time) (t : PeerTable) : handleBeacon trustingPlatform
      ((sampleStart requesterKey 60).id trustingPlatform) ⟨data,host,now⟩ t=.ok (t,false) := by
    have ho := beacon_opens trusting_lawful trusting_readsLines (sampleStart_signs (by decide) 0) hb
    rw [handleBeacon,acceptBeacon_opened trusting_lawful _ _ ho hme,hv]
  refine ⟨data,hb,hfit,hdrop,?_⟩
  intro h
  obtain ⟨row,-,-,-,ht⟩ := h [] 0
  have ht := ht .empty
  rw [List.take_of_length_le (hfit.trans (by decide)),hdrop] at ht
  cases congrArg Prod.snd (Except.ok.inj ht)

end Sample

end AgentTorrent
