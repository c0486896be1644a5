import AgentTorrent.Discovery.PeerTable

open Framework

namespace AgentTorrent

variable (P : Platform) (me : PeerId)

/-- A datagram with a verified BEACON of a foreign sender, whose body has the
given tcp_port and a valid manifest of that sender. -/
structure BeaconFrom (sender : PeerId) (port : Json) (d : Datagram) : Prop where
  opened : ∃o body v,openData P d.data=.ok (some o) ∧ o.sender=sender ∧ o.msgType=msgBeacon ∧
    o.body=some body ∧ body.get? (lit "tcp_port")=some port ∧
    body.get? (lit "manifest")=some v ∧ ManifestSchema v ∧
    v.get? (lit "peer_id")=some (.str sender.val)
  foreign : sender≠me

/-- A beacon as it should be. -/
def ValidBeacon (sender : PeerId) (d : Datagram) : Prop :=
  ∃n : Int,0 < n ∧ n<65536 ∧ BeaconFrom P me sender (.int n) d

/-- A beacon that is valid but for its port, which is the JSON value true. -/
def TruePort (sender : PeerId) (d : Datagram) : Prop := BeaconFrom P me sender (.bool true) d

/-- A verified BEACON of a foreign sender whose body is present and no object. -/
def Crashing (d : Datagram) : Prop :=
  ∃o body,openData P d.data=.ok (some o) ∧ o.sender≠me ∧ o.msgType=msgBeacon ∧
    o.body=some body ∧ body.isObj=false

/-- The JSON text nests no deeper than the interpreter can parse and print. -/
def Shallow (d : Datagram) : Prop :=
  P.loads d.data≠.error .recursion ∧
    ∀envelope,P.loads d.data=.ok envelope → envelope.depth ≤ P.dumpsDepth

theorem openData_shallow {d : Datagram} (h : Shallow P d) (e : PyExc) :
    openData P d.data≠.error e := by
  intro he
  unfold openData at he
  split at he
  · cases he
  · rename_i hl
    exact h.1 hl
  · rename_i envelope hl
    split at he
    · cases he
    · cases he
    · cases he
    · rename_i e' h1 h2 ho
      rcases openEnvelope_error P ho with ⟨msg,rfl⟩ | rfl | ⟨-,hd⟩
      · exact h1 msg rfl
      · exact h2 rfl
      · exact absurd (h.2 envelope hl) (Nat.not_le.mpr hd)

/-- Only the access to the body can raise behind the signature check. -/
theorem acceptBeacon_error {d : Datagram} {e : PyExc} (h : acceptBeacon P me d=.error e) :
    openData P d.data=.error e ∨ Crashing P me d := by
  unfold acceptBeacon at h
  split at h
  · rename_i ho
    exact .inl ((Except.error.inj h) ▸ ho)
  · cases h
  · rename_i o ho
    split at h
    · cases h
    · rename_i hme
      split at h
      · cases h
      · rename_i ht
        -- An absent body is read as an empty dict, so a failing access has a body.
        have crash {key : PyStr} {e : PyExc} (hg : (o.body.getD (.obj [])).getD key .null=.error e) :
            Crashing P me d := by
          cases hb : o.body with
          | none =>
            rw [hb] at hg
            cases hg
          | some body =>
            rw [hb] at hg
            exact ⟨o,body,ho,hme,not_not.mp ht,hb,(Json.getD_error hg).2⟩
        dsimp only at h
        split at h
        · rename_i hg
          exact .inr (crash hg)
        · split at h
          · cases h
          · split at h
            · rename_i hg
              exact .inr (crash hg)
            · split at h
              · cases h
              · split at h
                · cases h
                · cases h

theorem acceptBeacon_crashing {d : Datagram} (h : Crashing P me d) :
    acceptBeacon P me d=.error .attributeError := by
  obtain ⟨o,body,ho,hme,ht,hb,hn⟩ := h
  have hg : body.getD (lit "tcp_port") .null=.error .attributeError := by
    cases body with
    | obj ms => cases hn
    | _ => rfl
  simp only [acceptBeacon,ho,hme,ht,hb,hg,ne_eq,not_true_eq_false,if_false,Option.getD_some]

/-- Exactly the beacons with an accepted port leave a row, which carries that port. -/
theorem acceptBeacon_iff (d : Datagram) (row : PeerInfo) :
    acceptBeacon P me d=.ok (some row) ↔
      isPort row.tcpPort=true ∧ BeaconFrom P me row.peerId row.tcpPort d ∧
      row.host=d.host ∧ row.lastSeen=d.now ∧
      ∃o,openData P d.data=.ok (some o) ∧
        o.body.bind (Json.get? (lit "manifest"))=some row.manifest.json := by
  constructor
  · intro h
    have hb := acceptBeacon_row P me h
    obtain ⟨o,ho,hs,ht,hp,hm⟩ := hb.opened
    obtain ⟨body,hbody,hport⟩ := Option.bind_eq_some_iff.mp hp
    rw [hbody,Option.bind_some] at hm
    have hv := (manifestProblems_nil_iff _).mp row.manifest.valid.2
    obtain ⟨id,-,hid⟩ := hv.peerId
    have he : id=row.peerId.val := by
      rw [← hb.manifestId,Manifest.peerId,Json.strField_of_get hid]
    refine ⟨hb.port,⟨⟨o,body,row.manifest.json,ho,hs,ht,hbody,hport,hm,hv,he ▸ hid⟩,hb.foreign⟩,
      hb.host,hb.lastSeen,o,ho,?_⟩
    rw [hbody,Option.bind_some,hm]
  · intro hh
    obtain ⟨hport,⟨⟨o,body,v,ho,hs,ht,hb,hp,hm,hv,hid⟩,hf⟩,hhost,hseen,o',ho',hman⟩ := hh
    have e : o'=o := by simpa [ho] using ho'.symm
    rw [e,hb,Option.bind_some,hm] at hman
    have hg : ∀{key : PyStr} {w : Json},body.get? key=some w → body.getD key .null=.ok w := by
      intro key w h
      cases body with
      | obj ms =>
        rw [Json.get?_obj] at h
        simp only [Json.getD,h,Option.getD_some]
      | _ => cases h
    have hval : validateManifest v=.ok row.manifest :=
      (validateManifest_ok_iff _ _).mpr ⟨hv,(Option.some.inj hman).symm⟩
    have hpid : row.manifest.peerId=row.peerId.val := by
      rw [Manifest.peerId,← Option.some.inj hman,Json.strField_of_get hid]
    simp only [acceptBeacon,ho,hs,hf,ht,hb,Option.getD_some,hg hp,hport,hg hm,hval,hpid,ne_eq,
      not_true_eq_false,if_false]
    rw [← hhost,← hseen]

/-- The row that a datagram leaves, if it is accepted. -/
def acceptedRow (d : Datagram) : Option PeerInfo :=
  match acceptBeacon P me d with
  | .ok row => row
  | .error _ => none

theorem acceptedRow_eq_some (d : Datagram) (row : PeerInfo) :
    acceptedRow P me d=some row ↔ acceptBeacon P me d=.ok (some row) := by
  unfold acceptedRow
  split
  · rename_i r hr
    simp [hr]
  · rename_i e he
    simp [he]

theorem beaconFrom_iff (sender : PeerId) (port : Json) (d : Datagram) :
    isPort port=true ∧ BeaconFrom P me sender port d ↔
      ∃row,acceptedRow P me d=some row ∧ row.peerId=sender ∧ row.tcpPort=port := by
  constructor
  · intro hh
    obtain ⟨hp,hb⟩ := hh
    obtain ⟨o,body,v,ho,-,-,hbody,-,hm,hv,-⟩ := hb.opened
    have hobj : v.isObj=true := by
      obtain ⟨⟨id,-,hid⟩,-⟩ := hv
      exact Json.isObj_of_get hid
    let manifest : Manifest := ⟨v,hobj,(manifestProblems_nil_iff v).mpr hv⟩
    refine ⟨⟨sender,d.host,port,manifest,d.now⟩,?_,rfl,rfl⟩
    rw [acceptedRow_eq_some,acceptBeacon_iff]
    exact ⟨hp,hb,rfl,rfl,o,ho,by rw [hbody,Option.bind_some,hm]⟩
  · intro hh
    obtain ⟨row,hr,rfl,rfl⟩ := hh
    rw [acceptedRow_eq_some,acceptBeacon_iff] at hr
    exact ⟨hr.1,hr.2.1⟩

def PeerInfo.hasIntPort (row : PeerInfo) : Bool :=
  match row.tcpPort with
  | .int _ => true
  | _ => false

theorem validBeacon_iff (sender : PeerId) (d : Datagram) :
    ValidBeacon P me sender d ↔
      ∃row,acceptedRow P me d=some row ∧ row.peerId=sender ∧ row.hasIntPort=true := by
  constructor
  · intro hh
    obtain ⟨n,h0,h1,hb⟩ := hh
    obtain ⟨row,hr,hs,hp⟩ := (beaconFrom_iff P me sender (.int n) d).mp
      ⟨by simpa [isPort] using ⟨h0,h1⟩,hb⟩
    exact ⟨row,hr,hs,by rw [PeerInfo.hasIntPort,hp]⟩
  · intro hh
    obtain ⟨row,hr,hs,hp⟩ := hh
    obtain ⟨hport,hb⟩ := (beaconFrom_iff P me sender row.tcpPort d).mpr ⟨row,hr,hs,rfl⟩
    unfold PeerInfo.hasIntPort at hp
    split at hp
    · rename_i n hn
      rw [hn] at hport hb
      obtain ⟨h0,h1⟩ : 0 < n ∧ n<65536 := by simpa [isPort] using hport
      exact ⟨n,h0,h1,hb⟩
    · cases hp

theorem truePort_iff (sender : PeerId) (d : Datagram) :
    TruePort P me sender d ↔
      ∃row,acceptedRow P me d=some row ∧ row.peerId=sender ∧ ¬row.hasIntPort=true := by
  constructor
  · intro hb
    obtain ⟨row,hr,hs,hp⟩ := (beaconFrom_iff P me sender (.bool true) d).mp ⟨rfl,hb⟩
    exact ⟨row,hr,hs,by simp [PeerInfo.hasIntPort,hp]⟩
  · intro hh
    obtain ⟨row,hr,hs,hp⟩ := hh
    obtain ⟨hport,hb⟩ := (beaconFrom_iff P me sender row.tcpPort d).mpr ⟨row,hr,hs,rfl⟩
    cases h : row.tcpPort with
    | bool b =>
      rw [h] at hport hb
      cases b with
      | true => exact hb
      | false => cases hport
    | int n =>
      unfold PeerInfo.hasIntPort at hp
      rw [h] at hp
      exact absurd rfl hp
    | _ =>
      rw [h] at hport
      cases hport

/-- A sequence of datagrams as _recv_loop takes them from its socket. -/
def arrivals (ds : List Datagram) : List DiscoveryEvent := ds.map fun d => .received (.datagram d)

theorem run_snoc (events : List DiscoveryEvent) (e : DiscoveryEvent) :
    Discovery.run P me (events++[e])=(Discovery.run P me events).step P me e := by
  rw [Discovery.run,List.foldl_append]
  rfl

/-- A round with any datagram that does not crash keeps the thread alive and puts
the accepted row, if there is one. -/
theorem round_survives {d : Datagram} (hs : Shallow P d) (hc : ¬Crashing P me d)
    (t : PeerTable) :
    recvRound P me ⟨t,true⟩ (.datagram d)=
      ⟨((acceptedRow P me d).toList.map TableOp.put).foldl (TableOp.apply PeerInfo.lastSeen) t,
        true⟩ := by
  simp only [recvRound,handleBeacon,acceptedRow]
  cases ha : acceptBeacon P me d with
  | error e =>
    rcases acceptBeacon_error P me ha with h | h
    · exact absurd h (openData_shallow P hs e)
    · exact absurd h hc
  | ok r => cases r <;> rfl

theorem round_crashes {d : Datagram} (hc : Crashing P me d) (s : Discovery) :
    (recvRound P me s (.datagram d)).receiving=false := by
  cases hr : s.receiving with
  | false => simp [recvRound,hr]
  | true => simp [recvRound,hr,handleBeacon,acceptBeacon_crashing P me hc]

theorem arrivals_survive (ds : List Datagram) (hs : ∀d∈ds,Shallow P d)
    (hc : ∀d∈ds,¬Crashing P me d) :
    Discovery.run P me (arrivals ds)=
      ⟨TableOp.run PeerInfo.lastSeen ((ds.filterMap (acceptedRow P me)).map .put),true⟩ := by
  induction ds using List.reverseRecOn with
  | nil => rfl
  | append_singleton ds d ih =>
    have ht := ih (fun e he => hs e (by simp [he])) fun e he => hc e (by simp [he])
    rw [arrivals,List.map_append,List.map_singleton,run_snoc]
    change recvRound P me (Discovery.run P me (arrivals ds)) (.datagram d)=_
    rw [ht,round_survives P me (hs d (by simp)) (hc d (by simp)),List.filterMap_append,
      List.map_append,TableOp.run,TableOp.run,List.foldl_append]
    cases hd : acceptedRow P me d <;> simp [hd]

theorem arrivals_crash (ds : List Datagram) {d : Datagram} (hd : d∈ds)
    (hc : Crashing P me d) : (Discovery.run P me (arrivals ds)).receiving=false := by
  induction ds using List.reverseRecOn with
  | nil => cases hd
  | append_singleton ds e ih =>
    rw [arrivals,List.map_append,List.map_singleton,run_snoc]
    change (recvRound P me (Discovery.run P me (arrivals ds)) (.datagram e)).receiving=false
    rcases List.mem_append.mp hd with hd | hd
    · simp [recvRound,ih hd]
    · rw [List.mem_singleton.mp hd] at hc
      exact round_crashes P me hc _

/-- The valid beacons of a sequence leave the rows with an integer port. -/
theorem filter_valid (ds : List Datagram) [DecidablePred fun d => ∃k,ValidBeacon P me k d] :
    (ds.filter fun d => ∃k,ValidBeacon P me k d).filterMap (acceptedRow P me)=
      (ds.filterMap (acceptedRow P me)).filter PeerInfo.hasIntPort := by
  induction ds with
  | nil => rfl
  | cons d ds ih =>
    have hv : (∃k,ValidBeacon P me k d) ↔
        ∃row,acceptedRow P me d=some row ∧ row.hasIntPort=true := by
      simp only [validBeacon_iff]
      exact ⟨fun ⟨_,row,hr,_,hp⟩ => ⟨row,hr,hp⟩,fun ⟨row,hr,hp⟩ => ⟨_,row,hr,rfl,hp⟩⟩
    cases hr : acceptedRow P me d with
    | none =>
      have hn : ¬∃k,ValidBeacon P me k d := by simp [hv,hr]
      simp only [List.filter_cons,hn,decide_false,Bool.false_eq_true,if_false,ih,
        List.filterMap_cons,hr]
    | some row =>
      have he : (∃k,ValidBeacon P me k d) ↔ row.hasIntPort=true := by simp [hv,hr]
      by_cases hp : row.hasIntPort=true
      · simp only [List.filter_cons,he,hp,decide_true,if_true,List.filterMap_cons,hr,ih]
      · simp only [List.filter_cons,he,hp,decide_false,Bool.false_eq_true,if_false,
          List.filterMap_cons,hr,ih]

/-- Every datagram with the port true stands before a valid beacon of its sender. -/
def TruePortsSuperseded (ds : List Datagram) : Prop :=
  ∀pre d post,ds=pre++d::post → ∀k,TruePort P me k d → ∃d'∈post,ValidBeacon P me k d'

theorem superseded_iff (ds : List Datagram) :
    TruePortsSuperseded P me ds ↔
      ∀pre row post,ds.filterMap (acceptedRow P me)=pre++row::post → ¬row.hasIntPort=true →
        ∃s∈post,s.peerId=row.peerId ∧ s.hasIntPort=true := by
  constructor
  · intro h pre row post he hp
    obtain ⟨as,bs,rfl,-,hb⟩ := List.filterMap_eq_append_iff.mp he
    obtain ⟨cs,d,es,rfl,-,hd,hpost⟩ := List.filterMap_eq_cons_iff.mp hb
    obtain ⟨d',hd',hv⟩ := h (as++cs) d es (by simp) row.peerId
      ((truePort_iff P me _ d).mpr ⟨row,hd,rfl,hp⟩)
    obtain ⟨s,hs,hk,hi⟩ := (validBeacon_iff P me _ d').mp hv
    exact ⟨s,hpost ▸ List.mem_filterMap.mpr ⟨d',hd',hs⟩,hk,hi⟩
  · intro h pre d post he k ht
    subst he
    obtain ⟨row,hr,rfl,hp⟩ := (truePort_iff P me k d).mp ht
    obtain ⟨s,hs,hk,hi⟩ := h _ row _ (by rw [List.filterMap_append,List.filterMap_cons,hr]) hp
    obtain ⟨d',hd',hs⟩ := List.mem_filterMap.mp hs
    exact ⟨d',hd',(validBeacon_iff P me _ d').mpr ⟨s,hs,hk,hi⟩⟩

open Classical in
/-- The receive loop survives a sequence of datagrams and ends with the table of
its valid beacons, exactly when no verified foreign BEACON in it has a body that
is no object, and each one with the port true is superseded. -/
theorem recvLoop_immune_iff (ds : List Datagram) (hs : ∀d∈ds,Shallow P d) :
    ((Discovery.run P me (arrivals ds)).receiving=true ∧
      ∀k,(Discovery.run P me (arrivals ds)).table.find k=
        (Discovery.run P me
          (arrivals (ds.filter fun d => ∃k,ValidBeacon P me k d))).table.find k) ↔
    (∀d∈ds,¬Crashing P me d) ∧ TruePortsSuperseded P me ds := by
  by_cases hc : ∀d∈ds,¬Crashing P me d
  · have sub : ∀d∈ds.filter fun d => ∃k,ValidBeacon P me k d,d∈ds :=
      fun d hd => (List.mem_filter.mp hd).1
    rw [arrivals_survive P me ds hs hc,arrivals_survive P me _ (fun d hd => hs d (sub d hd))
      fun d hd => hc d (sub d hd)]
    simp only [TableOp.find_run_puts,filter_valid,superseded_iff,true_and]
    rw [and_iff_right hc]
    have hl := @TableOp.latest_filter_iff _ _ PeerInfo.peerId _
      (fun row => PeerInfo.hasIntPort row=true) _ (ds.filterMap (acceptedRow P me))
    simpa only [Bool.decide_eq_true] using hl
  · constructor
    · intro h
      simp only [not_forall,not_not] at hc
      obtain ⟨d,hd,hcr⟩ := hc
      rw [arrivals_crash P me ds hd hcr] at h
      exact absurd h.1 Bool.false_ne_true
    · exact fun h => absurd h.1 hc

theorem transcript_shallow {ms : List Signed} (h : Consistent ms) {m : Signed} (hm : m∈ms)
    (host : PyStr) (now : Time) : Shallow (.ofTranscript ms) ⟨m.text,host,now⟩ := by
  have hl : (Platform.ofTranscript ms).loads m.text=.ok m.envelope :=
    transcript_loads h hm (.inr rfl)
  refine ⟨by simp [hl],?_⟩
  intro envelope he
  have e : m.envelope=envelope := by simpa [hl] using he
  exact e ▸ (h.prints m hm).1

theorem sample_shallow {m : Signed} (hm : m∈sampleTranscript) (host : PyStr) (now : Time) :
    Shallow samplePlatform ⟨m.text,host,now⟩ :=
  transcript_shallow sampleTranscript_consistent hm host now

/-- The sequence of one good beacon meets the condition. -/
theorem recvLoop_immune_sample :
    (Discovery.run samplePlatform requesterId (arrivals [beaconAt 5])).receiving=true := by
  have hm : workerBeacon∈sampleTranscript := by simp [sampleTranscript]
  refine ((recvLoop_immune_iff samplePlatform requesterId [beaconAt 5] ?_).mpr ⟨?_,?_⟩).1
  · intro d hd
    rw [List.mem_singleton.mp hd]
    exact sample_shallow hm _ _
  · intro d hd hc
    rw [List.mem_singleton.mp hd] at hc
    have := acceptBeacon_crashing _ _ hc
    rw [acceptBeacon_sample] at this
    cases this
  · intro pre d post he k ht
    obtain ⟨row,hr,-,hp⟩ := (truePort_iff _ _ k d).mp ht
    have hd : d∈[beaconAt 5] := he ▸ by simp
    rw [List.mem_singleton.mp hd,acceptedRow_eq_some,acceptBeacon_sample] at hr
    cases hr
    exact absurd rfl hp

def listBeaconAt (now : Time) : Datagram := ⟨workerListBeacon.text,lit "192.168.1.20",now⟩

/-- A signed beacon whose body is a list ends the receive thread, and the good
beacon behind it is lost. -/
theorem recvLoop_listBody_fails :
    (∀d∈[listBeaconAt 0,beaconAt 5],Shallow samplePlatform d) ∧
    (Discovery.run samplePlatform requesterId
      (arrivals [listBeaconAt 0,beaconAt 5])).receiving=false ∧
    (Discovery.run samplePlatform requesterId
      (arrivals [listBeaconAt 0,beaconAt 5])).table.find workerId=none ∧
    (Discovery.run samplePlatform requesterId
      (arrivals [beaconAt 5])).table.find workerId=some (workerRow 5) := by
  have hl : workerListBeacon∈sampleTranscript := by simp [sampleTranscript]
  have hb : workerBeacon∈sampleTranscript := by simp [sampleTranscript]
  have hc : Crashing samplePlatform requesterId (listBeaconAt 0) :=
    ⟨workerListBeacon.opened,.arr [],sample_openData hl,by decide,rfl,rfl,rfl⟩
  have ha := acceptBeacon_crashing _ _ hc
  have hr : Discovery.run samplePlatform requesterId (arrivals [listBeaconAt 0,beaconAt 5])=
      ⟨.empty,false⟩ := by
    simp [Discovery.run,arrivals,Discovery.start,Discovery.step,recvRound,handleBeacon,ha]
  refine ⟨?_,by rw [hr],by rw [hr]; rfl,?_⟩
  · intro d hd
    simp only [List.mem_cons,List.not_mem_nil,or_false] at hd
    rcases hd with rfl | rfl
    · exact sample_shallow hl _ _
    · exact sample_shallow hb _ _
  · simp [Discovery.run,arrivals,Discovery.start,Discovery.step,recvRound,handleBeacon,
      acceptBeacon_sample,workerRow]

end AgentTorrent
