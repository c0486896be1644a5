import AgentTorrent.Discovery.Discovery
import AgentTorrent.Transcript

open Framework

namespace AgentTorrent

variable (P : Platform) (me : PeerId)

/-- What an accepted beacon is, and the row that it leaves. -/
structure BeaconRow (d : Datagram) (row : PeerInfo) : Prop where
  opened : ∃o,openData P d.data=.ok (some o) ∧ o.sender=row.peerId ∧ o.msgType=msgBeacon ∧
    o.body.bind (Json.get? (lit "tcp_port"))=some row.tcpPort ∧
    o.body.bind (Json.get? (lit "manifest"))=some row.manifest.json
  foreign : row.peerId≠me
  port : isPort row.tcpPort=true
  manifestId : row.manifest.peerId=row.peerId.val
  host : row.host=d.host
  lastSeen : row.lastSeen=d.now

theorem validateManifest_null (m : Manifest) : validateManifest .null≠.ok m := by
  intro h
  obtain ⟨⟨⟨id,-,hid⟩,-,-,-⟩,-⟩ := (validateManifest_ok_iff _ _).mp h
  cases hid

theorem acceptBeacon_row {d : Datagram} {row : PeerInfo}
    (h : acceptBeacon P me d=.ok (some row)) : BeaconRow P me d row := by
  unfold acceptBeacon at h
  split at h
  · cases h
  · cases h
  · rename_i o ho
    split at h
    · cases h
    · rename_i hme
      split at h
      · cases h
      · rename_i htype
        dsimp only at h
        split at h
        · cases h
        · rename_i tcpPort hport
          split at h
          · cases h
          · rename_i hp
            split at h
            · cases h
            · rename_i v hv
              split at h
              · cases h
              · rename_i manifest hm
                split at h
                · cases h
                · rename_i hid
                  cases h
                  have hp := not_not.mp hp
                  have hport := Json.getD_ok hport
                  have hv := Json.getD_ok hv
                  have hj := ((validateManifest_ok_iff _ _).mp hm).2
                  cases hb : o.body with
                  | none =>
                    rw [hb] at hport
                    rw [hport] at hp
                    cases hp
                  | some b =>
                    simp only [hb,Option.getD_some] at hport hv
                    refine ⟨⟨o,ho,rfl,not_not.mp htype,?_,?_⟩,hme,hp,not_not.mp hid,rfl,rfl⟩
                    · cases hg : b.get? (lit "tcp_port") with
                      | none =>
                        rw [hg] at hport
                        rw [hport] at hp
                        cases hp
                      | some w => simp [hb,hg,hport]
                    · cases hg : b.get? (lit "manifest") with
                      | none =>
                        rw [hg] at hv
                        rw [hv] at hm
                        exact absurd hm (validateManifest_null manifest)
                      | some w => simp [hb,hg,hj,hv]

/-- What one event does to the table, as an operation on an expiring table. -/
def Discovery.ops (s : Discovery) : DiscoveryEvent → List (TableOp PeerInfo Time)
  | .received (.datagram d) =>
    if s.receiving then
      match acceptBeacon P me d with
      | .ok (some row) => [.put row]
      | _ => []
    else []
  | .received _ => []
  | .peers now => [.expire (now-peerTtlSeconds)]

def Discovery.history (s : Discovery) : List DiscoveryEvent → List (TableOp PeerInfo Time)
  | [] => []
  | e::es => s.ops P me e++Discovery.history (s.step P me e) es

/-- The accepted beacons of a history, as the rows they leave, oldest first. -/
def accepted (events : List DiscoveryEvent) : List PeerInfo :=
  TableOp.puts (Discovery.start.history P me events)

theorem step_table (s : Discovery) (e : DiscoveryEvent) :
    (s.step P me e).table=(s.ops P me e).foldl (TableOp.apply PeerInfo.lastSeen) s.table := by
  cases e with
  | peers now => rfl
  | received r =>
    cases r with
    | timeout => cases hr : s.receiving <;> simp [Discovery.step,recvRound,Discovery.ops,hr]
    | osError => cases hr : s.receiving <;> simp [Discovery.step,recvRound,Discovery.ops,hr]
    | datagram d =>
      cases hr : s.receiving with
      | false => simp [Discovery.step,recvRound,Discovery.ops,hr]
      | true =>
        simp only [Discovery.step,recvRound,Discovery.ops,hr,handleBeacon]
        rcases acceptBeacon P me d with e | _ | row <;> simp [TableOp.apply]

theorem foldl_table (s : Discovery) (events : List DiscoveryEvent) :
    (events.foldl (Discovery.step P me) s).table=
      (s.history P me events).foldl (TableOp.apply PeerInfo.lastSeen) s.table := by
  induction events generalizing s with
  | nil => rfl
  | cons e es ih =>
    rw [List.foldl_cons,ih,step_table P me s e,Discovery.history,List.foldl_append]

/-- The peer table after any history is an expiring table run on the accepted
beacons and the evictions of the peers() calls between them. -/
theorem run_table (events : List DiscoveryEvent) :
    (Discovery.run P me events).table=
      TableOp.run PeerInfo.lastSeen (Discovery.start.history P me events) :=
  foldl_table P me .start events

/-- The clock readings of a history, oldest first. -/
def clockReadings : List DiscoveryEvent → List Time
  | [] => []
  | .received (.datagram d)::es => d.now::clockReadings es
  | .received _::es => clockReadings es
  | .peers now::es => now::clockReadings es

theorem history_expire (s : Discovery) (events : List DiscoveryEvent) {c : Time}
    (h : TableOp.expire c∈s.history P me events) :
    ∃now∈clockReadings events,c=now-peerTtlSeconds := by
  induction events generalizing s with
  | nil => cases h
  | cons e es ih =>
    rw [Discovery.history,List.mem_append] at h
    rcases h with h | h
    · cases e with
      | peers now =>
        simp only [Discovery.ops,List.mem_singleton,TableOp.expire.injEq] at h
        exact ⟨now,by simp [clockReadings],h⟩
      | received r =>
        cases r with
        | datagram d =>
          simp only [Discovery.ops] at h
          split at h
          · split at h <;> simp at h
          · cases h
        | _ => cases h
    · obtain ⟨now,hn,hc⟩ := ih _ h
      refine ⟨now,?_,hc⟩
      cases e with
      | peers _ => exact List.mem_cons_of_mem _ hn
      | received r =>
        cases r with
        | datagram _ => exact List.mem_cons_of_mem _ hn
        | _ => exact hn

/-- Every accepted row comes from a datagram of the history. -/
theorem history_put (s : Discovery) (events : List DiscoveryEvent) {row : PeerInfo}
    (h : row∈TableOp.puts (s.history P me events)) :
    ∃d,.received (.datagram d)∈events ∧ acceptBeacon P me d=.ok (some row) := by
  induction events generalizing s with
  | nil => cases h
  | cons e es ih =>
    rw [Discovery.history,TableOp.puts_append,List.mem_append] at h
    rcases h with h | h
    · cases e with
      | peers now => cases h
      | received r =>
        cases r with
        | datagram d =>
          simp only [Discovery.ops] at h
          split at h
          · split at h
            · rename_i row' ha
              have he : row=row' := by simpa [TableOp.puts] using h
              exact ⟨d,by simp,he ▸ ha⟩
            · cases h
          · cases h
        | _ => cases h
    · obtain ⟨d,hd,ha⟩ := ih _ h
      exact ⟨d,List.mem_cons_of_mem _ hd,ha⟩

/-- Accepted rows carry the clock readings of their datagrams, in order. -/
theorem history_stamps (s : Discovery) (events : List DiscoveryEvent) :
    ((TableOp.puts (s.history P me events)).map PeerInfo.lastSeen).Sublist
      (clockReadings events) := by
  induction events generalizing s with
  | nil => exact .slnil
  | cons e es ih =>
    rw [Discovery.history,TableOp.puts_append,List.map_append]
    have ht := ih (s.step P me e)
    cases e with
    | peers now => exact ht.cons _
    | received r =>
      cases r with
      | timeout => exact ht
      | osError => exact ht
      | datagram d =>
        simp only [Discovery.ops,clockReadings]
        split
        · split
          · rename_i row ha
            simp only [TableOp.puts,List.map_cons,List.map_nil,List.cons_append,
              List.nil_append,(acceptBeacon_row P me ha).lastSeen]
            exact ht.cons_cons _
          · exact ht.cons _
        · exact ht.cons _

/-- The clock never went back up to the call of peers() at time t. -/
def ClockOk (events : List DiscoveryEvent) (t : Time) : Prop :=
  (clockReadings events++[t]).Pairwise (·≤·)

/-- What peers() lists at time t: the latest accepted beacon of each sender, if
it is at most the time to live old. -/
theorem mem_peers_iff (events : List DiscoveryEvent) (t : Time) (hc : ClockOk events t)
    (row : PeerInfo) :
    row∈(peers t (Discovery.run P me events).table).1 ↔
      TableOp.latest PeerInfo.peerId row.peerId (accepted P me events)=some row ∧
      t-peerTtlSeconds ≤ row.lastSeen := by
  have bound : ∀c',TableOp.expire c'∈Discovery.start.history P me events →
      c' ≤ t-peerTtlSeconds := by
    intro c' hm
    obtain ⟨now,hn,rfl⟩ := history_expire P me _ events hm
    exact sub_le_sub_right ((List.pairwise_append.mp hc).2.2 now hn t (by simp)) _
  have hf := @TableOp.find_run _ _ _ PeerInfo.peerId _ _ PeerInfo.lastSeen
    (Discovery.start.history P me events) (t-peerTtlSeconds) bound row.peerId
  rw [peers,Table.mem_sorted,Table.mem_rows_iff,run_table,hf,Option.filter_eq_some_iff]
  simp [accepted]

/-- The peer table is rebuildable from gossip: what peers() returns at t is a
function of the beacons accepted since t - 30. -/
theorem peers_rebuildable (events : List DiscoveryEvent) (t : Time) (hc : ClockOk events t) :
    ((peers t (Discovery.run P me events).table).1.map PeerInfo.peerId).Pairwise (·<·) ∧
    (∀row,row∈(peers t (Discovery.run P me events).table).1 ↔
      TableOp.latest PeerInfo.peerId row.peerId (accepted P me events)=some row ∧
      t-30 ≤ row.lastSeen) ∧
    (∀row∈(peers t (Discovery.run P me events).table).1,row.peerId.val=row.manifest.peerId ∧
      row.peerId≠me ∧ ∃d,.received (.datagram d)∈events ∧ BeaconRow P me d row) ∧
    ∀events',ClockOk events' t →
      (accepted P me events).filter (fun r => t-30 ≤ r.lastSeen)=
        (accepted P me events').filter (fun r => t-30 ≤ r.lastSeen) →
      (peers t (Discovery.run P me events).table).1=
        (peers t (Discovery.run P me events').table).1 := by
  have fresh (evs : List DiscoveryEvent) (hc : ClockOk evs t) (row : PeerInfo) :
      row∈(peers t (Discovery.run P me evs).table).1 ↔
        TableOp.latest PeerInfo.peerId row.peerId
          ((accepted P me evs).filter fun r => t-30 ≤ r.lastSeen)=some row := by
    have ascending : (accepted P me evs).Pairwise fun r s => r.lastSeen ≤ s.lastSeen :=
      List.pairwise_map.mp ((List.pairwise_append.mp hc).1.sublist
        (history_stamps P me .start evs))
    rw [mem_peers_iff P me evs t hc,← TableOp.latest_fresh PeerInfo.lastSeen _ _ _ ascending,
      Option.filter_eq_some_iff,decide_eq_true_eq]
    rfl
  refine ⟨Table.sorted_lt _,mem_peers_iff P me events t hc,?_,?_⟩
  · intro row hr
    have hm : row∈accepted P me events := by
      have hl := ((mem_peers_iff P me events t hc row).mp hr).1
      exact List.mem_reverse.mp (List.mem_of_find?_eq_some hl)
    obtain ⟨d,hd,ha⟩ := history_put P me _ events hm
    have hb := acceptBeacon_row P me ha
    exact ⟨hb.manifestId.symm,hb.foreign,d,hd,hb⟩
  · intro events' hc' he
    apply Table.sorted_congr
    intro row
    have h1 := fresh events hc row
    have h2 := fresh events' hc' row
    rw [peers,Table.mem_sorted] at h1 h2
    rw [h1,h2,he]

section Sample

def beaconAt (now : Time) : Datagram := ⟨workerBeacon.text,lit "192.168.1.20",now⟩

def workerSampleManifest : Manifest := ⟨workerManifest,by decide⟩

def workerRow (now : Time) : PeerInfo :=
  ⟨workerId,lit "192.168.1.20",.int 40123,workerSampleManifest,now⟩

theorem openData_of_opens {P : Platform} {data : Bytes} {envelope : Json} {o : Opened}
    (hl : P.loads data=.ok envelope) (ho : openEnvelope P envelope=.ok o) :
    openData P data=.ok (some o) := by
  simp only [openData,hl,ho]

theorem transcript_openData {ms : List Signed} (h : Consistent ms) {m : Signed} (hm : m∈ms) :
    openData (.ofTranscript ms) m.text=.ok (some m.opened) :=
  openData_of_opens (transcript_loads h hm (.inr rfl)) (transcript_opens h hm)

theorem sample_openData {m : Signed} (hm : m∈sampleTranscript) :
    openData samplePlatform m.text=.ok (some m.opened) :=
  transcript_openData sampleTranscript_consistent hm

/-- A beacon of the worker that opens is accepted at the requester. -/
theorem acceptBeacon_of_opens {P : Platform} {d : Datagram} {o : Opened} {n : Int}
    (ho : openData P d.data=.ok (some o)) (hs : o.sender=workerId) (ht : o.msgType=msgBeacon)
    (hb : o.body=some (.obj [(lit "tcp_port",.int n),(lit "manifest",workerManifest)]))
    (hn : isPort (.int n)=true) :
    acceptBeacon P requesterId d=.ok (some ⟨workerId,d.host,.int n,workerSampleManifest,d.now⟩) := by
  have hf : workerId≠requesterId := by decide
  have hp (v : Json) : (Json.obj [(lit "tcp_port",.int n),(lit "manifest",v)]).getD
      (lit "tcp_port") .null=.ok (.int n) := rfl
  have hg (v : Json) : (Json.obj [(lit "tcp_port",.int n),(lit "manifest",v)]).getD
      (lit "manifest") .null=.ok v := rfl
  have hv : validateManifest workerManifest=.ok workerSampleManifest :=
    (validateManifest_ok_iff _ _).mpr
      ⟨(manifestProblems_nil_iff _).mp workerSampleManifest.valid.2,rfl⟩
  have hi : workerSampleManifest.peerId=workerId.val := rfl
  simp only [acceptBeacon,ho,hs,hf,ht,hb,Option.getD_some,hp,hn,hg,hv,hi,if_false,ne_eq,
    not_true_eq_false]

theorem acceptBeacon_sample (now : Time) :
    acceptBeacon samplePlatform requesterId (beaconAt now)=.ok (some (workerRow now)) := by
  have hm : workerBeacon∈sampleTranscript := by simp [sampleTranscript]
  exact acceptBeacon_of_opens (sample_openData hm) rfl rfl rfl rfl

/-- A worker heard at time 5 is listed at time 10. -/
theorem peers_rebuildable_sample :
    workerRow 5∈(peers 10 (Discovery.run samplePlatform requesterId
      [.received (.datagram (beaconAt 5))]).table).1 := by
  have hc : ClockOk [.received (.datagram (beaconAt 5))] 10 := by
    unfold ClockOk
    decide
  have ha : accepted samplePlatform requesterId [.received (.datagram (beaconAt 5))]=
      [workerRow 5] := by
    simp [accepted,Discovery.history,Discovery.ops,Discovery.start,acceptBeacon_sample,
      TableOp.puts]
  apply ((peers_rebuildable samplePlatform requesterId _ 10 hc).2.1 _).mpr
  rw [ha]
  exact ⟨rfl,by decide +kernel⟩

end Sample

end AgentTorrent
