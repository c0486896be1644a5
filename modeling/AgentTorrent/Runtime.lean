import AgentTorrent.Cli
import AgentTorrent.Framework.Pool
import AgentTorrent.Python.JsonPretty
import AgentTorrent.Wire.Sealed

open Framework

namespace AgentTorrent

open Json

abbrev Port := Fin 65536

abbrev Pid := Fin 2147483648

/-- runtime.json in a data directory, as its inode and its bytes, the number of inodes so
far, and the ports on which peers of the directory have listened. -/
structure RuntimeDir where
  file : Option (Nat×Bytes)
  created : Nat
  listened : List Port

/-- open(path, "w") -/
def RuntimeDir.truncate (d : RuntimeDir) : RuntimeDir×Nat :=
  match d.file with
  | some (i,_) => ({d with file := some (i,[])},i)
  | none => ({d with file := some (d.created,[]),created := d.created+1},d.created)

/-- A write at the start of an open file, which may have lost its name since. -/
def RuntimeDir.write (d : RuntimeDir) (i : Nat) (bs : Bytes) : RuntimeDir :=
  {d with file := d.file.map fun f => if f.1=i then (i,bs++f.2.drop bs.length) else f}

/-- Where a process of mesh start stands. -/
inductive DaemonPc
  | starting
  | listening (port : Port)
  | writing (port : Port) (inode : Nat)
  | up (port : Port)
  | stopping (port : Port)
  | gone

structure DaemonAnswers where
  /-- what bind and getsockname give, none where one of them raises -/
  bound : Option Port
  /-- Discovery, the open of the file or its unlink raises -/
  fails : Bool
  /-- a write that raises has written so many bytes -/
  cut : Option Nat

/-- Where a command stands before it connects. -/
inductive LookPc
  | check
  | read
  | looked (next : CliPc)

/-- A mesh command, with what it will meet other than the file. -/
structure LookUp where
  call : CliCall
  answers : CliAnswers
  pc : LookPc

inductive RuntimeThread
  | daemon (pid : Pid) (pc : DaemonPc)
  | command (c : LookUp)

abbrev RuntimeWorld := Pool RuntimeDir RuntimeThread

inductive RuntimeAction
  | start (pid : Pid)
  | command (call : CliCall) (answers : CliAnswers)
  | turn (k : Nat) (a : DaemonAnswers)
  | kill (k : Nat)

section Steps

variable (P : Platform) (float : PyStr → PyFloat) (me : Identity)

def runtimeDict (port : Port) (pid : Pid) : List (PyStr×Json) :=
  [(lit "peer_id",.str (me.peerId P).val),(lit "tcp_port",.int port.val),(lit "pid",.int pid.val)]

/-- json.dumps(runtime, indent=2) -/
def runtimeText (port : Port) (pid : Pid) : Bytes := (Json.obj (runtimeDict P me port pid)).dumpsIndent

/-- json.loads(runtime_path.read_text()) -/
def readRuntime (d : RuntimeDir) : Except PyExc Json :=
  match d.file with
  | none => .error .osError
  | some (_,bs) => match loadsText float P.intPrints (ofAscii bs) with
    | none => .error .valueError
    | some v => .ok v

/-- One step of run_forever, with the files that it touches. An exception in Peer.start ends
the process without Peer.stop. -/
def daemonTurn (d : RuntimeDir) (a : DaemonAnswers) (pid : Pid) : DaemonPc → RuntimeDir×DaemonPc
  | .starting => match a.bound with
    | none => (d,.gone)
    | some port => ({d with listened := port::d.listened},.listening port)
  | .listening port => if a.fails then (d,.gone) else (d.truncate.1,.writing port d.truncate.2)
  | .writing port i => match a.cut with
    | none => (d.write i (runtimeText P me port pid),.up port)
    | some n => (d.write i ((runtimeText P me port pid).take n),.gone)
  | .up port => (d,.stopping port)
  | .stopping _ => if a.fails then (d,.gone) else ({d with file := none},.gone)
  | .gone => (d,.gone)

/-- _control_request up to its connect, where exists and read_text meet different moments. -/
def LookUp.turn (d : RuntimeDir) (c : LookUp) : LookPc :=
  let go := fun runtime =>
    LookPc.looked (cliStep P me {c.call with pc := .start} {c.answers with runtime}).1
  match c.pc with
  | .check => if d.file.isSome then .read else go none
  | .read => go (some (readRuntime P float d))
  | .looked next => .looked next

def runtimeTurn (d : RuntimeDir) (a : DaemonAnswers) : RuntimeThread → RuntimeDir×RuntimeThread
  | .daemon pid pc => let r := daemonTurn P me d a pid pc; (r.1,.daemon pid r.2)
  | .command c => (d,.command {c with pc := c.turn P float me d})

/-- A process that dies leaves the files as they are. -/
def RuntimeThread.killed : RuntimeThread → RuntimeThread
  | .daemon pid _ => .daemon pid .gone
  | .command c => .command c

/-- A data directory, with the peers that are started in it and the commands given there. -/
def runtimeMachine : Machine RuntimeWorld RuntimeAction where
  init p := p=⟨⟨none,0,[]⟩,[]⟩
  step p act := match act with
    | .start pid => some ⟨p.shared,p.threads++[.daemon pid .starting]⟩
    | .command call answers => some ⟨p.shared,p.threads++[.command ⟨call,answers,.check⟩]⟩
    | .turn k a => (p.threads[k]?).map fun t =>
      let r := runtimeTurn P float me p.shared a t
      ⟨r.1,p.threads.set k r.2⟩
    | .kill k => (p.threads[k]?).map fun t => ⟨p.shared,p.threads.set k t.killed⟩

end Steps

/-- A peer whose process has not ended. -/
def RuntimeThread.live : RuntimeThread → Bool
  | .daemon _ .gone | .command _ => false
  | .daemon _ _ => true

/-- No peer is started while another one of the directory lives. -/
def Alone (p : RuntimeWorld) (act : RuntimeAction) (_ : RuntimeWorld) : Prop :=
  ∀pid,act=.start pid → ∀t∈p.threads,t.live=false

/-- What a peer that lives has done to the directory. -/
def DaemonPc.Holds (P : Platform) (me : Identity) (d : RuntimeDir) (pid : Pid) : DaemonPc → Prop
  | .starting | .gone => True
  | .listening port => port∈d.listened
  | .writing port i => port∈d.listened ∧ d.file=some (i,[])
  | .up port | .stopping port => port∈d.listened ∧ ∃i,d.file=some (i,runtimeText P me port pid)

/-- A command that goes on to connect does so on a port of a peer of the directory. -/
def RuntimeThread.Holds (P : Platform) (me : Identity) (d : RuntimeDir) : RuntimeThread → Prop
  | .daemon pid pc => pc.Holds P me d pid
  | .command c => ∀port,c.pc=.looked (.connect port) → ∃n∈d.listened,port=.int n.val

/-- Whatever is left in runtime.json is a part of what one of its peers wrote. -/
def RuntimeDir.Left (P : Platform) (me : Identity) (d : RuntimeDir) : Prop :=
  ∀i bs,d.file=some (i,bs) → ∃port∈d.listened,∃pid n,bs=(runtimeText P me port pid).take n

structure RuntimeSound (P : Platform) (me : Identity) (p : RuntimeWorld) : Prop where
  left : p.shared.Left P me
  holds : ∀(k : Nat) (t : RuntimeThread),p.threads[k]?=some t → t.Holds P me p.shared
  alone : ∀(i j : Nat) (t u : RuntimeThread),p.threads[i]?=some t → p.threads[j]?=some u →
    t.live=true → u.live=true → i=j

variable {P : Platform} {float : PyStr → PyFloat} {me : Identity} {d : RuntimeDir}
  {port : Port} {pid : Pid}

section Text

variable (hP : P.Lawful float) (hi : ∀n : Int,n.natAbs < 2147483648 → P.intPrints n=true)

include hP in
theorem runtimeDict_plain : (Json.obj (runtimeDict P me port pid)).plain=true := by
  have hk : ([lit "peer_id",lit "tcp_port",lit "pid"] : List PyStr).Nodup ∧
      ∀k∈[lit "peer_id",lit "tcp_port",lit "pid"],k.all isCarried=true := by decide
  rw [plain,Bool.and_eq_true,plainMembers_iff]
  refine ⟨decide_eq_true hk.1,fun m hm => ⟨hk.2 m.1 (List.mem_map_of_mem hm),?_⟩⟩
  simp only [runtimeDict,List.mem_cons,List.not_mem_nil,or_false] at hm
  obtain rfl | rfl | rfl := hm
  · exact hP.digest me.pubkey
  · rfl
  · rfl

include hi in
theorem runtimeDict_ints : (Json.obj (runtimeDict P me port pid)).intsAll P.intPrints=true := by
  rw [intsAll,intsAllMembers_iff]
  intro m hm
  simp only [runtimeDict,List.mem_cons,List.not_mem_nil,or_false] at hm
  obtain rfl | rfl | rfl := hm
  · rfl
  · have := port.isLt
    exact hi _ (by omega)
  · have := pid.isLt
    exact hi _ (by omega)

include hP hi in
theorem readRuntime_text {i : Nat} (h : d.file=some (i,runtimeText P me port pid)) :
    readRuntime P float d=.ok (.obj (runtimeDict P me port pid)) := by
  have hl : loadsText float P.intPrints (ofAscii (runtimeText P me port pid))=
      some (.obj (runtimeDict P me port pid)) :=
    loadsText_dumpsIndent hP.floats (runtimeDict_plain hP) (runtimeDict_ints hi)
  simp only [readRuntime,h,hl]

include hP hi in
/-- A part of the text gives no port. -/
theorem readRuntime_cut {i n : Nat} (h : d.file=some (i,(runtimeText P me port pid).take n))
    (hn : n < (runtimeText P me port pid).length) : readRuntime P float d=.error .valueError := by
  have hl : loadsText float P.intPrints (ofAscii ((runtimeText P me port pid).take n))=none :=
    loadsText_dumpsIndent_cut hP.floats (runtimeDict_plain hP) (runtimeDict_ints hi) hn
  simp only [readRuntime,h,hl]

end Text

theorem DaemonPc.holds_gone {pc : DaemonPc} (h : (RuntimeThread.daemon pid pc).live=false)
    (d : RuntimeDir) : pc.Holds P me d pid := by
  cases pc with
  | gone => trivial
  | _ => cases h

theorem RuntimeDir.write_truncated {i : Nat} (h : d.file=some (i,[])) (bs : Bytes) :
    (d.write i bs).file=some (i,bs) := by
  simp [RuntimeDir.write,h]

theorem RuntimeDir.truncate_file (d : RuntimeDir) : d.truncate.1.file=some (d.truncate.2,[]) := by
  unfold RuntimeDir.truncate
  split <;> rfl

theorem RuntimeDir.truncate_listened (d : RuntimeDir) : d.truncate.1.listened=d.listened := by
  unfold RuntimeDir.truncate
  split <;> rfl

/-- A step of the peer that lives. -/
structure DaemonKept (P : Platform) (me : Identity) (pid : Pid) (pc : DaemonPc) (d : RuntimeDir)
    (next : RuntimeDir×DaemonPc) : Prop where
  holds : next.2.Holds P me next.1 pid
  left : next.1.Left P me
  listened : ∀n∈d.listened,n∈next.1.listened
  live : (RuntimeThread.daemon pid next.2).live=true → (RuntimeThread.daemon pid pc).live=true

theorem daemonTurn_kept {pc : DaemonPc} (hd : d.Left P me) (h : pc.Holds P me d pid)
    (a : DaemonAnswers) : DaemonKept P me pid pc d (daemonTurn P me d a pid pc) := by
  have ends (hlive : (RuntimeThread.daemon pid pc).live=true) :
      DaemonKept P me pid pc d (d,.gone) := ⟨trivial,hd,fun _ hn => hn,fun _ => hlive⟩
  cases pc with
  | starting =>
    simp only [daemonTurn]
    split
    · exact ends rfl
    · rename_i port hb
      refine ⟨List.mem_cons_self,?_,fun n hn => List.mem_cons_of_mem _ hn,fun _ => rfl⟩
      intro i bs hf
      obtain ⟨q,hq,hbs⟩ := hd i bs hf
      exact ⟨q,List.mem_cons_of_mem _ hq,hbs⟩
  | listening port =>
    simp only [daemonTurn]
    split_ifs
    · exact ends rfl
    · have hl : d.truncate.1.listened=d.listened := d.truncate_listened
      have hf : d.truncate.1.file=some (d.truncate.2,[]) := d.truncate_file
      have h : port∈d.truncate.1.listened := by
        rw [hl]
        exact h
      refine ⟨⟨h,hf⟩,?_,fun n hn => by rw [hl]; exact hn,fun _ => rfl⟩
      intro i bs hb
      cases hf.symm.trans hb
      exact ⟨port,h,pid,0,rfl⟩
  | writing port i =>
    obtain ⟨hport,hf⟩ := h
    simp only [daemonTurn]
    split
    · have hw := RuntimeDir.write_truncated hf (runtimeText P me port pid)
      refine ⟨⟨hport,i,hw⟩,?_,fun n hn => hn,fun _ => rfl⟩
      intro j bs hb
      cases hw.symm.trans hb
      exact ⟨port,hport,pid,_,(List.take_length).symm⟩
    · rename_i n hc
      have hw := RuntimeDir.write_truncated hf ((runtimeText P me port pid).take n)
      refine ⟨trivial,?_,fun n hn => hn,fun _ => rfl⟩
      intro j bs hb
      cases hw.symm.trans hb
      exact ⟨port,hport,pid,n,rfl⟩
  | up port => exact ⟨h,hd,fun n hn => hn,fun _ => rfl⟩
  | stopping port =>
    simp only [daemonTurn]
    split_ifs
    · exact ends rfl
    · exact ⟨trivial,fun i bs hb => (by cases hb),fun n hn => hn,fun _ => rfl⟩
  | gone => exact ⟨trivial,hd,fun n hn => hn,id⟩

section Look

variable (hP : P.Lawful float) (hi : ∀n : Int,n.natAbs < 2147483648 → P.intPrints n=true)

/-- What _control_request makes of what it read. -/
theorem cliStep_runtime {call : CliCall} {a : CliAnswers} {runtime : Except PyExc Json}
    {port : Json} (h : (cliStep P me {call with pc := .start} {a with runtime := some runtime}).1=
      .connect port) : ∃v,runtime=.ok v ∧ v.item (lit "tcp_port")=.ok port := by
  simp only [cliStep] at h
  cases runtime with
  | error e => cases h
  | ok v =>
    refine ⟨v,rfl,?_⟩
    simp only at h
    split at h
    · cases h
    · split at h
      · cases h
      · cases h
        assumption

include hP hi in
theorem look_holds {c : LookUp} (hd : d.Left P me) (h : (RuntimeThread.command c).Holds P me d) :
    (RuntimeThread.command {c with pc := c.turn P float me d}).Holds P me d := by
  intro port hport
  unfold LookUp.turn at hport
  split at hport
  · split_ifs at hport
    cases hport
  · obtain ⟨v,hv,hitem⟩ := cliStep_runtime (LookPc.looked.inj hport)
    cases hf : d.file with
    | none => simp [readRuntime,hf] at hv
    | some f =>
      obtain ⟨i,bs⟩ := f
      obtain ⟨n,hn,pid,m,rfl⟩ := hd i bs hf
      by_cases hm : m < (runtimeText P me n pid).length
      · cases (readRuntime_cut hP hi hf hm).symm.trans hv
      · rw [List.take_of_length_le (Nat.le_of_not_lt hm)] at hf
        cases (readRuntime_text hP hi hf).symm.trans hv
        cases hitem
        exact ⟨n,hn,rfl⟩
  · rename_i next hn
    exact h port (hn.trans hport)

/-- If the command comes past its look, it goes on to connect to this port, unless
Identity.load_or_create raises. -/
def LookUp.Finds (port : Port) (c : LookUp) : Prop :=
  ∀next,c.pc=.looked next → next=match c.answers.loaded with
    | .ok () => .connect (.int port.val)
    | .error e => .finished (.raised e)

include hP hi in
/-- While runtime.json is that of a peer, a look finds it. -/
theorem look_finds {c : LookUp} {i : Nat} (hf : d.file=some (i,runtimeText P me port pid))
    (h : c.Finds port) : LookUp.Finds port {c with pc := c.turn P float me d} := by
  intro next hn
  simp only [LookUp.turn] at hn
  split at hn
  · simp [hf] at hn
  · have hread : readRuntime P float d=.ok (.obj (runtimeDict P me port pid)) :=
      readRuntime_text hP hi hf
    have hport : (Json.obj (runtimeDict P me port pid)).item (lit "tcp_port")=.ok (.int port.val) := rfl
    rw [← LookPc.looked.inj hn,hread]
    simp only [cliStep,hport]
    cases c.answers.loaded with
    | ok u => rfl
    | error e => rfl
  · rename_i pc next' hpc
    exact h next (hpc.trans hn)

end Look

/-- The peer is about to leave, or has left. -/
def DaemonPc.leaving : DaemonPc → Bool
  | .stopping _ | .gone => true
  | _ => false

theorem daemonTurn_leaving {pc : DaemonPc} (h : pc.leaving=true) (a : DaemonAnswers) :
    (daemonTurn P me d a pid pc).2.leaving=true := by
  cases pc with
  | stopping port =>
    simp only [daemonTurn]
    split_ifs <;> rfl
  | gone => rfl
  | _ => cases h

/-- Peer k is leaving, or it is up and the commands from n on find it. -/
def MetBy (k n : Nat) (pid : Pid) (port : Port) (p : RuntimeWorld) : Prop :=
  (∃pc,p.threads[k]?=some (.daemon pid pc) ∧ pc.leaving=true) ∨
  p.threads[k]?=some (.daemon pid (.up port)) ∧
    ∀(j : Nat) (c : LookUp),n ≤ j → p.threads[j]?=some (.command c) → c.Finds port

section Runs

variable {p q : RuntimeWorld} {act : RuntimeAction}

/-- A turn keeps the directory sound: only the peer that lives touches it. -/
theorem RuntimeSound.set (hp : RuntimeSound P me p) {k : Nat} {t t' : RuntimeThread}
    (hk : p.threads[k]?=some t) (own : t'.Holds P me d) (left : d.Left P me)
    (listened : ∀n∈p.shared.listened,n∈d.listened) (live : t'.live=true → t.live=true)
    (touch : t.live=true ∨ d=p.shared) : RuntimeSound P me ⟨d,p.threads.set k t'⟩ := by
  refine ⟨left,?_,?_⟩
  · intro i u hu
    obtain ⟨-,rfl⟩ | ⟨hik,hu⟩ := Pool.get_set hu
    · exact own
    · have hold := hp.holds i u hu
      cases u with
      | command c =>
        intro port hport
        obtain ⟨n,hn,he⟩ := hold port hport
        exact ⟨n,listened n hn,he⟩
      | daemon pid pc =>
        obtain ht | rfl := touch
        · refine DaemonPc.holds_gone (Bool.eq_false_iff.mpr fun hu' => ?_) d
          exact hik (hp.alone i k _ t hu hk hu' ht)
        · exact hold
  · intro i j u v hu hv hul hvl
    have alive {i : Nat} {u : RuntimeThread} (hu : (p.threads.set k t')[i]?=some u)
        (hul : u.live=true) : ∃w,p.threads[i]?=some w ∧ w.live=true := by
      obtain ⟨rfl,rfl⟩ | ⟨-,hu⟩ := Pool.get_set hu
      · exact ⟨t,hk,live hul⟩
      · exact ⟨u,hu,hul⟩
    obtain ⟨_,hu,hul⟩ := alive hu hul
    obtain ⟨_,hv,hvl⟩ := alive hv hvl
    exact hp.alone i j _ _ hu hv hul hvl

theorem RuntimeSound.spawn (hp : RuntimeSound P me p) {t : RuntimeThread}
    (own : t.Holds P me p.shared) (alone : t.live=true → ∀u∈p.threads,u.live=false) :
    RuntimeSound P me ⟨p.shared,p.threads++[t]⟩ := by
  refine ⟨hp.left,?_,?_⟩
  · intro i u hu
    obtain hu | ⟨-,rfl⟩ := Pool.get_spawn hu
    · exact hp.holds i u hu
    · exact own
  · intro i j u v hu hv hul hvl
    have other {i : Nat} {u : RuntimeThread} (hu : p.threads[i]?=some u) (hul : u.live=true)
        (ht : t.live=true) : False := by
      cases (alone ht u (List.mem_of_getElem? hu)).symm.trans hul
    obtain hi | ⟨hi,rfl⟩ := Pool.get_spawn hu
    · obtain hj | ⟨hj,rfl⟩ := Pool.get_spawn hv
      · exact hp.alone i j u v hi hj hul hvl
      · exact (other hi hul hvl).elim
    · obtain hj | ⟨hj,-⟩ := Pool.get_spawn hv
      · exact (other hj hvl hul).elim
      · exact hi.trans hj.symm

theorem MetBy.spawn {k n : Nat} (hm : MetBy k n pid port p) {t : RuntimeThread}
    (ht : ∀c,t=.command c → c.Finds port) : MetBy k n pid port ⟨p.shared,p.threads++[t]⟩ := by
  obtain ⟨pc,hpc,hl⟩ | ⟨hk,hc⟩ := hm
  · exact .inl ⟨pc,Pool.get_older hpc t,hl⟩
  · refine .inr ⟨Pool.get_older hk t,?_⟩
    intro j c hj hjc
    obtain hjc | ⟨-,he⟩ := Pool.get_spawn hjc
    · exact hc j c hj hjc
    · exact ht c he.symm

/-- The peer is still met after a turn in which a peer only comes closer to its end, and a
command that found it still does. -/
theorem MetBy.turn {k n i : Nat} {t t' : RuntimeThread} (hm : MetBy k n pid port p)
    (hi : p.threads[i]?=some t)
    (hend : ∀pc,t=.daemon pid pc → pc.leaving=true ∨ pc=.up port →
      ∃pc',t'=.daemon pid pc' ∧ pc'.leaving=true)
    (hfind : ∀c,t'=.command c → ∃c₀,t=.command c₀ ∧
      (p.threads[k]?=some (.daemon pid (.up port)) → c₀.Finds port → c.Finds port)) :
    MetBy k n pid port ⟨d,p.threads.set i t'⟩ := by
  have other {pc : DaemonPc} (hk : p.threads[k]?=some (.daemon pid pc)) (hik : i≠k) :
      (p.threads.set i t')[k]?=some (.daemon pid pc) := by
    rw [List.getElem?_set_ne hik]
    exact hk
  have own {pc : DaemonPc} (hk : p.threads[k]?=some (.daemon pid pc)) (hik : i=k)
      (hpc : pc.leaving=true ∨ pc=.up port) :
      ∃pc',(p.threads.set i t')[k]?=some (.daemon pid pc') ∧ pc'.leaving=true := by
    subst hik
    obtain ⟨pc',rfl,hl⟩ := hend pc (Option.some.inj (hi.symm.trans hk)) hpc
    exact ⟨pc',List.getElem?_set_self (List.getElem?_eq_some_iff.mp hi).1,hl⟩
  obtain ⟨pc,hpc,hl⟩ | ⟨hk,hc⟩ := hm
  · by_cases hik : i=k
    · exact .inl (own hpc hik (.inl hl))
    · exact .inl ⟨pc,other hpc hik,hl⟩
  · by_cases hik : i=k
    · exact .inl (own hk hik (.inr rfl))
    · refine .inr ⟨other hk hik,?_⟩
      intro j c hj hjc
      obtain ⟨rfl,he⟩ | ⟨-,hjc⟩ := Pool.get_set hjc
      · obtain ⟨c₀,rfl,hkeep⟩ := hfind c he.symm
        exact hkeep hk (hc j c₀ hj hi)
      · exact hc j c hj hjc

variable (hP : P.Lawful float) (hi : ∀n : Int,n.natAbs < 2147483648 → P.intPrints n=true)
include hP hi

theorem runtime_step (hp : RuntimeSound P me p) (hs : (runtimeMachine P float me).step p act=some q)
    (hg : Alone p act q) : RuntimeSound P me q := by
  cases act with
  | start pid =>
    cases hs
    exact hp.spawn trivial fun _ => hg pid rfl
  | command call answers =>
    cases hs
    exact hp.spawn (fun port h => by cases h) fun h => by cases h
  | kill k =>
    obtain ⟨t,ht,rfl⟩ := Option.map_eq_some_iff.mp hs
    refine hp.set ht ?_ hp.left (fun n hn => hn) ?_ (.inr rfl)
    · cases t with
      | daemon pid pc => trivial
      | command c => exact hp.holds k _ ht
    · cases t with
      | daemon pid pc => exact fun h => by cases h
      | command c => exact id
  | turn k a =>
    obtain ⟨t,ht,rfl⟩ := Option.map_eq_some_iff.mp hs
    have hold := hp.holds k t ht
    cases t with
    | command c =>
      have hl := look_holds hP hi hp.left hold
      exact hp.set ht hl hp.left (fun n hn => hn) id (.inr rfl)
    | daemon pid pc =>
      have hk := daemonTurn_kept hp.left hold a
      refine hp.set ht hk.holds hk.left hk.listened hk.live ?_
      cases pc with
      | gone => exact .inr rfl
      | _ => exact .inl rfl

theorem runtime_sound (h : (runtimeMachine P float me).ReachableBy Alone p) :
    RuntimeSound P me p := by
  refine Machine.ReachableBy.invariant _ ?_ ?_ h
  · intro p hp
    cases hp
    refine ⟨?_,?_,?_⟩
    · intro i bs h
      cases h
    · intro k t ht
      simp at ht
    · intro i j t u ht
      simp at ht
  · intro p act q _ hp hs hg
    exact runtime_step hP hi hp hs hg

variable {k n : Nat}

/-- The peer of the file is still met after a step. -/
theorem met_step (hp : RuntimeSound P me p) (hm : MetBy k n pid port p)
    (hs : (runtimeMachine P float me).step p act=some q) : MetBy k n pid port q := by
  cases act with
  | start pid' =>
    cases hs
    exact hm.spawn fun c h => by cases h
  | command call answers =>
    cases hs
    refine hm.spawn fun c h => ?_
    cases h
    exact fun next hn => by cases hn
  | kill i =>
    obtain ⟨t,ht,rfl⟩ := Option.map_eq_some_iff.mp hs
    refine hm.turn ht ?_ ?_
    · intro pc h _
      subst h
      exact ⟨.gone,rfl,rfl⟩
    · intro c h
      cases t with
      | daemon pid pc => cases h
      | command c₀ =>
        cases h
        exact ⟨c,rfl,fun _ h => h⟩
  | turn i a =>
    obtain ⟨t,ht,rfl⟩ := Option.map_eq_some_iff.mp hs
    refine hm.turn ht ?_ ?_
    · intro pc h hpc
      subst h
      refine ⟨_,rfl,?_⟩
      obtain hl | rfl := hpc
      · exact daemonTurn_leaving hl a
      · rfl
    · intro c h
      cases t with
      | daemon pid pc => cases h
      | command c₀ =>
        cases h
        refine ⟨c₀,rfl,fun hk hf => ?_⟩
        obtain ⟨-,j,hfile⟩ := hp.holds k _ hk
        exact look_finds hP hi hfile hf

/-- Where no peer is started in a data directory while another one of it lives: a command
that begins when a peer is up, and looks while it is still up, goes on to connect to the
port of this peer; and any command that goes on to connect does so on a port where a peer
of the directory has listened, never on what a torn file says. -/
theorem command_finds_peer (h : (runtimeMachine P float me).ReachableBy Alone p)
    {acts : List RuntimeAction} (hr : (runtimeMachine P float me).run p acts=some q)
    (hg : (runtimeMachine P float me).Meets Alone p acts) :
    (∀(j : Nat) (c : LookUp) (v : Json),q.threads[j]?=some (.command c) →
      c.pc=.looked (.connect v) → ∃n∈q.shared.listened,v=.int n.val) ∧
    ∀(k : Nat) (pid : Pid) (port : Port),p.threads[k]?=some (.daemon pid (.up port)) →
      q.threads[k]?=some (.daemon pid (.up port)) → ∀(j : Nat) (c : LookUp),
        p.threads.length ≤ j → q.threads[j]?=some (.command c) → c.Finds port := by
  have hp := runtime_sound hP hi h
  refine ⟨?_,?_⟩
  · intro j c v hj hv
    have hq : RuntimeSound P me q := Machine.Meets.preserves _
      (fun p act q hp hs hg => runtime_step hP hi hp hs hg) hp hr hg
    exact hq.holds j _ hj v hv
  · intro k pid port hkp hkq j c hj hjc
    have hstart : MetBy k p.threads.length pid port p := by
      refine .inr ⟨hkp,?_⟩
      intro j c hj hjc
      have := (List.getElem?_eq_some_iff.mp hjc).1
      omega
    have hmet : RuntimeSound P me q ∧ MetBy k p.threads.length pid port q :=
      Machine.Meets.preserves _
        (I := fun p' => RuntimeSound P me p' ∧ MetBy k p.threads.length pid port p')
        (fun p' act q' hp hs hg =>
          ⟨runtime_step hP hi hp.1 hs hg,met_step hP hi hp.1 hp.2 hs⟩) ⟨hp,hstart⟩ hr hg
    obtain ⟨pc,hpc,hl⟩ | ⟨-,hc⟩ := hmet.2
    · cases hkq.symm.trans hpc
      cases hl
    · exact hc j c hj hjc

end Runs

section Sample

theorem intPrints_pid (n : Int) (hn : n.natAbs < 2147483648) : intPrints n=true := by
  unfold intPrints
  generalize hk : 4300=k
  have hp : Nat.pow 10 10 ≤ Nat.pow 10 k := Nat.pow_le_pow_right (by omega) (by omega)
  exact decide_eq_true ((hn.trans (by decide)).trans_le hp)

def boundTo (port : Port) : DaemonAnswers := ⟨some port,false,none⟩

/-- A peer dies in its write of runtime.json, and another one comes up. -/
def restartedPeer : List RuntimeAction :=
  [.start 700,.turn 0 (boundTo 40122),.turn 0 (boundTo 40122),.turn 0 ⟨none,false,some 30⟩,
    .start 701,.turn 1 (boundTo 40123),.turn 1 (boundTo 40123),.turn 1 (boundTo 40123)]

def lookOnce : List RuntimeAction :=
  [.command ⟨lit "~/.agenttorrent",lit "peers",.obj [],.start⟩
      ⟨none,.ok (),.ok (),requesterHandshake.ts,true,.error (.protocolError .timedOut)⟩,
    .turn 2 (boundTo 0),.turn 2 (boundTo 0)]

def sampleDirectory : Machine RuntimeWorld RuntimeAction :=
  runtimeMachine samplePlatform readFloat requesterIdentity

def restartedWorld : RuntimeWorld :=
  (sampleDirectory.run ⟨⟨none,0,[]⟩,[]⟩ restartedPeer).getD ⟨⟨none,0,[]⟩,[]⟩

def lookedWorld : RuntimeWorld := (sampleDirectory.run restartedWorld lookOnce).getD restartedWorld

def alone (p : RuntimeWorld) : RuntimeAction → Bool
  | .start _ => p.threads.all fun t => !t.live
  | _ => true

theorem alone_checked (p : RuntimeWorld) (act : RuntimeAction) (q : RuntimeWorld)
    (h : alone p act=true) : Alone p act q := by
  intro pid hact t ht
  subst hact
  simpa using (List.all_eq_true.mp h) t ht

/-- The process and the port of a peer that is up. -/
def RuntimeThread.upOn : RuntimeThread → Option (Pid×Port)
  | .daemon pid (.up port) => some (pid,port)
  | _ => none

theorem RuntimeThread.eq_up {t : RuntimeThread} (h : t.upOn=some (pid,port)) :
    t=.daemon pid (.up port) := by
  cases t with
  | command c => cases h
  | daemon pid' pc => cases pc with
    | up port' =>
      cases h
      rfl
    | _ => cases h

def RuntimeThread.lookUp : RuntimeThread → Option LookUp
  | .command c => some c
  | .daemon _ _ => none

theorem RuntimeThread.eq_command {t : RuntimeThread} {c : LookUp} (h : t.lookUp=some c) :
    t=.command c := by
  cases t with
  | command c' =>
    cases h
    rfl
  | daemon pid pc => cases h

theorem up_of_test {p : RuntimeWorld} {k : Nat}
    (h : (p.threads[k]?).bind RuntimeThread.upOn=some (pid,port)) :
    p.threads[k]?=some (.daemon pid (.up port)) := by
  obtain ⟨t,ht,hup⟩ := Option.bind_eq_some_iff.mp h
  rw [ht,t.eq_up hup]

theorem command_finds_peer_sample :
    ∃c,lookedWorld.threads[2]?=some (.command c) ∧ c.Finds 40123 := by
  have hstart : sampleDirectory.ReachableBy Alone restartedWorld :=
    Machine.ReachableBy.of_checks _ alone_checked rfl (by decide) (by decide)
  have hr : sampleDirectory.run restartedWorld lookOnce=some lookedWorld :=
    Machine.run_getD _ (by decide)
  have hmeets : sampleDirectory.Meets Alone restartedWorld lookOnce :=
    Machine.meets_of_checks _ alone_checked (by decide)
  have hup : restartedWorld.threads[1]?=some (.daemon 701 (.up 40123)) :=
    up_of_test (by decide)
  have hup' : lookedWorld.threads[1]?=some (.daemon 701 (.up 40123)) :=
    up_of_test (by decide)
  have hlen : restartedWorld.threads.length ≤ 2 := by decide
  have hlook : ((lookedWorld.threads[2]?).bind RuntimeThread.lookUp).isSome=true := by
    decide
  obtain ⟨c,hc⟩ := Option.isSome_iff_exists.mp hlook
  obtain ⟨t,ht,hc⟩ := Option.bind_eq_some_iff.mp hc
  rw [t.eq_command hc] at ht
  have hfinds := (command_finds_peer sample_lawful intPrints_pid hstart hr hmeets).2 1 701 40123
    hup hup' 2 c hlen ht
  exact ⟨c,ht,hfinds⟩

/-- Two peers in one directory, of which the first one stops. -/
def overlapped : RuntimeWorld :=
  let turns k := List.replicate 3 (RuntimeAction.turn k (boundTo 40122))
  (sampleDirectory.run ⟨⟨none,0,[]⟩,[]⟩ ([.start 700]++turns 0++[.start 701]++turns 1++
    [.turn 0 (boundTo 0),.turn 0 (boundTo 0)])).getD ⟨⟨none,0,[]⟩,[]⟩

/-- It takes the file of the other one, which is up. -/
example : (overlapped.threads[1]?).bind RuntimeThread.upOn=some (701,40122) ∧
    overlapped.shared.file=none := by decide

end Sample

end AgentTorrent
