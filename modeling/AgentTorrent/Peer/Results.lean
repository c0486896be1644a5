import AgentTorrent.Peer.Serve
import AgentTorrent.Python.JsonText
import AgentTorrent.Sandbox

namespace AgentTorrent

/-- How a launched harness ends, with what it wrote. -/
inductive ProcessEnd
  | launchError (text : PyStr)
  | timedOut
  | exited (returncode : Int) (stdout stderr : Bytes)

/-- What subprocess.run and the cleanup meet when a harness is launched. -/
structure Spawn where
  outcome : ProcessEnd
  /-- the output as text of the locale -/
  decode : Bytes → Option PyStr
  /-- waiting this many seconds overflows no timeout of the system -/
  waits : Int → Bool
  /-- shutil.rmtree removes the workdir -/
  rmtree : Bool

variable (P : Platform)

/-- The string can be an argument of a process. -/
def passable (s : PyStr) : Bool := s.all fun c => c.val≠0 && P.encodes c

/-- subprocess.run(..., capture_output=True, text=True, timeout=...) -/
def Spawn.run (S : Spawn) (c : Command) : Launch :=
  if ¬c.argv.all (passable P) then .raised .valueError
  else match S.outcome with
    | .launchError text => .osError text
    | .timedOut => if S.waits c.timeout then .timeoutExpired else .raised .overflowError
    | .exited returncode stdout stderr =>
      if ¬S.waits c.timeout then .raised .overflowError
      else match S.decode stdout,S.decode stderr with
        | some stdout,some stderr => .exited returncode stdout stderr
        | _,_ => .raised .valueError

def Host.spawning (host : Host) (S : Spawn) : Host := {host with launch := S.run P}

variable (peer : Peer) (host : Host) (S : Spawn)

/-- The workdir that execute_job leaves behind. Only the launch has a finally clause. -/
def sandboxLeft (job : Job) : Option PyStr :=
  (chooseHarness peer host job).bind fun harness => (harnessBinary host harness).bind fun binary =>
    host.mkdtemp.bind fun workdir => match sandboxCommand P peer host harness binary workdir job with
      | .error _ => some workdir
      | .ok _ => if S.rmtree then none else some workdir

def taskResults : Option Event → List Json
  | some (.sealed payload) => if payload.strField (lit "type")=msgTaskResult then [payload] else []
  | _ => []

/-- The TASK_RESULT messages that a connection hands to sendall, whatever the other
threads do to the ledger between its steps. -/
def sentResults (loopback : Bool) : List (Answers×Ledger) → ServePc → List Json
  | [],_ => []
  | (a,L)::steps,pc =>
    let next := serveStep P peer loopback a L pc
    taskResults next.2.2++sentResults loopback steps next.2.1

/-- The job came to one result that tells how it went, and to nothing else. -/
def Answered (job : Job) : Prop :=
  ∃r,executeJob P peer (host.spawning P S) job=.ok r ∧ r.jobId=job.id ∧
    (r.status=.ok ↔ r.simulated=true ∨ ∃stdout stderr,S.outcome=.exited 0 stdout stderr) ∧
    sandboxLeft P peer host S job=none ∧
    ∀loopback requester a L a' L' steps,a.host=host.spawning P S →
      sentResults P peer loopback ((a,L)::(a',L')::steps) (.execute requester job)=
        [sealPayload (peer.identity.peerId P) a'.ts msgTaskResult (resultBody job r)]

/-- The outcome of a launch that execute_job can tell: the wait takes the limit, and
the output is text. -/
def Spawn.tells (S : Spawn) (limit : Int) : Bool :=
  match S.outcome with
  | .launchError _ => true
  | .timedOut => S.waits limit && P.intPrints limit
  | .exited _ stdout stderr =>
    S.waits limit && (S.decode stdout).isSome && (S.decode stderr).isSome

/-- The strings and numbers that reach the command line of the harness can be passed. -/
def commandPasses (harness binary : PyStr) (job : Job) : Bool :=
  passable P binary && passable P job.taskText.val && passable P job.expectedOutput.val &&
  P.intPrints job.maxTokens.val &&
  (harness≠lit "api" || passable P host.apiHarnessScript && P.intPrints job.maxRuntimeSeconds.val)

/-- What a job and its machine must be like for the job to be answered. -/
def Answerable (job : Job) : Prop :=
  match chooseHarness peer host job with
  | none => 0 ≤ simulatedDelay peer job ∧ simulatedDelay peer job*1000000000≤9223372036854775807
  | some harness => ∃binary,harnessBinary host harness=some binary ∧ host.mkdtemp.isSome=true ∧
    (peer.config.envPassthrough.all fun name => name.all P.encodes)=true ∧
    commandPasses P host harness binary job=true ∧
    S.tells P job.maxRuntimeSeconds.val=true ∧ S.rmtree=true

section Launch

variable {P peer host S} {job : Job} {harness binary workdir : PyStr}

theorem chooseHarness_known (h : chooseHarness peer host job=some harness) :
    harness=lit "api" ∨ harness=lit "claude" ∨ harness=lit "codex" := by
  have hr := job.requiredHarness.property
  unfold chooseHarness at h
  split_ifs at h with hf ha hu
  · have hm := List.mem_of_find?_eq_some h
    simp only [List.mem_cons,List.not_mem_nil,or_false] at hm
    tauto
  · cases h
    simp only [harnessChoices,List.mem_cons,List.not_mem_nil,or_false] at hr
    tauto

theorem passable_append (s t : PyStr) : passable P (s++t)=(passable P s && passable P t) := by
  simp [passable]

/-- The command can be written unless a number is too long to be printed. -/
theorem harnessCommand_prints (host : Host) (binary : PyStr)
    (hk : harness=lit "api" ∨ harness=lit "claude" ∨ harness=lit "codex") :
    (∃argv,harnessCommand P host harness binary job=.ok argv) ↔ P.intPrints job.maxTokens.val=true ∧
      (harness=lit "api" → P.intPrints job.maxRuntimeSeconds.val=true) := by
  unfold harnessCommand
  split_ifs with ht ha hr hc hx
  · simp [ht,hr]
  · simp [ha,hr]
  · simp [ha,ht]
  · simp [ha,ht]
  · tauto
  · simp [ht]

theorem sandboxCommand_prints
    (hk : harness=lit "api" ∨ harness=lit "claude" ∨ harness=lit "codex") :
    (∃c,sandboxCommand P peer host harness binary workdir job=.ok c) ↔
      (peer.config.envPassthrough.all fun name => name.all P.encodes)=true ∧
      P.intPrints job.maxTokens.val=true ∧
      (harness=lit "api" → P.intPrints job.maxRuntimeSeconds.val=true) := by
  rw [← harnessCommand_prints host binary hk]
  unfold sandboxCommand
  split_ifs with hn
  · cases harnessCommand P host harness binary job <;> simp [hn]
  · simp [hn]

variable (hascii : ∀c : CodePoint,0<c.val → c.val<128 → P.encodes c=true)

include hascii

theorem passable_ascii {bs : Bytes} (h : bs.all (fun b => 0<b.toNat && b.toNat<128)=true) :
    passable P (ofAscii bs)=true := by
  simp only [passable,ofAscii,List.all_map,List.all_eq_true]
  intro b hb
  have hb := List.all_eq_true.mp h b hb
  simp only [Bool.and_eq_true,decide_eq_true_eq] at hb
  have hv : (Fin.ofNat 0x110000 b.toNat).val=b.toNat := by
    rw [Fin.val_ofNat]
    omega
  have he := hascii (Fin.ofNat _ b.toNat) (by omega) (by omega)
  simp only [Function.comp,he,Bool.and_true,hv,decide_eq_true_eq]
  omega

theorem passable_intText (n : Int) : passable P (Json.intText n)=true := by
  refine passable_ascii hascii (List.all_eq_true.mpr ?_)
  intro b hb
  have hp := @Json.render_printable [] [] rfl rfl (.int n)
  rw [Json.render] at hp
  have hp := List.all_eq_true.mp hp b hb
  simp only [Json.isPrintable,Bool.and_eq_true,decide_eq_true_eq] at hp ⊢
  omega

/-- What the operator and the stranger chose of a command line, and nothing else, decides
whether it can be passed. -/
theorem argv_passes {c : Command} (h : sandboxCommand P peer host harness binary workdir job=.ok c) :
    c.argv.all (passable P)=(passable P binary && passable P job.taskText.val &&
      passable P job.expectedOutput.val &&
      (harness≠lit "api" || passable P host.apiHarnessScript)) := by
  have text (t : String) (ht : (ascii t).all (fun b => 0<b.toNat && b.toNat<128)=true) :
      passable P (lit t)=true := passable_ascii hascii ht
  have number (n : Int) : passable P (Json.intText n)=true := passable_intText hascii n
  have h1 := text "--max-tokens" (by decide)
  have h2 := text "--timeout" (by decide)
  have h3 := text "-p" (by decide)
  have h4 := text "exec" (by decide)
  have prompt (name : PyStr) : passable P (harnessPrompt name job)=
      (passable P job.expectedOutput.val && passable P job.taskText.val) := by
    have h5 := text "[advisory limit: at most " (by decide)
    have h6 := text " output tokens]\n" (by decide)
    have h7 := text "Expected output: " (by decide)
    have h8 := text "\n\n" (by decide)
    unfold harnessPrompt
    split_ifs <;> simp [passable_append,h5,h6,h7,h8,number]
  rw [sandboxCommand_ok peer h]
  unfold harnessFlags
  split_ifs with ha hc
  all_goals
    simp only [List.all_cons,List.all_append,List.cons_append,List.all_nil,prompt,h1,h2,h3,h4,
      number,ha,ne_eq,not_true_eq_false,not_false_eq_true,decide_true,decide_false,
      Bool.true_and,Bool.and_true,Bool.true_or,Bool.false_or]
    simp only [Bool.and_comm,Bool.and_left_comm]

omit hascii

/-- A command that can be passed has an outcome that execute_job can tell. -/
theorem launchOutcome_run {c : Command} (hp : c.argv.all (passable P)=true)
    (ht : c.timeout=job.maxRuntimeSeconds.val) :
    ((∃o,launchOutcome P job (S.run P c)=.ok o) ↔ S.tells P job.maxRuntimeSeconds.val=true) ∧
    ∀o,launchOutcome P job (S.run P c)=.ok o →
      (o.1=.ok ↔ ∃stdout stderr,S.outcome=.exited 0 stdout stderr) := by
  rw [Spawn.run,if_neg (by simpa using hp),ht,Spawn.tells]
  cases S.outcome with
  | launchError text => simp [launchOutcome]
  | timedOut =>
    cases hw : S.waits job.maxRuntimeSeconds.val with
    | false => simp [launchOutcome]
    | true =>
      cases hi : P.intPrints job.maxRuntimeSeconds.val with
      | false => simp [launchOutcome,hi]
      | true => simp [launchOutcome,hi]
  | exited returncode stdout stderr =>
    cases hw : S.waits job.maxRuntimeSeconds.val with
    | false => simp [launchOutcome]
    | true =>
      cases ho : S.decode stdout with
      | none => simp [launchOutcome,ho]
      | some out =>
        cases he : S.decode stderr with
        | none => simp [launchOutcome,ho,he]
        | some err =>
          by_cases h0 : returncode=0
          · simp [launchOutcome,ho,he,h0]
          · simp [launchOutcome,ho,he,h0]

/-- execute_job returns what the launched process came to, where it can tell that. -/
theorem executeJob_spawned {c : Command} (h : launched P peer host job=some (harness,c)) :
    ((∃r,executeJob P peer (host.spawning P S) job=.ok r) ↔
      c.argv.all (passable P)=true ∧ S.tells P job.maxRuntimeSeconds.val=true) ∧
    ∀r,executeJob P peer (host.spawning P S) job=.ok r → r.harness=harness ∧
      (r.status=.ok ↔ ∃stdout stderr,S.outcome=.exited 0 stdout stderr) := by
  obtain ⟨binary,workdir,-,-,-,hs⟩ := launched_iff.mp h
  have ht : c.timeout=job.maxRuntimeSeconds.val := by rw [sandboxCommand_ok peer hs]
  have h' : launched P peer (host.spawning P S) job=some (harness,c) := h
  have hx : executeJob P peer (host.spawning P S) job=
      (launchOutcome P job (S.run P c)).map fun o =>
        ⟨job.id,o.1,o.2,harness,false,(host.spawning P S).runtime⟩ := executeJob_launched h'
  rw [hx]
  by_cases hp : c.argv.all (passable P)=true
  · obtain ⟨htells,hstatus⟩ := launchOutcome_run (S := S) hp ht
    cases ho : launchOutcome P job (S.run P c) with
    | error e =>
      have hn : S.tells P job.maxRuntimeSeconds.val≠true := by
        intro hn
        obtain ⟨o,ho'⟩ := htells.mpr hn
        cases ho.symm.trans ho'
      simp [Except.map,hn]
    | ok o =>
      refine ⟨by simp [Except.map,hp,htells.mp ⟨o,ho⟩],?_⟩
      intro r hr
      cases hr
      exact ⟨rfl,hstatus o ho⟩
  · have hr : S.run P c=.raised .valueError := by rw [Spawn.run,if_pos (by simpa using hp)]
    simp [hr,launchOutcome,Except.map,hp]

/-- execute_job launches one command that can be passed, or it returns no result. -/
theorem executeJob_spawning (hascii : ∀c : CodePoint,0<c.val → c.val<128 → P.encodes c=true)
    (hc : chooseHarness peer host job=some harness) :
    ((∃r,executeJob P peer (host.spawning P S) job=.ok r) ∧ sandboxLeft P peer host S job=none ↔
      Answerable P peer host S job) ∧
    ∀r,executeJob P peer (host.spawning P S) job=.ok r →
      (r.status=.ok ↔ ∃stdout stderr,S.outcome=.exited 0 stdout stderr) := by
  have hk := chooseHarness_known hc
  have hc' : chooseHarness peer (host.spawning P S) job=some harness := hc
  have hb' : harnessBinary (host.spawning P S) harness=harnessBinary host harness := rfl
  have hw' : (host.spawning P S).mkdtemp=host.mkdtemp := rfl
  simp only [Answerable,hc]
  cases hb : harnessBinary host harness with
  | none => simp [executeJob,hc',hb',hb]
  | some binary =>
    cases hw : host.mkdtemp with
    | none => simp [executeJob,hc',hb',hb,hw',hw]
    | some workdir =>
      have hs' : sandboxCommand P peer (host.spawning P S) harness binary workdir job=
          sandboxCommand P peer host harness binary workdir job := rfl
      have hprints : (∃c,sandboxCommand P peer host harness binary workdir job=.ok c) ↔ _ :=
        sandboxCommand_prints hk
      cases hs : sandboxCommand P peer host harness binary workdir job with
      | error e =>
        simp only [hs,reduceCtorEq,exists_false,false_iff] at hprints
        refine ⟨?_,by simp [executeJob,hc',hb',hb,hw',hw,hs',hs]⟩
        simp only [executeJob,hc',hb',hb,hw',hw,hs',hs,reduceCtorEq,exists_false,false_and,
          false_iff]
        intro h
        obtain ⟨b,hbb,-,hn,hp,-,-⟩ := h
        cases hbb
        simp only [commandPasses,Bool.and_eq_true,Bool.or_eq_true,decide_eq_true_eq] at hp
        exact hprints ⟨hn,hp.1.2,fun ha => (hp.2.resolve_left (· ha)).2⟩
      | ok c =>
        have hn := hprints.mp ⟨c,hs⟩
        have hleft : sandboxLeft P peer host S job=if S.rmtree then none else some workdir := by
          simp [sandboxLeft,hc,hb,hw,hs]
        have hpass : commandPasses P host harness binary job=true ↔
            c.argv.all (passable P)=true := by
          rw [argv_passes hascii hs,commandPasses,hn.2.1]
          by_cases ha : harness=lit "api"
          · simp [ha,hn.2.2 ha]
          · simp [ha]
        obtain ⟨hsome,hstatus⟩ := executeJob_spawned (S := S)
          (launched_iff.mpr ⟨binary,workdir,hc,hb,hw,hs⟩)
        refine ⟨?_,fun r hr => (hstatus r hr).2⟩
        rw [hsome,hleft,← hpass]
        simp [hn.1,and_assoc]

end Launch

theorem sentResults_closed (loopback : Bool) (steps : List (Answers×Ledger)) {pc : ServePc}
    (h : pc.stage=7 ∨ pc.stage=10) : sentResults P peer loopback steps pc=[] := by
  induction steps generalizing pc with
  | nil => rfl
  | cons s steps ih =>
    obtain ⟨a,L⟩ := s
    cases pc with
    | credit requester job =>
      have finished (L' : Ledger) (event : Option Event) (he : taskResults event=[]) :
          taskResults event++sentResults P peer loopback steps (.finished none)=[] := by
        rw [he,ih (.inr rfl)]
        rfl
      simp only [sentResults,serveStep]
      rcases L.creditForWork_cases job.id requester.val with ⟨msg,hr⟩ | ⟨-,hr⟩
      · rw [hr]
        exact finished L none rfl
      · rw [hr]
        exact finished L _ rfl
    | finished escaped => exact ih (.inr rfl)
    | _ => simp [ServePc.stage] at h

/-- From a result on, the connection hands it to sendall once and sends no other. -/
theorem sentResults_once (hdepth : 4 ≤ P.dumpsDepth) {job : Job} {r : JobResult} {a : Answers}
    (hx : executeJob P peer a.host job=.ok r) (loopback : Bool) (requester : PeerId) (L : Ledger)
    (a' : Answers) (L' : Ledger) (steps : List (Answers×Ledger)) :
    sentResults P peer loopback ((a,L)::(a',L')::steps) (.execute requester job)=
      [sealPayload (peer.identity.peerId P) a'.ts msgTaskResult (resultBody job r)] := by
  have hp : sealMessage P peer.identity a'.ts msgTaskResult (resultBody job r)=
      .ok (sealPayload (peer.identity.peerId P) a'.ts msgTaskResult (resultBody job r)) := by
    have depth : (resultBody job r).depth=2 := rfl
    exact sealMessage_prints P _ _ (by omega) rfl
  simp only [sentResults,serveStep,hx,serveSend,hp,taskResults]
  have typed : (sealPayload (peer.identity.peerId P) a'.ts msgTaskResult
      (resultBody job r)).strField (lit "type")=msgTaskResult := rfl
  rw [if_pos typed,sentResults_closed]
  · rfl
  · split_ifs
    · exact .inl rfl
    · exact .inr rfl
    · exact .inr rfl

/-- An accepted job is answered exactly where nothing but the failures that
execute_job handles can happen to it. -/
theorem accepted_job_answered_iff (hdepth : 4 ≤ P.dumpsDepth)
    (hascii : ∀c : CodePoint,0<c.val → c.val<128 → P.encodes c=true) (job : Job) :
    Answered P peer host S job ↔ Answerable P peer host S job := by
  have sent (r : JobResult) (hx : executeJob P peer (host.spawning P S) job=.ok r)
      (loopback : Bool) (requester : PeerId) (a : Answers) (L : Ledger) (a' : Answers)
      (L' : Ledger) (steps : List (Answers×Ledger)) (ha : a.host=host.spawning P S) :=
    sentResults_once P peer hdepth (ha.symm ▸ hx) loopback requester L a' L' steps
  have hsim (r : JobResult) (hx : executeJob P peer (host.spawning P S) job=.ok r) :
      r.jobId=job.id ∧ (r.simulated=true ↔ chooseHarness peer host job=none) := by
    have h := executeJob_ok P peer (host.spawning P S) hx
    exact h
  cases hc : chooseHarness peer host job with
  | none =>
    have hc' : chooseHarness peer (host.spawning P S) job=none := hc
    have hleft : sandboxLeft P peer host S job=none := by simp [sandboxLeft,hc]
    simp only [Answerable,hc]
    constructor
    · intro h
      obtain ⟨r,hx,-⟩ := h
      simp only [executeJob,hc'] at hx
      split_ifs at hx with h0 h1
      exact ⟨not_lt.mp h0,not_lt.mp h1⟩
    · intro h
      have hx : executeJob P peer (host.spawning P S) job=.ok ⟨job.id,.ok,
          simulatedOutput job.taskText.val,lit "simulated",true,host.runtime⟩ := by
        simp only [executeJob,hc']
        rw [if_neg (not_lt.mpr h.1),if_neg (not_lt.mpr h.2)]
        rfl
      exact ⟨_,hx,rfl,by simp,hleft,sent _ hx⟩
  | some harness =>
    obtain ⟨hiff,hst⟩ := executeJob_spawning (S := S) hascii hc
    rw [← hiff]
    constructor
    · intro h
      obtain ⟨r,hx,-,-,hleft,-⟩ := h
      exact ⟨⟨r,hx⟩,hleft⟩
    · intro h
      obtain ⟨⟨r,hx⟩,hleft⟩ := h
      obtain ⟨hid,hs⟩ := hsim r hx
      have hreal : ¬r.simulated=true := by simp [hs,hc]
      exact ⟨r,hx,hid,by rw [hst r hx]; simp [hreal],hleft,sent r hx⟩

section Sample

/-- A harness that exits with code 0 and writes nothing. -/
def quietSpawn : Spawn where
  outcome := .exited 0 [] []
  decode := fun bs => if bs.all (fun b => b.toNat<128) then some (ofAscii bs) else none
  waits n := n≤2147483
  rmtree := true

/-- A job whose text holds a NUL character. -/
def nulJob : Job := {sampleJob with taskText := ⟨lit "reverse\x00a string",by decide⟩}

theorem sample_encodes (c : CodePoint) (h : c.val<128) : samplePlatform.encodes c=true := by
  have hc : samplePlatform.encodes c=
    (c.val<0xd800 || 0xdfff<c.val || (0xdc80 ≤ c.val && c.val≤0xdcff)) := rfl
  rw [hc]
  simp
  omega

theorem claudeHost_answers : Answerable samplePlatform claudePeer claudeHost quietSpawn sampleJob := by
  have hc : chooseHarness claudePeer claudeHost sampleJob=some (lit "claude") := by decide
  simp only [Answerable,hc]
  exact ⟨lit "/usr/local/bin/claude",by decide,by decide,by decide,
    by decide +kernel,by decide +kernel,rfl⟩

theorem accepted_job_answered_iff_sample :
    Answered samplePlatform claudePeer claudeHost quietSpawn sampleJob :=
  (accepted_job_answered_iff samplePlatform claudePeer claudeHost quietSpawn (by decide)
    (fun c _ h => sample_encodes c h) sampleJob).mpr claudeHost_answers

/-- A NUL character in the task text ends the handler after TASK_ACCEPT, without a result. -/
theorem nul_job_unanswered :
    executeJob samplePlatform claudePeer (claudeHost.spawning samplePlatform quietSpawn) nulJob=
      .error .valueError ∧
    (∀loopback requester a L steps,a.host=claudeHost.spawning samplePlatform quietSpawn →
      sentResults samplePlatform claudePeer loopback ((a,L)::steps) (.execute requester nulJob)=[]) ∧
    ¬Answered samplePlatform claudePeer claudeHost quietSpawn nulJob := by
  have hx : executeJob samplePlatform claudePeer (claudeHost.spawning samplePlatform quietSpawn)
      nulJob=.error .valueError := by decide +kernel
  refine ⟨hx,?_,?_⟩
  · intro loopback requester a L steps ha
    rw [← ha] at hx
    simp only [sentResults,serveStep,hx]
    exact sentResults_closed samplePlatform claudePeer loopback steps (.inr rfl)
  · intro h
    obtain ⟨r,hr,-⟩ := h
    rw [hx] at hr
    cases hr

end Sample

end AgentTorrent
