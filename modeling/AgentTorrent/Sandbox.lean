import AgentTorrent.Executor
import AgentTorrent.Transcript

namespace AgentTorrent

variable (P : Platform) (peer : Peer) (host : Host)

/-- The harness and the command of the launch that execute_job comes to, if it
comes to one. -/
def launched (job : Job) : Option (PyStr×Command) :=
  (chooseHarness peer host job).bind fun harness => (harnessBinary host harness).bind fun binary =>
    host.mkdtemp.bind fun workdir =>
      (sandboxCommand P peer host harness binary workdir job).toOption.map fun c => (harness,c)

/-- Another execution on the same machine. -/
def Host.again (mkdtemp : Option PyStr) (launch : Command → Launch) (runtime : PyFloat) : Host :=
  {host with mkdtemp := mkdtemp, launch := launch, runtime := runtime}

/-- The four variables that every sandbox has. -/
def sandboxVars (workdir : PyStr) : List (PyStr×PyStr) :=
  [(lit "HOME",workdir),(lit "TMPDIR",workdir),(lit "PATH",host.defpath),(lit "NO_COLOR",lit "1")]

/-- The arguments between the binary and the prompt. -/
def harnessFlags (name : PyStr) (maxTokens maxRuntimeSeconds : Int) : List PyStr :=
  if name=lit "api" then
    [host.apiHarnessScript,lit "--max-tokens",Json.intText maxTokens,lit "--timeout",
      Json.intText maxRuntimeSeconds]
  else if name=lit "claude" then [lit "-p"]
  else [lit "exec"]

/-- A launch stays inside its sandbox: it runs in the workdir, its prompt is the
last argument and no option, and it sees the sandbox variables and the listed ones. -/
structure Contained (job : Job) (c : Command) : Prop where
  cwd : host.mkdtemp=some c.cwd
  timeout : c.timeout=job.maxRuntimeSeconds.val
  prompt : ∃before prompt,c.argv=before++[prompt] ∧ before≠[] ∧ ∃x,prompt.head?=some x ∧
    x≠codePoint 0x2d
  names : ∀v∈c.env,v.1∈[lit "HOME",lit "TMPDIR",lit "PATH",lit "NO_COLOR"] ∨
    v.1∈peer.config.envPassthrough
  once : (c.env.map Prod.fst).Nodup
  unlisted : ∀name,name∉peer.config.envPassthrough →
    c.env.lookup name=(sandboxVars host c.cwd).lookup name

/-- Two launches differ in their workdirs, in the value of --max-tokens and in the
last argument only. -/
structure SameSandbox (job₁ job₂ : Job) (c₁ c₂ : Command) : Prop where
  binary : c₁.argv.head?=c₂.argv.head?
  timeout : c₁.timeout=c₂.timeout
  env : ∀name,c₁.env.lookup name=c₂.env.lookup name ∨ name∈[lit "HOME",lit "TMPDIR"] ∧
    c₁.env.lookup name=some c₁.cwd ∧ c₂.env.lookup name=some c₂.cwd
  length : c₁.argv.length=c₂.argv.length
  argv : ∀i,c₁.argv[i]?=c₂.argv[i]? ∨ i+1=c₁.argv.length ∨
    i=3 ∧ c₁.argv[2]?=some (lit "--max-tokens") ∧ c₂.argv[2]?=some (lit "--max-tokens") ∧
      c₁.argv[3]?=some (Json.intText job₁.maxTokens.val) ∧
      c₂.argv[3]?=some (Json.intText job₂.maxTokens.val)

section Launch

variable {P peer host} {job : Job} {harness : PyStr} {c : Command}

theorem launched_iff : launched P peer host job=some (harness,c) ↔
    ∃binary workdir,chooseHarness peer host job=some harness ∧
      harnessBinary host harness=some binary ∧ host.mkdtemp=some workdir ∧
      sandboxCommand P peer host harness binary workdir job=.ok c := by
  simp only [launched,Option.bind_eq_some_iff,Option.map_eq_some_iff]
  constructor
  · intro h
    obtain ⟨name,hc,binary,hb,workdir,hw,d,hs,he⟩ := h
    cases he
    refine ⟨binary,workdir,hc,hb,hw,?_⟩
    cases hx : sandboxCommand P peer host harness binary workdir job with
    | error e => simp [hx,Except.toOption] at hs
    | ok d => simpa [hx,Except.toOption] using hs
  · intro h
    obtain ⟨binary,workdir,hc,hb,hw,hs⟩ := h
    exact ⟨harness,hc,binary,hb,workdir,hw,c,by rw [hs]; rfl,rfl⟩

/-- What a launch comes to decides what execute_job returns. -/
theorem executeJob_launched (h : launched P peer host job=some (harness,c)) :
    executeJob P peer host job=(launchOutcome P job (host.launch c)).map fun r =>
      ⟨job.id,r.1,r.2,harness,false,host.runtime⟩ := by
  obtain ⟨binary,workdir,hc,hb,hw,hs⟩ := launched_iff.mp h
  simp only [executeJob,hc,hb,hw,hs]
  cases launchOutcome P job (host.launch c) <;> rfl

end Launch

section Environment

variable {peer host} {name : PyStr}

theorem lookup_filter_ne {n : PyStr} (h : name≠n) (env : List (PyStr×PyStr)) :
    (env.filter fun v => v.1≠n).lookup name=env.lookup name := by
  induction env with
  | nil => rfl
  | cons v env ih =>
    by_cases hv : v.1=n
    · have hb : (name==v.1)=false := by simpa [hv] using h
      rw [List.filter_cons_of_neg (by simpa using hv),ih,List.lookup_cons,hb]
    · rw [List.filter_cons_of_pos (by simpa using hv),List.lookup_cons,List.lookup_cons,ih]

/-- One turn of the loop over the listed names. -/
def passThrough (environ env : List (PyStr×PyStr)) (n : PyStr) : List (PyStr×PyStr) :=
  match environ.lookup n with
  | some value => (n,value)::env.filter fun v => v.1≠n
  | none => env

theorem passThrough_lookup (environ env : List (PyStr×PyStr)) (n : PyStr) :
    (passThrough environ env n).lookup name=
      if name=n then (environ.lookup name).or (env.lookup name) else env.lookup name := by
  unfold passThrough
  split_ifs with hn
  · subst hn
    cases h : environ.lookup name with
    | none => rfl
    | some value => simp
  · cases h : environ.lookup n with
    | none => rfl
    | some value =>
      have hb : (name==n)=false := by simpa using hn
      simp only [List.lookup_cons,hb]
      exact lookup_filter_ne hn env

theorem passThrough_names {environ env : List (PyStr×PyStr)} {n : PyStr} {v : PyStr×PyStr}
    (h : v∈passThrough environ env n) : v.1=n ∨ v∈env := by
  unfold passThrough at h
  split at h
  · rcases List.mem_cons.mp h with rfl | h
    · exact .inl rfl
    · exact .inr (List.mem_filter.mp h).1
  · exact .inr h

theorem passThrough_once {environ env : List (PyStr×PyStr)} (n : PyStr)
    (h : (env.map Prod.fst).Nodup) : ((passThrough environ env n).map Prod.fst).Nodup := by
  unfold passThrough
  split
  · rw [List.map_cons,List.nodup_cons]
    refine ⟨?_,h.sublist ((List.filter_sublist).map _)⟩
    intro hm
    obtain ⟨v,hv,he⟩ := List.mem_map.mp hm
    exact absurd he (by simpa using (List.mem_filter.mp hv).2)
  · exact h

theorem sandboxEnv_eq (workdir : PyStr) : sandboxEnv peer host workdir=
    peer.config.envPassthrough.foldl (passThrough host.environ) (sandboxVars host workdir) := rfl

/-- A listed variable is taken from the peer where the peer has it, and every other
variable has its sandbox value. -/
theorem sandboxEnv_lookup (workdir : PyStr) : (sandboxEnv peer host workdir).lookup name=
    if name∈peer.config.envPassthrough then
      (host.environ.lookup name).or ((sandboxVars host workdir).lookup name)
    else (sandboxVars host workdir).lookup name := by
  rw [sandboxEnv_eq]
  generalize sandboxVars host workdir=env
  induction peer.config.envPassthrough generalizing env with
  | nil => rfl
  | cons n names ih =>
    rw [List.foldl_cons,ih,passThrough_lookup]
    by_cases hn : name=n
    · subst hn
      cases host.environ.lookup name <;> simp
    · simp [hn]

theorem sandboxEnv_names {workdir : PyStr} {v : PyStr×PyStr}
    (h : v∈sandboxEnv peer host workdir) :
    v.1∈peer.config.envPassthrough ∨ v∈sandboxVars host workdir := by
  rw [sandboxEnv_eq] at h
  generalize sandboxVars host workdir=env at h
  generalize peer.config.envPassthrough=names at h
  induction names generalizing env with
  | nil => exact .inr h
  | cons n names ih =>
    rcases ih _ h with hn | hn
    · exact .inl (List.mem_cons_of_mem n hn)
    · rcases passThrough_names hn with rfl | hn
      · exact .inl List.mem_cons_self
      · exact .inr hn

theorem sandboxEnv_once (workdir : PyStr) :
    ((sandboxEnv peer host workdir).map Prod.fst).Nodup := by
  rw [sandboxEnv_eq]
  have hv : ((sandboxVars host workdir).map Prod.fst).Nodup := by
    have names : (sandboxVars host workdir).map Prod.fst=
        [lit "HOME",lit "TMPDIR",lit "PATH",lit "NO_COLOR"] := rfl
    rw [names]
    decide
  generalize sandboxVars host workdir=env at hv
  induction peer.config.envPassthrough generalizing env with
  | nil => exact hv
  | cons n names ih => exact ih _ (passThrough_once n hv)

/-- The workdir shows in the variables HOME and TMPDIR only. -/
theorem sandboxVars_lookup (w₁ w₂ : PyStr) :
    (sandboxVars host w₁).lookup name=(sandboxVars host w₂).lookup name ∨
    name∈[lit "HOME",lit "TMPDIR"] ∧ (sandboxVars host w₁).lookup name=some w₁ ∧
      (sandboxVars host w₂).lookup name=some w₂ := by
  by_cases hm : name∈[lit "HOME",lit "TMPDIR"]
  · refine .inr ⟨hm,?_⟩
    have ht : (lit "TMPDIR"==lit "HOME")=false := by decide
    rcases List.mem_pair.mp hm with rfl | rfl
    · simp [sandboxVars]
    · simp [sandboxVars,List.lookup_cons,ht]
  · have h1 : (name==lit "HOME")=false := by simpa using fun h => hm (by simp [h])
    have h2 : (name==lit "TMPDIR")=false := by simpa using fun h => hm (by simp [h])
    exact .inl (by simp [sandboxVars,List.lookup_cons,h1,h2])

end Environment

section Arguments

variable {P host} {job : Job} {name binary : PyStr} {argv : List PyStr}

/-- The last argument of every harness. -/
def harnessPrompt (name : PyStr) (job : Job) : PyStr :=
  (if name=lit "api" then [] else lit "[advisory limit: at most "++
    Json.intText job.maxTokens.val++lit " output tokens]\n")++
  lit "Expected output: "++job.expectedOutput.val++lit "\n\n"++job.taskText.val

theorem harnessCommand_ok (h : harnessCommand P host name binary job=.ok argv) :
    argv=binary::harnessFlags host name job.maxTokens.val job.maxRuntimeSeconds.val++
      [harnessPrompt name job] := by
  unfold harnessCommand at h
  have hca : lit "claude"≠lit "api" := by decide
  split_ifs at h with hp ha hr hc hx
  · simp [← Except.ok.inj h,harnessFlags,harnessPrompt,ha]
  · simp [← Except.ok.inj h,harnessFlags,harnessPrompt,hc,hca]
  · simp [← Except.ok.inj h,harnessFlags,harnessPrompt,ha,hc]

/-- The prompt begins with a bracket or with a letter. -/
theorem harnessPrompt_head (name : PyStr) (job : Job) :
    ∃x,(harnessPrompt name job).head?=some x ∧ x≠codePoint 0x2d := by
  have letter : (lit "Expected output: ").head?=some (codePoint 0x45) := by decide
  have bracket : (lit "[advisory limit: at most ").head?=some (codePoint 0x5b) := by decide
  unfold harnessPrompt
  split_ifs
  · exact ⟨codePoint 0x45,by simp [letter],by decide⟩
  · exact ⟨codePoint 0x5b,by simp [bracket],by decide⟩

theorem sandboxCommand_ok {workdir : PyStr} {c : Command}
    (h : sandboxCommand P peer host name binary workdir job=.ok c) :
    c=⟨binary::harnessFlags host name job.maxTokens.val job.maxRuntimeSeconds.val++
      [harnessPrompt name job],workdir,sandboxEnv peer host workdir,
      job.maxRuntimeSeconds.val⟩ := by
  unfold sandboxCommand at h
  split_ifs at h
  cases ha : harnessCommand P host name binary job with
  | error e => simp [ha] at h
  | ok argv =>
    rw [ha] at h
    rw [← Except.ok.inj h,harnessCommand_ok ha]

end Arguments

/-- Every launch is contained. -/
theorem launched_contained {job : Job} {harness : PyStr} {c : Command}
    (h : launched P peer host job=some (harness,c)) : Contained peer host job c := by
  obtain ⟨binary,workdir,-,-,hw,hs⟩ := launched_iff.mp h
  rw [sandboxCommand_ok peer hs]
  refine ⟨hw,rfl,⟨_,_,rfl,List.cons_ne_nil _ _,harnessPrompt_head harness job⟩,fun v hv => ?_,
    sandboxEnv_once workdir,fun name hn => ?_⟩
  · rcases sandboxEnv_names hv with hv | hv
    · exact .inr hv
    · exact .inl (List.mem_map_of_mem hv)
  · rw [sandboxEnv_lookup,if_neg hn]

theorem sandbox_argv (job₁ job₂ : Job) (name binary prompt₁ prompt₂ : PyStr) (i : Nat) :
    let argv (job : Job) (prompt : PyStr) :=
      binary::harnessFlags host name job.maxTokens.val job₁.maxRuntimeSeconds.val++[prompt]
    (argv job₁ prompt₁).length=(argv job₂ prompt₂).length ∧
    ((argv job₁ prompt₁)[i]?=(argv job₂ prompt₂)[i]? ∨ i+1=(argv job₁ prompt₁).length ∨
      i=3 ∧ (argv job₁ prompt₁)[2]?=some (lit "--max-tokens") ∧
        (argv job₂ prompt₂)[2]?=some (lit "--max-tokens") ∧
        (argv job₁ prompt₁)[3]?=some (Json.intText job₁.maxTokens.val) ∧
        (argv job₂ prompt₂)[3]?=some (Json.intText job₂.maxTokens.val)) := by
  intro argv
  simp only [argv,harnessFlags]
  split_ifs
  · refine ⟨rfl,?_⟩
    rcases i with _ | _ | _ | _ | _ | _ | _ | i
    · exact .inl rfl
    · exact .inl rfl
    · exact .inl rfl
    · exact .inr (.inr ⟨rfl,rfl,rfl,rfl,rfl⟩)
    · exact .inl rfl
    · exact .inl rfl
    · exact .inr (.inl rfl)
    · exact .inl rfl
  all_goals
    refine ⟨rfl,?_⟩
    rcases i with _ | _ | _ | i
    · exact .inl rfl
    · exact .inl rfl
    · exact .inr (.inl rfl)
    · exact .inl rfl

/-- What a stranger writes into a job reaches the last argument and the value of
--max-tokens, and nothing else of a launch. -/
theorem task_text_stays_in_prompt (job₁ job₂ : Job)
    (hreq : job₁.requiredHarness=job₂.requiredHarness)
    (hrun : job₁.maxRuntimeSeconds=job₂.maxRuntimeSeconds) (mkdtemp : Option PyStr)
    (launch : Command → Launch) (runtime : PyFloat) (h₁ h₂ : PyStr) (c₁ c₂ : Command)
    (hl₁ : launched P peer host job₁=some (h₁,c₁))
    (hl₂ : launched P peer (host.again mkdtemp launch runtime) job₂=some (h₂,c₂)) :
    h₁=h₂ ∧ SameSandbox job₁ job₂ c₁ c₂ ∧ Contained peer host job₁ c₁ ∧
      Contained peer (host.again mkdtemp launch runtime) job₂ c₂ := by
  have hk₁ := launched_contained P peer host hl₁
  have hk₂ := launched_contained P peer _ hl₂
  obtain ⟨b₁,w₁,hc₁,hb₁,-,hs₁⟩ := launched_iff.mp hl₁
  obtain ⟨b₂,w₂,hc₂,hb₂,-,hs₂⟩ := launched_iff.mp hl₂
  -- The choice reads the requirement only, and the machine is the same.
  have hc : chooseHarness peer (host.again mkdtemp launch runtime) job₂=
      chooseHarness peer host job₁ := by
    simp only [chooseHarness,hreq]
    rfl
  have hh : h₁=h₂ := Option.some.inj (hc₁.symm.trans (hc.symm.trans hc₂))
  subst hh
  have hb : b₁=b₂ := Option.some.inj (hb₁.symm.trans hb₂)
  subst hb
  refine ⟨rfl,?_,hk₁,hk₂⟩
  rw [sandboxCommand_ok peer hs₁,sandboxCommand_ok peer hs₂,← hrun]
  have hargv (i : Nat) := sandbox_argv host job₁ job₂ h₁ b₁ (harnessPrompt h₁ job₁)
    (harnessPrompt h₁ job₂) i
  refine ⟨rfl,rfl,?_,(hargv 0).1,fun i => (hargv i).2⟩
  intro name
  dsimp only
  rw [sandboxEnv_lookup,sandboxEnv_lookup]
  have henv : (host.again mkdtemp launch runtime).environ=host.environ := rfl
  have hvars (w : PyStr) : sandboxVars (host.again mkdtemp launch runtime) w=sandboxVars host w :=
    rfl
  rw [henv,hvars]
  rcases @sandboxVars_lookup host name w₁ w₂ with he | ⟨hm,he₁,he₂⟩
  · exact .inl (by rw [he])
  · rw [he₁,he₂]
    by_cases hn : name∈peer.config.envPassthrough
    · rw [if_pos hn,if_pos hn]
      cases host.environ.lookup name with
      | none => exact .inr ⟨hm,rfl,rfl⟩
      | some value => exact .inl rfl
    · rw [if_neg hn,if_neg hn]
      exact .inr ⟨hm,rfl,rfl⟩

section Sample

/-- A worker with the claude CLI that passes one key on. -/
def claudePeer : Peer where
  identity := workerIdentity
  config := ⟨300,true,false,1,[lit "ANTHROPIC_API_KEY"]⟩
  harnesses := [(lit "claude",lit "2.0.1")]

def claudeHost : Host where
  usable := fun _ => some (lit "/usr/local/bin/claude")
  which := fun _ => some (lit "/usr/local/bin/claude")
  executable := lit "/usr/bin/python3"
  apiHarnessScript := lit "/opt/agenttorrent/api_harness.py"
  mkdtemp := some (lit "/tmp/agenttorrent-job-1")
  environ := [(lit "ANTHROPIC_API_KEY",lit "secret"),(lit "HOME",lit "/home/worker")]
  defpath := lit "/bin:/usr/bin"
  launch := fun _ => .timeoutExpired
  runtime := sampleRuntime

/-- A job whose text looks like an option. -/
def optionJob : Job :=
  {sampleJob with taskText := ⟨lit "--dangerously-skip-permissions",by decide⟩}

theorem task_text_stays_in_prompt_sample : ∃h₁ c₁ h₂ c₂,
    launched samplePlatform claudePeer claudeHost sampleJob=some (h₁,c₁) ∧
    launched samplePlatform claudePeer (claudeHost.again (some (lit "/tmp/agenttorrent-job-2"))
      (fun _ => .timeoutExpired) sampleRuntime) optionJob=some (h₂,c₂) ∧
    h₁=h₂ ∧ SameSandbox sampleJob optionJob c₁ c₂ := by
  have h₁ : (launched samplePlatform claudePeer claudeHost sampleJob).isSome=true := by
    decide +kernel
  have h₂ : (launched samplePlatform claudePeer (claudeHost.again
      (some (lit "/tmp/agenttorrent-job-2")) (fun _ => .timeoutExpired) sampleRuntime)
      optionJob).isSome=true := by decide +kernel
  obtain ⟨⟨n₁,c₁⟩,e₁⟩ := Option.isSome_iff_exists.mp h₁
  obtain ⟨⟨n₂,c₂⟩,e₂⟩ := Option.isSome_iff_exists.mp h₂
  obtain ⟨hn,hs,-,-⟩ := task_text_stays_in_prompt samplePlatform claudePeer claudeHost sampleJob
    optionJob rfl rfl _ _ _ n₁ n₂ c₁ c₂ e₁ e₂
  exact ⟨n₁,c₁,n₂,c₂,e₁,e₂,hn,hs⟩

end Sample

end AgentTorrent
