import Mathlib.Algebra.Order.Ring.Rat
import AgentTorrent.Identity
import AgentTorrent.Job

namespace AgentTorrent

/-- The fields of PeerConfig that decide about inbound tasks. -/
structure PeerConfig where
  maxRuntimeSeconds : Int
  acceptsTasks : Bool
  forceSimulate : Bool
  simulateDelay : ℚ
  envPassthrough : List PyStr

/-- One peer process: its key, its configuration and the harnesses it detected. -/
structure Peer where
  identity : Identity
  config : PeerConfig
  harnesses : List (PyStr×PyStr)

def Peer.hasHarness (peer : Peer) (name : PyStr) : Bool := (peer.harnesses.lookup name).isSome

inductive Status
  | ok
  | error
  deriving DecidableEq

/-- The result dict of execute_job. -/
structure JobResult where
  jobId : PyStr
  status : Status
  output : PyStr
  harness : PyStr
  simulated : Bool
  runtimeSeconds : PyFloat
  deriving DecidableEq

def Status.text : Status → PyStr
  | .ok => lit "ok"
  | .error => lit "error"

def JobResult.toJson (r : JobResult) : Json :=
  .obj [(lit "job_id",.str r.jobId),(lit "status",.str r.status.text),(lit "output",.str r.output),
    (lit "harness",.str r.harness),(lit "simulated",.bool r.simulated),
    (lit "runtime_seconds",.float r.runtimeSeconds)]

/-- What subprocess.run is given. -/
structure Command where
  argv : List PyStr
  cwd : PyStr
  env : List (PyStr×PyStr)
  timeout : Int
  deriving DecidableEq

/-- How subprocess.run ends. It raises ValueError for an argument that cannot be
passed and UnicodeDecodeError for output that is not text. -/
inductive Launch
  | exited (returncode : Int) (stdout stderr : PyStr)
  | timeoutExpired
  | osError (text : PyStr)
  | raised (e : PyExc)

/-- What one call of execute_job meets on its machine. -/
structure Host where
  /-- shutil.which when the harness is chosen, and when it is launched -/
  usable : PyStr → Option PyStr
  which : PyStr → Option PyStr
  executable : PyStr
  apiHarnessScript : PyStr
  mkdtemp : Option PyStr
  environ : List (PyStr×PyStr)
  defpath : PyStr
  launch : Command → Launch
  runtime : PyFloat

def simulatedOutput (taskText : PyStr) : PyStr :=
  lit "[simulated by AgentTorrent: this worker executed no harness CLI]\n\nTask: "++taskText++
  lit ("\n\ndef reverse_string(s: str) -> str:\n    \"\"\"Return s reversed, without slicing."++
    "\"\"\"\n    out = []\n    for ch in s:\n        out.insert(0, ch)\n"++
    "    return \"\".join(out)\n\n(If the task above is not the reverse-a-string exercise, "++
    "treat this as a\nplaceholder result proving the delegation protocol end to end.)\n")

variable (P : Platform)

/-- _harness_command, which prints the limits of the job -/
def harnessCommand (host : Host) (name binary : PyStr) (job : Job) : Except PyExc (List PyStr) :=
  let prompt := lit "Expected output: "++job.expectedOutput.val++lit "\n\n"++job.taskText.val
  let advisory := lit "[advisory limit: at most "++Json.intText job.maxTokens.val++
    lit " output tokens]\n"
  if ¬P.intPrints job.maxTokens.val then .error .valueError
  else if name=lit "api" then
    if ¬P.intPrints job.maxRuntimeSeconds.val then .error .valueError
    else .ok [binary,host.apiHarnessScript,lit "--max-tokens",Json.intText job.maxTokens.val,
      lit "--timeout",Json.intText job.maxRuntimeSeconds.val,prompt]
  else if name=lit "claude" then .ok [binary,lit "-p",advisory++prompt]
  else if name=lit "codex" then .ok [binary,lit "exec",advisory++prompt]
  else .error .valueError

variable (peer : Peer) (host : Host)

def harnessUsable (name : PyStr) : Bool :=
  peer.hasHarness name && (name=lit "api" || (host.usable name).isSome)

/-- The harness that runs the job, none where it is simulated. -/
def chooseHarness (job : Job) : Option PyStr :=
  if peer.config.forceSimulate then none
  else if job.requiredHarness.val=lit "any" then
    [lit "claude",lit "codex",lit "api"].find? (harnessUsable peer host)
  else if harnessUsable peer host job.requiredHarness.val then some job.requiredHarness.val
  else none

/-- The environment of the subprocess: nothing but the four fixed variables and
those that the operator listed. -/
def sandboxEnv (workdir : PyStr) : List (PyStr×PyStr) :=
  peer.config.envPassthrough.foldl (fun env name => match host.environ.lookup name with
      | some value => (name,value)::env.filter fun v => v.1≠name
      | none => env)
    [(lit "HOME",workdir),(lit "TMPDIR",workdir),(lit "PATH",host.defpath),(lit "NO_COLOR",lit "1")]

/-- The binary that runs the harness -/
def harnessBinary (harness : PyStr) : Option PyStr :=
  if harness=lit "api" then some host.executable else host.which harness

/-- What execute_job hands to subprocess.run. A listed name that cannot be encoded
cannot be looked up in os.environ. -/
def sandboxCommand (harness binary workdir : PyStr) (job : Job) : Except PyExc Command :=
  if ¬peer.config.envPassthrough.all fun name => name.all P.encodes then .error .valueError
  else match harnessCommand P host harness binary job with
    | .error e => .error e
    | .ok argv => .ok ⟨argv,workdir,sandboxEnv peer host workdir,job.maxRuntimeSeconds.val⟩

/-- The status and the output that execute_job makes of one launch. -/
def launchOutcome (job : Job) : Launch → Except PyExc (Status×PyStr)
  | .exited returncode stdout stderr =>
    if returncode=0 then .ok (.ok,stdout)
    else .ok (.error,lit "harness exited "++Json.intText returncode++lit ": "++
      (strip stderr).take 2000)
  | .timeoutExpired =>
    if ¬P.intPrints job.maxRuntimeSeconds.val then .error .valueError
    else .ok (.error,lit "harness killed after hard timeout of "++
      Json.intText job.maxRuntimeSeconds.val++lit "s")
  | .osError text => .ok (.error,lit "failed to launch harness: "++text)
  | .raised e => .error e

/-- How long a simulated execution sleeps -/
def simulatedDelay (job : Job) : ℚ := min peer.config.simulateDelay job.maxRuntimeSeconds.val

/-- execute_job of a job that passed its check. time.sleep takes neither a negative
number nor more nanoseconds than a 64-bit integer holds. -/
def executeJob (job : Job) : Except PyExc JobResult :=
  match chooseHarness peer host job with
  | none =>
    if simulatedDelay peer job<0 then .error .valueError
    else if 9223372036854775807<simulatedDelay peer job*1000000000 then .error .overflowError
    else .ok ⟨job.id,.ok,simulatedOutput job.taskText.val,lit "simulated",true,host.runtime⟩
  | some harness => match harnessBinary host harness with
    | none => .error .assertionError
    | some binary => match host.mkdtemp with
      | none => .error .osError
      | some workdir => match sandboxCommand P peer host harness binary workdir job with
        | .error e => .error e
        | .ok command => match launchOutcome P job (host.launch command) with
          | .error e => .error e
          | .ok (status,output) => .ok ⟨job.id,status,output,harness,false,host.runtime⟩

theorem chooseHarness_usable {job : Job} {harness : PyStr}
    (h : chooseHarness peer host job=some harness) :
    peer.config.forceSimulate=false ∧ harnessUsable peer host harness=true ∧
      (job.requiredHarness.val=lit "any" ∨ harness=job.requiredHarness.val) := by
  unfold chooseHarness at h
  split_ifs at h with hf ha hu
  · exact ⟨by simpa using hf,List.find?_some h,.inl ha⟩
  · cases h
    exact ⟨by simpa using hf,hu,.inr rfl⟩

/-- A result names the job it is for, and is simulated exactly where no harness
was chosen. -/
theorem executeJob_ok {job : Job} {r : JobResult} (h : executeJob P peer host job=.ok r) :
    r.jobId=job.id ∧ (r.simulated=true ↔ chooseHarness peer host job=none) := by
  unfold executeJob at h
  split at h
  · rename_i hn
    split_ifs at h
    cases h
    exact ⟨rfl,by simp [hn]⟩
  · rename_i harness hc
    split at h
    · cases h
    · split at h
      · cases h
      · split at h
        · cases h
        · split at h
          · cases h
          · cases h
            exact ⟨rfl,by simp [hc]⟩

end AgentTorrent
