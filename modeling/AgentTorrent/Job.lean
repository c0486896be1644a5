import AgentTorrent.Python.Platform

namespace AgentTorrent

def harnessChoices : List PyStr := [lit "claude",lit "codex",lit "api",lit "any"]

def requiredFields : List PyStr :=
  [lit "job_id",lit "task_text",lit "required_harness",lit "max_tokens",
    lit "max_runtime_seconds",lit "expected_output"]

/-- A string with something besides white space in it. -/
abbrev Text := {s : PyStr // isBlank s=false}

abbrev HarnessChoice := {s : PyStr // s∈harnessChoices}

abbrev PosInt := {n : Int // 0 < n}

/-- A job manifest that passed validation. -/
structure Job where
  jobId : Text
  taskText : Text
  requiredHarness : HarnessChoice
  maxTokens : PosInt
  maxRuntimeSeconds : PosInt
  expectedOutput : Text
  deriving DecidableEq

def Job.id (job : Job) : PyStr := job.jobId.val

def Job.toJson (job : Job) : Json :=
  .obj [(lit "job_id",.str job.jobId.val),(lit "task_text",.str job.taskText.val),
    (lit "required_harness",.str job.requiredHarness.val),
    (lit "max_tokens",.int job.maxTokens.val),
    (lit "max_runtime_seconds",.int job.maxRuntimeSeconds.val),
    (lit "expected_output",.str job.expectedOutput.val)]

def textField (v : Json) (field : PyStr) : Option Text :=
  match v.get? field with
  | some (.str s) => if h : isBlank s=false then some ⟨s,h⟩ else none
  | _ => none

def harnessField (v : Json) (field : PyStr) : Option HarnessChoice :=
  match v.get? field with
  | some (.str s) => if h : s∈harnessChoices then some ⟨s,h⟩ else none
  | _ => none

/-- A bool is no integer here, although Python counts it as one. -/
def posIntField (v : Json) (field : PyStr) : Option PosInt :=
  match v.get? field with
  | some (.int n) => if h : 0 < n then some ⟨n,h⟩ else none
  | _ => none

def textProblem (v : Json) (field : PyStr) : List PyStr :=
  if (textField v field).isSome then [] else [field++lit " must be a non-empty string"]

def harnessProblem (v : Json) (field : PyStr) : List PyStr :=
  if (harnessField v field).isSome then []
  else [field++lit " must be one of ('claude', 'codex', 'api', 'any')"]

def posIntProblem (v : Json) (field : PyStr) : List PyStr :=
  if (posIntField v field).isSome then [] else [field++lit " must be a positive integer"]

/-- The problems in the order in which validate_job collects them. -/
def jobProblems (v : Json) : List PyStr :=
  textProblem v (lit "job_id")++textProblem v (lit "task_text")++
  textProblem v (lit "expected_output")++harnessProblem v (lit "required_harness")++
  posIntProblem v (lit "max_tokens")++posIntProblem v (lit "max_runtime_seconds")

def validateJob (v : Json) : Except PyExc Job :=
  if ¬v.isObj then .error (.jobError (lit "job manifest is not an object"))
  else
    let missing := requiredFields.filter fun f => (v.get? f).isNone
    if missing≠[] then
      .error (.jobError (lit "job manifest missing fields: "++join (lit ", ") missing))
    else match textField v (lit "job_id"),textField v (lit "task_text"),
        harnessField v (lit "required_harness"),posIntField v (lit "max_tokens"),
        posIntField v (lit "max_runtime_seconds"),textField v (lit "expected_output") with
      | some jobId,some taskText,some requiredHarness,some maxTokens,some maxRuntimeSeconds,
        some expectedOutput =>
          .ok ⟨jobId,taskText,requiredHarness,maxTokens,maxRuntimeSeconds,expectedOutput⟩
      | _,_,_,_,_,_ => .error (.jobError (join (lit "; ") (jobProblems v)))

/-- The arguments of Peer.delegate, which may come from any JSON object. -/
structure DelegateArgs where
  taskText : Json
  requiredHarness : Json
  maxTokens : Json
  maxRuntimeSeconds : Json
  expectedOutput : Json

/-- new_job with the job id that uuid4 drew. -/
def newJob (uuid : PyStr) (args : DelegateArgs) : Except PyExc Job :=
  validateJob (.obj [(lit "job_id",.str uuid),(lit "task_text",args.taskText),
    (lit "required_harness",args.requiredHarness),(lit "max_tokens",args.maxTokens),
    (lit "max_runtime_seconds",args.maxRuntimeSeconds),
    (lit "expected_output",args.expectedOutput)])

theorem textField_some {v : Json} {f : PyStr} {t : Text} (h : textField v f=some t) :
    v.get? f=some (.str t.val) := by
  unfold textField at h
  split at h
  · rename_i s hs
    split at h
    · cases h
      exact hs
    · cases h
  · cases h

theorem harnessField_some {v : Json} {f : PyStr} {t : HarnessChoice}
    (h : harnessField v f=some t) : v.get? f=some (.str t.val) := by
  unfold harnessField at h
  split at h
  · rename_i s hs
    split at h
    · cases h
      exact hs
    · cases h
  · cases h

theorem posIntField_some {v : Json} {f : PyStr} {n : PosInt} (h : posIntField v f=some n) :
    v.get? f=some (.int n.val) := by
  unfold posIntField at h
  split at h
  · rename_i s hs
    split at h
    · cases h
      exact hs
    · cases h
  · cases h

theorem textField_of_get {v : Json} {f : PyStr} (t : Text) (h : v.get? f=some (.str t.val)) :
    textField v f=some t := by
  simp [textField,h,t.property]

theorem harnessField_of_get {v : Json} {f : PyStr} (t : HarnessChoice)
    (h : v.get? f=some (.str t.val)) : harnessField v f=some t := by
  simp [harnessField,h,t.property]

theorem posIntField_of_get {v : Json} {f : PyStr} (n : PosInt)
    (h : v.get? f=some (.int n.val)) : posIntField v f=some n := by
  simp [posIntField,h,n.property]

/-- An accepted job is read field by field from the object that was checked. -/
theorem validateJob_ok {v : Json} {job : Job} (h : validateJob v=.ok job) :
    v.get? (lit "job_id")=some (.str job.id) ∧
    v.get? (lit "task_text")=some (.str job.taskText.val) ∧
    v.get? (lit "required_harness")=some (.str job.requiredHarness.val) ∧
    v.get? (lit "max_tokens")=some (.int job.maxTokens.val) ∧
    v.get? (lit "max_runtime_seconds")=some (.int job.maxRuntimeSeconds.val) ∧
    v.get? (lit "expected_output")=some (.str job.expectedOutput.val) := by
  unfold validateJob at h
  split at h
  · cases h
  · dsimp only at h
    split at h
    · cases h
    · split at h
      · rename_i h1 h2 h3 h4 h5 h6
        cases h
        exact ⟨textField_some h1,textField_some h2,harnessField_some h3,posIntField_some h4,
          posIntField_some h5,textField_some h6⟩
      · cases h

theorem validateJob_error {v : Json} {e : PyExc} (h : validateJob v=.error e) :
    ∃msg,e=.jobError msg := by
  unfold validateJob at h
  split at h
  · exact ⟨_,(Except.error.inj h).symm⟩
  · dsimp only at h
    split at h
    · exact ⟨_,(Except.error.inj h).symm⟩
    · split at h
      · cases h
      · exact ⟨_,(Except.error.inj h).symm⟩

/-- A job passes its own check and is read back unchanged. -/
theorem validateJob_toJson (job : Job) : validateJob job.toJson=.ok job := by
  have h1 : textField job.toJson (lit "job_id")=some job.jobId := textField_of_get _ rfl
  have h2 : textField job.toJson (lit "task_text")=some job.taskText :=
    textField_of_get _ rfl
  have h3 : harnessField job.toJson (lit "required_harness")=some job.requiredHarness :=
    harnessField_of_get _ rfl
  have h4 : posIntField job.toJson (lit "max_tokens")=some job.maxTokens :=
    posIntField_of_get _ rfl
  have h5 : posIntField job.toJson (lit "max_runtime_seconds")=some job.maxRuntimeSeconds :=
    posIntField_of_get _ rfl
  have h6 : textField job.toJson (lit "expected_output")=some job.expectedOutput :=
    textField_of_get _ rfl
  have hm : requiredFields.filter (fun f => (job.toJson.get? f).isNone)=[] := rfl
  simp only [validateJob,hm,h1,h2,h3,h4,h5,h6]
  rfl

theorem newJob_id {uuid : PyStr} {args : DelegateArgs} {job : Job}
    (h : newJob uuid args=.ok job) : job.id=uuid := by
  have hi := (validateJob_ok h).1
  have hl : Json.get? (lit "job_id") (.obj [(lit "job_id",.str uuid),
      (lit "task_text",args.taskText),(lit "required_harness",args.requiredHarness),
      (lit "max_tokens",args.maxTokens),(lit "max_runtime_seconds",args.maxRuntimeSeconds),
      (lit "expected_output",args.expectedOutput)])=some (.str uuid) := by
    simp [Json.get?]
  rw [hl] at hi
  simpa using hi.symm

end AgentTorrent
