import AgentTorrent.Peer.Results
import AgentTorrent.Python.IntText

namespace AgentTorrent

/-- bool(v) -/
def Json.truthy : Json → Bool
  | .null => false
  | .bool b => b
  | .int n => n≠0
  | .float f => f.repr≠ascii "0.0" && f.repr≠ascii "-0.0"
  | .str s => s≠[]
  | .arr xs => !xs.isEmpty
  | .obj ms => !ms.isEmpty

/-- v or default -/
def Json.orElse (v default : Json) : Json := if v.truthy then v else default

/-- v[0]. The keys of a dict are strings. -/
def Json.first : Json → Except PyExc Json
  | .arr (x::_) => .ok x
  | .str (c::_) => .ok (.str [c])
  | .obj _ => .error (.keyError (lit "0"))
  | _ => .error .typeError

/-- UTF-8 of one code point. What it gives for a surrogate is never asked for. -/
def utf8Char (c : CodePoint) : Bytes :=
  if c.val<0x80 then [UInt8.ofNat c.val]
  else if c.val<0x800 then [UInt8.ofNat (0xc0+c.val/0x40),UInt8.ofNat (0x80+c.val%0x40)]
  else if c.val<0x10000 then [UInt8.ofNat (0xe0+c.val/0x1000),
    UInt8.ofNat (0x80+c.val/0x40%0x40),UInt8.ofNat (0x80+c.val%0x40)]
  else [UInt8.ofNat (0xf0+c.val/0x40000),UInt8.ofNat (0x80+c.val/0x1000%0x40),
    UInt8.ofNat (0x80+c.val/0x40%0x40),UInt8.ofNat (0x80+c.val%0x40)]

def utf8 (s : PyStr) : Bytes := s.flatMap utf8Char

/-- What errors=backslashreplace makes of a text. -/
def backslashReplace (s : PyStr) : PyStr :=
  s.flatMap fun c => if isScalar c then [c] else ofAscii (Json.escapeUnit c.val)

/-- The command line of the script. -/
structure ApiArgs where
  maxTokens : Int
  timeout : PyStr
  prompt : PyStr

/-- The request of _build_request, with its timeout. -/
structure ApiRequest where
  url : PyStr
  apiKey : PyStr
  model : PyStr
  maxTokens : Int
  timeout : PyStr
  prompt : PyStr

/-- What urlopen and json.load come to: HTTPError, another OSError, or an exception that
main does not handle, such as the ValueError for a body that is not JSON. -/
inductive HttpOutcome
  | success (payload : Json)
  | httpError (code : Int) (detail : PyStr)
  | failed (text : PyStr)
  | raised (e : PyExc)

/-- What the script meets, and what the interpreter prints for it. -/
structure ApiWorld where
  http : ApiRequest → HttpOutcome
  usage : PyStr
  traceback : PyExc → PyStr

structure ScriptExit where
  returncode : Int
  stdout : PyStr
  stderr : PyStr

variable (P : Platform)

/-- _extract_text: a text, or an error where the text is blank. -/
def extractText (payload : Json) : Except PyExc (PyStr×Option PyStr) := do
  let choices := ((← payload.getD (lit "choices") .null)).orElse (.arr [])
  if choices.truthy then
    let first ← choices.first
    let message := ((← first.getD (lit "message") .null)).orElse (.obj [])
    match ((← message.getD (lit "content") .null)).orElse (.str []) with
    | .str text =>
      if isBlank text then
        let reason ← first.getD (lit "finish_reason") .null
        P.pyStr reason
        return ([],some (lit "no text in response (finish_reason="++P.repr reason++lit ")"))
      else return (text,none)
    | _ => .error .attributeError
  else return ([],some (lit "response has no choices"))

/-- parse_args of the options in the order in which execute_job writes them. -/
def parseArgs : List PyStr → Option ApiArgs
  | [option₁,maxTokens,option₂,timeout,prompt] =>
    if option₁=lit "--max-tokens" ∧ option₂=lit "--timeout" ∧ timeout.all isDigit ∧
        timeout≠[] ∧ prompt.head?≠some (codePoint 0x2d) then
      (pyInt P maxTokens).map fun n => ⟨n,timeout,prompt⟩
    else none
  | _ => none

/-- base_url.rstrip("/") -/
def baseOf (url : PyStr) : PyStr := url.rdropWhile fun c => c.val=0x2f

def baseUrlVar : PyStr := lit "AGENTTORRENT_API_BASE_URL"

def buildRequest (url : PyStr) (env : List (PyStr×PyStr)) (ns : ApiArgs) : ApiRequest where
  url := baseOf url++lit "/v1/chat/completions"
  apiKey := (env.lookup (lit "AGENTTORRENT_API_KEY")).getD (lit "local")
  model := (env.lookup (lit "AGENTTORRENT_API_MODEL")).getD (lit "default")
  maxTokens := ns.maxTokens
  timeout := ns.timeout
  prompt := ns.prompt

variable (A : ApiWorld)

def complain (text : PyStr) : ScriptExit := ⟨1,[],lit "api harness: "++text++lit "\n"⟩

/-- An exception that leaves main. -/
def uncaught (e : PyExc) : ScriptExit := ⟨1,[],A.traceback e⟩

/-- main from the answer of the server on -/
def apiAnswer (url : PyStr) : HttpOutcome → ScriptExit
  | .httpError code detail => complain (lit "HTTP "++Json.intText code++lit " from "++baseOf url++
      lit ": "++detail.take 2000)
  | .failed text => complain (lit "request to "++baseOf url++lit " failed: "++text)
  | .raised e => uncaught A e
  | .success payload => match extractText P payload with
    | .error e => uncaught A e
    | .ok (_,some error) => complain error
    | .ok (text,none) => if text.all isScalar then ⟨0,text++lit "\n",[]⟩ else uncaught A .valueError

/-- main -/
def apiMain (args : List PyStr) (env : List (PyStr×PyStr)) : ScriptExit :=
  match parseArgs P args with
  | none => ⟨2,[],A.usage⟩
  | some ns =>
    let url := (env.lookup baseUrlVar).getD []
    if url=[] then ⟨2,[],lit "api harness: AGENTTORRENT_API_BASE_URL is not set in the sandbox "++
      lit "(start the worker with --env-passthrough AGENTTORRENT_API_BASE_URL)\n"⟩
    else apiAnswer P A url (A.http (buildRequest url env ns))

/-- The process that execute_job starts for the api harness. -/
def apiProcess (c : Command) : ProcessEnd :=
  let done := apiMain P A (c.argv.drop 2) c.env
  .exited done.returncode (utf8 done.stdout) (utf8 (backslashReplace done.stderr))

/-- The payload is an object whose choices are a non-empty list whose first element is an
object whose message is an object whose content is this string. Only an object has fields. -/
def Says (payload : Json) (text : PyStr) : Prop :=
  ∃first rest message,payload.get? (lit "choices")=some (.arr (first::rest)) ∧
    first.get? (lit "message")=some message ∧ message.get? (lit "content")=some (.str text)

section Payload

variable {P} {payload v w : Json} {text : PyStr}

theorem getD_of_get {key : PyStr} {default : Json} (h : v.get? key=some w) :
    v.getD key default=.ok w := by
  cases v with
  | obj ms =>
    rw [Json.get?_obj] at h
    rw [Json.getD,h]
    rfl
  | _ => cases h

/-- A field that was read, and is not false, is there. -/
theorem get_of_truthy {key : PyStr} {default : Json}
    (h : v.getD key .null=.ok w) (ht : (w.orElse default).truthy=true)
    (hd : default.truthy=false) : v.get? key=some w ∧ w.orElse default=w := by
  have hw : w.truthy=true := by
    by_contra hn
    rw [Json.orElse,if_neg hn,hd] at ht
    cases ht
  refine ⟨?_,by rw [Json.orElse,if_pos hw]⟩
  have hv := Json.getD_ok h
  cases hg : v.get? key with
  | none =>
    rw [hg] at hv
    rw [hv] at hw
    cases hw
  | some x => rw [hv,hg,Option.getD_some]

theorem truthy_of_get {key : PyStr} (h : v.get? key=some w) : v.truthy=true := by
  cases v with
  | obj ms =>
    cases ms with
    | nil => cases h
    | cons m ms => rfl
  | _ => cases h

/-- Of the values that have an element 0, only a list has one with fields. -/
theorem first_of_get {key : PyStr} (hf : payload.first=.ok v) (hg : v.get? key=some w) :
    ∃rest,payload=.arr (v::rest) := by
  cases payload with
  | arr xs =>
    cases xs with
    | nil => cases hf
    | cons x xs =>
      cases hf
      exact ⟨xs,rfl⟩
  | str s =>
    cases s with
    | nil => cases hf
    | cons c s =>
      cases hf
      cases hg
  | _ => cases hf

/-- Text is extracted exactly where the payload says one that is not blank. -/
theorem extractText_ok_iff : extractText P payload=.ok (text,none) ↔
    Says payload text ∧ isBlank text=false := by
  constructor
  · intro h
    simp only [extractText,except_bind_ok] at h
    obtain ⟨choices,hc,h⟩ := h
    split_ifs at h with ht
    · obtain ⟨hgc,hec⟩ := get_of_truthy hc ht rfl
      simp only [except_bind_ok] at h
      obtain ⟨first,hf,message,hm,content,hx,h⟩ := h
      rw [hec] at hf
      split at h
      · rename_i t hcontent
        split_ifs at h with hb
        · simp only [except_bind_ok] at h
          obtain ⟨_,_,_,_,h⟩ := h
          cases h
        · cases h
          -- What is not blank is not false, from the content up to the choices.
          have hcx : (content.orElse (.str [])).truthy=true := by
            rw [hcontent]
            cases text with
            | nil => exact absurd rfl hb
            | cons c s => rfl
          obtain ⟨hgx,hex⟩ := get_of_truthy hx hcx rfl
          obtain ⟨hgm,hem⟩ := get_of_truthy hm (truthy_of_get hgx) rfl
          obtain ⟨rest,rfl⟩ := first_of_get hf hgm
          rw [hem,← hex,hcontent] at hgx
          exact ⟨⟨first,rest,message,hgc,hgm,hgx⟩,by simpa using hb⟩
      · cases h
    · cases h
  · intro h
    obtain ⟨⟨first,rest,message,hc,hm,hx⟩,hb⟩ := h
    have hchoices : (Json.arr (first::rest)).orElse (.arr [])=.arr (first::rest) := rfl
    have htrue : (Json.arr (first::rest)).truthy=true := rfl
    have hfirst : (Json.arr (first::rest)).first=.ok first := rfl
    have hmessage : message.orElse (.obj [])=message := if_pos (truthy_of_get hx)
    have hcontent : (Json.str text).orElse (.str [])=.str text := by
      cases text with
      | nil => cases hb
      | cons c s => rfl
    simp only [extractText,getD_of_get hc,bind,Except.bind,hchoices,htrue,if_true,hfirst,
      getD_of_get hm,hmessage,getD_of_get hx,hcontent,hb,Bool.false_eq_true,if_false]
    rfl

end Payload

section Main

variable {P A} {peer : Peer} {host : Host} {S : Spawn} {job : Job} {c : Command}

/-- What the script asks the server for a job. -/
def apiRequest (url : PyStr) (env : List (PyStr×PyStr)) (job : Job) : ApiRequest :=
  buildRequest url env ⟨job.maxTokens.val,Json.intText job.maxRuntimeSeconds.val,
    harnessPrompt (lit "api") job⟩

/-- The script reads back the limits and the prompt that execute_job wrote. -/
theorem parseArgs_api (job : Job) (hfewer : ∀m n : Int,m.natAbs ≤ n.natAbs → P.intPrints n=true →
    P.intPrints m=true) (hp : P.intPrints job.maxTokens.val=true) :
    parseArgs P [lit "--max-tokens",Json.intText job.maxTokens.val,lit "--timeout",
      Json.intText job.maxRuntimeSeconds.val,harnessPrompt (lit "api") job]=
    some ⟨job.maxTokens.val,Json.intText job.maxRuntimeSeconds.val,
      harnessPrompt (lit "api") job⟩ := by
  obtain ⟨hne,hd,-,-⟩ := intText_digits job.maxRuntimeSeconds.property
  obtain ⟨x,hx,hdash⟩ := harnessPrompt_head (lit "api") job
  have hprompt : (harnessPrompt (lit "api") job).head?≠some (codePoint 0x2d) := by
    rw [hx]
    exact fun h => hdash (Option.some.inj h)
  rw [parseArgs,if_pos ⟨rfl,rfl,List.all_eq_true.mpr hd,hne,hprompt⟩,
    pyInt_intText hfewer job.maxTokens.property hp]
  rfl

theorem apiAnswer_zero {url : PyStr} {answer : HttpOutcome} :
    (apiAnswer P A url answer).returncode=0 ↔ ∃payload text,answer=.success payload ∧
      (Says payload text ∧ isBlank text=false) ∧ text.all isScalar=true := by
  simp only [← extractText_ok_iff (P := P)]
  cases answer with
  | success payload =>
    simp only [apiAnswer]
    split
    · rename_i e he
      simp [uncaught,he]
    · rename_i text error he
      simp [complain,he]
    · rename_i text he
      split_ifs with hs
      · simpa [he] using hs
      · simpa [uncaught,he] using hs
  | _ => simp [apiAnswer,complain,uncaught]

theorem apiAnswer_scalar (url : PyStr) (answer : HttpOutcome) :
    (apiAnswer P A url answer).stdout.all isScalar=true := by
  cases answer with
  | success payload =>
    simp only [apiAnswer]
    split
    · rfl
    · rfl
    · split_ifs with hs
      · have newline : (lit "\n").all isScalar=true := by decide
        rw [List.all_append,hs,newline]
        rfl
      · rfl
  | _ => rfl

theorem backslashReplace_scalar (s : PyStr) : (backslashReplace s).all isScalar=true := by
  have low (b : UInt8) (hb : Json.isPrintable b=true) :
      isScalar (Fin.ofNat 0x110000 b.toNat)=true := by
    simp only [Json.isPrintable,Bool.and_eq_true,decide_eq_true_eq] at hb
    simp only [isScalar,Fin.val_ofNat,Bool.or_eq_true,decide_eq_true_eq]
    omega
  rw [backslashReplace,List.all_flatMap,List.all_eq_true]
  intro c _
  split_ifs with hc
  · simpa using hc
  · rw [ofAscii,List.all_map,List.all_eq_true]
    intro b hb
    exact low b (List.all_eq_true.mp (Json.escapeUnit_printable c.val) b hb)

theorem apiMain_scalar (args : List PyStr) (env : List (PyStr×PyStr)) :
    (apiMain P A args env).stdout.all isScalar=true := by
  unfold apiMain
  split
  · rfl
  · dsimp only
    split_ifs
    · rfl
    · exact apiAnswer_scalar _ _

/-- The script asks the server for the job, where it is told of one. -/
theorem apiMain_asks (A : ApiWorld) (hl : launched P peer host job=some (lit "api",c))
    (hfewer : ∀m n : Int,m.natAbs ≤ n.natAbs → P.intPrints n=true → P.intPrints m=true)
    {url : PyStr} (hurl : (c.env.lookup baseUrlVar).getD []=url) :
    apiMain P A (c.argv.drop 2) c.env=if url=[] then
      ⟨2,[],lit "api harness: AGENTTORRENT_API_BASE_URL is not set in the sandbox "++
        lit "(start the worker with --env-passthrough AGENTTORRENT_API_BASE_URL)\n"⟩
    else apiAnswer P A url (A.http (apiRequest url c.env job)) := by
  obtain ⟨binary,workdir,-,-,-,hs⟩ := launched_iff.mp hl
  obtain ⟨-,hprints,-⟩ := (sandboxCommand_prints (.inl rfl)).mp ⟨c,hs⟩
  have hargv : c.argv.drop 2=[lit "--max-tokens",Json.intText job.maxTokens.val,lit "--timeout",
      Json.intText job.maxRuntimeSeconds.val,harnessPrompt (lit "api") job] := by
    rw [sandboxCommand_ok peer hs]
    rfl
  have hargs := parseArgs_api job hfewer hprints
  rw [← hargv] at hargs
  simp only [apiMain,hargs,hurl,apiRequest]

/-- execute_job can tell how the script ended, for all that the script prints is text. -/
theorem apiProcess_tells (hend : S.outcome=apiProcess P A c) {limit : Int}
    (hwait : S.waits limit=true)
    (hutf8 : ∀s,s.all isScalar=true → (S.decode (utf8 s)).isSome=true) :
    S.tells P limit=true := by
  simp only [Spawn.tells,hend,apiProcess,hwait,hutf8 _ (apiMain_scalar _ _),
    hutf8 _ (backslashReplace_scalar _),Bool.and_self]

end Main

variable (peer : Peer) (host : Host) (S : Spawn)

/-- A job that runs through the api harness within its limit is paid exactly where the
server answered with text. -/
theorem api_paid_iff_text (job : Job) (c : Command)
    (hl : launched P peer host job=some (lit "api",c))
    (hpass : c.argv.all (passable P)=true) (hend : S.outcome=apiProcess P A c)
    (hwait : S.waits job.maxRuntimeSeconds.val=true)
    (hfewer : ∀m n : Int,m.natAbs ≤ n.natAbs → P.intPrints n=true → P.intPrints m=true)
    (hutf8 : ∀s,s.all isScalar=true → (S.decode (utf8 s)).isSome=true) :
    ∃r,executeJob P peer (host.spawning P S) job=.ok r ∧ r.harness=lit "api" ∧
      ((c.env.lookup baseUrlVar).getD []=[] → r.status=.error) ∧
      ∀url,url≠[] → c.env.lookup baseUrlVar=some url →
        (∀payload,A.http (apiRequest url c.env job)=.success payload →
          (∀text,Says payload text → text.all isScalar=true) →
          (r.status=.ok ↔ ∃text,Says payload text ∧ isBlank text=false)) ∧
        ((∀payload,A.http (apiRequest url c.env job)≠.success payload) → r.status=.error) := by
  obtain ⟨hiff,hresult⟩ := executeJob_spawned (S := S) hl
  obtain ⟨r,hr⟩ := hiff.mpr ⟨hpass,apiProcess_tells hend hwait hutf8⟩
  obtain ⟨hapi,hstatus⟩ := hresult r hr
  have hzero : r.status=.ok ↔ (apiMain P A (c.argv.drop 2) c.env).returncode=0 := by
    rw [hstatus,hend]
    simp [apiProcess]
  have hfail (h : (apiMain P A (c.argv.drop 2) c.env).returncode≠0) : r.status=.error := by
    cases hst : r.status with
    | ok => exact absurd (hzero.mp hst) h
    | error => rfl
  refine ⟨r,hr,hapi,?_,?_⟩
  · intro hunset
    apply hfail
    rw [apiMain_asks A hl hfewer hunset,if_pos rfl]
    decide
  · intro url hne hurl
    have hgiven : (c.env.lookup baseUrlVar).getD []=url := by rw [hurl]; rfl
    have hmain := apiMain_asks A hl hfewer hgiven
    rw [if_neg hne] at hmain
    constructor
    · intro payload hanswer hscalar
      rw [hzero,hmain,hanswer,apiAnswer_zero]
      constructor
      · intro h
        obtain ⟨v,text,hv,htext,-⟩ := h
        cases hv
        exact ⟨text,htext⟩
      · intro h
        obtain ⟨text,htext⟩ := h
        exact ⟨payload,text,rfl,htext,hscalar text htext.1⟩
    · intro hnone
      apply hfail
      intro h
      rw [hmain,apiAnswer_zero] at h
      obtain ⟨payload,_,hv,-⟩ := h
      exact hnone payload hv

section Sample

/-- A worker with a local model and no agent CLI. -/
def apiPeer : Peer where
  identity := workerIdentity
  config := ⟨300,true,false,1,[baseUrlVar]⟩
  harnesses := [(lit "api",lit "openai-chat-api/default")]

def apiHost : Host :=
  {claudeHost with environ := [(baseUrlVar,lit "http://127.0.0.1:8080/")]}

/-- A server that says the same whatever it is asked. -/
def apiWorld (payload : Json) : ApiWorld where
  http _ := .success payload
  usage := lit "usage: api_harness.py"
  traceback _ := lit "Traceback"

def apiSpawn (payload : Json) (c : Command) : Spawn where
  outcome := apiProcess samplePlatform (apiWorld payload) c
  decode bs := some (ofAscii bs)
  waits n := n≤2147483
  rmtree := true

def apiReply (content : Json) : Json :=
  .obj [(lit "choices",.arr [.obj [(lit "message",.obj [(lit "content",content)])]])]

theorem apiReply_content {content : Json} {text : PyStr} :
    Says (apiReply content) text ↔ content=.str text := by
  constructor
  · intro h
    obtain ⟨first,rest,message,hc,hm,hx⟩ := h
    cases hc
    cases hm
    exact Option.some.inj hx
  · intro h
    exact ⟨_,_,_,rfl,rfl,congrArg some h⟩

theorem sample_intPrints {m n : Int} (h : m.natAbs ≤ n.natAbs)
    (hn : samplePlatform.intPrints n=true) : samplePlatform.intPrints m=true := by
  have he : samplePlatform.intPrints=intPrints := rfl
  rw [he] at hn ⊢
  unfold intPrints at hn ⊢
  generalize Nat.pow 10 4300=limit at hn ⊢
  rw [decide_eq_true_eq] at hn ⊢
  exact lt_of_le_of_lt h hn

theorem api_paid_iff_text_sample : ∃c r,
    executeJob samplePlatform apiPeer (apiHost.spawning samplePlatform
      (apiSpawn (apiReply (.str (lit "olleh"))) c)) sampleJob=.ok r ∧
    r.harness=lit "api" ∧ r.status=.ok := by
  have hl : (launched samplePlatform apiPeer apiHost sampleJob).any (fun l => l.1=lit "api" &&
      l.2.argv.all (passable samplePlatform) &&
      l.2.env.lookup baseUrlVar=some (lit "http://127.0.0.1:8080/"))=true := by decide +kernel
  obtain ⟨⟨name,c⟩,hl,hc⟩ := (Option.any_eq_true _ _).mp hl
  simp only [Bool.and_eq_true,decide_eq_true_eq] at hc
  obtain ⟨⟨rfl,hpass⟩,hurl⟩ := hc
  have hwait : (sampleJob.maxRuntimeSeconds.val≤2147483 : Bool)=true := by decide
  obtain ⟨r,hr,hapi,-,hpaid⟩ := api_paid_iff_text samplePlatform
    (apiWorld (apiReply (.str (lit "olleh")))) apiPeer apiHost
    (apiSpawn (apiReply (.str (lit "olleh"))) c) sampleJob c hl hpass rfl hwait
    (fun m n => sample_intPrints) (fun s _ => rfl)
  have hscalar (text : PyStr) (h : Says (apiReply (.str (lit "olleh"))) text) :
      text.all isScalar=true := by
    rw [← Json.str.inj (apiReply_content.mp h)]
    decide
  have hok := (hpaid _ (by decide) hurl).1 _ rfl hscalar
  exact ⟨c,r,hr,hapi,hok.mpr ⟨lit "olleh",apiReply_content.mpr rfl,by decide⟩⟩

end Sample

end AgentTorrent
