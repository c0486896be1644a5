import AgentTorrent.Python.JsonPretty
import AgentTorrent.Wire.Sealed
import AgentTorrent.Executor
import AgentTorrent.Framework.Machine

namespace AgentTorrent

open Framework Json

/-- The fields of the dataclass PeerConfig. -/
inductive ConfigField
  | tcpPort
  | discoveryPort
  | bootstrapPeers
  | maxRuntimeSeconds
  | acceptsTasks
  | forceSimulate
  | simulateDelay
  | envPassthrough
  deriving DecidableEq

namespace ConfigField

/-- __dataclass_fields__ -/
def all : List ConfigField :=
  [tcpPort,discoveryPort,bootstrapPeers,maxRuntimeSeconds,acceptsTasks,forceSimulate,simulateDelay,
    envPassthrough]

def name : ConfigField → PyStr
  | tcpPort => lit "tcp_port"
  | discoveryPort => lit "discovery_port"
  | bootstrapPeers => lit "bootstrap_peers"
  | maxRuntimeSeconds => lit "max_runtime_seconds"
  | acceptsTasks => lit "accepts_tasks"
  | forceSimulate => lit "force_simulate"
  | simulateDelay => lit "simulate_delay"
  | envPassthrough => lit "env_passthrough"

def default : ConfigField → Json
  | tcpPort => .int 0
  | discoveryPort => .int 47474
  | bootstrapPeers => .arr []
  | maxRuntimeSeconds => .int 300
  | acceptsTasks => .bool true
  | forceSimulate => .bool false
  | simulateDelay => .float ⟨ascii "1.0",by decide⟩
  | envPassthrough => .arr []

end ConfigField

/-- A PeerConfig as load builds it: the dataclass checks the type of no field. -/
abbrev ConfigValues := ConfigField → Json

/-- config.__dict__ -/
def ConfigValues.dict (c : ConfigValues) : List (PyStr×Json) :=
  ConfigField.all.map fun f => (f.name,c f)

/-- json.dumps(config.__dict__, indent=2) -/
def ConfigValues.text (c : ConfigValues) : Bytes := (Json.obj c.dict).dumpsIndent

/-- values[key] = value -/
def setItem (key : PyStr) (v : Json) : List (PyStr×Json) → List (PyStr×Json)
  | [] => [(key,v)]
  | (k,w)::ms => if k=key then (k,v)::ms else (k,w)::setItem key v ms

/-- The loop over the overrides. -/
def applyOverrides (values : List (PyStr×Json)) : List (PyStr×Option Json) → List (PyStr×Json)
  | [] => values
  | (_,none)::os => applyOverrides values os
  | (key,some v)::os => applyOverrides (setItem key v values) os

/-- cls(**{k: v for k, v in values.items() if k in known}) -/
def ConfigValues.ofValues (values : List (PyStr×Json)) : ConfigValues :=
  fun f => (values.lookup f.name).getD f.default

section Load

variable (float : PyStr → PyFloat) (intPrints : Int → Bool)

/-- The values of the file config.json. -/
def configValues : Option Bytes → Except PyExc (List (PyStr×Json))
  | none => .ok []
  | some bs => match loadsText float intPrints (ofAscii bs) with
    | none => .error .valueError
    | some (.obj ms) => .ok ms
    | some (.arr []) | some (.str []) => .ok []
    | some _ => .error .typeError

/-- PeerConfig.load up to its write_text. -/
def PeerConfig.load (file : Option Bytes) (overrides : List (PyStr×Option Json)) :
    Except PyExc ConfigValues := do
  let values ← configValues float intPrints file
  return .ofValues (applyOverrides values overrides)

end Load

/-- What the command line of mesh start gives. -/
structure StartArgs where
  tcpPort : Option Int
  discoveryPort : Option Int
  bootstrapPeer : Option (List PyStr)
  noAcceptTasks : Bool
  forceSimulate : Bool
  simulateDelay : Option PyFloat
  maxRuntime : Option Int
  envPassthrough : Option (List PyStr)

/-- x or None, for the list of an option that may be repeated -/
def orNone (x : Option (List PyStr)) : Option Json :=
  (x.filter (!·.isEmpty)).map fun ss => .arr (ss.map .str)

/-- The override of a field in cmd_start. -/
def StartArgs.given (ns : StartArgs) : ConfigField → Option Json
  | .tcpPort => ns.tcpPort.map .int
  | .discoveryPort => ns.discoveryPort.map .int
  | .bootstrapPeers => orNone ns.bootstrapPeer
  | .acceptsTasks => if ns.noAcceptTasks then some (.bool false) else none
  | .forceSimulate => if ns.forceSimulate then some (.bool true) else none
  | .simulateDelay => ns.simulateDelay.map .float
  | .maxRuntimeSeconds => ns.maxRuntime.map .int
  | .envPassthrough => orNone ns.envPassthrough

def StartArgs.overrides (ns : StartArgs) : List (PyStr×Option Json) :=
  [ConfigField.tcpPort,.discoveryPort,.bootstrapPeers,.acceptsTasks,.forceSimulate,.simulateDelay,
    .maxRuntimeSeconds,.envPassthrough].map fun f => (f.name,ns.given f)

/-- config.json, and what the last mesh start runs with, if it came that far. -/
structure ConfigDir where
  file : Option Bytes
  running : Option ConfigValues

inductive ConfigAction
  | start (ns : StartArgs)
  /-- the start dies with n bytes of config.json written -/
  | cut (ns : StartArgs) (n : Nat)

def ConfigAction.args : ConfigAction → StartArgs
  | .start ns => ns
  | .cut ns _ => ns

section Machine

variable (float : PyStr → PyFloat) (intPrints : Int → Bool)

/-- Starts of a peer one after the other on one data directory. -/
def configMachine : Machine ConfigDir ConfigAction where
  init d := d=⟨none,none⟩
  step d a := some <| match PeerConfig.load float intPrints d.file a.args.overrides,a with
    | .error _,_ => ⟨d.file,none⟩
    | .ok c,.start _ => ⟨some c.text,some c⟩
    | .ok c,.cut _ n => ⟨some (c.text.take n),none⟩

end Machine

theorem ConfigField.name_injective {f g : ConfigField} (h : f.name=g.name) : f=g := by
  cases f <;> cases g <;> first | rfl | exact absurd h (by decide)

theorem lookup_setItem (key : PyStr) (v : Json) (ms : List (PyStr×Json)) (k : PyStr) :
    (setItem key v ms).lookup k=if k=key then some v else ms.lookup k := by
  induction ms with
  | nil =>
    rw [setItem,List.lookup_cons]
    by_cases h : k=key
    · simp [h]
    · have hb : (k==key)=false := by simpa using h
      simp [h,hb]
  | cons m ms ih =>
    obtain ⟨k',w⟩ := m
    rw [setItem]
    split_ifs with hk h h
    · subst hk
      rw [h,List.lookup_cons_self]
    · subst hk
      have hb : (k==k')=false := by simpa using h
      rw [List.lookup_cons,List.lookup_cons,hb]
    · subst h
      have hb : (k==k')=false := by simpa using fun e : k=k' => hk e.symm
      rw [List.lookup_cons,hb,ih,if_pos rfl]
    · rw [List.lookup_cons,List.lookup_cons,ih,if_neg h]

/-- An override that is not None wins, and the rest of the values stay. -/
theorem lookup_applyOverrides (given : ConfigField → Option Json) (f : ConfigField)
    (fs : List ConfigField) (values : List (PyStr×Json)) (hn : fs.Nodup) :
    (applyOverrides values (fs.map fun g => (g.name,given g))).lookup f.name=
      if f∈fs then (given f).or (values.lookup f.name) else values.lookup f.name := by
  induction fs generalizing values with
  | nil => rfl
  | cons g fs ih =>
    obtain ⟨hg,hn⟩ := List.nodup_cons.mp hn
    cases hv : given g with
    | none =>
      rw [List.map_cons,hv,applyOverrides,ih values hn]
      by_cases h : f=g
      · subst h
        simp [hg,hv]
      · simp [h]
    | some v =>
      rw [List.map_cons,hv,applyOverrides,ih _ hn,lookup_setItem]
      by_cases h : f=g
      · subst h
        simp [hg,hv]
      · have hne : f.name≠g.name := fun e => h (ConfigField.name_injective e)
        simp [h,hne]

/-- The last setting of the field that any of the starts gave. -/
def latest (f : ConfigField) (nss : List StartArgs) : Option Json :=
  nss.reverse.findSome? fun ns => ns.given f

/-- What a peer runs with after these starts: of each field the last setting given,
and the default where none was. -/
def settings (nss : List StartArgs) : ConfigValues := fun f => (latest f nss).getD f.default

theorem latest_append (f : ConfigField) (nss : List StartArgs) (ns : StartArgs) :
    latest f (nss++[ns])=(ns.given f).or (latest f nss) := by
  unfold latest
  rw [List.reverse_append]
  show (ns::nss.reverse).findSome? _=_
  cases h : ns.given f with
  | none => simp [h]
  | some v => simp [h]

/-- The overrides of a start update the settings. -/
theorem settings_append {nss : List StartArgs} {values : List (PyStr×Json)} (ns : StartArgs)
    (hv : ∀f,(values.lookup (ConfigField.name f)).getD f.default=settings nss f) :
    ConfigValues.ofValues (applyOverrides values ns.overrides)=settings (nss++[ns]) := by
  funext f
  have hl := lookup_applyOverrides ns.given f [.tcpPort,.discoveryPort,.bootstrapPeers,
    .acceptsTasks,.forceSimulate,.simulateDelay,.maxRuntimeSeconds,.envPassthrough] values
    (by decide)
  have hm : f∈[ConfigField.tcpPort,.discoveryPort,.bootstrapPeers,.acceptsTasks,.forceSimulate,
    .simulateDelay,.maxRuntimeSeconds,.envPassthrough] := by cases f <;> decide
  rw [if_pos hm] at hl
  rw [ConfigValues.ofValues,StartArgs.overrides,hl,settings,latest_append]
  have hf := hv f
  cases ns.given f with
  | some v => rfl
  | none => exact hf

/-- No start takes back --no-accept-tasks or --force-simulate: the program has no option
for it. -/
theorem settings_flags (nss : List StartArgs) :
    settings nss .acceptsTasks=.bool (!nss.any (·.noAcceptTasks)) ∧
    settings nss .forceSimulate=.bool (nss.any (·.forceSimulate)) := by
  induction nss using List.reverseRecOn with
  | nil => exact ⟨rfl,rfl⟩
  | append_singleton nss ns ih =>
    obtain ⟨ha,hs⟩ := ih
    rw [settings,latest_append,settings,latest_append,List.any_append,List.any_append]
    simp only [settings] at ha hs
    constructor
    · cases h : ns.noAcceptTasks with
      | true => simp [StartArgs.given,h]
      | false => simpa [StartArgs.given,h] using ha
    · cases h : ns.forceSimulate with
      | true => simp [StartArgs.given,h]
      | false => simpa [StartArgs.given,h] using hs

/-- These are the values of the configuration that decides about inbound tasks. -/
structure ConfigValues.Describes (c : ConfigValues) (config : PeerConfig) : Prop where
  maxRuntimeSeconds : c .maxRuntimeSeconds=.int config.maxRuntimeSeconds
  acceptsTasks : c .acceptsTasks=.bool config.acceptsTasks
  forceSimulate : c .forceSimulate=.bool config.forceSimulate
  envPassthrough : c .envPassthrough=.arr (config.envPassthrough.map .str)

/-- What holds of the default of a field and of each setting, holds of the last one. -/
theorem settings_of_given {Q : Json → Prop} {f : ConfigField} (hd : Q f.default)
    (hg : ∀(ns : StartArgs) v,ns.given f=some v → Q v) (nss : List StartArgs) :
    Q (settings nss f) := by
  cases h : latest f nss with
  | none =>
    rw [settings,h]
    exact hd
  | some v =>
    obtain ⟨ns,-,hv⟩ := List.exists_of_findSome?_eq_some h
    rw [settings,h]
    exact hg ns v hv

/-- Whatever the starts so far, the values have the types that the peer relies on. -/
theorem settings_describes (nss : List StartArgs) : ∃config,(settings nss).Describes config ∧
    config.acceptsTasks=!nss.any (·.noAcceptTasks) ∧
    config.forceSimulate=nss.any (·.forceSimulate) := by
  obtain ⟨n,hn⟩ : ∃n,settings nss .maxRuntimeSeconds=.int n := by
    refine settings_of_given (Q := fun v => ∃n,v=.int n) ⟨300,rfl⟩ ?_ nss
    intro ns v hv
    obtain ⟨n,-,rfl⟩ := Option.map_eq_some_iff.mp hv
    exact ⟨n,rfl⟩
  obtain ⟨ss,hs⟩ : ∃ss : List PyStr,settings nss .envPassthrough=.arr (ss.map .str) := by
    refine settings_of_given (Q := fun v => ∃ss : List PyStr,v=.arr (ss.map .str)) ⟨[],rfl⟩ ?_ nss
    intro ns v hv
    obtain ⟨ss,-,rfl⟩ := Option.map_eq_some_iff.mp hv
    exact ⟨ss,rfl⟩
  obtain ⟨ha,hf⟩ := settings_flags nss
  exact ⟨⟨n,_,_,0,ss⟩,⟨hn,ha,hf,hs⟩,rfl,rfl⟩

/-- One of the starts died with its config.json written in part. -/
def Torn (as : List ConfigAction) : Prop :=
  ∃pre ns n post,as=pre++.cut ns n::post ∧ n < (settings (pre.map (·.args)++[ns])).text.length

theorem torn_append (as : List ConfigAction) (a : ConfigAction) : Torn (as++[a]) ↔
    Torn as ∨ ∃ns n,a=.cut ns n ∧ n < (settings (as.map (·.args)++[ns])).text.length := by
  constructor
  · intro h
    obtain ⟨pre,ns,n,post,he,hn⟩ := h
    rcases List.eq_nil_or_concat post with rfl | ⟨post,b,rfl⟩
    · obtain ⟨rfl,h⟩ := List.append_inj' he rfl
      exact .inr ⟨ns,n,List.singleton_inj.mp h,hn⟩
    · rw [List.concat_eq_append,← List.cons_append,← List.append_assoc] at he
      obtain ⟨rfl,-⟩ := List.append_inj' he rfl
      exact .inl ⟨pre,ns,n,post,rfl,hn⟩
  · intro h
    obtain ⟨pre,ns,n,post,rfl,hn⟩ | ⟨ns,n,rfl,hn⟩ := h
    · exact ⟨pre,ns,n,post++[a],by simp,hn⟩
    · exact ⟨as,ns,n,[],rfl,hn⟩

/-- JSON text carries the settings that the command line gives. -/
def StartArgs.carried (intPrints : Int → Bool) (ns : StartArgs) : Bool :=
  ConfigField.all.all fun f => (ns.given f).all fun v => v.plain && v.intsAll intPrints

theorem ConfigField.mem_all (f : ConfigField) : f∈all := by
  cases f <;> decide

theorem carried_given {intPrints : Int → Bool} {ns : StartArgs} (h : ns.carried intPrints=true)
    {f : ConfigField} {v : Json} (hv : ns.given f=some v) :
    v.plain=true ∧ v.intsAll intPrints=true := by
  have hf := List.all_eq_true.mp h f f.mem_all
  rw [hv] at hf
  simpa using hf

section History

variable {float : PyStr → PyFloat} {intPrints : Int → Bool}

theorem settings_carried (hi : ∀n : Int,n.natAbs≤47474 → intPrints n=true) {nss : List StartArgs}
    (hc : ∀ns∈nss,ns.carried intPrints=true) (f : ConfigField) :
    (settings nss f).plain=true ∧ (settings nss f).intsAll intPrints=true := by
  cases h : latest f nss with
  | none =>
    rw [settings,h]
    constructor
    · cases f <;> rfl
    · cases f <;> first | rfl | exact hi _ (by decide)
  | some v =>
    rw [settings,h]
    obtain ⟨ns,hns,hv⟩ := List.exists_of_findSome?_eq_some h
    exact carried_given (hc ns (List.mem_reverse.mp hns)) hv

theorem dict_keys (c : ConfigValues) : (c.dict.map Prod.fst).Nodup := by
  have h : c.dict.map Prod.fst=ConfigField.all.map ConfigField.name := by
    simp [ConfigValues.dict,Function.comp_def]
  rw [h]
  decide

theorem mem_dict (c : ConfigValues) (f : ConfigField) : (f.name,c f)∈c.dict :=
  List.mem_map.mpr ⟨f,f.mem_all,rfl⟩

theorem dict_plain {c : ConfigValues} (h : ∀f,(c f).plain=true) :
    (Json.obj c.dict).plain=true := by
  simp only [plain,Bool.and_eq_true,decide_eq_true_eq,plainMembers_iff]
  refine ⟨dict_keys c,?_⟩
  intro m hm
  obtain ⟨f,-,rfl⟩ := List.mem_map.mp hm
  refine ⟨?_,h f⟩
  show f.name.all isCarried=true
  cases f <;> decide

theorem dict_ints {c : ConfigValues} (h : ∀f,(c f).intsAll intPrints=true) :
    (Json.obj c.dict).intsAll intPrints=true := by
  rw [intsAll,intsAllMembers_iff]
  intro m hm
  obtain ⟨f,-,rfl⟩ := List.mem_map.mp hm
  exact h f

/-- The file gives the settings of these starts. -/
def ReadsAs (float : PyStr → PyFloat) (intPrints : Int → Bool) (nss : List StartArgs)
    (file : Option Bytes) : Prop :=
  ∃values,configValues float intPrints file=.ok values ∧
    ∀f,(values.lookup (ConfigField.name f)).getD f.default=settings nss f

theorem ReadsAs.load {nss : List StartArgs} {file : Option Bytes} (ns : StartArgs)
    (h : ReadsAs float intPrints nss file) :
    PeerConfig.load float intPrints file ns.overrides=.ok (settings (nss++[ns])) := by
  obtain ⟨values,hv,hl⟩ := h
  rw [PeerConfig.load,hv]
  exact congrArg Except.ok (settings_append ns hl)

variable (hf : ∀f : PyFloat,f.isFinite=true → float (ofAscii f.repr)=f)
  (hi : ∀n : Int,n.natAbs≤47474 → intPrints n=true)
include hf hi

/-- What was written in full is read back as the settings. -/
theorem readsAs_text {nss : List StartArgs} (hc : ∀ns∈nss,ns.carried intPrints=true) :
    ReadsAs float intPrints nss (some (settings nss).text) := by
  have hs := settings_carried hi hc
  have hl := loadsText_dumpsIndent hf (dict_plain fun f => (hs f).1) (dict_ints fun f => (hs f).2)
  refine ⟨(settings nss).dict,?_,?_⟩
  · rw [configValues,ConfigValues.text,hl]
  · intro f
    rw [lookup_of_mem (dict_keys _) (mem_dict (settings nss) f)]
    rfl

/-- A part of it is no JSON. -/
theorem configValues_cut {nss : List StartArgs} (hc : ∀ns∈nss,ns.carried intPrints=true) {n : Nat}
    (hn : n < (settings nss).text.length) :
    configValues float intPrints (some ((settings nss).text.take n))=.error .valueError := by
  have hs := settings_carried hi hc
  have hl := loadsText_dumpsIndent_cut hf (dict_plain fun f => (hs f).1)
    (dict_ints fun f => (hs f).2) hn
  have he : loadsText float intPrints (ofAscii ((settings nss).text.take n))=none := hl
  rw [configValues,he]

/-- After any starts the file gives their settings, or one of them tore it and it gives none. -/
theorem run_readsAs {as : List ConfigAction} {d : ConfigDir}
    (hc : ∀a∈as,a.args.carried intPrints=true)
    (hr : (configMachine float intPrints).run ⟨none,none⟩ as=some d) :
    ¬Torn as ∧ ReadsAs float intPrints (as.map (·.args)) d.file ∨
    Torn as ∧ configValues float intPrints d.file=.error .valueError := by
  induction as using List.reverseRecOn generalizing d with
  | nil =>
    cases hr
    refine .inl ⟨?_,[],rfl,fun _ => rfl⟩
    intro h
    obtain ⟨pre,ns,n,post,he,-⟩ := h
    cases pre <;> cases he
  | append_singleton as a ih =>
    have hca : ∀ns∈as.map (·.args)++[a.args],ns.carried intPrints=true := by
      intro ns hns
      obtain hns | hns := List.mem_append.mp hns
      · obtain ⟨b,hb,rfl⟩ := List.mem_map.mp hns
        exact hc b (List.mem_append_left _ hb)
      · rw [List.mem_singleton.mp hns]
        exact hc a (List.mem_append_right _ List.mem_cons_self)
    rw [Machine.run_append,Option.bind_eq_some_iff] at hr
    obtain ⟨e,he,hr⟩ := hr
    have hs : (configMachine float intPrints).step e a=some d := by simpa using hr
    have ih := ih (fun b hb => hc b (List.mem_append_left _ hb)) he
    rw [torn_append,List.map_append,List.map_singleton]
    obtain ⟨ht,hv⟩ | ⟨ht,hv⟩ := ih
    · have hl := hv.load a.args
      simp only [configMachine,hl] at hs
      cases a with
      | start ns =>
        cases hs
        refine .inl ⟨?_,readsAs_text hf hi hca⟩
        intro h
        obtain h | ⟨_,_,h,_⟩ := h
        · exact ht h
        · cases h
      | cut ns n =>
        cases hs
        by_cases hn : n < (settings (as.map (·.args)++[ns])).text.length
        · exact .inr ⟨.inr ⟨ns,n,rfl,hn⟩,configValues_cut hf hi hca hn⟩
        · refine .inl ⟨?_,?_⟩
          · intro h
            obtain h | ⟨_,_,h,hn'⟩ := h
            · exact ht h
            · cases h
              exact hn hn'
          · show ReadsAs _ _ (as.map (·.args)++[ns])
              (some ((settings (as.map (·.args)++[ns])).text.take n))
            rw [List.take_of_length_le (Nat.le_of_not_lt hn)]
            exact readsAs_text hf hi hca
    · have hl : PeerConfig.load float intPrints e.file a.args.overrides=.error .valueError := by
        rw [PeerConfig.load,hv]
        rfl
      simp only [configMachine,hl] at hs
      cases hs
      exact .inr ⟨.inl ht,hv⟩

/-- A start of a peer runs with the last setting of each field that any start so far gave,
and with the default of a field that none gave, so that --no-accept-tasks and --force-simulate
hold for good, unless an earlier start tore the file: then neither this nor any other one
comes up, and the file stays as it is. -/
theorem config_history {as : List ConfigAction} {d : ConfigDir}
    (hc : ∀a∈as,a.args.carried intPrints=true)
    (hr : (configMachine float intPrints).run ⟨none,none⟩ as=some d) (ns : StartArgs) :
    (¬Torn as → (configMachine float intPrints).step d (.start ns)=
      some ⟨some (settings (as.map (·.args)++[ns])).text,
        some (settings (as.map (·.args)++[ns]))⟩ ∧
      ∃config,(settings (as.map (·.args)++[ns])).Describes config ∧
        config.acceptsTasks=!(as.map (·.args)++[ns]).any (·.noAcceptTasks) ∧
        config.forceSimulate=(as.map (·.args)++[ns]).any (·.forceSimulate)) ∧
    (Torn as → (configMachine float intPrints).step d (.start ns)=some ⟨d.file,none⟩) := by
  obtain ⟨ht,hv⟩ | ⟨ht,hv⟩ := run_readsAs hf hi hc hr
  · refine ⟨?_,fun h => absurd h ht⟩
    intro _
    refine ⟨?_,settings_describes _⟩
    simp only [configMachine,ConfigAction.args,hv.load ns]
  · refine ⟨fun h => absurd ht h,?_⟩
    intro _
    have hl : PeerConfig.load float intPrints d.file ns.overrides=.error .valueError := by
      rw [PeerConfig.load,hv]
      rfl
    simp only [configMachine,ConfigAction.args,hl]

end History

def noArgs : StartArgs := ⟨none,none,none,false,false,none,none,none⟩

def sampleStarted : List ConfigAction :=
  [.start {noArgs with tcpPort := some 4001,bootstrapPeer := some [lit "10.0.0.2:47474"]},
    .cut {noArgs with noAcceptTasks := true} 1000]

theorem config_history_sample : ∃d c,(configMachine readFloat fun _ => true).run ⟨none,none⟩
      sampleStarted=some d ∧
    (configMachine readFloat fun _ => true).step d (.start {noArgs with tcpPort := some 4002})=
      some ⟨some (ConfigValues.text c),some c⟩ ∧ c .tcpPort=.int 4002 ∧ c .acceptsTasks=.bool false ∧
    c .bootstrapPeers=.arr [.str (lit "10.0.0.2:47474")] := by
  have hc : ∀a∈sampleStarted,a.args.carried (fun _ => true)=true := by decide
  have ht : ¬Torn sampleStarted := by
    have he : sampleStarted=([]++[sampleStarted[0]])++[sampleStarted[1]] := rfl
    rw [he,torn_append,torn_append]
    intro h
    obtain (⟨pre,_,_,_,h,_⟩ | ⟨_,_,h,_⟩) | ⟨ns,n,h,hn⟩ := h
    · cases pre <;> cases h
    · cases h
    · cases h
      revert hn
      decide +kernel
  have hr := @Machine.run_getD _ _ (configMachine readFloat fun _ => true) ⟨none,none⟩
    sampleStarted rfl
  exact ⟨_,_,hr,((config_history (fun f _ => readFloat_repr f) (fun _ _ => rfl) hc hr _).1 ht).1,
    rfl,rfl,rfl⟩

end AgentTorrent
