import AgentTorrent.Python.JsonText
import AgentTorrent.Python.Platform

namespace AgentTorrent

/-- Text that was decoded from bytes of the operating system. Undecodable bytes become
second halves of surrogate pairs, and first halves do not occur. -/
abbrev OsText := {s : PyStr // s.all isCarried=true}

def knownHarnesses : List PyStr := [lit "claude",lit "codex"]

/-- What shutil.which and the version probe of one CLI come to. -/
inductive Probe
  | absent
  | failed
  | exited (returncode : Int) (stdout stderr : OsText)

/-- The characters at which splitlines breaks. -/
def isLineBreak (c : CodePoint) : Bool :=
  (0x0a ≤ c.val && c.val≤0x0d) || (0x1c ≤ c.val && c.val≤0x1e) || c.val=0x85 || c.val=0x2028 ||
  c.val=0x2029

/-- The first line of what a probe wrote. -/
def versionLine (output : PyStr) : PyStr :=
  if strip output=[] then lit "unknown" else (strip output).takeWhile fun c => !isLineBreak c

/-- The version that a probe reports, none where the harness is not advertised. -/
def Probe.version : Probe → Option PyStr
  | .absent | .failed => none
  | .exited returncode stdout stderr =>
    if returncode≠0 then none
    else some (versionLine (if stdout.val=[] then stderr.val else stdout.val))

/-- detect_harnesses, with the probe of each CLI and the environment of the peer. -/
def detectHarnesses (probe : PyStr → Probe) (environ : PyStr → Option OsText) :
    List (PyStr×PyStr) :=
  knownHarnesses.filterMap (fun name => (probe name).version.map fun version => (name,version))++
  match environ (lit "AGENTTORRENT_API_BASE_URL") with
  | none => []
  | some url =>
    if url.val=[] then []
    else [(lit "api",lit "openai-chat-api/"++
      ((environ (lit "AGENTTORRENT_API_MODEL")).map Subtype.val).getD (lit "default"))]

def isNonEmptyStr : Option Json → Bool
  | some (.str s) => s≠[]
  | _ => false

/-- A mapping of name to version string. Keys of a JSON object are strings. -/
def isVersionMap : Option Json → Bool
  | some (.obj ms) => ms.all fun m => m.2.asStr.isSome
  | _ => false

def isPositiveInt : Option Json → Bool
  | some (.int n) => 0 < n
  | _ => false

def isBool : Option Json → Bool
  | some (.bool _) => true
  | _ => false

/-- The problems in the order in which validate_manifest collects them. -/
def manifestProblems (v : Json) : List PyStr :=
  (if isNonEmptyStr (v.get? (lit "peer_id")) then []
    else [lit "peer_id must be a non-empty string"])++
  (if isVersionMap (v.get? (lit "harnesses")) then []
    else [lit "harnesses must be a mapping of name to version string"])++
  (if isPositiveInt (v.get? (lit "max_runtime_seconds")) then []
    else [lit "max_runtime_seconds must be a positive integer"])++
  (if isBool (v.get? (lit "accepts_tasks")) then []
    else [lit "accepts_tasks must be a boolean"])

/-- A manifest that passed validation. The object is kept as it was received. -/
@[ext] structure Manifest where
  json : Json
  valid : json.isObj=true ∧ manifestProblems json=[]

def validateManifest (v : Json) : Except PyExc Manifest :=
  if h : v.isObj=true then
    if hp : manifestProblems v=[] then .ok ⟨v,h,hp⟩
    else .error (.manifestError (join (lit "; ") (manifestProblems v)))
  else .error (.manifestError (lit "manifest is not an object"))

namespace Manifest

def peerId (m : Manifest) : PyStr := m.json.strField (lit "peer_id")

def acceptsTasks (m : Manifest) : Bool :=
  match m.json.get? (lit "accepts_tasks") with
  | some (.bool b) => b
  | _ => false

def maxRuntimeSeconds (m : Manifest) : Int :=
  match m.json.get? (lit "max_runtime_seconds") with
  | some (.int n) => n
  | _ => 0

/-- name in manifest["harnesses"] -/
def hasHarness (m : Manifest) (name : PyStr) : Bool :=
  ((m.json.get? (lit "harnesses")).bind (Json.get? name)).isSome

end Manifest

/-- The harnesses dict as a JSON object. -/
def versionMap (harnesses : List (PyStr×PyStr)) : Json :=
  .obj (harnesses.map fun h => (h.1,.str h.2))

/-- build_manifest -/
def buildManifest (peerId : PyStr) (harnesses : List (PyStr×PyStr)) (maxRuntimeSeconds : Int)
    (acceptsTasks : Bool) : Json :=
  .obj [(lit "peer_id",.str peerId),(lit "harnesses",versionMap harnesses),
    (lit "max_runtime_seconds",.int maxRuntimeSeconds),(lit "accepts_tasks",.bool acceptsTasks)]

theorem versionMap_get (harnesses : List (PyStr×PyStr)) (name : PyStr) :
    (versionMap harnesses).get? name=(harnesses.lookup name).map .str := by
  rw [versionMap,Json.get?]
  induction harnesses with
  | nil => rfl
  | cons h hs ih =>
    rw [List.map_cons,List.lookup_cons,List.lookup_cons]
    cases name==h.1 with
    | true => rfl
    | false => exact ih

theorem carried_sublist {s t : PyStr} (h : s.all isCarried=true) (hs : t.Sublist s) :
    t.all isCarried=true :=
  List.all_eq_true.mpr fun c hc => List.all_eq_true.mp h c (hs.subset hc)

theorem versionLine_carried {output : PyStr} (h : output.all isCarried=true) :
    (versionLine output).all isCarried=true := by
  unfold versionLine
  split_ifs
  · decide
  · refine carried_sublist h ((List.takeWhile_sublist _).trans ?_)
    exact (List.rdropWhile_prefix isSpace _).sublist.trans (List.dropWhile_sublist isSpace)

theorem Probe.version_carried {probe : Probe} {version : PyStr} (h : probe.version=some version) :
    version.all isCarried=true := by
  cases probe with
  | absent => cases h
  | failed => cases h
  | exited returncode stdout stderr =>
    rw [Probe.version] at h
    split_ifs at h
    · rw [← Option.some.inj h]
      exact versionLine_carried stderr.property
    · rw [← Option.some.inj h]
      exact versionLine_carried stdout.property

theorem detectHarnesses_carried {probe : PyStr → Probe} {environ : PyStr → Option OsText}
    {h : PyStr×PyStr} (hm : h∈detectHarnesses probe environ) :
    h.1∈[lit "claude",lit "codex",lit "api"] ∧ h.2.all isCarried=true := by
  rcases List.mem_append.mp hm with hm | hm
  · obtain ⟨name,hn,hv⟩ := List.mem_filterMap.mp hm
    obtain ⟨version,hp,rfl⟩ := Option.map_eq_some_iff.mp hv
    refine ⟨?_,Probe.version_carried hp⟩
    rcases List.mem_pair.mp hn with rfl | rfl <;> simp
  · split at hm
    · cases hm
    · split_ifs at hm
      · cases hm
      · rw [List.mem_singleton.mp hm]
        refine ⟨by simp,?_⟩
        have prefixed : (lit "openai-chat-api/").all isCarried=true := by decide
        have model : (lit "default").all isCarried=true := by decide
        rw [List.all_append,prefixed,Bool.true_and]
        cases environ (lit "AGENTTORRENT_API_MODEL") with
        | none => exact model
        | some text => exact text.property

theorem detectHarnesses_nodup (probe : PyStr → Probe) (environ : PyStr → Option OsText) :
    ((detectHarnesses probe environ).map Prod.fst).Nodup := by
  have hall : (knownHarnesses++[lit "api"]).Nodup := by decide
  refine hall.sublist ?_
  rw [detectHarnesses,List.map_append]
  refine List.Sublist.append ?_ ?_
  · induction knownHarnesses with
    | nil => exact List.nil_sublist _
    | cons name names ih =>
      cases hv : (probe name).version with
      | none =>
        rw [List.filterMap_cons_none (by rw [hv]; rfl)]
        exact ih.trans (List.sublist_cons_self name names)
      | some version =>
        rw [List.filterMap_cons_some (by rw [hv]; rfl),List.map_cons]
        exact ih.cons_cons name
  · split
    · exact List.nil_sublist _
    · split_ifs
      · exact List.nil_sublist _
      · exact List.Sublist.refl _

/-- Whatever the harnesses report, it can be sent as JSON. -/
theorem detectHarnesses_plain (probe : PyStr → Probe) (environ : PyStr → Option OsText) :
    (versionMap (detectHarnesses probe environ)).plain=true := by
  rw [versionMap,Json.plain,Bool.and_eq_true,decide_eq_true_eq,Json.plainMembers_iff]
  constructor
  · rw [List.map_map]
    exact detectHarnesses_nodup probe environ
  · intro m hm
    obtain ⟨h,hh,rfl⟩ := List.mem_map.mp hm
    obtain ⟨hn,hv⟩ := detectHarnesses_carried hh
    refine ⟨?_,hv⟩
    simp only [List.mem_cons,List.not_mem_nil,or_false] at hn
    rcases hn with hn | hn | hn
    all_goals
      rw [hn]
      decide

/-- The manifest schema, field by field. -/
structure ManifestSchema (v : Json) : Prop where
  peerId : ∃id : PyStr,id≠[] ∧ v.get? (lit "peer_id")=some (.str id)
  harnesses : ∃ms,v.get? (lit "harnesses")=some (.obj ms) ∧ ∀m∈ms,∃s,m.2=.str s
  maxRuntimeSeconds : ∃n : Int,0 < n ∧ v.get? (lit "max_runtime_seconds")=some (.int n)
  acceptsTasks : ∃b,v.get? (lit "accepts_tasks")=some (.bool b)

theorem isNonEmptyStr_iff (o : Option Json) :
    isNonEmptyStr o=true ↔ ∃id : PyStr,id≠[] ∧ o=some (.str id) := by
  unfold isNonEmptyStr
  split
  · simp
  · rename_i h
    simp only [Bool.false_eq_true,false_iff]
    intro hh
    obtain ⟨id,-,rfl⟩ := hh
    exact h id rfl

theorem isVersionMap_iff (o : Option Json) :
    isVersionMap o=true ↔ ∃ms,o=some (.obj ms) ∧ ∀m∈ms,∃s,m.2=.str s := by
  unfold isVersionMap
  split
  · rename_i ms
    simp only [List.all_eq_true,Option.some.injEq,Json.obj.injEq]
    constructor
    · intro h
      refine ⟨ms,rfl,?_⟩
      intro m hm
      obtain ⟨s,hs⟩ := Option.isSome_iff_exists.mp (h m hm)
      exact ⟨s,Json.asStr_eq_some hs⟩
    · intro hh m hm
      obtain ⟨_,rfl,h⟩ := hh
      obtain ⟨s,hs⟩ := h m hm
      simp [hs]
  · rename_i h
    simp only [Bool.false_eq_true,false_iff]
    intro hh
    obtain ⟨ms,rfl,-⟩ := hh
    exact h ms rfl

theorem isPositiveInt_iff (o : Option Json) :
    isPositiveInt o=true ↔ ∃n : Int,0 < n ∧ o=some (.int n) := by
  unfold isPositiveInt
  split
  · simp
  · rename_i h
    simp only [Bool.false_eq_true,false_iff]
    intro hh
    obtain ⟨n,-,rfl⟩ := hh
    exact h n rfl

theorem isBool_iff (o : Option Json) : isBool o=true ↔ ∃b,o=some (.bool b) := by
  unfold isBool
  split
  · simp
  · rename_i h
    simp only [Bool.false_eq_true,false_iff]
    intro hh
    obtain ⟨b,rfl⟩ := hh
    exact h b rfl

theorem manifestProblems_nil_iff (v : Json) : manifestProblems v=[] ↔ ManifestSchema v := by
  have h1 := isNonEmptyStr_iff (v.get? (lit "peer_id"))
  have h2 := isVersionMap_iff (v.get? (lit "harnesses"))
  have h3 := isPositiveInt_iff (v.get? (lit "max_runtime_seconds"))
  have h4 := isBool_iff (v.get? (lit "accepts_tasks"))
  simp only [manifestProblems,List.append_eq_nil_iff,ite_eq_left_iff,List.cons_ne_nil,imp_false,
    not_not,h1,h2,h3,h4]
  constructor
  · intro hh
    obtain ⟨⟨⟨h1,h2⟩,h3⟩,h4⟩ := hh
    exact ⟨h1,h2,h3,h4⟩
  · intro hh
    obtain ⟨h1,h2,h3,h4⟩ := hh
    exact ⟨⟨⟨h1,h2⟩,h3⟩,h4⟩

/-- validate_manifest accepts exactly the schema and returns its argument. -/
theorem validateManifest_ok_iff (v : Json) (m : Manifest) :
    validateManifest v=.ok m ↔ ManifestSchema v ∧ m.json=v := by
  unfold validateManifest
  split_ifs with h hp
  · simp only [Except.ok.injEq,Manifest.ext_iff]
    exact ⟨fun e => ⟨(manifestProblems_nil_iff v).mp hp,e.symm⟩,fun e => e.2.symm⟩
  · simp only [false_iff,not_and]
    exact fun hs => absurd ((manifestProblems_nil_iff v).mpr hs) hp
  · simp only [false_iff,not_and]
    intro hh
    obtain ⟨⟨id,-,hg⟩,-,-,-⟩ := hh
    exact absurd (Json.isObj_of_get hg) h

/-- A manifest passes its check exactly where its runtime limit is positive. -/
theorem buildManifest_valid {peerId : PyStr} (hid : peerId≠[]) (harnesses : List (PyStr×PyStr))
    (maxRuntimeSeconds : Int) (acceptsTasks : Bool) :
    ManifestSchema (buildManifest peerId harnesses maxRuntimeSeconds acceptsTasks) ↔
      0 < maxRuntimeSeconds := by
  constructor
  · intro h
    obtain ⟨n,hn,hg⟩ := h.maxRuntimeSeconds
    cases hg
    exact hn
  · intro h
    refine ⟨⟨peerId,hid,rfl⟩,⟨_,rfl,?_⟩,⟨_,h,rfl⟩,⟨_,rfl⟩⟩
    intro m hm
    obtain ⟨v,-,rfl⟩ := List.mem_map.mp hm
    exact ⟨v.2,rfl⟩

theorem validateManifest_error {v : Json} {e : PyExc} (h : validateManifest v=.error e) :
    ∃msg,e=.manifestError msg := by
  unfold validateManifest at h
  split_ifs at h
  · exact ⟨_,(Except.error.inj h).symm⟩
  · exact ⟨_,(Except.error.inj h).symm⟩

end AgentTorrent
