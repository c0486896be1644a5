import AgentTorrent.Python.Json
import AgentTorrent.Framework.Machine
import AgentTorrent.Framework.Pool

namespace AgentTorrent

open Framework

/-- The nine permission bits of a file. -/
abbrev FileMode := BitVec 9

/-- ed25519.key as the file system holds it. -/
structure KeyFile where
  bytes : Bytes
  mode : FileMode
  deriving DecidableEq

/-- bytes(SigningKey), which nacl refuses at any other length. -/
@[ext] structure Seed where
  bytes : Bytes
  size : bytes.length=32
  deriving DecidableEq

/-- Where a call of load_or_create stands. -/
inductive KeyPc
  | start
  | read
  | touch
  | openKey
  | write
  | chmod
  | done (key : Seed)
  | raised
  deriving DecidableEq

/-- A call of load_or_create, with the umask of its process and the key that
SigningKey.generate would draw. -/
structure KeyCall where
  umask : FileMode
  drawn : Seed
  pc : KeyPc
  deriving DecidableEq

/-- A file that open or touch creates. -/
def KeyCall.created (c : KeyCall) (mode : FileMode) : KeyFile := ⟨[],mode &&& ~~~c.umask⟩

/-- A write at the start of an open file. -/
def KeyFile.overlay (bs : Bytes) (f : KeyFile) : KeyFile :=
  {f with bytes := bs++f.bytes.drop bs.length}

/-- SigningKey(key_path.read_bytes()) -/
def KeyFile.load (f : KeyFile) : KeyPc :=
  if h : f.bytes.length=32 then .done ⟨f.bytes,h⟩ else .raised

/-- Identity.load_or_create up to its next access of the key file. -/
def keyTurn (c : KeyCall) (file : Option KeyFile) : Option (Option KeyFile×KeyPc) :=
  match c.pc with
  | .start => some (file,if file.isSome then .read else .touch)
  | .read => some (file,(file.map KeyFile.load).getD .raised)
  | .touch => some (file.getD (c.created 0o600),.openKey)
  | .openKey => some (some {file.getD (c.created 0o666) with bytes := []},.write)
  | .write => some (file.map (KeyFile.overlay c.drawn.bytes),.chmod)
  | .chmod => match file with
    | some f => some (some {f with mode := 0o600},.done c.drawn)
    | none => some (none,.raised)
  | .done _ => none
  | .raised => none

/-- A data directory and the calls made on it, by any number of processes. -/
structure KeyStore where
  file : Option KeyFile
  calls : List KeyCall
  deriving DecidableEq

inductive KeyAction
  | call (umask : FileMode) (drawn : Seed)
  | turn (i : Nat)
  /-- the process dies or the system refuses the access -/
  | stop (i : Nat)
  /-- it does so with only n bytes of the key written -/
  | cut (i n : Nat)

/-- One move of one call: what it leaves of the file, and where it stands then. -/
def keyMove (c : KeyCall) (file : Option KeyFile) : KeyAction → Option (Option KeyFile×KeyPc)
  | .call _ _ => none
  | .turn _ => keyTurn c file
  | .stop _ => (keyTurn c file).map fun _ => (file,.raised)
  | .cut _ n =>
    if c.pc=.write then some (file.map (KeyFile.overlay (c.drawn.bytes.take n)),.raised) else none

def keyMachine : Machine KeyStore KeyAction where
  init s := s=⟨none,[]⟩
  step s a := match a with
    | .call umask drawn => some {s with calls := s.calls++[⟨umask,drawn,.start⟩]}
    | .turn i | .stop i | .cut i _ => do
      let c ← s.calls[i]?
      let r ← keyMove c s.file a
      some ⟨r.1,s.calls.set i {c with pc := r.2}⟩

/-- All that a move of a call can do to the key file. -/
inductive KeyMove (c : KeyCall) : Option KeyFile → Option KeyFile → KeyPc → Prop
  | found (f : KeyFile) (h : c.pc=.start) : KeyMove c (some f) (some f) .read
  | missing (h : c.pc=.start) : KeyMove c none none .touch
  | loaded (f : KeyFile) (h : c.pc=.read) (k : Seed) (hk : f.bytes=k.bytes) :
      KeyMove c (some f) (some f) (.done k)
  | touch (file : Option KeyFile) (h : c.pc=.touch) :
      KeyMove c file (some (file.getD (c.created 0o600))) .openKey
  | openKey (file : Option KeyFile) (h : c.pc=.openKey) :
      KeyMove c file (some {file.getD (c.created 0o666) with bytes := []}) .write
  | write (file : Option KeyFile) (h : c.pc=.write) :
      KeyMove c file (file.map (KeyFile.overlay c.drawn.bytes)) .chmod
  | cut (file : Option KeyFile) (h : c.pc=.write) (n : Nat) :
      KeyMove c file (file.map (KeyFile.overlay (c.drawn.bytes.take n))) .raised
  | chmod (f : KeyFile) (h : c.pc=.chmod) :
      KeyMove c (some f) (some {f with mode := 0o600}) (.done c.drawn)
  | stop (file : Option KeyFile) (h : ∀k,c.pc≠.done k) : KeyMove c file file .raised

theorem keyTurn_cases {c : KeyCall} {file : Option KeyFile} {r : Option KeyFile×KeyPc}
    (h : keyTurn c file=some r) : KeyMove c file r.1 r.2 := by
  unfold keyTurn at h
  cases hp : c.pc <;> simp only [hp,Option.some.injEq,reduceCtorEq] at h
  case start =>
    subst h
    cases file with
    | none => exact .missing hp
    | some f => exact .found f hp
  case read =>
    subst h
    cases file with
    | none => exact .stop none (by simp [hp])
    | some f =>
      by_cases hl : f.bytes.length=32
      · simpa [KeyFile.load,hl] using KeyMove.loaded f hp ⟨f.bytes,hl⟩ rfl
      · simpa [KeyFile.load,hl] using KeyMove.stop (some f) (by simp [hp])
  case touch => subst h; exact .touch file hp
  case openKey => subst h; exact .openKey file hp
  case write => subst h; exact .write file hp
  case chmod =>
    cases file with
    | none => cases h; exact .stop none (by simp [hp])
    | some f => cases h; exact .chmod f hp

theorem keyMove_cases {c : KeyCall} {file : Option KeyFile} {a : KeyAction}
    {r : Option KeyFile×KeyPc} (h : keyMove c file a=some r) : KeyMove c file r.1 r.2 := by
  cases a with
  | call _ _ => cases h
  | turn _ => exact keyTurn_cases h
  | stop _ =>
    obtain ⟨_,hr,rfl⟩ := Option.map_eq_some_iff.mp h
    refine .stop file ?_
    intro k hk
    simp [keyTurn,hk] at hr
  | cut _ n =>
    simp only [keyMove] at h
    split_ifs at h with hp
    cases h
    exact .cut file hp n

/-- A step starts a call or is a move of one. -/
theorem keyStep_cases {s t : KeyStore} {a : KeyAction} (h : keyMachine.step s a=some t) :
    (∃umask drawn,t={s with calls := s.calls++[⟨umask,drawn,.start⟩]}) ∨
    ∃i c file pc,s.calls[i]?=some c ∧ KeyMove c s.file file pc ∧
      t=⟨file,s.calls.set i {c with pc := pc}⟩ := by
  have move (i : Nat) (h : (do
      let c ← s.calls[i]?
      let r ← keyMove c s.file a
      some (⟨r.1,s.calls.set i {c with pc := r.2}⟩ : KeyStore))=some t) :
      ∃i c file pc,s.calls[i]?=some c ∧ KeyMove c s.file file pc ∧
        t=⟨file,s.calls.set i {c with pc := pc}⟩ := by
    simp only [Option.bind_eq_bind,Option.bind_eq_some_iff,Option.some.injEq] at h
    obtain ⟨c,hc,r,hr,rfl⟩ := h
    exact ⟨i,c,r.1,r.2,hc,keyMove_cases hr,rfl⟩
  cases a with
  | call umask drawn => exact .inl ⟨umask,drawn,(Option.some.inj h).symm⟩
  | turn i => exact .inr (move i h)
  | stop i => exact .inr (move i h)
  | cut i n => exact .inr (move i h)

/-- Nobody but the owner may read or write the file. -/
def KeyFile.Private (f : KeyFile) : Prop := f.mode &&& ~~~0o600=0

theorem KeyCall.created_private (c : KeyCall) : (c.created 0o600).Private := by
  unfold KeyFile.Private KeyCall.created
  rw [BitVec.and_comm 0o600,BitVec.and_assoc]
  exact BitVec.and_zero

/-- The file is private, and a call that passed its touch has it before it: its
write_bytes opens the private file and creates none. -/
structure KeyStore.Guarded (s : KeyStore) : Prop where
  file : ∀f,s.file=some f → f.Private
  touched : ∀(i : Nat) (c : KeyCall),s.calls[i]?=some c → c.pc=.openKey ∨ c.pc=.write ∨ c.pc=.chmod →
    s.file.isSome

/-- The key file never disappears. -/
theorem KeyMove.isSome {c : KeyCall} {file file' : Option KeyFile} {pc : KeyPc}
    (h : KeyMove c file file' pc) (hs : file.isSome) : file'.isSome := by
  cases h with
  | write => simpa using hs
  | cut => simpa using hs
  | found | loaded | chmod | touch | openKey => rfl
  | stop => exact hs
  | missing => exact hs

theorem KeyMove.keepsPrivate {c : KeyCall} {file file' : Option KeyFile} {pc : KeyPc}
    (h : KeyMove c file file' pc) (hf : ∀f,file=some f → f.Private)
    (ht : c.pc=.openKey ∨ c.pc=.write ∨ c.pc=.chmod → file.isSome) :
    ∀f,file'=some f → f.Private := by
  intro f he
  cases h with
  | found | missing | loaded | stop => exact hf f he
  | touch =>
    cases he
    cases hn : file with
    | none => exact c.created_private
    | some g => exact hf g hn
  | openKey file hp =>
    cases he
    obtain ⟨g,hg⟩ := Option.isSome_iff_exists.mp (ht (.inl hp))
    have hp := hf g hg
    rw [hg]
    exact hp
  | write =>
    obtain ⟨g,hg,rfl⟩ := Option.map_eq_some_iff.mp he
    exact hf g hg
  | cut =>
    obtain ⟨g,hg,rfl⟩ := Option.map_eq_some_iff.mp he
    exact hf g hg
  | chmod g =>
    cases he
    show (0o600 : FileMode) &&& ~~~0o600=0
    decide

theorem KeyMove.touched {c : KeyCall} {file file' : Option KeyFile} {pc : KeyPc}
    (h : KeyMove c file file' pc)
    (ht : c.pc=.openKey ∨ c.pc=.write ∨ c.pc=.chmod → file.isSome)
    (hp : pc=.openKey ∨ pc=.write ∨ pc=.chmod) : file'.isSome := by
  cases h with
  | found | loaded | chmod | touch | openKey => rfl
  | write file hw => simpa using ht (.inr (.inl hw))
  | missing => simp at hp
  | cut | stop => simp at hp

theorem KeyStore.Guarded.step {s t : KeyStore} {a : KeyAction} (hs : s.Guarded)
    (h : keyMachine.step s a=some t) : t.Guarded := by
  obtain ⟨umask,drawn,rfl⟩ | ⟨i,c,file,pc,hc,hm,rfl⟩ := keyStep_cases h
  · constructor
    · exact hs.file
    · intro j d hd hp
      rw [List.getElem?_append] at hd
      split_ifs at hd with hl
      · exact hs.touched j d hd hp
      · rw [List.getElem?_singleton] at hd
        split_ifs at hd
        cases hd
        simp at hp
  · constructor
    · exact hm.keepsPrivate hs.file (hs.touched i c hc)
    · intro j d hd hp
      obtain ⟨rfl,rfl⟩ | ⟨-,hd⟩ := Pool.get_set hd
      · exact hm.touched (hs.touched j c hc) hp
      · exact hm.isSome (hs.touched j d hd hp)

/-- However the calls of load_or_create interleave and wherever one of them dies, the
key file is at no instant open to anyone but its owner. -/
theorem key_file_private {s : KeyStore} (h : keyMachine.Reachable s) {f : KeyFile}
    (hf : s.file=some f) : f.Private := by
  have hg : s.Guarded := by
    refine @Machine.Reachable.invariant _ _ keyMachine KeyStore.Guarded ?_ ?_ s h
    · intro s hi
      cases hi
      constructor
      · intro f hf
        cases hf
      · intro i c hc
        simp at hc
    · exact fun s a t hs ht => hs.step ht
  exact hg.file f hf

def sampleSeed (b : UInt8) : Seed := ⟨List.replicate 32 b,List.length_replicate⟩

/-- Two first starts side by side, the second of which dies at its write. -/
def sampleStarts : List KeyAction :=
  [.call 0o022 (sampleSeed 1),.call 0o077 (sampleSeed 2),.turn 0,.turn 1,.turn 0,.turn 0,.turn 1,
    .turn 0,.turn 1,.cut 1 5]

theorem key_file_private_sample : ∃s f,keyMachine.Reachable s ∧ s.file=some f ∧
    f.bytes=List.replicate 5 2 ∧ f.Private := by
  have hr : keyMachine.run ⟨none,[]⟩ sampleStarts=some ⟨some ⟨List.replicate 5 2,0o600⟩,
      [⟨0o022,sampleSeed 1,.chmod⟩,⟨0o077,sampleSeed 2,.raised⟩]⟩ := by decide
  have h := (Machine.Reachable.start keyMachine (s := ⟨none,[]⟩) rfl).extend keyMachine hr
  exact ⟨_,_,h,rfl,rfl,key_file_private h rfl⟩

/-- The call found no key file and is not through with making one. -/
def KeyPc.creating : KeyPc → Bool
  | .touch | .openKey | .write | .chmod => true
  | _ => false

def keyBytes (file : Option KeyFile) : Option Bytes := file.map KeyFile.bytes

/-- No two calls stand at once between finding the key file missing and touching it. -/
def Exclusive (_ : KeyStore) (_ : KeyAction) (t : KeyStore) : Prop :=
  t.calls.Pairwise fun c d => c.pc=.touch → d.pc≠.touch

instance (s t : KeyStore) (a : KeyAction) : Decidable (Exclusive s a t) :=
  inferInstanceAs (Decidable (List.Pairwise _ _))

theorem Exclusive.one {s t : KeyStore} {a : KeyAction} (h : Exclusive s a t) {i j : Nat}
    {c d : KeyCall} (hi : t.calls[i]?=some c) (hj : t.calls[j]?=some d) (hc : c.pc=.touch)
    (hd : d.pc=.touch) : i=j := by
  obtain ⟨hil,hi⟩ := List.getElem?_eq_some_iff.mp hi
  obtain ⟨hjl,hj⟩ := List.getElem?_eq_some_iff.mp hj
  have hp := List.pairwise_iff_getElem.mp h
  rcases Nat.lt_trichotomy i j with hl | he | hl
  · exact absurd (hj ▸ hd) (hp i j hil hjl hl (hi ▸ hc))
  · exact he
  · exact absurd (hi ▸ hc) (hp j i hjl hil hl (hj ▸ hd))

/-- What a call may count on where it stands. -/
def KeyCall.Holds (c : KeyCall) (file : Option KeyFile) : Prop :=
  match c.pc with
  | .touch => file=none
  | .openKey | .write => keyBytes file=some []
  | .chmod => keyBytes file=some c.drawn.bytes
  | .done k => keyBytes file=some k.bytes
  | .start | .read | .raised => True

theorem Seed.bytes_ne (k : Seed) : k.bytes≠[] := by
  intro h
  have hk := k.size
  rw [h] at hk
  cases hk

theorem KeyMove.own {c : KeyCall} {file file' : Option KeyFile} {pc : KeyPc}
    (h : KeyMove c file file' pc) (hc : c.Holds file) : {c with pc := pc}.Holds file' := by
  cases h with
  | found | stop | cut => trivial
  | missing => rfl
  | loaded f _ k hk => exact congrArg some hk
  | touch file hp =>
    have hn : file=none := by simpa [KeyCall.Holds,hp] using hc
    rw [hn]
    rfl
  | openKey => rfl
  | write file hp =>
    have he : keyBytes file=some [] := by simpa [KeyCall.Holds,hp] using hc
    obtain ⟨f,rfl,hf⟩ := Option.map_eq_some_iff.mp he
    show some (c.drawn.bytes++f.bytes.drop _)=some c.drawn.bytes
    simp [hf]
  | chmod f hp => simpa [KeyCall.Holds,hp,keyBytes] using hc

/-- A move keeps what another call counts on, unless both are making the file. -/
theorem KeyMove.others {c d : KeyCall} {file file' : Option KeyFile} {pc : KeyPc}
    (h : KeyMove c file file' pc) (hc : c.Holds file) (hd : d.Holds file)
    (hx : c.pc.creating=true → d.pc.creating=false) : d.Holds file' := by
  have done (hp : c.pc.creating=true) (hn : keyBytes file=none ∨ keyBytes file=some []) :
      d.Holds file' := by
    have hd' := hx hp
    cases hq : d.pc with
    | touch | openKey | write | chmod => rw [hq] at hd'; cases hd'
    | start | read | raised => simp [KeyCall.Holds,hq]
    | done k =>
      have hk : keyBytes file=some k.bytes := by simpa [KeyCall.Holds,hq] using hd
      rcases hn with hn | hn
      · rw [hn] at hk
        cases hk
      · rw [hn] at hk
        exact absurd (Option.some.inj hk).symm k.bytes_ne
  cases h with
  | found | missing | loaded | stop => exact hd
  | touch file hp =>
    have hn : file=none := by simpa [KeyCall.Holds,hp] using hc
    exact done (by rw [hp]; rfl) (.inl (by rw [hn]; rfl))
  | openKey file hp =>
    exact done (by rw [hp]; rfl) (.inr (by simpa [KeyCall.Holds,hp] using hc))
  | write file hp =>
    exact done (by rw [hp]; rfl) (.inr (by simpa [KeyCall.Holds,hp] using hc))
  | cut file hp =>
    exact done (by rw [hp]; rfl) (.inr (by simpa [KeyCall.Holds,hp] using hc))
  | chmod f hp =>
    have hd' := hx (by rw [hp]; rfl)
    cases hq : d.pc with
    | touch | openKey | write | chmod => rw [hq] at hd'; cases hd'
    | start | read | raised => simp [KeyCall.Holds,hq]
    | done k => simpa [KeyCall.Holds,hq,keyBytes] using hd

/-- A call begins to make the file only where it found none. -/
theorem KeyMove.creating {c : KeyCall} {file file' : Option KeyFile} {pc : KeyPc}
    (h : KeyMove c file file' pc) (hp : pc.creating=true) :
    c.pc.creating=true ∨ pc=.touch ∧ file=none := by
  cases h with
  | missing => exact .inr ⟨rfl,rfl⟩
  | touch _ hs | openKey _ hs | write _ hs => exact .inl (by rw [hs]; rfl)
  | found | loaded | chmod | cut | stop => cases hp

/-- What the file holds is the start of a key that one of the calls drew. -/
theorem KeyMove.drawn {c : KeyCall} {file file' : Option KeyFile} {pc : KeyPc}
    (h : KeyMove c file file' pc) (hc : c.Holds file) {bs : Bytes}
    (hb : keyBytes file'=some bs) :
    keyBytes file=some bs ∨ ∃n,bs=c.drawn.bytes.take n := by
  have empty {bs : Bytes} (hn : keyBytes file=some []) (m : Nat)
      (hb : keyBytes (file.map (KeyFile.overlay (c.drawn.bytes.take m)))=some bs) :
      ∃n,bs=c.drawn.bytes.take n := by
    obtain ⟨f,rfl,hf⟩ := Option.map_eq_some_iff.mp hn
    have hb : c.drawn.bytes.take m++f.bytes.drop _=bs := Option.some.inj hb
    rw [hf,List.drop_nil,List.append_nil] at hb
    exact ⟨m,hb.symm⟩
  cases h with
  | found | missing | loaded | stop => exact .inl hb
  | chmod => exact .inl hb
  | touch file hp =>
    have hn : file=none := by simpa [KeyCall.Holds,hp] using hc
    rw [hn] at hb
    exact .inr ⟨0,(Option.some.inj hb).symm⟩
  | openKey => exact .inr ⟨0,(Option.some.inj hb).symm⟩
  | write file hp =>
    have hn : keyBytes file=some [] := by simpa [KeyCall.Holds,hp] using hc
    refine .inr (empty hn 32 ?_)
    rw [← c.drawn.size,List.take_length]
    exact hb
  | cut file hp n =>
    have hn : keyBytes file=some [] := by simpa [KeyCall.Holds,hp] using hc
    exact .inr (empty hn n hb)

/-- At most one call is making the file, each finds what it counts on, and the file holds
the start of a drawn key. -/
structure KeyStore.Sole (s : KeyStore) : Prop where
  one : ∀(i j : Nat) (c d : KeyCall),s.calls[i]?=some c → s.calls[j]?=some d →
    c.pc.creating=true → d.pc.creating=true → i=j
  each : ∀(i : Nat) (c : KeyCall),s.calls[i]?=some c → c.Holds s.file
  drawn : ∀bs,keyBytes s.file=some bs →
    ∃(i : Nat) (c : KeyCall) (n : Nat),s.calls[i]?=some c ∧ bs=c.drawn.bytes.take n

theorem KeyStore.Sole.step {s t : KeyStore} {a : KeyAction} (hs : s.Sole)
    (h : keyMachine.step s a=some t) (hg : Exclusive s a t) : t.Sole := by
  obtain ⟨umask,drawn,rfl⟩ | ⟨i,c,file,pc,hc,hm,rfl⟩ := keyStep_cases h
  · have get {j : Nat} {d : KeyCall} (hd : (s.calls++[⟨umask,drawn,.start⟩])[j]?=some d) :
        s.calls[j]?=some d ∨ d.pc=.start := by
      rw [List.getElem?_append] at hd
      split_ifs at hd with hl
      · exact .inl hd
      · rw [List.getElem?_singleton] at hd
        split_ifs at hd
        exact .inr (by rw [← Option.some.inj hd])
    constructor
    · intro j k d e hd he hdc hec
      obtain hd | hd := get hd
      · obtain he | he := get he
        · exact hs.one j k d e hd he hdc hec
        · rw [he] at hec
          cases hec
      · rw [hd] at hdc
        cases hdc
    · intro j d hd
      obtain hd | hd := get hd
      · exact hs.each j d hd
      · simp [KeyCall.Holds,hd]
    · intro bs hb
      obtain ⟨j,d,n,hd,hn⟩ := hs.drawn bs hb
      have hl := (List.getElem?_eq_some_iff.mp hd).1
      exact ⟨j,d,n,by rw [List.getElem?_append_left hl]; exact hd,hn⟩
  · have own := hs.each i c hc
    -- a call that goes on to make the file is the only one that does
    have sole {j : Nat} {d : KeyCall} (hj : j≠i) (hd : s.calls[j]?=some d)
        (hp : pc.creating=true) : d.pc.creating=false := by
      by_contra hx
      have hx : d.pc.creating=true := by simpa using hx
      obtain hcc | ⟨ht,hn⟩ := hm.creating hp
      · exact hj (hs.one j i d c hd hc hx hcc)
      · have hdt : d.pc=.touch := by
          have hh := hs.each j d hd
          rw [hn] at hh
          cases hq : d.pc with
          | touch => rfl
          | openKey | write | chmod => simp [KeyCall.Holds,hq,keyBytes] at hh
          | start | read | done | raised => rw [hq] at hx; cases hx
        have hi : (s.calls.set i {c with pc := pc})[i]?=some {c with pc := pc} :=
          List.getElem?_set_self (List.getElem?_eq_some_iff.mp hc).1
        have hd' : (s.calls.set i {c with pc := pc})[j]?=some d := by
          rw [List.getElem?_set_ne fun e => hj e.symm]
          exact hd
        exact hj (hg.one hd' hi hdt ht)
    constructor
    · intro j k d e hd he hdc hec
      obtain ⟨rfl,rfl⟩ | ⟨hj,hd'⟩ := Pool.get_set hd
      · obtain ⟨rfl,rfl⟩ | ⟨hk,he'⟩ := Pool.get_set he
        · rfl
        · rw [sole hk he' hdc] at hec
          cases hec
      · obtain ⟨rfl,rfl⟩ | ⟨hk,he'⟩ := Pool.get_set he
        · rw [sole hj hd' hec] at hdc
          cases hdc
        · exact hs.one j k d e hd' he' hdc hec
    · intro j d hd
      obtain ⟨rfl,rfl⟩ | ⟨hj,hd⟩ := Pool.get_set hd
      · exact hm.own own
      · refine hm.others own (hs.each j d hd) ?_
        intro hcc
        by_contra hx
        exact hj (hs.one j i d c hd hc (by simpa using hx) hcc)
    · intro bs hb
      obtain hb | ⟨n,hn⟩ := hm.drawn own hb
      · obtain ⟨j,d,n,hd,hn⟩ := hs.drawn bs hb
        by_cases hj : j=i
        · subst hj
          have he : d=c := Option.some.inj (hd.symm.trans hc)
          refine ⟨j,{c with pc := pc},n,?_,by rw [hn,he]⟩
          exact List.getElem?_set_self (List.getElem?_eq_some_iff.mp hc).1
        · refine ⟨j,d,n,?_,hn⟩
          rw [List.getElem?_set_ne fun e => hj e.symm]
          exact hd
      · refine ⟨i,{c with pc := pc},n,?_,hn⟩
        exact List.getElem?_set_self (List.getElem?_eq_some_iff.mp hc).1

theorem exclusive_sole {s : KeyStore} (h : keyMachine.ReachableBy Exclusive s) : s.Sole := by
  refine @Machine.ReachableBy.invariant _ _ keyMachine _ KeyStore.Sole ?_ ?_ s h
  · intro s hi
    cases hi
    constructor
    · intro i j c d hc
      simp at hc
    · intro i c hc
      simp at hc
    · intro bs hb
      cases hb
  · exact fun s a t _ hs ht hg => hs.step ht hg

theorem KeyMove.missed {c : KeyCall} {file file' : Option KeyFile}
    (h : KeyMove c file file' .touch) : file=none := by
  cases h
  rfl

/-- Once there is a key file no call finds it missing, and the guard holds by itself. -/
theorem KeyStore.Sole.run {s t : KeyStore} {as : List KeyAction} (hs : s.Sole)
    (hf : s.file.isSome) (h : keyMachine.run s as=some t) : t.Sole ∧ t.file.isSome := by
  refine keyMachine.run_preserves (P := fun s => s.Sole ∧ s.file.isSome) ?_ ⟨hs,hf⟩ h
  intro s a t h ht
  obtain ⟨hs,hf⟩ := h
  have past {i : Nat} {c : KeyCall} (hc : s.calls[i]?=some c) : c.pc≠.touch := by
    intro hp
    have hn : s.file=none := by simpa [KeyCall.Holds,hp] using hs.each i c hc
    rw [hn] at hf
    cases hf
  have none_at {i : Nat} {c : KeyCall} (hc : t.calls[i]?=some c) : c.pc≠.touch := by
    obtain ⟨umask,drawn,rfl⟩ | ⟨j,d,file,pc,hd,hm,rfl⟩ := keyStep_cases ht
    · have hc : (s.calls++[⟨umask,drawn,.start⟩])[i]?=some c := hc
      rw [List.getElem?_append] at hc
      split_ifs at hc with hl
      · exact past hc
      · rw [List.getElem?_singleton] at hc
        split_ifs at hc
        rw [← Option.some.inj hc]
        simp
    · obtain ⟨rfl,rfl⟩ | ⟨-,hc⟩ := Pool.get_set hc
      · intro hp
        cases hp
        rw [hm.missed] at hf
        cases hf
      · exact past hc
  have hf' : t.file.isSome := by
    obtain ⟨_,_,rfl⟩ | ⟨i,c,file,pc,hc,hm,rfl⟩ := keyStep_cases ht
    · exact hf
    · exact hm.isSome hf
  refine ⟨hs.step ht (List.pairwise_iff_getElem.mpr ?_),hf'⟩
  intro i j hi hj _ hp
  exact absurd hp (none_at (List.getElem?_eq_getElem hi))

theorem KeyMove.running {c : KeyCall} {file file' : Option KeyFile} {pc : KeyPc}
    (h : KeyMove c file file' pc) (k : Seed) : c.pc≠.done k := by
  intro hk
  cases h with
  | stop _ h => exact h k hk
  | found _ h | missing h | loaded _ h | touch _ h | openKey _ h | write _ h | cut _ h
  | chmod _ h => rw [hk] at h; cases h

/-- A call that returned moves no more. -/
theorem done_stays {s t : KeyStore} {as : List KeyAction} {i : Nat} {c : KeyCall} {k : Seed}
    (hk : c.pc=.done k) (hc : s.calls[i]?=some c) (h : keyMachine.run s as=some t) :
    t.calls[i]?=some c := by
  refine keyMachine.run_preserves (P := fun s => s.calls[i]?=some c) ?_ hc h
  intro s a t hc ht
  obtain ⟨_,_,rfl⟩ | ⟨j,d,file,pc,hd,hm,rfl⟩ := keyStep_cases ht
  · show (s.calls++_)[i]?=some c
    rw [List.getElem?_append_left (List.getElem?_eq_some_iff.mp hc).1]
    exact hc
  · have hj : j≠i := by
      intro e
      subst e
      have e : d=c := Option.some.inj (hd.symm.trans hc)
      subst e
      exact hm.running k hk
    show (s.calls.set j _)[i]?=some c
    rw [List.getElem?_set_ne hj]
    exact hc

/-- Where no two first starts of a peer stand at once between their check and their touch,
a key that some call returns is the peer's for good: a call drew it, the file holds it in
every later state, and every call that returns, earlier or later, returns it too. -/
theorem one_identity {s t : KeyStore} {as : List KeyAction} {i : Nat} {c : KeyCall} {k : Seed}
    (h : keyMachine.ReachableBy Exclusive s) (hc : s.calls[i]?=some c) (hk : c.pc=.done k)
    (hr : keyMachine.run s as=some t) :
    keyBytes t.file=some k.bytes ∧ (∃d∈t.calls,d.drawn=k) ∧
    ∀d∈t.calls,∀k',d.pc=.done k' → k'=k := by
  have hs := exclusive_sole h
  have held {u : KeyStore} {j : Nat} {d : KeyCall} {k' : Seed} (hu : u.Sole)
      (hd : u.calls[j]?=some d) (hp : d.pc=.done k') : keyBytes u.file=some k'.bytes := by
    simpa [KeyCall.Holds,hp] using hu.each j d hd
  have hf : s.file.isSome := by
    have hb := held hs hc hk
    cases hn : s.file with
    | none => rw [hn] at hb; cases hb
    | some f => rfl
  obtain ⟨ht,-⟩ := hs.run hf hr
  have hb := held ht (done_stays hk hc hr) hk
  refine ⟨hb,?_,?_⟩
  · obtain ⟨j,d,n,hd,hn⟩ := ht.drawn _ hb
    refine ⟨d,List.mem_of_getElem? hd,?_⟩
    have hl : d.drawn.bytes.length ≤ n := by
      have hlen := congrArg List.length hn
      rw [List.length_take,k.size,d.drawn.size] at hlen
      rw [d.drawn.size]
      omega
    rw [List.take_of_length_le hl] at hn
    exact Seed.ext hn.symm
  · intro d hd k' hp
    obtain ⟨j,hj⟩ := List.mem_iff_getElem?.mp hd
    exact Seed.ext (Option.some.inj ((held ht hj hp).symm.trans hb))

/-- A first start, a second one that finds the file still empty, and a third. -/
def sampleLoads : List KeyAction :=
  [.call 0o022 (sampleSeed 1),.turn 0,.turn 0,.call 0o022 (sampleSeed 2),.turn 1,.turn 1,.turn 0,
    .turn 0,.turn 0]

theorem meets_exclusive {s : KeyStore} {as : List KeyAction}
    (h : keyMachine.checks (fun s a => (keyMachine.step s a).all fun t =>
      decide (Exclusive s a t)) s as=true) : keyMachine.Meets Exclusive s as := by
  refine keyMachine.meets_of_checked ?_ h
  intro s a t h ht
  rw [ht] at h
  exact of_decide_eq_true h

theorem one_identity_sample : ∃s t,keyMachine.ReachableBy Exclusive s ∧
    keyMachine.run s [.call 0 (sampleSeed 3),.turn 2,.turn 2]=some t ∧
    t.calls.map (·.pc)=[.done (sampleSeed 1),.raised,.done (sampleSeed 1)] ∧
    keyBytes t.file=some (sampleSeed 1).bytes := by
  have hs : keyMachine.run ⟨none,[]⟩ sampleLoads=some ⟨some ⟨List.replicate 32 1,0o600⟩,
      [⟨0o022,sampleSeed 1,.done (sampleSeed 1)⟩,⟨0o022,sampleSeed 2,.raised⟩]⟩ := by decide
  have hr : keyMachine.run ⟨some ⟨List.replicate 32 1,0o600⟩,
      [⟨0o022,sampleSeed 1,.done (sampleSeed 1)⟩,⟨0o022,sampleSeed 2,.raised⟩]⟩
      [.call 0 (sampleSeed 3),.turn 2,.turn 2]=some ⟨some ⟨List.replicate 32 1,0o600⟩,
      [⟨0o022,sampleSeed 1,.done (sampleSeed 1)⟩,⟨0o022,sampleSeed 2,.raised⟩,
        ⟨0,sampleSeed 3,.done (sampleSeed 1)⟩]⟩ := by decide
  have hg : keyMachine.Meets Exclusive ⟨none,[]⟩ sampleLoads :=
    meets_exclusive (by decide)
  have h := (@Machine.ReachableBy.start _ _ keyMachine Exclusive ⟨none,[]⟩ rfl).run keyMachine hs hg
  exact ⟨_,_,h,hr,rfl,(one_identity h (i := 0) rfl rfl hr).1⟩

/-- Two first starts that both find the key file missing end as two peers. -/
example : (keyMachine.run ⟨none,[]⟩ ([.call 0o022 (sampleSeed 1),.call 0o022 (sampleSeed 2)]++
    (List.replicate 5 [KeyAction.turn 0,.turn 1]).flatten)).map (·.calls.map (·.pc))=
    some [.done (sampleSeed 1),.done (sampleSeed 2)] := by decide

/-- The file is there and no call is making it. -/
def KeyStore.Settled (f : KeyFile) (s : KeyStore) : Prop :=
  s.file=some f ∧ ∀c∈s.calls,c.pc.creating=false

theorem KeyMove.settled {c : KeyCall} {f : KeyFile} {file : Option KeyFile} {pc : KeyPc}
    (h : KeyMove c (some f) file pc) (hc : c.pc.creating=false) :
    file=some f ∧ pc.creating=false := by
  cases h with
  | found | loaded | stop => exact ⟨rfl,rfl⟩
  | touch _ h | openKey _ h | write _ h | cut _ h | chmod _ h => rw [h] at hc; cases hc

theorem KeyStore.Settled.step {s t : KeyStore} {a : KeyAction} {f : KeyFile} (hs : s.Settled f)
    (h : keyMachine.step s a=some t) : t.Settled f := by
  obtain ⟨hf,hq⟩ := hs
  obtain ⟨umask,drawn,rfl⟩ | ⟨i,c,file,pc,hc,hm,rfl⟩ := keyStep_cases h
  · refine ⟨hf,?_⟩
    intro d hd
    obtain hd | hd := List.mem_append.mp hd
    · exact hq d hd
    · rw [List.mem_singleton.mp hd]
      rfl
  · rw [hf] at hm
    obtain ⟨he,hp⟩ := hm.settled (hq c (List.mem_of_getElem? hc))
    refine ⟨he,?_⟩
    intro d hd
    obtain hd | rfl := List.mem_or_eq_of_mem_set hd
    · exact hq d hd
    · exact hp

/-- A start with the file there ends in two accesses, with what the file's bytes give. -/
theorem KeyStore.Settled.load {s : KeyStore} {f : KeyFile} {i : Nat} {c : KeyCall}
    (hs : s.Settled f) (hc : s.calls[i]?=some c) (hp : c.pc=.start) :
    keyMachine.run s [.turn i,.turn i]=some ⟨some f,s.calls.set i {c with pc := f.load}⟩ := by
  have hl := (List.getElem?_eq_some_iff.mp hc).1
  have h1 : keyMachine.step s (.turn i)=some ⟨some f,s.calls.set i {c with pc := .read}⟩ := by
    simp [keyMachine,hc,keyMove,keyTurn,hp,hs.1]
  have h2 : keyMachine.step ⟨some f,s.calls.set i {c with pc := .read}⟩ (.turn i)=
      some ⟨some f,s.calls.set i {c with pc := f.load}⟩ := by
    simp [keyMachine,hl,keyMove,keyTurn]
  simp only [Machine.run_cons,h1,Option.bind_some,h2,Machine.run_nil]

/-- A first start that dies with five bytes of its key written. -/
def sampleTorn : List KeyAction :=
  [.call 0o022 (sampleSeed 1),.turn 0,.turn 0,.turn 0,.cut 0 5]

end AgentTorrent
