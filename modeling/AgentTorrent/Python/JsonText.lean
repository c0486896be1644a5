import AgentTorrent.Python.Json

namespace AgentTorrent

/-- White space between the tokens of a JSON text. -/
def isJsonSpace (c : CodePoint) : Bool := c.val=0x20 || c.val=0x09 || c.val=0x0a || c.val=0x0d

def Blank (t : PyStr) : Prop := ∀c∈t,isJsonSpace c=true

/-- A text of the kind with white space around it. -/
def Padded (S : PyStr → Prop) (t : PyStr) : Prop :=
  ∃w u w',Blank w ∧ S u ∧ Blank w' ∧ t=w++u++w'

@[simp] theorem ofAscii_append (as bs : Bytes) : ofAscii (as++bs)=ofAscii as++ofAscii bs :=
  List.map_append

theorem blank_nil : Blank [] := fun _ h => by cases h

theorem Padded.of {S : PyStr → Prop} {t : PyStr} (h : S t) : Padded S t :=
  ⟨[],t,[],blank_nil,h,blank_nil,by simp⟩

theorem Padded.after {S : PyStr → Prop} {w t : PyStr} (hw : Blank w) (h : S t) :
    Padded S (w++t) := ⟨w,t,[],hw,h,blank_nil,by simp⟩

/-- No half of a surrogate pair. -/
def isScalar (c : CodePoint) : Bool := c.val<0xd800 || 0xdfff<c.val

/-- The character that a backslash and one more character stand for. -/
def escapeValue (e : CodePoint) : Option CodePoint :=
  if e.val=0x22 ∨ e.val=0x5c ∨ e.val=0x2f then some e
  else if e.val=0x62 then some (codePoint 0x08)
  else if e.val=0x66 then some (codePoint 0x0c)
  else if e.val=0x6e then some (codePoint 0x0a)
  else if e.val=0x72 then some (codePoint 0x0d)
  else if e.val=0x74 then some (codePoint 0x09)
  else none

/-- The four digits after a backslash and u. -/
def hexUnit (a b c d : CodePoint) : Option CodePoint := do
  let a ← hexValue a
  let b ← hexValue b
  let c ← hexValue c
  let d ← hexValue d
  some (codePoint (4096*a+256*b+16*c+d))

def isHighSurrogate (c : CodePoint) : Bool := 0xd800 ≤ c.val && c.val≤0xdbff

/-- No first half of a surrogate pair. A second half on its own is kept as it is. -/
def isCarried (c : CodePoint) : Bool := !isHighSurrogate c

def isLowSurrogate (c : CodePoint) : Bool := 0xdc00 ≤ c.val && c.val≤0xdfff

/-- The code point of a surrogate pair. -/
def pairValue (hi lo : CodePoint) : CodePoint :=
  codePoint (0x10000+(hi.val-0xd800)*0x400+(lo.val-0xdc00))

def SpellsUnit (c : CodePoint) (t : PyStr) : Prop :=
  ∃a b d e,hexUnit a b d e=some c ∧ t=lit "\\u"++[a,b,d,e]

/-- The ways to write one character of a string: as it is, by a short escape, by its
code, or by the codes of a surrogate pair. -/
inductive SpellsChar : CodePoint → PyStr → Prop
  | raw (c : CodePoint) (hc : 0x20 ≤ c.val) (hq : c.val≠0x22) (hb : c.val≠0x5c) : SpellsChar c [c]
  | short (e c : CodePoint) (h : escapeValue e=some c) : SpellsChar c (lit "\\"++[e])
  | unit (c : CodePoint) (t : PyStr) (h : SpellsUnit c t) : SpellsChar c t
  | pair (hi lo : CodePoint) (t t' : PyStr) (hh : isHighSurrogate hi=true)
      (hl : isLowSurrogate lo=true) (h : SpellsUnit hi t) (h' : SpellsUnit lo t') :
      SpellsChar (pairValue hi lo) (t++t')

def SpellsStr (s t : PyStr) : Prop :=
  ∃parts,List.Forall₂ SpellsChar s parts ∧ t=lit "\""++parts.flatten++lit "\""

def isDigit (c : CodePoint) : Bool := 0x30 ≤ c.val && c.val≤0x39

def isMinus (c : CodePoint) : Bool := c.val=0x2d

def isNumberChar (c : CodePoint) : Bool :=
  isDigit c || isMinus c || c.val=0x2b || c.val=0x2e || c.val=0x45 || c.val=0x65

/-- At least one digit, and all that follow. -/
def dropDigits : PyStr → Option PyStr
  | [] => none
  | c::t => if isDigit c then some (t.dropWhile isDigit) else none

/-- An integer part has no leading zero. -/
def dropWhole : PyStr → Option PyStr
  | [] => none
  | c::t => if c.val=0x30 then some t else dropDigits (c::t)

def dropFraction : PyStr → Option PyStr
  | [] => some []
  | c::t => if c.val=0x2e then dropDigits t else some (c::t)

def dropExponent : PyStr → Option PyStr
  | [] => some []
  | c::t =>
    if c.val=0x45 ∨ c.val=0x65 then
      match t with
      | [] => none
      | s::t => dropDigits (if s.val=0x2b ∨ s.val=0x2d then t else s::t)
    else some (c::t)

def dropMinus : PyStr → PyStr
  | [] => []
  | c::t => if isMinus c then t else c::t

def isIntLiteral (t : PyStr) : Bool := dropWhole (dropMinus t)=some []

def isFloatLiteral (t : PyStr) : Bool :=
  t.all isNumberChar && !isIntLiteral t &&
  ((dropWhole (dropMinus t)).bind dropFraction).bind dropExponent=some []

/-- int(text) of an integer literal. -/
def natOf (t : PyStr) : Nat := t.foldl (fun n c => 10*n+(c.val-0x30)) 0

def intOf (t : PyStr) : Int := if t.any isMinus then -natOf (dropMinus t) else natOf t

/-- The float prints as a literal of its own, as every finite one does. -/
def PyFloat.isFinite (f : PyFloat) : Bool := isFloatLiteral (ofAscii f.repr)

namespace Json

section Spells

-- float(text)
variable (float : PyStr → PyFloat)

mutual

/-- The texts of a value: any white space between tokens and any way to write a string. -/
def Spells : Json → PyStr → Prop
  | .null,t => t=lit "null"
  | .bool true,t => t=lit "true"
  | .bool false,t => t=lit "false"
  | .int n,t => t=intText n
  | .float f,t => isFloatLiteral t=true ∧ float t=f
  | .str s,t => SpellsStr s t
  | .arr [],t => ∃w,Blank w ∧ t=lit "["++w++lit "]"
  | .arr (x::xs),t => ∃a ts,Padded (Spells x) a ∧ SpellsItems xs ts ∧ t=lit "["++a++ts++lit "]"
  | .obj [],t => ∃w,Blank w ∧ t=lit "\x7b"++w++lit "\x7d"
  | .obj ((k,v)::ms),t => ∃a b ts,Padded (SpellsStr k) a ∧ Padded (Spells v) b ∧
      SpellsMembers ms ts ∧ t=lit "\x7b"++a++lit ":"++b++ts++lit "\x7d"

def SpellsItems : List Json → PyStr → Prop
  | [],t => t=[]
  | x::xs,t => ∃a ts,Padded (Spells x) a ∧ SpellsItems xs ts ∧ t=lit ","++a++ts

def SpellsMembers : List (PyStr×Json) → PyStr → Prop
  | [],t => t=[]
  | (k,v)::ms,t => ∃a b ts,Padded (SpellsStr k) a ∧ Padded (Spells v) b ∧
      SpellsMembers ms ts ∧ t=lit ","++a++lit ":"++b++ts

end

end Spells

mutual

/-- A value that JSON text carries exactly: distinct keys, strings without the first half
of a surrogate pair and finite floats. -/
def plain : Json → Bool
  | .float f => f.isFinite
  | .str s => s.all isCarried
  | .arr xs => plainItems xs
  | .obj ms => (ms.map Prod.fst).Nodup && plainMembers ms
  | _ => true

def plainItems : List Json → Bool
  | [] => true
  | x::xs => x.plain && plainItems xs

def plainMembers : List (PyStr×Json) → Bool
  | [] => true
  | (k,v)::ms => k.all isCarried && v.plain && plainMembers ms

end

mutual

/-- Equality of JSON values, whatever the order of keys. -/
def same : Json → Json → Bool
  | .null,.null => true
  | .bool a,.bool b => a=b
  | .int a,.int b => a=b
  | .float a,.float b => a=b
  | .str a,.str b => a=b
  | .arr xs,.arr ys => sameItems xs ys
  | .obj ms,.obj ns => ms.length=ns.length && sameMembers ms ns
  | _,_ => false

def sameItems : List Json → List Json → Bool
  | [],[] => true
  | x::xs,y::ys => same x y && sameItems xs ys
  | _,_ => false

def sameMembers : List (PyStr×Json) → List (PyStr×Json) → Bool
  | [],_ => true
  | (k,v)::ms,ns => (match ns.lookup k with
      | some w => same v w
      | none => false) && sameMembers ms ns

end

section Structure

/-- Induction over JSON values: lists and dicts have the values they hold below them. -/
@[elab_as_elim] theorem induct {motive : Json → Prop} (null : motive .null)
    (bool : ∀b,motive (.bool b)) (int : ∀n,motive (.int n)) (float : ∀f,motive (.float f))
    (str : ∀s,motive (.str s)) (arr : ∀xs,(∀x∈xs,motive x) → motive (.arr xs))
    (obj : ∀ms,(∀m∈ms,motive m.2) → motive (.obj ms)) (v : Json) : motive v := by
  refine @Json.rec motive (fun xs => ∀x∈xs,motive x) (fun ms => ∀m∈ms,motive m.2)
    (fun m => motive m.2) null bool int float str arr obj (fun _ h => by cases h)
    (fun x xs hx hxs y hy => ?_) (fun _ h => by cases h) (fun m ms hm hms n hn => ?_)
    (fun k v hv => hv) v
  · rcases List.mem_cons.mp hy with rfl | hy
    · exact hx
    · exact hxs y hy
  · rcases List.mem_cons.mp hn with rfl | hn
    · exact hm
    · exact hms n hn

theorem plainItems_iff (xs : List Json) : plainItems xs=true ↔ ∀x∈xs,x.plain=true := by
  induction xs with
  | nil => simp [plainItems]
  | cons x xs ih => simp [plainItems,ih]

theorem plainMembers_iff (ms : List (PyStr×Json)) : plainMembers ms=true ↔
    ∀m∈ms,m.1.all isCarried=true ∧ m.2.plain=true := by
  induction ms with
  | nil => simp [plainMembers]
  | cons m ms ih =>
    obtain ⟨k,v⟩ := m
    rw [plainMembers,Bool.and_eq_true,Bool.and_eq_true,ih,List.forall_mem_cons]

theorem sameItems_iff (xs ys : List Json) :
    sameItems xs ys=true ↔ List.Forall₂ (fun x y => same x y=true) xs ys := by
  induction xs generalizing ys with
  | nil => cases ys <;> simp [sameItems]
  | cons x xs ih => cases ys <;> simp [sameItems,ih]

theorem sameMembers_iff (ms ns : List (PyStr×Json)) : sameMembers ms ns=true ↔
    ∀m∈ms,∃w,ns.lookup m.1=some w ∧ same m.2 w=true := by
  induction ms with
  | nil => simp [sameMembers]
  | cons m ms ih =>
    obtain ⟨k,v⟩ := m
    rw [sameMembers,Bool.and_eq_true,ih,List.forall_mem_cons]
    cases ns.lookup k <;> simp

theorem lookup_of_mem {ms : List (PyStr×Json)} (hn : (ms.map Prod.fst).Nodup) {m : PyStr×Json}
    (hm : m∈ms) : ms.lookup m.1=some m.2 := by
  obtain ⟨as,bs,rfl⟩ := List.append_of_mem hm
  rw [List.lookup_eq_some_iff]
  refine ⟨as,bs,rfl,?_⟩
  intro p hp
  rw [List.map_append,List.map_cons,List.nodup_append] at hn
  have := hn.2.2 p.1 (List.mem_map_of_mem hp) m.1 (by simp)
  simpa using Ne.symm this

theorem mem_of_lookup {ms : List (PyStr×Json)} {k : PyStr} {v : Json} (h : ms.lookup k=some v) :
    (k,v)∈ms := by
  obtain ⟨as,bs,rfl,-⟩ := List.lookup_eq_some_iff.mp h
  simp

/-- Dicts of one size, one with all the keys of the other, have the same keys. -/
theorem sameMembers_back {ms ns : List (PyStr×Json)} (hn : (ms.map Prod.fst).Nodup)
    (hl : ms.length=ns.length)
    (h : ∀m∈ms,∃w,ns.lookup m.1=some w ∧ same m.2 w=true) :
    (ns.map Prod.fst).Nodup ∧ ∀n∈ns,∃m∈ms,m.1=n.1 ∧ same m.2 n.2=true := by
  have sub : ms.map Prod.fst⊆ns.map Prod.fst := by
    intro k hk
    obtain ⟨m,hm,rfl⟩ := List.mem_map.mp hk
    obtain ⟨w,hw,-⟩ := h m hm
    exact List.mem_map.mpr ⟨_,mem_of_lookup hw,rfl⟩
  have perm : (ms.map Prod.fst).Perm (ns.map Prod.fst) :=
    (List.subperm_of_subset hn sub).perm_of_length_le (by simp [hl])
  have hns : (ns.map Prod.fst).Nodup := perm.nodup_iff.mp hn
  refine ⟨hns,?_⟩
  intro n hm
  obtain ⟨m,hmm,he⟩ := List.mem_map.mp (perm.mem_iff.mpr (List.mem_map_of_mem hm))
  obtain ⟨w,hw,hs⟩ := h m hmm
  rw [he,lookup_of_mem hns hm] at hw
  cases hw
  exact ⟨m,hmm,he,hs⟩

theorem same_cases {v w : Json} (h : same v w=true) : v=w ∨
    (∃xs ys,v=.arr xs ∧ w=.arr ys ∧ List.Forall₂ (fun x y => same x y=true) xs ys) ∨
    ∃ms ns,v=.obj ms ∧ w=.obj ns ∧ ms.length=ns.length ∧
      ∀m∈ms,∃w,ns.lookup m.1=some w ∧ same m.2 w=true := by
  cases v with
  | arr xs =>
    cases w with
    | arr ys => exact .inr (.inl ⟨xs,ys,rfl,rfl,(sameItems_iff xs ys).mp h⟩)
    | _ => cases h
  | obj ms =>
    cases w with
    | obj ns =>
      rw [same,Bool.and_eq_true,sameMembers_iff] at h
      exact .inr (.inr ⟨ms,ns,rfl,rfl,of_decide_eq_true h.1,h.2⟩)
    | _ => cases h
  | _ =>
    left
    cases w <;> first
      | rfl
      | cases h
      | simpa [same] using h

theorem forall₂_mem_right {α β : Type} {R : α → β → Prop} {xs : List α} {ys : List β}
    (h : List.Forall₂ R xs ys) {y : β} (hy : y∈ys) : ∃x∈xs,R x y := by
  induction h with
  | nil => cases hy
  | cons hx _ ih =>
    rcases List.mem_cons.mp hy with rfl | hy
    · exact ⟨_,by simp,hx⟩
    · obtain ⟨x,hxs,hr⟩ := ih hy
      exact ⟨x,by simp [hxs],hr⟩

/-- A value with its keys in another order is as plain. -/
theorem same_plain {v w : Json} (h : same v w=true) (hp : v.plain=true) : w.plain=true := by
  induction v using induct generalizing w with
  | arr xs ih =>
    rcases same_cases h with rfl | ⟨_,ys,he,rfl,hs⟩ | ⟨_,_,he,-⟩
    · exact hp
    · cases he
      rw [plain,plainItems_iff] at hp ⊢
      intro y hy
      obtain ⟨x,hx,hs⟩ := forall₂_mem_right hs hy
      exact ih x hx hs (hp x hx)
    · cases he
  | obj ms ih =>
    rcases same_cases h with rfl | ⟨_,_,he,-⟩ | ⟨_,ns,he,rfl,hl,hs⟩
    · exact hp
    · cases he
    · cases he
      rw [plain,Bool.and_eq_true,plainMembers_iff] at hp ⊢
      obtain ⟨hn,hb⟩ := sameMembers_back (of_decide_eq_true hp.1) hl hs
      refine ⟨decide_eq_true hn,?_⟩
      intro n hm
      obtain ⟨m,hmm,he,hs⟩ := hb n hm
      obtain ⟨hk,hv⟩ := hp.2 m hmm
      exact ⟨he ▸ hk,ih m hmm hs hv⟩
  | _ =>
    rcases same_cases h with rfl | ⟨_,_,he,-⟩ | ⟨_,_,he,-⟩
    · exact hp
    · cases he
    · cases he

theorem depthItems_le (xs : List Json) (d : Nat) : depthItems xs ≤ d ↔ ∀x∈xs,x.depth ≤ d := by
  induction xs with
  | nil => simp [depthItems]
  | cons x xs ih => simp [depthItems,ih]

theorem depthMembers_le (ms : List (PyStr×Json)) (d : Nat) :
    depthMembers ms ≤ d ↔ ∀m∈ms,m.2.depth ≤ d := by
  induction ms with
  | nil => simp [depthMembers]
  | cons m ms ih =>
    obtain ⟨k,v⟩ := m
    rw [depthMembers,Nat.max_le,ih,List.forall_mem_cons]

theorem intsAllItems_iff (p : Int → Bool) (xs : List Json) :
    intsAllItems p xs=true ↔ ∀x∈xs,x.intsAll p=true := by
  induction xs with
  | nil => simp [intsAllItems]
  | cons x xs ih => simp [intsAllItems,ih]

theorem intsAllMembers_iff (p : Int → Bool) (ms : List (PyStr×Json)) :
    intsAllMembers p ms=true ↔ ∀m∈ms,m.2.intsAll p=true := by
  induction ms with
  | nil => simp [intsAllMembers]
  | cons m ms ih =>
    obtain ⟨k,v⟩ := m
    rw [intsAllMembers,Bool.and_eq_true,ih,List.forall_mem_cons]

/-- A value with its keys in another order nests no deeper, and its integers pass the
same test. -/
theorem same_prints {p : Int → Bool} {v w : Json} (h : same v w=true) (hp : v.plain=true)
    (hi : v.intsAll p=true) : w.depth ≤ v.depth ∧ w.intsAll p=true := by
  induction v using induct generalizing w with
  | arr xs ih =>
    rcases same_cases h with rfl | ⟨_,ys,he,rfl,hs⟩ | ⟨_,_,he,-⟩
    · exact ⟨le_rfl,hi⟩
    · cases he
      rw [plain,plainItems_iff] at hp
      rw [intsAll,intsAllItems_iff] at hi ⊢
      have each (y : Json) (hy : y∈ys) : y.depth ≤ depthItems xs ∧ y.intsAll p=true := by
        obtain ⟨x,hx,hs⟩ := forall₂_mem_right hs hy
        obtain ⟨hd,hi⟩ := ih x hx hs (hp x hx) (hi x hx)
        exact ⟨hd.trans ((depthItems_le xs _).mp le_rfl x hx),hi⟩
      rw [depth,depth,Nat.add_le_add_iff_right,depthItems_le]
      exact ⟨fun y hy => (each y hy).1,fun y hy => (each y hy).2⟩
    · cases he
  | obj ms ih =>
    rcases same_cases h with rfl | ⟨_,_,he,-⟩ | ⟨_,ns,he,rfl,hl,hs⟩
    · exact ⟨le_rfl,hi⟩
    · cases he
    · cases he
      rw [plain,Bool.and_eq_true,plainMembers_iff] at hp
      rw [intsAll,intsAllMembers_iff] at hi ⊢
      obtain ⟨-,hb⟩ := sameMembers_back (of_decide_eq_true hp.1) hl hs
      have each (n : PyStr×Json) (hn : n∈ns) :
          n.2.depth ≤ depthMembers ms ∧ n.2.intsAll p=true := by
        obtain ⟨m,hm,-,hs⟩ := hb n hn
        obtain ⟨hd,hi⟩ := ih m hm hs (hp.2 m hm).2 (hi m hm)
        exact ⟨hd.trans ((depthMembers_le ms _).mp le_rfl m hm),hi⟩
      rw [depth,depth,Nat.add_le_add_iff_right,depthMembers_le]
      exact ⟨fun n hn => (each n hn).1,fun n hn => (each n hn).2⟩
  | _ =>
    rcases same_cases h with rfl | ⟨_,_,he,-⟩ | ⟨_,_,he,-⟩
    · exact ⟨le_rfl,hi⟩
    · cases he
    · cases he

theorem sortKeysItems_eq (xs : List Json) : sortKeysItems xs=xs.map sortKeys := by
  induction xs with
  | nil => rfl
  | cons x xs ih => rw [sortKeysItems,ih,List.map_cons]

def sortMember (m : PyStr×Json) : PyStr×Json := (m.1,m.2.sortKeys)

theorem sortMember_keys (ms : List (PyStr×Json)) :
    (ms.map sortMember).map Prod.fst=ms.map Prod.fst := by
  simp only [List.map_map]
  rfl

theorem sortKeysMembers_perm (ms : List (PyStr×Json)) :
    (sortKeysMembers ms).Perm (ms.map sortMember) := by
  induction ms with
  | nil => exact .refl _
  | cons m ms ih => exact (List.perm_orderedInsert _ _ _).trans (ih.cons _)

theorem sortKeysMembers_sorted (ms : List (PyStr×Json)) :
    (sortKeysMembers ms).Pairwise fun a b => a.1 ≤ b.1 := by
  have : Std.Total fun a b : PyStr×Json => a.1 ≤ b.1 := ⟨fun a b => le_total a.1 b.1⟩
  have : IsTrans (PyStr×Json) fun a b => a.1 ≤ b.1 := ⟨fun _ _ _ h g => le_trans h g⟩
  induction ms with
  | nil => exact .nil
  | cons m ms ih => exact ih.orderedInsert _ _

theorem sortKeysMembers_keys (ms : List (PyStr×Json)) :
    ((sortKeysMembers ms).map Prod.fst).Perm (ms.map Prod.fst) :=
  sortMember_keys ms ▸ (sortKeysMembers_perm ms).map Prod.fst

/-- Sorting by key forgets the order in which a dict was built. -/
theorem sortKeysMembers_congr {ms ns : List (PyStr×Json)} (hn : (ms.map Prod.fst).Nodup)
    (h : (ms.map sortMember).Perm (ns.map sortMember)) : sortKeysMembers ms=sortKeysMembers ns := by
  have hs : ((sortKeysMembers ms).map Prod.fst).Nodup := (sortKeysMembers_keys ms).nodup_iff.mpr hn
  have hp := (sortKeysMembers_perm ms).trans (h.trans (sortKeysMembers_perm ns).symm)
  refine hp.eq_of_pairwise (fun a b ha hb hab hba => ?_) (sortKeysMembers_sorted ms)
    (sortKeysMembers_sorted ns)
  exact List.inj_on_of_nodup_map hs ha (hp.mem_iff.mpr hb) (le_antisymm hab hba)

/-- Values that differ in the order of keys have one canonical form. -/
theorem sortKeys_congr {v w : Json} (h : same v w=true) (hp : v.plain=true) :
    v.sortKeys=w.sortKeys := by
  induction v using induct generalizing w with
  | arr xs ih =>
    rcases same_cases h with rfl | ⟨_,ys,he,rfl,hs⟩ | ⟨_,_,he,-⟩
    · rfl
    · cases he
      rw [plain,plainItems_iff] at hp
      rw [sortKeys,sortKeys,sortKeysItems_eq,sortKeysItems_eq]
      congr 1
      clear h
      induction hs with
      | nil => rfl
      | cons hx hxs ihx =>
        rw [List.map_cons,List.map_cons,ih _ (by simp) hx (hp _ (by simp)),
          ihx (fun y hy => ih y (by simp [hy])) fun y hy => hp y (by simp [hy])]
    · cases he
  | obj ms ih =>
    rcases same_cases h with rfl | ⟨_,_,he,-⟩ | ⟨_,ns,he,rfl,hl,hs⟩
    · rfl
    · cases he
    · cases he
      rw [plain,Bool.and_eq_true,plainMembers_iff] at hp
      have hn : (ms.map Prod.fst).Nodup := of_decide_eq_true hp.1
      have sub : ms.map sortMember⊆ns.map sortMember := by
        intro p hmap
        obtain ⟨m,hm,rfl⟩ := List.mem_map.mp hmap
        obtain ⟨w,hw,hsame⟩ := hs m hm
        exact List.mem_map.mpr ⟨_,mem_of_lookup hw,by
          rw [sortMember,sortMember,ih m hm hsame (hp.2 m hm).2]⟩
      rw [sortKeys,sortKeys,sortKeysMembers_congr hn]
      exact (List.subperm_of_subset (List.Nodup.of_map Prod.fst (sortMember_keys ms ▸ hn))
        sub).perm_of_length_le (by simp [hl])
  | _ =>
    rcases same_cases h with rfl | ⟨_,_,he,-⟩ | ⟨_,_,he,-⟩
    · rfl
    · cases he
    · cases he

/-- Sorting changes the order of keys and nothing else. -/
theorem same_sortKeys {v : Json} (hp : v.plain=true) : same v v.sortKeys=true := by
  induction v using induct with
  | arr xs ih =>
    rw [plain,plainItems_iff] at hp
    rw [sortKeys,same,sameItems_iff,sortKeysItems_eq,List.forall₂_map_right_iff,List.forall₂_same]
    exact fun x hx => ih x hx (hp x hx)
  | obj ms ih =>
    rw [plain,Bool.and_eq_true,plainMembers_iff] at hp
    have hn : ((sortKeysMembers ms).map Prod.fst).Nodup :=
      (sortKeysMembers_keys ms).nodup_iff.mpr (of_decide_eq_true hp.1)
    rw [sortKeys,same,Bool.and_eq_true,sameMembers_iff]
    refine ⟨decide_eq_true (by simpa using (sortKeysMembers_perm ms).length_eq.symm),
      fun m hm => ⟨m.2.sortKeys,?_,ih m hm (hp.2 m hm).2⟩⟩
    exact lookup_of_mem hn ((sortKeysMembers_perm ms).mem_iff.mpr
      (List.mem_map_of_mem (f := sortMember) hm))
  | null => rfl
  | _ => exact decide_eq_true rfl

theorem same_refl {v : Json} (hp : v.plain=true) : same v v=true := by
  induction v using induct with
  | arr xs ih =>
    rw [plain,plainItems_iff] at hp
    rw [same,sameItems_iff,List.forall₂_same]
    exact fun x hx => ih x hx (hp x hx)
  | obj ms ih =>
    rw [plain,Bool.and_eq_true,plainMembers_iff] at hp
    rw [same,Bool.and_eq_true,sameMembers_iff]
    exact ⟨decide_eq_true rfl,fun m hm =>
      ⟨m.2,lookup_of_mem (of_decide_eq_true hp.1) hm,ih m hm (hp.2 m hm).2⟩⟩
  | null => rfl
  | _ => exact decide_eq_true rfl

/-- Values with one canonical form are the same but for the order of keys. -/
theorem same_of_sortKeys {v w : Json} (h : v.sortKeys=w.sortKeys) (hp : v.plain=true)
    (hq : w.plain=true) : same v w=true := by
  induction v using induct generalizing w with
  | arr xs ih =>
    cases w with
    | arr ys =>
      rw [sortKeys,sortKeys,sortKeysItems_eq,sortKeysItems_eq,Json.arr.injEq] at h
      rw [plain,plainItems_iff] at hp hq
      rw [same,sameItems_iff]
      induction xs generalizing ys with
      | nil =>
        cases ys with
        | nil => exact .nil
        | cons y ys => simp at h
      | cons x xs ihx =>
        cases ys with
        | nil => simp at h
        | cons y ys =>
          rw [List.map_cons,List.map_cons,List.cons.injEq] at h
          exact .cons (ih x (by simp) h.1 (hp x (by simp)) (hq y (by simp)))
            (ihx (fun z hz => ih z (by simp [hz])) (fun z hz => hp z (by simp [hz])) ys h.2
              fun z hz => hq z (by simp [hz]))
    | _ => cases h
  | obj ms ih =>
    cases w with
    | obj ns =>
      rw [sortKeys,sortKeys,Json.obj.injEq] at h
      rw [plain,Bool.and_eq_true,plainMembers_iff] at hp hq
      have hn : (ns.map Prod.fst).Nodup := of_decide_eq_true hq.1
      have hperm := (sortKeysMembers_perm ms).symm.trans (h ▸ sortKeysMembers_perm ns)
      rw [same,Bool.and_eq_true,sameMembers_iff]
      refine ⟨decide_eq_true (by simpa using hperm.length_eq),?_⟩
      intro m hm
      obtain ⟨n,hns,he⟩ := List.mem_map.mp (hperm.mem_iff.mp (List.mem_map_of_mem hm))
      obtain ⟨hk,hv⟩ := Prod.mk.inj he
      exact ⟨n.2,hk ▸ lookup_of_mem hn hns,ih m hm hv.symm (hp.2 m hm).2 (hq.2 n hns).2⟩
    | _ => cases h
  | _ =>
    cases w <;> cases h
    all_goals exact same_refl hp

end Structure

section Printing

/-- The four digits of a code are read back. -/
theorem spellsUnit_escapeUnit (c : CodePoint) (h : c.val<0x10000) :
    SpellsUnit c (ofAscii (escapeUnit c.val)) := by
  have digit (n : Nat) := hexValue_hexDigit ⟨n%16,Nat.mod_lt n (by decide)⟩
  refine ⟨_,_,_,_,?_,by rw [escapeUnit,ofAscii_append]; rfl⟩
  simp only [hexUnit,digit,Option.bind_eq_bind,Option.bind_some,Option.some.injEq]
  apply Fin.ext
  rw [codePoint_val]
  omega

/-- The four ways in which a character is printed. -/
theorem renderChar_cases {motive : Bytes → Prop} {c : CodePoint}
    (raw : 0x20 ≤ c.val → c.val≤0x7e → c.val≠0x22 → c.val≠0x5c → motive [UInt8.ofNat c.val])
    (short : ∀b∈ascii "\"\\nrtfb",escapeValue (Fin.ofNat 0x110000 b.toNat)=some c →
      motive (ascii "\\"++[b]))
    (unit : c.val<0x10000 → motive (escapeUnit c.val))
    (pair : 0x10000 ≤ c.val → motive (escapeUnit (0xd800+(c.val-0x10000)/0x400)++
      escapeUnit (0xdc00+(c.val-0x10000)%0x400))) : motive (renderChar c) := by
  have code {n : Nat} (hn : n<0x110000) (h : c.val=n) : Fin.ofNat 0x110000 n=c :=
    Fin.ext (by rw [h,Fin.ofNat_eq_cast,Fin.val_natCast,Nat.mod_eq_of_lt hn])
  have escaped {b : UInt8} {n : Nat} (hn : n<0x110000) (h : c.val=n) (hb : b∈ascii "\"\\nrtfb")
      (he : escapeValue (Fin.ofNat 0x110000 b.toNat)=some (Fin.ofNat 0x110000 n)) :
      motive (ascii "\\"++[b]) := short b hb (code hn h ▸ he)
  unfold renderChar
  apply iteInduction
  · exact fun h => escaped (by decide) h (by decide) (by decide)
  intro quote
  apply iteInduction
  · exact fun h => escaped (by decide) h (by decide) (by decide)
  intro backslash
  apply iteInduction
  · exact fun h => raw h.1 h.2 quote backslash
  intro
  apply iteInduction
  · exact fun h => escaped (by decide) h (by decide) (by decide)
  intro
  apply iteInduction
  · exact fun h => escaped (by decide) h (by decide) (by decide)
  intro
  apply iteInduction
  · exact fun h => escaped (by decide) h (by decide) (by decide)
  intro
  apply iteInduction
  · exact fun h => escaped (by decide) h (by decide) (by decide)
  intro
  apply iteInduction
  · exact fun h => escaped (by decide) h (by decide) (by decide)
  intro
  apply iteInduction
  · exact unit
  · exact fun h => pair (Nat.not_lt.mp h)

/-- Every character is printed in one of the ways to write it. -/
theorem spellsChar_renderChar (c : CodePoint) : SpellsChar c (ofAscii (renderChar c)) := by
  apply @renderChar_cases fun t => SpellsChar c (ofAscii t)
  · intro hlow hhigh hq hb
    have e : ofAscii [UInt8.ofNat c.val]=[c] := by
      simp only [ofAscii,List.map_cons,List.map_nil,UInt8.toNat_ofNat',List.cons.injEq,and_true]
      exact Fin.ext (by rw [Fin.ofNat_eq_cast,Fin.val_natCast]; omega)
    exact e ▸ .raw c hlow hq hb
  · exact fun b _ h => .short _ c h
  · exact fun h => .unit c _ (spellsUnit_escapeUnit c h)
  · -- A character beyond the basic plane is the value of its two halves.
    intro _
    have hc := c.isLt
    let hi : CodePoint := ⟨0xd800+(c.val-0x10000)/0x400,by omega⟩
    let lo : CodePoint := ⟨0xdc00+(c.val-0x10000)%0x400,by omega⟩
    have hp : pairValue hi lo=c := by
      apply Fin.ext
      simp only [pairValue,hi,lo,codePoint_val]
      omega
    have hh : isHighSurrogate hi=true := by
      simp only [isHighSurrogate,hi,Bool.and_eq_true,decide_eq_true_eq]
      omega
    have hl : isLowSurrogate lo=true := by
      simp only [isLowSurrogate,lo,Bool.and_eq_true,decide_eq_true_eq]
      omega
    rw [ofAscii_append]
    have hpair := SpellsChar.pair hi lo _ _ hh hl (spellsUnit_escapeUnit hi (by simp only [hi]; omega))
      (spellsUnit_escapeUnit lo (by simp only [lo]; omega))
    rwa [hp] at hpair

theorem spellsStr_renderStr (s : PyStr) : SpellsStr s (ofAscii (renderStr s)) := by
  refine ⟨s.map fun c => ofAscii (renderChar c),?_,?_⟩
  · rw [List.forall₂_map_right_iff,List.forall₂_same]
    exact fun c _ => spellsChar_renderChar c
  · rw [renderStr,ofAscii_append,ofAscii_append]
    congr 2
    simp only [ofAscii,List.flatMap_def,List.map_flatten,List.map_map]
    rfl

/-- Printing with these separators, which may hold white space behind the comma and the
colon, gives a text of the value. -/
theorem spells_render {float : PyStr → PyFloat} {item colon : Bytes} {w w' : PyStr} (hw : Blank w)
    (hw' : Blank w') (hi : ofAscii item=lit ","++w) (hc : ofAscii colon=lit ":"++w')
    (hf : ∀f : PyFloat,f.isFinite=true → float (ofAscii f.repr)=f) {v : Json}
    (hp : v.plain=true) : Spells float v (ofAscii (v.render item colon)) := by
  induction v using induct with
  | null => rfl
  | bool b => cases b <;> rfl
  | int n => rfl
  | float f => exact ⟨hp,hf f hp⟩
  | str s => exact spellsStr_renderStr s
  | arr xs ih =>
    rw [plain,plainItems_iff] at hp
    have items (ys : List Json) (hys : ys⊆xs) :
        SpellsItems float ys (ofAscii (renderItems item colon ys)) := by
      induction ys with
      | nil => rfl
      | cons y ys ihy =>
        have hy := hys (List.mem_cons_self ..)
        refine ⟨_,_,.after hw (ih y hy (hp y hy)),ihy fun z hz => hys (.tail _ hz),?_⟩
        rw [renderItems,ofAscii_append,ofAscii_append,hi]
        simp only [List.append_assoc]
    cases xs with
    | nil => exact ⟨[],blank_nil,rfl⟩
    | cons x xs =>
      refine ⟨_,_,.of (ih x (by simp) (hp x (by simp))),items xs (by simp),?_⟩
      rw [render,ofAscii_append,ofAscii_append,ofAscii_append]
      rfl
  | obj ms ih =>
    rw [plain,Bool.and_eq_true,plainMembers_iff] at hp
    have members (ns : List (PyStr×Json)) (hns : ns⊆ms) :
        SpellsMembers float ns (ofAscii (renderMembers item colon ns)) := by
      induction ns with
      | nil => rfl
      | cons n ns ihn =>
        obtain ⟨k,v⟩ := n
        have hn := hns (List.mem_cons_self ..)
        refine ⟨_,_,_,.after hw (spellsStr_renderStr k),.after hw' (ih _ hn (hp.2 _ hn).2),
          ihn fun m hm => hns (.tail _ hm),?_⟩
        rw [renderMembers,ofAscii_append,ofAscii_append,ofAscii_append,ofAscii_append,hi,hc]
        simp only [List.append_assoc]
    cases ms with
    | nil => exact ⟨[],blank_nil,rfl⟩
    | cons m ms =>
      obtain ⟨k,v⟩ := m
      have hm := List.mem_cons_self (a := (k,v)) (l := ms)
      refine ⟨_,_,_,.of (spellsStr_renderStr k),.after hw' (ih _ hm (hp.2 _ hm).2),
        members ms (by simp),?_⟩
      rw [render,ofAscii_append,ofAscii_append,ofAscii_append,ofAscii_append,ofAscii_append,hc]
      simp only [List.append_assoc]
      rfl

/-- A character that printing leaves on a line. -/
def isPrintable (b : UInt8) : Bool := 0x20 ≤ b.toNat && b.toNat≤0x7e

theorem hexDigit_printable (n : Nat) : isPrintable (hexDigit (n%16))=true := by
  have digit : ∀k : Fin 16,isPrintable (hexDigit k.val)=true := by decide
  exact digit ⟨n%16,Nat.mod_lt n (by decide)⟩

theorem escapeUnit_printable (u : Nat) : (escapeUnit u).all isPrintable=true := by
  simp only [escapeUnit,List.all_append,List.all_cons,List.all_nil,hexDigit_printable]
  rfl

theorem renderChar_printable (c : CodePoint) : (renderChar c).all isPrintable=true := by
  apply @renderChar_cases fun t => t.all isPrintable=true
  · intro hlow hhigh _ _
    simp only [List.all_cons,List.all_nil,isPrintable,UInt8.toNat_ofNat',Bool.and_true,
      Bool.and_eq_true,decide_eq_true_eq]
    omega
  · intro b hb _
    have escapes : (ascii "\"\\nrtfb").all (fun e => (ascii "\\"++[e]).all isPrintable)=true := by
      decide
    exact List.all_eq_true.mp escapes b hb
  · exact fun _ => escapeUnit_printable _
  · intro _
    rw [List.all_append,escapeUnit_printable,escapeUnit_printable]
    rfl
theorem renderStr_printable (s : PyStr) : (renderStr s).all isPrintable=true := by
  have quote : (ascii "\"").all isPrintable=true := by decide
  have chars : s.all (fun c => (renderChar c).all isPrintable)=true :=
    List.all_eq_true.mpr fun c _ => renderChar_printable c
  rw [renderStr,List.all_append,List.all_append,List.all_flatMap,quote,chars]
  rfl

theorem renderNat_printable (n : Nat) : (renderNat n).all isPrintable=true := by
  rw [renderNat,List.all_map,List.all_eq_true]
  intro c hc
  have hd := Nat.isDigit_of_mem_toDigits (by decide) (by decide) hc
  simp only [Char.isDigit,Bool.and_eq_true,decide_eq_true_eq,UInt32.le_iff_toNat_le] at hd
  have h1 : 48 ≤ c.toNat := hd.1
  have h2 : c.toNat≤57 := hd.2
  simp only [Function.comp,isPrintable,UInt8.toNat_ofNat',Bool.and_eq_true,decide_eq_true_eq]
  omega

/-- Every text that printing gives is one line of ASCII. -/
theorem render_printable {item colon : Bytes} (hi : item.all isPrintable=true)
    (hc : colon.all isPrintable=true) (v : Json) :
    (v.render item colon).all isPrintable=true := by
  induction v using induct with
  | null => rfl
  | bool b => cases b <;> rfl
  | int n =>
    cases n with
    | ofNat n => exact renderNat_printable n
    | negSucc n =>
      rw [render,renderInt,List.all_append,renderNat_printable]
      rfl
  | float f =>
    have ht := f.token
    rw [isFloatToken,Bool.and_eq_true,Bool.and_eq_true,List.all_eq_true] at ht
    have token : (ascii "0123456789.eE+-NaInfity").all isPrintable=true := by decide
    rw [render,List.all_eq_true]
    exact fun b hb => List.all_eq_true.mp token b (List.contains_iff_mem.mp (ht.1.1 b hb))
  | str s => exact renderStr_printable s
  | arr xs ih =>
    have items (ys : List Json) (hys : ys⊆xs) : (renderItems item colon ys).all isPrintable=true := by
      induction ys with
      | nil => rfl
      | cons y ys ihy =>
        rw [renderItems,List.all_append,List.all_append,hi,ih y (hys (List.mem_cons_self ..)),
          ihy fun z hz => hys (.tail _ hz)]
        rfl
    cases xs with
    | nil => rfl
    | cons x xs =>
      rw [render,List.all_append,List.all_append,List.all_append,ih x (by simp),items xs (by simp)]
      rfl
  | obj ms ih =>
    have members (ns : List (PyStr×Json)) (hns : ns⊆ms) :
        (renderMembers item colon ns).all isPrintable=true := by
      induction ns with
      | nil => rfl
      | cons n ns ihn =>
        obtain ⟨k,v⟩ := n
        rw [renderMembers,List.all_append,List.all_append,List.all_append,List.all_append,hi,
          renderStr_printable,hc,ih (k,v) (hns (List.mem_cons_self ..)),
          ihn fun m hm => hns (.tail _ hm)]
        rfl
    cases ms with
    | nil => rfl
    | cons m ms =>
      obtain ⟨k,v⟩ := m
      rw [render,List.all_append,List.all_append,List.all_append,List.all_append,List.all_append,
        renderStr_printable,hc,ih (k,v) (List.mem_cons_self ..),members ms (by simp)]
      rfl

end Printing

end Json
end AgentTorrent
