import AgentTorrent.Python.JsonText

namespace AgentTorrent

open Json

def skipSpace (t : PyStr) : PyStr := t.dropWhile isJsonSpace

/-- The text behind one given character. -/
def expect (code : Nat) : PyStr → Option PyStr
  | [] => none
  | c::t => if c.val=code then some t else none

/-- A string literal from behind its opening quote, and the text behind it. The codes of
a surrogate pair are still two. -/
def scanString : PyStr → Option (PyStr×PyStr)
  | [] => none
  | c::t =>
    if c.val=0x22 then some ([],t)
    else if c.val=0x5c then
      match t with
      | [] => none
      | e::t =>
        if e.val=0x75 then
          match t with
          | a::b::d::f::t => do
            let u ← hexUnit a b d f
            let (s,r) ← scanString t
            some (u::s,r)
          | _ => none
        else do
          let x ← escapeValue e
          let (s,r) ← scanString t
          some (x::s,r)
    else if c.val<0x20 then none
    else do
      let (s,r) ← scanString t
      some (c::s,r)

/-- A high and a low surrogate side by side are one character. Decoded text holds none
but those of escapes. -/
def joinPairs : PyStr → PyStr
  | hi::lo::s =>
    if isHighSurrogate hi && isLowSurrogate lo then pairValue hi lo::joinPairs s
    else hi::joinPairs (lo::s)
  | s => s

def parseString (t : PyStr) : Option (PyStr×PyStr) :=
  (scanString t).map fun p => (joinPairs p.1,p.2)

/-- Assignment of each member in turn: a key that comes again keeps its place and takes
the new value. -/
def putMember (k : PyStr) (v : Json) : List (PyStr×Json) → List (PyStr×Json)
  | [] => [(k,v)]
  | m::ms => if m.1=k then (k,v)::ms else m::putMember k v ms

def dictOf (ms : List (PyStr×Json)) : List (PyStr×Json) :=
  ms.foldl (fun d m => putMember m.1 m.2 d) []

section Parser

-- float(text), and the test that an integer has not too many digits for int(text)
variable (float : PyStr → PyFloat) (intPrints : Int → Bool)

def constants : List (PyStr×Json) :=
  [(lit "null",.null),(lit "true",.bool true),(lit "false",.bool false),
    (lit "NaN",.float (float (lit "NaN"))),(lit "Infinity",.float (float (lit "Infinity"))),
    (lit "-Infinity",.float (float (lit "-Infinity")))]

/-- A value that is no string and holds no other: what its characters spell up to the
next that no number has, or a constant. -/
def parseScalar (t : PyStr) : Option (Json×PyStr) :=
  let run := t.takeWhile isNumberChar
  let rest := t.dropWhile isNumberChar
  if isIntLiteral run then
    if intPrints (intOf run) then some (.int (intOf run),rest) else none
  else if isFloatLiteral run then some (.float (float run),rest)
  else (constants float).findSome? fun c => (c.1.isPrefixOf? t).map fun r => (c.2,r)

mutual

/-- scan_once: the value that a text begins with, and the text behind it. -/
def parseValue : Nat → PyStr → Option (Json×PyStr)
  | 0,_ => none
  | _+1,[] => none
  | n+1,c::t =>
    if c.val=0x22 then (parseString t).map fun p => (.str p.1,p.2)
    else if c.val=0x5b then
      match expect 0x5d (skipSpace t) with
      | some r => some (.arr [],r)
      | none => do
        let (x,r) ← parseValue n (skipSpace t)
        let (xs,r) ← parseItems n r
        some (.arr (x::xs),r)
    else if c.val=0x7b then
      match expect 0x7d (skipSpace t) with
      | some r => some (.obj [],r)
      | none => do
        let (m,r) ← parseMember n (skipSpace t)
        let (ms,r) ← parseMembers n r
        some (.obj (dictOf (m::ms)),r)
    else parseScalar float intPrints (c::t)

/-- The items behind the first, up to the closing bracket. -/
def parseItems : Nat → PyStr → Option (List Json×PyStr)
  | 0,_ => none
  | n+1,t =>
    match expect 0x5d (skipSpace t) with
    | some r => some ([],r)
    | none => do
      let r ← expect 0x2c (skipSpace t)
      let (x,r) ← parseValue n (skipSpace r)
      let (xs,r) ← parseItems n r
      some (x::xs,r)

def parseMember : Nat → PyStr → Option ((PyStr×Json)×PyStr)
  | 0,_ => none
  | n+1,t => do
    let r ← expect 0x22 t
    let (k,r) ← parseString r
    let r ← expect 0x3a (skipSpace r)
    let (v,r) ← parseValue n (skipSpace r)
    some ((k,v),r)

/-- The members behind the first, up to the closing brace. -/
def parseMembers : Nat → PyStr → Option (List (PyStr×Json)×PyStr)
  | 0,_ => none
  | n+1,t =>
    match expect 0x7d (skipSpace t) with
    | some r => some ([],r)
    | none => do
      let r ← expect 0x2c (skipSpace t)
      let (m,r) ← parseMember n (skipSpace r)
      let (ms,r) ← parseMembers n r
      some (m::ms,r)

end

/-- json.loads of a decoded text, for nesting that the interpreter's stack bears. -/
def loadsText (t : PyStr) : Option Json :=
  match parseValue float intPrints (t.length+1) (skipSpace t) with
  | some (v,r) => if skipSpace r=[] then some v else none
  | none => none

end Parser

example (f : PyStr → PyFloat) : loadsText f (fun _ => true) (lit " [1, -20 ,\"\\u00e9a\"]\n")=
    some (.arr [.int 1,.int (-20),.str [Fin.ofNat _ 0xe9,Fin.ofNat _ 0x61]]) := by rfl

theorem skipSpace_blank {w : PyStr} (hw : Blank w) (t : PyStr) : skipSpace (w++t)=skipSpace t := by
  induction w with
  | nil => rfl
  | cons c w ih =>
    rw [List.cons_append,skipSpace,List.dropWhile_cons_of_pos (hw c (by simp))]
    exact ih fun d hd => hw d (by simp [hd])

theorem skipSpace_cons {c : CodePoint} (hc : isJsonSpace c=false) (t : PyStr) :
    skipSpace (c::t)=c::t := List.dropWhile_cons_of_neg (by simp [hc])

theorem skipSpace_eq_nil {w : PyStr} (hw : Blank w) : skipSpace w=[] := by
  have h := skipSpace_blank hw []
  rw [List.append_nil] at h
  exact h

section Strings

theorem scanString_unit {c : CodePoint} {t : PyStr} (h : SpellsUnit c t) (r : PyStr) :
    scanString (t++r)=(scanString r).map fun p => (c::p.1,p.2) := by
  obtain ⟨a,b,d,e,hu,rfl⟩ := h
  have hl : lit "\\u"++[a,b,d,e]++r=Fin.ofNat _ 0x5c::Fin.ofNat _ 0x75::a::b::d::e::r := rfl
  have h1 : (Fin.ofNat 0x110000 0x5c).val=0x5c := rfl
  have h2 : (Fin.ofNat 0x110000 0x75).val=0x75 := rfl
  rw [hl,scanString]
  simp only [h1,h2,hu,if_true,Option.bind_eq_bind,Option.bind_some]
  cases scanString r <;> rfl

theorem scanString_quote (r : PyStr) : scanString (lit "\""++r)=some ([],r) := by
  have hl : lit "\""++r=Fin.ofNat _ 0x22::r := rfl
  have h1 : (Fin.ofNat 0x110000 0x22).val=0x22 := rfl
  rw [hl,scanString.eq_def]
  simp only [h1,if_true]

theorem joinPairs_carried {c : CodePoint} (hc : isCarried c=true) (s : PyStr) :
    joinPairs (c::s)=c::joinPairs s := by
  have hh : isHighSurrogate c=false := by simpa [isCarried] using hc
  cases s with
  | nil => rfl
  | cons d s => rw [joinPairs,hh,Bool.false_and,if_neg Bool.false_ne_true]

/-- One character is scanned as its codes, which are joined to it again. -/
theorem scanString_char {c : CodePoint} {t : PyStr} (h : SpellsChar c t) (hc : isCarried c=true) :
    ∃us,(∀r,scanString (t++r)=(scanString r).map fun p => (us++p.1,p.2)) ∧
      ∀s,joinPairs (us++s)=c::joinPairs s := by
  cases h with
  | raw _ h20 hq hb =>
    refine ⟨[c],?_,joinPairs_carried hc⟩
    intro r
    rw [List.singleton_append,scanString.eq_def]
    simp only [hq,hb,Nat.not_lt.mpr h20,if_false]
    cases scanString r <;> rfl
  | short e _ he =>
    refine ⟨[c],?_,joinPairs_carried hc⟩
    intro r
    have hu : e.val≠0x75 := by
      intro hu
      rw [escapeValue,hu] at he
      cases he
    have hl : lit "\\"++[e]++r=Fin.ofNat _ 0x5c::e::r := rfl
    have h1 : (Fin.ofNat 0x110000 0x5c).val=0x5c := rfl
    rw [hl,scanString.eq_def]
    simp only [h1,hu,he,if_true,if_false,Option.bind_eq_bind,Option.bind_some]
    cases scanString r <;> rfl
  | unit _ _ h => exact ⟨[c],scanString_unit h,joinPairs_carried hc⟩
  | pair hi lo t t' hh hl h h' =>
    refine ⟨[hi,lo],?_,?_⟩
    · intro r
      rw [List.append_assoc,scanString_unit h,scanString_unit h']
      cases scanString r <;> rfl
    · intro s
      rw [List.cons_append,List.cons_append,joinPairs,hh,hl]
      rfl

/-- A spelled string is read as what it spells. -/
theorem parseString_spells {s t : PyStr} (h : SpellsStr s t) (hs : s.all isCarried=true) :
    ∃t',t=lit "\""++t' ∧ ∀r,parseString (t'++r)=some (s,r) := by
  obtain ⟨parts,hp,rfl⟩ := h
  refine ⟨parts.flatten++lit "\"",by rw [List.append_assoc],?_⟩
  intro r
  have scanned : ∃us,scanString (parts.flatten++lit "\""++r)=some (us,r) ∧ joinPairs us=s := by
    induction hp with
    | nil => exact ⟨[],scanString_quote r,rfl⟩
    | cons hc _ ih =>
      rw [List.all_cons,Bool.and_eq_true] at hs
      obtain ⟨us,hscan,hjoin⟩ := scanString_char hc hs.1
      obtain ⟨vs,hvs,hjs⟩ := ih hs.2
      refine ⟨us++vs,?_,by rw [hjoin,hjs]⟩
      rw [List.flatten_cons,List.append_assoc,List.append_assoc,hscan,← List.append_assoc,hvs]
      rfl
  obtain ⟨us,hu,hj⟩ := scanned
  rw [parseString,hu,← hj]
  rfl

end Strings

section Numbers

theorem renderNat_small {n : Nat} (h : n<10) : ofAscii (renderNat n)=[Fin.ofNat _ (0x30+n)] := by
  have digit : ∀k : Fin 10,(Nat.digitChar k.val).toNat=0x30+k.val := by decide
  rw [renderNat,Nat.toDigits_of_lt_base h]
  simp only [ofAscii,List.map_cons,List.map_nil,digit ⟨n,h⟩]
  congr 2
  simp only [UInt8.toNat_ofNat']
  omega

theorem renderNat_large {n : Nat} (h : 10 ≤ n) :
    ofAscii (renderNat n)=ofAscii (renderNat (n/10))++[Fin.ofNat _ (0x30+n%10)] := by
  rw [← renderNat_small (Nat.mod_lt n (by decide)),← ofAscii_append,renderNat,renderNat,
    renderNat,Nat.toDigits_of_base_le (by decide) h,
    Nat.toDigits_of_lt_base (Nat.mod_lt n (by decide)),List.map_append]

theorem isDigit_ofNat {n : Nat} (h : n<10) : isDigit (Fin.ofNat _ (0x30+n))=true ∧
    (Fin.ofNat 0x110000 (0x30+n)).val=0x30+n := by
  have hv : (Fin.ofNat 0x110000 (0x30+n)).val=0x30+n := by
    rw [Fin.ofNat_eq_cast,Fin.val_natCast]
    omega
  refine ⟨?_,hv⟩
  rw [isDigit,hv]
  simp only [Bool.and_eq_true,decide_eq_true_eq]
  omega

theorem natOf_snoc (t : PyStr) (c : CodePoint) : natOf (t++[c])=10*natOf t+(c.val-0x30) := by
  rw [natOf,List.foldl_append]
  rfl

/-- A number is printed as digits, with no zero in front, and read back. -/
theorem renderNat_digits (n : Nat) : (∀c∈ofAscii (renderNat n),isDigit c=true) ∧
    natOf (ofAscii (renderNat n))=n ∧
    ∃c t,ofAscii (renderNat n)=c::t ∧ (c.val=0x30 → t=[]) := by
  induction n using Nat.strong_induction_on with
  | _ n ih =>
    rcases Nat.lt_or_ge n 10 with h | h
    · obtain ⟨hd,hv⟩ := isDigit_ofNat h
      rw [renderNat_small h]
      refine ⟨fun c hc => List.mem_singleton.mp hc ▸ hd,?_,_,_,rfl,fun _ => rfl⟩
      simp only [natOf,List.foldl_cons,List.foldl_nil,hv]
      omega
    · obtain ⟨hds,hn,c,t,ht,hz⟩ := ih (n/10) (by omega)
      obtain ⟨hd,hv⟩ := isDigit_ofNat (Nat.mod_lt n (show 0 < 10 by decide))
      rw [renderNat_large h]
      refine ⟨?_,by rw [natOf_snoc,hn,hv]; omega,c,t++[_],by rw [ht]; rfl,?_⟩
      · intro d hm
        rcases List.mem_append.mp hm with hm | hm
        · exact hds d hm
        · exact List.mem_singleton.mp hm ▸ hd
      · intro hc
        -- A quotient that is not zero has no zero in front.
        rw [ht,hz hc] at hn
        simp only [natOf,List.foldl_cons,List.foldl_nil,hc] at hn
        omega

theorem dropWhole_digits {t : PyStr} {c : CodePoint} (ht : ∀d∈c::t,isDigit d=true)
    (hz : c.val=0x30 → t=[]) : dropWhole (c::t)=some [] := by
  rw [dropWhole]
  split_ifs with hc
  · rw [hz hc]
  · rw [dropDigits,if_pos (ht c (by simp)),
      List.dropWhile_eq_nil_iff.mpr fun d hd => ht d (by simp [hd])]

theorem isDigit_minus {c : CodePoint} (h : isDigit c=true) : isMinus c=false := by
  simp only [isDigit,Bool.and_eq_true,decide_eq_true_eq] at h
  simp only [isMinus,decide_eq_false_iff_not]
  omega

/-- The decimal text of an integer is read as that integer. -/
theorem intText_reads (n : Int) : isIntLiteral (intText n)=true ∧ intOf (intText n)=n ∧
    ∀c∈intText n,isNumberChar c=true := by
  have number {c : CodePoint} (h : isDigit c=true) : isNumberChar c=true := by
    simp [isNumberChar,h]
  cases n with
  | ofNat n =>
    obtain ⟨hd,hn,c,t,ht,hz⟩ := renderNat_digits n
    have hm : isMinus c=false := isDigit_minus (hd c (by simp [ht]))
    have hany : (ofAscii (renderNat n)).any isMinus=false := by
      rw [List.any_eq_false]
      exact fun d hm => by rw [isDigit_minus (hd d hm)]; decide
    change isIntLiteral (ofAscii (renderNat n))=true ∧ intOf (ofAscii (renderNat n))=_ ∧ _
    refine ⟨?_,?_,fun c hc => number (hd c hc)⟩
    · rw [isIntLiteral,ht,dropMinus,hm,if_neg Bool.false_ne_true,dropWhole_digits (ht ▸ hd) hz]
      rfl
    · rw [intOf,hany,if_neg Bool.false_ne_true,hn]
      rfl
  | negSucc n =>
    obtain ⟨hd,hn,c,t,ht,hz⟩ := renderNat_digits (n+1)
    have he : intText (.negSucc n)=Fin.ofNat _ 0x2d::ofAscii (renderNat (n+1)) := rfl
    have hm : isMinus (Fin.ofNat _ 0x2d)=true := rfl
    rw [he]
    refine ⟨?_,?_,?_⟩
    · rw [isIntLiteral,dropMinus,hm,if_pos rfl,ht,dropWhole_digits (ht ▸ hd) hz]
      rfl
    · rw [intOf,List.any_cons,hm,Bool.true_or,if_pos rfl,dropMinus,hm,if_pos rfl,hn]
      rfl
    · intro c hc
      rcases List.mem_cons.mp hc with rfl | hc
      · rfl
      · exact number (hd c hc)

end Numbers

theorem putMember_new {k : PyStr} {v : Json} {d : List (PyStr×Json)} (h : k∉d.map Prod.fst) :
    putMember k v d=d++[(k,v)] := by
  induction d with
  | nil => rfl
  | cons m d ih =>
    rw [List.map_cons,List.mem_cons,not_or] at h
    rw [putMember,if_neg (Ne.symm h.1),ih h.2,List.cons_append]

theorem dictOf_nodup {ms : List (PyStr×Json)} (h : (ms.map Prod.fst).Nodup) : dictOf ms=ms := by
  have fold (d : List (PyStr×Json)) (hd : ((d++ms).map Prod.fst).Nodup) :
      ms.foldl (fun d m => putMember m.1 m.2 d) d=d++ms := by
    clear h
    induction ms generalizing d with
    | nil => simp
    | cons m ms ih =>
      have hm : m.1∉d.map Prod.fst := by
        rw [List.map_append,List.map_cons,List.nodup_append] at hd
        exact fun hm => hd.2.2 m.1 hm m.1 (by simp) rfl
      rw [List.foldl_cons,putMember_new hm,ih _ (by simpa using hd)]
      simp
  exact fold [] h

section Complete

/-- No number goes on in the text. -/
def Ends (r : PyStr) : Prop := ∀c∈r.head?,isNumberChar c=false

theorem ends_blank {w r : PyStr} (hw : Blank w) (hr : Ends r) : Ends (w++r) := by
  cases w with
  | nil => exact hr
  | cons c w =>
    intro d hd
    cases hd
    have hc := hw c (by simp)
    simp only [isJsonSpace,Bool.or_eq_true,decide_eq_true_eq] at hc
    simp only [isNumberChar,isDigit,isMinus,Bool.or_eq_false_iff,Bool.and_eq_false_iff,
      decide_eq_false_iff_not]
    omega

theorem run_append {t r : PyStr} (ht : ∀c∈t,isNumberChar c=true) (hr : Ends r) :
    (t++r).takeWhile isNumberChar=t ∧ (t++r).dropWhile isNumberChar=r := by
  rw [List.takeWhile_append_of_pos ht,List.dropWhile_append_of_pos ht]
  cases r with
  | nil => simp
  | cons c r =>
    have hc : isNumberChar c=false := hr c rfl
    simp [hc]

variable {float : PyStr → PyFloat} {intPrints : Int → Bool}

/-- What a value begins with is no white space and closes nothing. -/
def Opens (t : PyStr) : Prop :=
  ∃c t',t=c::t' ∧ isJsonSpace c=false ∧ c.val≠0x5d ∧ c.val≠0x7d

theorem Opens.append {t : PyStr} (h : Opens t) (r : PyStr) : Opens (t++r) := by
  obtain ⟨c,t',rfl,hc⟩ := h
  exact ⟨c,t'++r,rfl,hc⟩

theorem Opens.skip {t : PyStr} (h : Opens t) : skipSpace t=t := by
  obtain ⟨c,t',rfl,hc,-⟩ := h
  exact skipSpace_cons hc t'

theorem opens_number {t : PyStr} (ht : t≠[]) (h : ∀c∈t,isNumberChar c=true) :
    Opens t ∧ ∃c t',t=c::t' ∧ c.val≠0x22 ∧ c.val≠0x5b ∧ c.val≠0x7b := by
  cases t with
  | nil => exact absurd rfl ht
  | cons c t =>
    have hc := h c (by simp)
    simp only [isNumberChar,isDigit,isMinus,Bool.or_eq_true,Bool.and_eq_true,
      decide_eq_true_eq] at hc
    refine ⟨⟨c,t,rfl,?_,by omega,by omega⟩,c,t,rfl,by omega,by omega,by omega⟩
    simp only [isJsonSpace,Bool.or_eq_false_iff,decide_eq_false_iff_not]
    omega

theorem spells_opens {v : Json} {t : PyStr} (h : Spells float v t) : Opens t := by
  have first (c : CodePoint) (t' : PyStr) (hc : isJsonSpace c=false ∧ c.val≠0x5d ∧ c.val≠0x7d) :
      Opens (c::t') := ⟨c,t',rfl,hc⟩
  cases v with
  | null =>
    cases h
    exact first _ _ (by decide)
  | bool b =>
    cases b <;> cases h
    · exact first _ _ (by decide)
    · exact first _ _ (by decide)
  | int n =>
    cases h
    obtain ⟨hl,-,hc⟩ := intText_reads n
    refine (opens_number ?_ hc).1
    intro hn
    rw [hn] at hl
    cases hl
  | float f =>
    obtain ⟨hl,-⟩ := h
    have hc : ∀c∈t,isNumberChar c=true := by
      rw [isFloatLiteral,Bool.and_eq_true,Bool.and_eq_true,List.all_eq_true] at hl
      exact hl.1.1
    refine (opens_number ?_ hc).1
    intro hn
    rw [hn] at hl
    cases hl
  | str s =>
    obtain ⟨parts,-,rfl⟩ := h
    exact first _ _ (by decide)
  | arr xs =>
    cases xs with
    | nil =>
      obtain ⟨w,-,rfl⟩ := h
      exact first _ _ (by decide)
    | cons x xs =>
      obtain ⟨a,ts,-,-,rfl⟩ := h
      exact first _ _ (by decide)
  | obj ms =>
    cases ms with
    | nil =>
      obtain ⟨w,-,rfl⟩ := h
      exact first _ _ (by decide)
    | cons m ms =>
      obtain ⟨a,b,ts,-,-,-,rfl⟩ := h
      exact first _ _ (by decide)

theorem parseScalar_int {n : Int} (hn : intPrints n=true) {r : PyStr} (hr : Ends r) :
    parseScalar float intPrints (intText n++r)=some (.int n,r) := by
  obtain ⟨hl,hi,hc⟩ := intText_reads n
  obtain ⟨ht,hd⟩ := run_append hc hr
  simp only [parseScalar,ht,hd,hl,hi,hn,if_true]

theorem parseScalar_float {f : PyFloat} {t : PyStr} (h : Spells float (.float f) t) {r : PyStr}
    (hr : Ends r) : parseScalar float intPrints (t++r)=some (.float f,r) := by
  obtain ⟨hl,hf⟩ := h
  have hs := hl
  rw [isFloatLiteral,Bool.and_eq_true,Bool.and_eq_true,List.all_eq_true] at hs
  obtain ⟨ht,hd⟩ := run_append hs.1.1 hr
  have hi : isIntLiteral t=false := by simpa using hs.1.2
  simp only [parseScalar,ht,hd,hl,hi,hf,if_true,if_false,Bool.false_eq_true]

theorem parseValue_number {t : PyStr} (ht : t≠[]) (hc : ∀c∈t,isNumberChar c=true) (n : Nat)
    (r : PyStr) : parseValue float intPrints (n+1) (t++r)=parseScalar float intPrints (t++r) := by
  obtain ⟨c,t',rfl,h1,h2,h3⟩ := (opens_number ht hc).2
  rw [List.cons_append,parseValue,if_neg h1,if_neg h2,if_neg h3]

theorem expect_opens {t : PyStr} (h : Opens t) : expect 0x5d t=none ∧ expect 0x7d t=none := by
  obtain ⟨c,t',rfl,-,h1,h2⟩ := h
  exact ⟨if_neg h1,if_neg h2⟩

theorem skipSpace_after {w t : PyStr} (hw : Blank w) {c : CodePoint} (hc : isJsonSpace c=false) :
    skipSpace (w++c::t)=c::t := (skipSpace_blank hw _).trans (skipSpace_cons hc t)

/-- What the parser does to each value of a list or dict, used below by induction. -/
def ReadsBack (float : PyStr → PyFloat) (intPrints : Int → Bool) (v : Json) : Prop :=
  ∀t r : PyStr,∀n : Nat,Spells float v t → Ends r → t.length < n →
    parseValue float intPrints n (t++r)=some (v,r)

theorem ends_items {xs : List Json} {ts : PyStr} (h : SpellsItems float xs ts) (r : PyStr) :
    Ends (ts++(lit "]"++r)) := by
  cases xs with
  | nil =>
    cases h
    intro c hc
    cases hc
    rfl
  | cons x xs =>
    obtain ⟨a,us,-,-,rfl⟩ := h
    intro c hc
    cases hc
    rfl

theorem parseItems_spells {xs : List Json} (hx : ∀x∈xs,ReadsBack float intPrints x)
    {w ts r : PyStr} {n : Nat} (hw : Blank w) (h : SpellsItems float xs ts)
    (hn : ts.length < n) : parseItems float intPrints n (w++(ts++(lit "]"++r)))=some (xs,r) := by
  obtain ⟨n,rfl⟩ : ∃m,n=m+1 := ⟨n-1,by omega⟩
  induction xs generalizing w ts n with
  | nil =>
    cases h
    have hs : skipSpace (w++([]++(lit "]"++r)))=lit "]"++r := skipSpace_after hw rfl
    rw [parseItems,hs]
    rfl
  | cons x xs ih =>
    obtain ⟨a,us,⟨w₁,u,w₂,hw₁,hu,hw₂,rfl⟩,hus,rfl⟩ := h
    have hl : (lit ",").length=1 := rfl
    simp only [List.length_append,hl] at hn
    have hs : skipSpace (w++((lit ","++(w₁++u++w₂)++us)++(lit "]"++r)))=
        lit ","++(w₁++(u++(w₂++(us++(lit "]"++r))))) := by
      simp only [List.append_assoc]
      exact skipSpace_after hw rfl
    have hu' := (spells_opens hu).append (w₂++(us++(lit "]"++r)))
    have hv : parseValue float intPrints n (u++(w₂++(us++(lit "]"++r))))=
        some (x,w₂++(us++(lit "]"++r))) :=
      hx x (by simp) _ _ _ hu (ends_blank hw₂ (ends_items hus r)) (by omega)
    obtain ⟨m,rfl⟩ : ∃m,n=m+1 := ⟨n-1,by omega⟩
    have hxs := ih (fun y hy => hx y (by simp [hy])) hw₂ hus m (by omega)
    have hnext (r' : PyStr) : expect 0x5d (lit ","++r')=none ∧ expect 0x2c (lit ","++r')=some r' :=
      ⟨rfl,rfl⟩
    rw [parseItems,hs,(hnext _).1,(hnext _).2]
    simp only [Option.bind_eq_bind,Option.bind_some,skipSpace_blank hw₁,hu'.skip,hv,hxs]

theorem parseMember_spells {k : PyStr} {v : Json} (hk : k.all isCarried=true)
    (hv : ReadsBack float intPrints v) {u w w' t r : PyStr} {n : Nat} (hu : SpellsStr k u)
    (hw : Blank w) (hw' : Blank w') (ht : Spells float v t) (hr : Ends r) (hn : t.length+1 < n) :
    parseMember float intPrints n (u++(w++(lit ":"++(w'++(t++r)))))=some ((k,v),r) := by
  obtain ⟨n,rfl⟩ : ∃m,n=m+1 := ⟨n-1,by omega⟩
  obtain ⟨u',rfl,hs⟩ := parseString_spells hu hk
  have hq : expect 0x22 (lit "\""++u'++(w++(lit ":"++(w'++(t++r)))))=
      some (u'++(w++(lit ":"++(w'++(t++r))))) := rfl
  have hc : expect 0x3a (skipSpace (w++(lit ":"++(w'++(t++r)))))=some (w'++(t++r)) := by
    have hs : skipSpace (w++(lit ":"++(w'++(t++r))))=lit ":"++(w'++(t++r)) :=
      skipSpace_after hw rfl
    rw [hs]
    rfl
  have ho := (spells_opens ht).append r
  simp only [parseMember,hq,hs,hc,Option.bind_eq_bind,Option.bind_some,skipSpace_blank hw',ho.skip,
    hv t r n ht hr (by omega)]

theorem ends_members {ms : List (PyStr×Json)} {ts : PyStr} (h : SpellsMembers float ms ts)
    (r : PyStr) : Ends (ts++(lit "\x7d"++r)) := by
  cases ms with
  | nil =>
    cases h
    intro c hc
    cases hc
    rfl
  | cons m ms =>
    obtain ⟨a,b,us,-,-,-,rfl⟩ := h
    intro c hc
    cases hc
    rfl

theorem spellsStr_opens {s t : PyStr} (h : SpellsStr s t) : Opens t := by
  obtain ⟨parts,-,rfl⟩ := h
  exact ⟨_,_,rfl,by decide⟩

theorem parseMembers_spells {ms : List (PyStr×Json)}
    (hm : ∀m∈ms,m.1.all isCarried=true ∧ ReadsBack float intPrints m.2) {w ts r : PyStr} {n : Nat}
    (hw : Blank w) (h : SpellsMembers float ms ts) (hn : ts.length < n) :
    parseMembers float intPrints n (w++(ts++(lit "\x7d"++r)))=some (ms,r) := by
  obtain ⟨n,rfl⟩ : ∃m,n=m+1 := ⟨n-1,by omega⟩
  induction ms generalizing w ts n with
  | nil =>
    cases h
    have hs : skipSpace (w++([]++(lit "\x7d"++r)))=lit "\x7d"++r := skipSpace_after hw rfl
    rw [parseMembers,hs]
    rfl
  | cons m ms ih =>
    obtain ⟨k,v⟩ := m
    obtain ⟨a,b,us,⟨w₁,u,w₂,hw₁,hu,hw₂,rfl⟩,⟨w₃,t,w₄,hw₃,ht,hw₄,rfl⟩,hus,rfl⟩ := h
    obtain ⟨hk,hv⟩ := hm (k,v) (by simp)
    have hl : (lit ",").length=1 := rfl
    have hl' : (lit ":").length=1 := rfl
    simp only [List.length_append,hl,hl'] at hn
    have hs : skipSpace (w++((lit ","++(w₁++u++w₂)++lit ":"++(w₃++t++w₄)++us)++(lit "\x7d"++r)))=
        lit ","++(w₁++(u++(w₂++(lit ":"++(w₃++(t++(w₄++(us++(lit "\x7d"++r))))))))) := by
      simp only [List.append_assoc]
      exact skipSpace_after hw rfl
    have hu' := (spellsStr_opens hu).append
      (w₂++(lit ":"++(w₃++(t++(w₄++(us++(lit "\x7d"++r)))))))
    have hmem := parseMember_spells hk hv hu hw₂ hw₃ ht (ends_blank hw₄ (ends_members hus r))
      (show t.length+1 < n by omega)
    obtain ⟨m,rfl⟩ : ∃m,n=m+1 := ⟨n-1,by omega⟩
    have hms := ih (fun m hm' => hm m (by simp [hm'])) hw₄ hus m (by omega)
    have hnext (r' : PyStr) : expect 0x7d (lit ","++r')=none ∧ expect 0x2c (lit ","++r')=some r' :=
      ⟨rfl,rfl⟩
    rw [parseMembers,hs,(hnext _).1,(hnext _).2]
    simp only [Option.bind_eq_bind,Option.bind_some,skipSpace_blank hw₁,hu'.skip,hmem,hms]

theorem readsBack_int {k : Int} (hi : intPrints k=true) : ReadsBack float intPrints (.int k) := by
  intro t r n h hr hn
  obtain ⟨n,rfl⟩ : ∃m,n=m+1 := ⟨n-1,by omega⟩
  cases h
  obtain ⟨hl,-,hc⟩ := intText_reads k
  rw [parseValue_number (fun hn => by rw [hn] at hl; cases hl) hc,parseScalar_int hi hr]

theorem readsBack_float (f : PyFloat) : ReadsBack float intPrints (.float f) := by
  intro t r n h hr hn
  obtain ⟨n,rfl⟩ : ∃m,n=m+1 := ⟨n-1,by omega⟩
  have hl := h.1
  rw [isFloatLiteral,Bool.and_eq_true,Bool.and_eq_true,List.all_eq_true] at hl
  have hne : t≠[] := by
    intro ht
    obtain ⟨hl,-⟩ := h
    rw [ht] at hl
    cases hl
  rw [parseValue_number hne hl.1.1,parseScalar_float h hr]

theorem readsBack_str {s : PyStr} (hs : s.all isCarried=true) :
    ReadsBack float intPrints (.str s) := by
  intro t r n h hr hn
  obtain ⟨n,rfl⟩ : ∃m,n=m+1 := ⟨n-1,by omega⟩
  obtain ⟨t',rfl,hs⟩ := parseString_spells h hs
  have hq : parseValue float intPrints (n+1) (lit "\""++t'++r)=
      (parseString (t'++r)).map fun p => (.str p.1,p.2) := rfl
  rw [hq,hs]
  rfl

/-- A list is read back if its items are. -/
theorem readsBack_arr {xs : List Json} (h : ∀x∈xs,ReadsBack float intPrints x) :
    ReadsBack float intPrints (.arr xs) := by
  intro t r n ht hr hn
  obtain ⟨n,rfl⟩ : ∃m,n=m+1 := ⟨n-1,by omega⟩
  have open_eq (t' : PyStr) : parseValue float intPrints (n+1) (lit "["++t')=
      (match expect 0x5d (skipSpace t') with
      | some r => some (.arr [],r)
      | none => (parseValue float intPrints n (skipSpace t')).bind fun p =>
          (parseItems float intPrints n p.2).bind fun q => some (.arr (p.1::q.1),q.2)) := rfl
  cases xs with
  | nil =>
    obtain ⟨w,hw,rfl⟩ := ht
    have hs : skipSpace (w++(lit "]"++r))=lit "]"++r := skipSpace_after hw rfl
    simp only [List.append_assoc]
    rw [open_eq,hs]
    rfl
  | cons x xs =>
    obtain ⟨a,ts,⟨w₁,u,w₂,hw₁,hu,hw₂,rfl⟩,hts,rfl⟩ := ht
    have hl : (lit "[").length=1 := rfl
    simp only [List.length_append,hl] at hn
    have ho := (spells_opens hu).append (w₂++(ts++(lit "]"++r)))
    have hv := h x List.mem_cons_self u _ n hu (ends_blank hw₂ (ends_items hts r)) (by omega)
    have hxs := parseItems_spells (fun y hy => h y (List.mem_cons_of_mem x hy)) (r := r) (n := n)
      hw₂ hts (by omega)
    simp only [List.append_assoc]
    rw [open_eq,skipSpace_blank hw₁,ho.skip,(expect_opens ho).1]
    simp only [Option.bind_some,hv,hxs]

/-- A dict is read back if its values are, and its keys differ and have no surrogate. -/
theorem readsBack_obj {ms : List (PyStr×Json)} (hk : (ms.map Prod.fst).Nodup)
    (h : ∀m∈ms,m.1.all isCarried=true ∧ ReadsBack float intPrints m.2) :
    ReadsBack float intPrints (.obj ms) := by
  intro t r n ht hr hn
  obtain ⟨n,rfl⟩ : ∃m,n=m+1 := ⟨n-1,by omega⟩
  have open_eq (t' : PyStr) : parseValue float intPrints (n+1) (lit "\x7b"++t')=
      (match expect 0x7d (skipSpace t') with
      | some r => some (.obj [],r)
      | none => (parseMember float intPrints n (skipSpace t')).bind fun p =>
          (parseMembers float intPrints n p.2).bind fun q =>
            some (.obj (dictOf (p.1::q.1)),q.2)) := rfl
  cases ms with
  | nil =>
    obtain ⟨w,hw,rfl⟩ := ht
    have hs : skipSpace (w++(lit "\x7d"++r))=lit "\x7d"++r := skipSpace_after hw rfl
    simp only [List.append_assoc]
    rw [open_eq,hs]
    rfl
  | cons m ms =>
    obtain ⟨k,v⟩ := m
    obtain ⟨a,b,ts,⟨w₁,u,w₂,hw₁,hu,hw₂,rfl⟩,⟨w₃,tv,w₄,hw₃,htv,hw₄,rfl⟩,hts,rfl⟩ := ht
    have hl : (lit "\x7b").length=1 := rfl
    have hl' : (lit ":").length=1 := rfl
    simp only [List.length_append,hl,hl'] at hn
    obtain ⟨hs,hv⟩ := h (k,v) List.mem_cons_self
    have ho := (spellsStr_opens hu).append
      (w₂++(lit ":"++(w₃++(tv++(w₄++(ts++(lit "\x7d"++r)))))))
    have hmem := parseMember_spells hs hv hu hw₂ hw₃ htv (ends_blank hw₄ (ends_members hts r))
      (show tv.length+1 < n by omega)
    have hms := parseMembers_spells (fun m hm => h m (List.mem_cons_of_mem _ hm)) (r := r) (n := n)
      hw₄ hts (by omega)
    simp only [List.append_assoc]
    rw [open_eq,skipSpace_blank hw₁,ho.skip,(expect_opens ho).2]
    simp only [Option.bind_some,hmem,hms,dictOf_nodup hk]

/-- Every text of a plain value is read as that value. -/
theorem readsBack {v : Json} (hp : v.plain=true) (hi : v.intsAll intPrints=true) :
    ReadsBack float intPrints v := by
  induction v using induct with
  | null =>
    intro t r n h hr hn
    obtain ⟨n,rfl⟩ : ∃m,n=m+1 := ⟨n-1,by omega⟩
    cases h
    rfl
  | bool b =>
    intro t r n h hr hn
    obtain ⟨n,rfl⟩ : ∃m,n=m+1 := ⟨n-1,by omega⟩
    cases b <;> cases h <;> rfl
  | int k => exact readsBack_int hi
  | float f => exact readsBack_float f
  | str s => exact readsBack_str hp
  | arr xs ih =>
    rw [plain,plainItems_iff] at hp
    rw [intsAll,intsAllItems_iff] at hi
    exact readsBack_arr fun x hx => ih x hx (hp x hx) (hi x hx)
  | obj ms ih =>
    rw [plain,Bool.and_eq_true,plainMembers_iff] at hp
    rw [intsAll,intsAllMembers_iff] at hi
    exact readsBack_obj (of_decide_eq_true hp.1) fun m hm =>
      ⟨(hp.2 m hm).1,ih m hm (hp.2 m hm).2 (hi m hm)⟩

/-- json.loads reads every text of a plain value, with any white space around it. -/
theorem loadsText_spells {v : Json} (hp : v.plain=true) (hi : v.intsAll intPrints=true) {t : PyStr}
    (h : Padded (Spells float v) t) : loadsText float intPrints t=some v := by
  obtain ⟨w,u,w',hw,hu,hw',rfl⟩ := h
  have ho := (spells_opens hu).append w'
  have hr : Ends w' := by
    have := ends_blank hw' (r := []) fun c hc => by cases hc
    rwa [List.append_nil] at this
  have hv := readsBack hp hi u w' ((w++u++w').length+1) hu hr (by simp only [List.length_append]; omega)
  rw [loadsText,List.append_assoc,skipSpace_blank hw,ho.skip]
  rw [List.append_assoc] at hv
  simp only [hv,skipSpace_eq_nil hw',if_true]

end Complete

end AgentTorrent
