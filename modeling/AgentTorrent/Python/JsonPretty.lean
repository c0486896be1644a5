import AgentTorrent.Python.JsonPrefix

namespace AgentTorrent

theorem Blank.append {w w' : PyStr} (hw : Blank w) (hw' : Blank w') : Blank (w++w') := by
  intro c hc
  rcases List.mem_append.mp hc with hc | hc
  · exact hw c hc
  · exact hw' c hc

theorem Padded.trail {S : PyStr → Prop} {t w : PyStr} (h : Padded S t) (hw : Blank w) :
    Padded S (t++w) := by
  obtain ⟨l,u,r,hl,hu,hr,rfl⟩ := h
  exact ⟨l,u,r++w,hl,hu,hr.append hw,by simp⟩

namespace Json

/-- A line break and the indentation of the given level. -/
def newlineIndent (level : Nat) : Bytes := 0x0a::List.replicate (2*level) 0x20

mutual

/-- json.dumps(v, indent=2) of a value that begins at the given level. -/
def pretty (level : Nat) : Json → Bytes
  | .null => ascii "null"
  | .bool true => ascii "true"
  | .bool false => ascii "false"
  | .int n => renderInt n
  | .float f => f.repr
  | .str s => renderStr s
  | .arr [] => ascii "[]"
  | .arr (x::xs) => ascii "["++newlineIndent (level+1)++pretty (level+1) x++
      prettyItems (level+1) xs++newlineIndent level++ascii "]"
  | .obj [] => ascii "\x7b\x7d"
  | .obj ((k,v)::ms) => ascii "\x7b"++newlineIndent (level+1)++renderStr k++ascii ": "++
      pretty (level+1) v++prettyMembers (level+1) ms++newlineIndent level++ascii "\x7d"

def prettyItems (level : Nat) : List Json → Bytes
  | [] => []
  | x::xs => ascii ","++newlineIndent level++pretty level x++prettyItems level xs

def prettyMembers (level : Nat) : List (PyStr×Json) → Bytes
  | [] => []
  | (k,v)::ms => ascii ","++newlineIndent level++renderStr k++ascii ": "++pretty level v++
      prettyMembers level ms

end

/-- json.dumps(v, indent=2) -/
def dumpsIndent (v : Json) : Bytes := v.pretty 0

example : dumpsIndent (.obj [(lit "a",.arr [.int 1,.obj []]),(lit "b",.arr [])])=
    ascii "\x7b\n  \"a\": [\n    1,\n    \x7b\x7d\n  ],\n  \"b\": []\n\x7d" := by rfl

section Absorb

variable {float : PyStr → PyFloat} {w : PyStr}

theorem blank_newlineIndent (level : Nat) : Blank (ofAscii (newlineIndent level)) := by
  intro c hc
  obtain ⟨b,hb,rfl⟩ := List.mem_map.mp hc
  rcases List.mem_cons.mp hb with rfl | hb
  · rfl
  · obtain rfl := List.eq_of_mem_replicate hb
    rfl

/-- White space behind the last item belongs to that item. -/
theorem items_trail (hw : Blank w) {x : Json} {xs : List Json} {a ts : PyStr}
    (ha : Padded (Spells float x) a) (hts : SpellsItems float xs ts) :
    ∃a' ts',Padded (Spells float x) a' ∧ SpellsItems float xs ts' ∧ a++ts++w=a'++ts' := by
  induction xs generalizing x a ts with
  | nil =>
    cases hts
    exact ⟨a++w,[],ha.trail hw,rfl,by simp⟩
  | cons y ys ih =>
    obtain ⟨b,us,hb,hus,rfl⟩ := hts
    obtain ⟨b',us',hb',hus',he⟩ := ih hb hus
    refine ⟨a,lit ","++b'++us',ha,⟨b',us',hb',hus',rfl⟩,?_⟩
    simp only [List.append_assoc] at he ⊢
    rw [he]

theorem members_trail (hw : Blank w) {v : Json} {ms : List (PyStr×Json)} {b ts : PyStr}
    (hb : Padded (Spells float v) b) (hts : SpellsMembers float ms ts) :
    ∃b' ts',Padded (Spells float v) b' ∧ SpellsMembers float ms ts' ∧ b++ts++w=b'++ts' := by
  induction ms generalizing v b ts with
  | nil =>
    cases hts
    exact ⟨b++w,[],hb.trail hw,rfl,by simp⟩
  | cons m ms ih =>
    obtain ⟨k,v'⟩ := m
    obtain ⟨c,d,us,hc,hd,hus,rfl⟩ := hts
    obtain ⟨d',us',hd',hus',he⟩ := ih hd hus
    refine ⟨b,lit ","++c++lit ":"++d'++us',hb,⟨c,d',us',hc,hd',hus',rfl⟩,?_⟩
    simp only [List.append_assoc] at he ⊢
    rw [he]

end Absorb

section Reading

variable {float : PyStr → PyFloat} (hf : ∀f : PyFloat,f.isFinite=true → float (ofAscii f.repr)=f)
include hf

/-- Indented printing gives a text of the value: the line breaks are white space between
the tokens. -/
theorem spells_pretty {v : Json} (hp : v.plain=true) (level : Nat) :
    Spells float v (ofAscii (v.pretty level)) := by
  have hc : ofAscii (ascii ": ")=lit ":"++lit " " := rfl
  have hs : Blank (lit " ") := by
    intro c hc
    obtain rfl := List.mem_singleton.mp hc
    rfl
  induction v using induct generalizing level with
  | null => rfl
  | bool b => cases b <;> rfl
  | int n => rfl
  | float f => exact ⟨hp,hf f hp⟩
  | str s => exact spellsStr_renderStr s
  | arr xs ih =>
    rw [plain,plainItems_iff] at hp
    have items (ys : List Json) (hys : ys⊆xs) :
        SpellsItems float ys (ofAscii (prettyItems (level+1) ys)) := by
      induction ys with
      | nil => rfl
      | cons y ys ihy =>
        have hy := hys (List.mem_cons_self ..)
        refine ⟨_,_,.after (blank_newlineIndent (level+1)) (ih y hy (hp y hy) (level+1)),
          ihy fun z hz => hys (.tail _ hz),?_⟩
        simp only [prettyItems,ofAscii_append,List.append_assoc]
        rfl
    cases xs with
    | nil => exact ⟨[],blank_nil,rfl⟩
    | cons x xs =>
      have hx := Padded.after (blank_newlineIndent (level+1)) (ih x (by simp) (hp x (by simp)) (level+1))
      obtain ⟨a,ts,ha,hts,he⟩ := items_trail (blank_newlineIndent level) hx (items xs (by simp))
      refine ⟨a,ts,ha,hts,?_⟩
      rw [List.append_assoc (lit "["),← he]
      simp only [pretty,ofAscii_append,List.append_assoc]
      rfl
  | obj ms ih =>
    rw [plain,Bool.and_eq_true,plainMembers_iff] at hp
    have members (ns : List (PyStr×Json)) (hns : ns⊆ms) :
        SpellsMembers float ns (ofAscii (prettyMembers (level+1) ns)) := by
      induction ns with
      | nil => rfl
      | cons n ns ihn =>
        obtain ⟨k,v⟩ := n
        have hn := hns (List.mem_cons_self ..)
        refine ⟨_,_,_,.after (blank_newlineIndent (level+1)) (spellsStr_renderStr k),
          .after hs (ih _ hn (hp.2 _ hn).2 (level+1)),ihn fun m hm => hns (.tail _ hm),?_⟩
        simp only [prettyMembers,ofAscii_append,hc,List.append_assoc]
        rfl
    cases ms with
    | nil => exact ⟨[],blank_nil,rfl⟩
    | cons m ms =>
      obtain ⟨k,v⟩ := m
      have hm := List.mem_cons_self (a := (k,v)) (l := ms)
      have hv := Padded.after hs (ih _ hm (hp.2 _ hm).2 (level+1))
      obtain ⟨b,ts,hb,hts,he⟩ := members_trail (blank_newlineIndent level) hv (members ms (by simp))
      refine ⟨_,b,ts,.after (blank_newlineIndent (level+1)) (spellsStr_renderStr k),hb,hts,?_⟩
      simp only [pretty,ofAscii_append,hc,List.append_assoc] at he ⊢
      rw [← List.append_assoc b,← he]
      simp only [List.append_assoc]
      rfl

variable {intPrints : Int → Bool}

/-- What indented printing wrote is read back as the same value. -/
theorem loadsText_dumpsIndent {v : Json} (hp : v.plain=true) (hi : v.intsAll intPrints=true) :
    loadsText float intPrints (ofAscii v.dumpsIndent)=some v :=
  loadsText_spells hp hi (.of (spells_pretty hf hp 0))

/-- Of a dict that was printed, no part that a write leaves behind is read as anything. -/
theorem loadsText_dumpsIndent_cut {ms : List (PyStr×Json)} (hp : (Json.obj ms).plain=true)
    (hi : (Json.obj ms).intsAll intPrints=true) {n : Nat}
    (hn : n < (Json.obj ms).dumpsIndent.length) :
    loadsText float intPrints (ofAscii ((Json.obj ms).dumpsIndent.take n))=none := by
  have braces : ∃inner,(Json.obj ms).dumpsIndent=ascii "\x7b"++inner++ascii "\x7d" := by
    cases ms with
    | nil => exact ⟨[],rfl⟩
    | cons m ms => exact ⟨_,rfl⟩
  obtain ⟨inner,hb⟩ := braces
  exact loadsText_cut hb (loadsText_dumpsIndent hf hp hi) hn

end Reading

end Json
end AgentTorrent
