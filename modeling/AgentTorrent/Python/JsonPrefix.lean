import AgentTorrent.Python.JsonLoads

namespace AgentTorrent

open Json

section Extend

variable {float : PyStr → PyFloat} {intPrints : Int → Bool}

theorem skipSpace_append {t : PyStr} (h : skipSpace t≠[]) (q : PyStr) :
    skipSpace (t++q)=skipSpace t++q := by
  rw [skipSpace,List.dropWhile_append]
  exact if_neg (by simpa [skipSpace] using h)

theorem expect_append {k : Nat} {t : PyStr} (h : t≠[]) (q : PyStr) :
    expect k (t++q)=(expect k t).map fun r => r++q := by
  cases t with
  | nil => exact absurd rfl h
  | cons c t =>
    rw [List.cons_append,expect,expect]
    split_ifs <;> rfl

theorem expect_skip_append {k : Nat} {t r : PyStr} (h : expect k (skipSpace t)=some r) (q : PyStr) :
    expect k (skipSpace (t++q))=some (r++q) := by
  have hne : skipSpace t≠[] := by
    intro hn
    rw [hn] at h
    cases h
  rw [skipSpace_append hne,expect_append hne,h]
  rfl

theorem scanString_append {p s r : PyStr} (h : scanString p=some (s,r)) (q : PyStr) :
    scanString (p++q)=some (s,r++q) := by
  fun_induction scanString p generalizing s r with
  | case2 c t hq =>
    cases h
    rw [List.cons_append,scanString.eq_def]
    simp only [hq,if_true]
  | case4 c hq hb e hu a b d f t ih =>
    simp only [Option.bind_eq_bind,Option.bind_eq_some_iff] at h
    obtain ⟨u,hx,⟨s',r'⟩,ht,he⟩ := h
    cases he
    simp only [List.cons_append]
    rw [scanString.eq_def]
    simp only [if_neg hq,if_pos hb,if_pos hu,hx,ih ht,Option.bind_eq_bind,Option.bind_some]
  | case6 c hq hb e t hu ih =>
    simp only [Option.bind_eq_bind,Option.bind_eq_some_iff] at h
    obtain ⟨x,hx,⟨s',r'⟩,ht,he⟩ := h
    cases he
    simp only [List.cons_append]
    rw [scanString.eq_def]
    simp only [if_neg hq,if_pos hb,if_neg hu,hx,ih ht,Option.bind_eq_bind,Option.bind_some]
  | case8 c t hq hb hc ih =>
    simp only [Option.bind_eq_bind,Option.bind_eq_some_iff] at h
    obtain ⟨⟨s',r'⟩,ht,he⟩ := h
    cases he
    rw [List.cons_append,scanString.eq_def]
    simp only [hq,hb,hc,ih ht,if_false,Option.bind_eq_bind,Option.bind_some]
  | _ => cases h

theorem parseString_append {p s r : PyStr} (h : parseString p=some (s,r)) (q : PyStr) :
    parseString (p++q)=some (s,r++q) := by
  obtain ⟨⟨us,r'⟩,hs,he⟩ := Option.map_eq_some_iff.mp h
  cases he
  rw [parseString,scanString_append hs]
  rfl

theorem eq_of_isPrefixOf? {name p r : PyStr} (h : name.isPrefixOf? p=some r) : p=name++r := by
  induction name generalizing p with
  | nil =>
    cases h
    rfl
  | cons c name ih =>
    cases p with
    | nil => cases h
    | cons d p =>
      rw [List.isPrefixOf?] at h
      split_ifs at h with he
      rw [ih h,eq_of_beq he,List.cons_append]

theorem parseScalar_constant {c : PyStr×Json} (hc : c∈constants float) (r : PyStr) :
    parseScalar float intPrints (c.1++r)=some (c.2,r) := by
  simp only [constants,List.mem_cons,List.not_mem_nil,or_false] at hc
  rcases hc with rfl | rfl | rfl | rfl | rfl | rfl <;> rfl

/-- A scalar is an integer or a float, up to the next character that no number has, or
a constant. -/
theorem parseScalar_cases {p r : PyStr} {v : Json}
    (h : parseScalar float intPrints p=some (v,r)) : v.isObj=false ∧
      ((r=p.dropWhile isNumberChar ∧ ∀q,(p++q).takeWhile isNumberChar=p.takeWhile isNumberChar →
        (p++q).dropWhile isNumberChar=r++q → parseScalar float intPrints (p++q)=some (v,r++q)) ∨
      ∃c∈constants float,v=c.2 ∧ p=c.1++r) := by
  simp only [parseScalar] at h
  split_ifs at h with hi hp hf
  · cases h
    refine ⟨rfl,.inl ⟨rfl,?_⟩⟩
    intro q hw hd
    simp only [parseScalar,hw,hd,hi,hp,if_true]
  · cases h
    refine ⟨rfl,.inl ⟨rfl,?_⟩⟩
    intro q hw hd
    simp only [parseScalar,hw,hd,if_neg hi,if_pos hf]
  · obtain ⟨c,hc,he⟩ := List.exists_of_findSome?_eq_some h
    obtain ⟨r',hp,he⟩ := Option.map_eq_some_iff.mp he
    cases he
    refine ⟨?_,.inr ⟨c,hc,rfl,eq_of_isPrefixOf? hp⟩⟩
    simp only [constants,List.mem_cons,List.not_mem_nil,or_false] at hc
    rcases hc with rfl | rfl | rfl | rfl | rfl | rfl <;> rfl

/-- What a scalar is read as, where some text follows it, does not depend on the text
that follows further on. -/
theorem parseScalar_append {p r : PyStr} {v : Json}
    (h : parseScalar float intPrints p=some (v,r)) (hr : r≠[]) (q : PyStr) :
    parseScalar float intPrints (p++q)=some (v,r++q) := by
  obtain ⟨-,⟨rfl,hn⟩ | ⟨c,hc,rfl,rfl⟩⟩ := parseScalar_cases h
  · apply hn
    · rw [List.takeWhile_append,if_neg]
      intro hl
      have := congrArg List.length (List.takeWhile_append_dropWhile (p := isNumberChar) (l := p))
      rw [List.length_append,hl] at this
      exact hr (List.eq_nil_of_length_eq_zero (by omega))
    · rw [List.dropWhile_append,if_neg (by simpa using hr)]
  · rw [List.append_assoc]
    exact parseScalar_constant hc (r++q)

/-- What each part of the parser makes of a text, it makes of every longer one, with as
much fuel or more. A scalar must be followed by something. -/
structure Extends (float : PyStr → PyFloat) (intPrints : Int → Bool) (n : Nat) : Prop where
  value : ∀{p r : PyStr} {v : Json},parseValue float intPrints n p=some (v,r) →
    (r≠[] ∨ v.isObj=true) → ∀(q : PyStr) (m : Nat),n ≤ m →
      parseValue float intPrints m (p++q)=some (v,r++q)
  items : ∀{p r : PyStr} {xs : List Json},parseItems float intPrints n p=some (xs,r) →
    ∀(q : PyStr) (m : Nat),n ≤ m → parseItems float intPrints m (p++q)=some (xs,r++q)
  member : ∀{p r : PyStr} {x : PyStr×Json},parseMember float intPrints n p=some (x,r) → r≠[] →
    ∀(q : PyStr) (m : Nat),n ≤ m → parseMember float intPrints m (p++q)=some (x,r++q)
  members : ∀{p r : PyStr} {ms : List (PyStr×Json)},parseMembers float intPrints n p=some (ms,r) →
    ∀(q : PyStr) (m : Nat),n ≤ m → parseMembers float intPrints m (p++q)=some (ms,r++q)

theorem parseValue_ne_nil {n : Nat} {p r : PyStr} {v : Json}
    (h : parseValue float intPrints n p=some (v,r)) : p≠[] := by
  intro hp
  subst hp
  cases n <;> cases h

theorem parseItems_ne_nil {n : Nat} {p r : PyStr} {xs : List Json}
    (h : parseItems float intPrints n p=some (xs,r)) : skipSpace p≠[] := by
  intro hp
  cases n with
  | zero => cases h
  | succ n =>
    rw [parseItems,hp] at h
    cases h

theorem parseMembers_ne_nil {n : Nat} {p r : PyStr} {ms : List (PyStr×Json)}
    (h : parseMembers float intPrints n p=some (ms,r)) : skipSpace p≠[] := by
  intro hp
  cases n with
  | zero => cases h
  | succ n =>
    rw [parseMembers,hp] at h
    cases h

theorem ne_nil_of_skipSpace {p : PyStr} (h : skipSpace p≠[]) : p≠[] := by
  intro hp
  subst hp
  exact h rfl

theorem parseMember_ne_nil {n : Nat} {p r : PyStr} {x : PyStr×Json}
    (h : parseMember float intPrints n p=some (x,r)) : p≠[] := by
  intro hp
  subst hp
  cases n <;> cases h

theorem expect_none_append {k : Nat} {t : PyStr} (hne : skipSpace t≠[])
    (h : expect k (skipSpace t)=none) (q : PyStr) : expect k (skipSpace (t++q))=none := by
  rw [skipSpace_append hne,expect_append hne,h]
  rfl

section Step

variable {n m : Nat} {p r : PyStr}

theorem Extends.value_succ (ih : Extends float intPrints n) {v : Json}
    (h : parseValue float intPrints (n+1) p=some (v,r)) (hr : r≠[] ∨ v.isObj=true) (q : PyStr)
    (hm : n ≤ m) : parseValue float intPrints (m+1) (p++q)=some (v,r++q) := by
  cases p with
  | nil => cases h
  | cons c t =>
    rw [parseValue] at h
    rw [List.cons_append,parseValue]
    split_ifs at h ⊢ with hq ha ho
    · obtain ⟨⟨s,r'⟩,hs,he⟩ := Option.map_eq_some_iff.mp h
      cases he
      rw [parseString_append hs]
      rfl
    · cases hx : expect 0x5d (skipSpace t) with
      | some r' =>
        rw [hx] at h
        cases h
        rw [expect_skip_append hx]
      | none =>
        rw [hx] at h
        simp only [Option.bind_eq_bind,Option.bind_eq_some_iff] at h
        obtain ⟨⟨x,r₁⟩,hv,⟨xs,r₂⟩,hxs,he⟩ := h
        cases he
        have hne := parseValue_ne_nil hv
        have h1 := ih.value hv (.inl (ne_nil_of_skipSpace (parseItems_ne_nil hxs))) q m hm
        rw [expect_none_append hne hx,skipSpace_append hne]
        simp only [Option.bind_eq_bind,h1,ih.items hxs q m hm,Option.bind_some]
    · cases hx : expect 0x7d (skipSpace t) with
      | some r' =>
        rw [hx] at h
        cases h
        rw [expect_skip_append hx]
      | none =>
        rw [hx] at h
        simp only [Option.bind_eq_bind,Option.bind_eq_some_iff] at h
        obtain ⟨⟨x,r₁⟩,hv,⟨ms,r₂⟩,hms,he⟩ := h
        cases he
        have hne := parseMember_ne_nil hv
        have h1 := ih.member hv (ne_nil_of_skipSpace (parseMembers_ne_nil hms)) q m hm
        rw [expect_none_append hne hx,skipSpace_append hne]
        simp only [Option.bind_eq_bind,h1,ih.members hms q m hm,Option.bind_some]
    · have hobj := (parseScalar_cases h).1
      exact parseScalar_append h (hr.resolve_right (by simp [hobj])) q

theorem Extends.items_succ (ih : Extends float intPrints n) {xs : List Json}
    (h : parseItems float intPrints (n+1) p=some (xs,r)) (q : PyStr) (hm : n ≤ m) :
    parseItems float intPrints (m+1) (p++q)=some (xs,r++q) := by
  have hne := parseItems_ne_nil h
  rw [parseItems] at h ⊢
  cases hx : expect 0x5d (skipSpace p) with
  | some r' =>
    rw [hx] at h
    cases h
    rw [expect_skip_append hx]
  | none =>
    rw [hx] at h
    simp only [Option.bind_eq_bind,Option.bind_eq_some_iff] at h
    obtain ⟨r₀,hc,⟨x,r₁⟩,hv,⟨xs,r₂⟩,hxs,he⟩ := h
    cases he
    have h1 := ih.value hv (.inl (ne_nil_of_skipSpace (parseItems_ne_nil hxs))) q m hm
    rw [expect_none_append hne hx,expect_skip_append hc]
    simp only [Option.bind_eq_bind,Option.bind_some,skipSpace_append (parseValue_ne_nil hv),h1,
      ih.items hxs q m hm]

theorem Extends.member_succ (ih : Extends float intPrints n) {x : PyStr×Json}
    (h : parseMember float intPrints (n+1) p=some (x,r)) (hr : r≠[]) (q : PyStr) (hm : n ≤ m) :
    parseMember float intPrints (m+1) (p++q)=some (x,r++q) := by
  have hne := parseMember_ne_nil h
  rw [parseMember] at h ⊢
  simp only [Option.bind_eq_bind,Option.bind_eq_some_iff] at h
  obtain ⟨r₀,hq,⟨k,r₁⟩,hk,r₂,hc,⟨v,r₃⟩,hv,he⟩ := h
  cases he
  rw [expect_append hne,hq]
  simp only [Option.bind_eq_bind,Option.map_some,Option.bind_some,parseString_append hk,
    expect_skip_append hc,skipSpace_append (parseValue_ne_nil hv),ih.value hv (.inl hr) q m hm]

theorem Extends.members_succ (ih : Extends float intPrints n) {ms : List (PyStr×Json)}
    (h : parseMembers float intPrints (n+1) p=some (ms,r)) (q : PyStr) (hm : n ≤ m) :
    parseMembers float intPrints (m+1) (p++q)=some (ms,r++q) := by
  have hne := parseMembers_ne_nil h
  rw [parseMembers] at h ⊢
  cases hx : expect 0x7d (skipSpace p) with
  | some r' =>
    rw [hx] at h
    cases h
    rw [expect_skip_append hx]
  | none =>
    rw [hx] at h
    simp only [Option.bind_eq_bind,Option.bind_eq_some_iff] at h
    obtain ⟨r₀,hc,⟨x,r₁⟩,hv,⟨ms,r₂⟩,hms,he⟩ := h
    cases he
    have h1 := ih.member hv (ne_nil_of_skipSpace (parseMembers_ne_nil hms)) q m hm
    rw [expect_none_append hne hx,expect_skip_append hc]
    simp only [Option.bind_eq_bind,Option.bind_some,skipSpace_append (parseMember_ne_nil hv),h1,
      ih.members hms q m hm]

end Step

theorem extends_fuel (n : Nat) : Extends float intPrints n := by
  induction n with
  | zero =>
    refine ⟨?_,?_,?_,?_⟩
    all_goals
      intro p r x h
      cases h
  | succ n ih =>
    have pred {m : Nat} (hm : n+1 ≤ m) : ∃k,n ≤ k ∧ m=k+1 := ⟨m-1,by omega⟩
    constructor
    · intro p r v h hr q m hm
      obtain ⟨k,hk,rfl⟩ := pred hm
      exact ih.value_succ h hr q hk
    · intro p r xs h q m hm
      obtain ⟨k,hk,rfl⟩ := pred hm
      exact ih.items_succ h q hk
    · intro p r x h hr q m hm
      obtain ⟨k,hk,rfl⟩ := pred hm
      exact ih.member_succ h hr q hk
    · intro p r ms h q m hm
      obtain ⟨k,hk,rfl⟩ := pred hm
      exact ih.members_succ h q hk

/-- A text that begins with a brace holds an object, if anything. -/
theorem parseValue_brace {n : Nat} {t r : PyStr} {v : Json}
    (h : parseValue float intPrints n (lit "\x7b"++t)=some (v,r)) : v.isObj=true := by
  cases n with
  | zero => cases h
  | succ n =>
    have quote : (codePoint 0x7b).val≠0x22 := by decide
    have bracket : (codePoint 0x7b).val≠0x5b := by decide
    have brace : (codePoint 0x7b).val=0x7b := rfl
    have hd : lit "\x7b"++t=codePoint 0x7b::t := rfl
    rw [hd,parseValue,if_neg quote,if_neg bracket,if_pos brace] at h
    split at h
    · cases h
      rfl
    · simp only [Option.bind_eq_bind,Option.bind_eq_some_iff] at h
      obtain ⟨m,-,ms,-,he⟩ := h
      cases he
      rfl

/-- An object that is read from the beginning of a text is what the whole text is read
as, if that is an object followed by nothing but white space. -/
theorem loadsText_append {p q : PyStr} {v : Json}
    (h : loadsText float intPrints (lit "\x7b"++p)=some v) :
    loadsText float intPrints (lit "\x7b"++p++q)=if skipSpace q=[] then some v else none := by
  have skip (t : PyStr) : skipSpace (lit "\x7b"++t)=lit "\x7b"++t := skipSpace_cons rfl t
  rw [loadsText,skip] at h
  split at h
  · rename_i w r hw
    split_ifs at h with hr
    cases h
    have hq := (extends_fuel _).value hw (.inr (parseValue_brace hw)) q
      ((lit "\x7b"++p++q).length+1) (by simp only [List.length_append]; omega)
    have hb : Blank r := fun c hc => by
      have := List.dropWhile_eq_nil_iff.mp hr c hc
      exact this
    rw [loadsText,List.append_assoc,skip,← List.append_assoc,hq]
    simp only [skipSpace_blank hb]
  · cases h

theorem ascii_brace : ascii "\x7d"=[0x7d] := by decide

/-- No proper beginning of a text between braces is itself a text. -/
theorem loadsText_cut {text inner : Bytes} {v : Json}
    (ht : text=ascii "\x7b"++inner++ascii "\x7d")
    (hr : loadsText float intPrints (ofAscii text)=some v) {n : Nat} (hn : n < text.length) :
    loadsText float intPrints (ofAscii (text.take n))=none := by
  cases n with
  | zero => rfl
  | succ n =>
    have hb : text=0x7b::(inner++ascii "\x7d") := by
      rw [ht,List.append_assoc]
      rfl
    cases hp : loadsText float intPrints (ofAscii (text.take (n+1))) with
    | none => rfl
    | some w =>
      exfalso
      have hcut : ofAscii (text.take (n+1))=lit "\x7b"++ofAscii ((inner++ascii "\x7d").take n) := by
        rw [hb]
        rfl
      have hsplit : ofAscii text=ofAscii (text.take (n+1))++ofAscii (text.drop (n+1)) := by
        rw [← ofAscii_append,List.take_append_drop]
      rw [hcut] at hp
      have hq := loadsText_append (q := ofAscii (text.drop (n+1))) hp
      rw [← hcut,← hsplit,hr] at hq
      split_ifs at hq with hblank
      -- What was cut off ends in the closing brace, which is no white space.
      have hl : n+1 ≤ (0x7b::inner).length := by
        have hlen := congrArg List.length hb
        simp only [List.length_cons,List.length_append,ascii_brace,List.length_nil] at hlen ⊢
        omega
      have hmem : (0x7d : UInt8)∈text.drop (n+1) := by
        have hlast : text=(0x7b::inner)++[0x7d] := hb
        rw [hlast,List.drop_append_of_le_length hl]
        exact List.mem_append_right _ List.mem_cons_self
      have := List.dropWhile_eq_nil_iff.mp hblank _ (List.mem_map_of_mem hmem)
      cases this

end Extend

end AgentTorrent
