import AgentTorrent.Framework.Channel
import AgentTorrent.Framework.Framing

namespace Framework

/-- One direction of a byte stream: all that was written, and how much of it was read. -/
structure Pipe (α : Type*) where
  bytes : List α
  read : Nat

namespace Pipe

variable {α β ρ : Type*}

def empty : Pipe α := ⟨[],0⟩

def write (p : Pipe α) (xs : List α) : Pipe α := ⟨p.bytes++xs,p.read⟩

/-- What is left to read of the first n items. -/
def rest (p : Pipe α) (n : Nat) : List α := (p.bytes.take n).drop p.read

@[simp] theorem write_bytes (p : Pipe α) (xs : List α) : (p.write xs).bytes=p.bytes++xs := rfl

@[simp] theorem write_read (p : Pipe α) (xs : List α) : (p.write xs).read=p.read := rfl

section Lines

variable [DecidableEq α] (limit : Nat) (stop : α)

/-- The next line of a stream that ends after its first n items. -/
def nextLine (n : Nat) (p : Pipe α) : List α := (Framing.nextLine limit stop (p.rest n)).1

theorem nextLine_bound (n : Nat) (p : Pipe α) : (p.nextLine limit stop n).length ≤ limit :=
  Framing.nextLine_length limit stop _

def skipLine (n : Nat) (p : Pipe α) : Pipe α :=
  ⟨p.bytes,p.read+(p.nextLine limit stop n).length⟩

end Lines

section Carries

variable {limit : Nat} (stop : α)
  (decode : (text : List α) → text.length ≤ limit → ρ) (fails : ρ → Prop)
  (line : β → List α) (value : β → ρ)

/-- The message stands on one line, from which the reader gets its value. -/
def Readable (b : β) : Prop := ∃text,line b=text++[stop] ∧
  Framing.Reads stop decode fails text (value b)

/-- Nothing, or a beginning of a text that the reader cannot take for a whole one. -/
def Torn (tail : List α) : Prop :=
  tail=[] ∨ ∃text v m,Framing.Reads stop decode fails text v ∧ m < text.length ∧ tail=text.take m

/-- All that was written are the lines of what was put into the channel, the last of
which may not be whole, and then perhaps a torn one. -/
structure Carries (p : Pipe α) (ch : Channel β) : Prop where
  readable : ∀b∈ch.written,Readable stop decode fails line value b
  bytes : ∃tail,Torn stop decode fails tail ∧ p.bytes <+: ch.written.flatMap line++tail

/-- All that was written are whole lines. -/
def Whole (p : Pipe α) (ch : Channel β) : Prop := p.bytes=ch.written.flatMap line

/-- The reader stands behind what was taken out, or at the stop sign of the last of it. -/
def Placed (p : Pipe α) (ch : Channel β) : Prop :=
  p.read=(ch.heard.flatMap line).length ∨ p.read+1=(ch.heard.flatMap line).length

variable {stop decode fails line value} {p : Pipe α} {ch : Channel β} {b : β}

theorem carries_empty : Carries stop decode fails line value .empty .empty :=
  ⟨by simp,[],.inl rfl,List.nil_prefix⟩

theorem whole_empty : Whole line (.empty : Pipe α) .empty := rfl

theorem placed_empty : Placed line (.empty : Pipe α) .empty := .inl rfl

theorem Whole.put (h : Whole line p ch) : Whole line (p.write (line b)) (ch.put b) := by
  simpa [Whole] using h

theorem Placed.write (h : Placed line p ch) (xs : List α) : Placed line (p.write xs) ch := h

theorem Placed.put (h : Placed line p ch) (xs : List α) :
    Placed line (p.write xs) (ch.put b) := by
  simpa [Placed] using h

/-- A beginning of a line that has the whole text is as good as the line. -/
theorem Carries.put (h : Carries stop decode fails line value p ch) (hw : Whole line p ch)
    (hb : Readable stop decode fails line value b) (m : Nat) :
    Carries stop decode fails line value (p.write ((line b).take m)) (ch.put b) where
  readable c hc := by
    rcases List.mem_append.mp hc with hc | hc
    · exact h.readable c hc
    · exact List.mem_singleton.mp hc ▸ hb
  bytes := by
    refine ⟨[],.inl rfl,?_⟩
    rw [write_bytes,hw,Channel.put_written,List.flatMap_append,List.append_nil,List.flatMap_singleton]
    exact List.prefix_append_right_inj _ |>.mpr (List.take_prefix m _)

/-- A beginning of a line that lacks some of its text is torn. -/
theorem Carries.tear (h : Carries stop decode fails line value p ch) (hw : Whole line p ch)
    (hb : Readable stop decode fails line value b) {m : Nat} (hm : m+1 < (line b).length) :
    Carries stop decode fails line value (p.write ((line b).take m)) ch where
  readable := h.readable
  bytes := by
    obtain ⟨text,ht,hr⟩ := hb
    rw [ht,List.length_append,List.length_singleton] at hm
    refine ⟨text.take m,.inr ⟨text,_,m,hr,by omega,rfl⟩,?_⟩
    rw [write_bytes,hw,ht,List.take_append_of_le_length (by omega)]

/-- What is left to read, where all that was taken out was read. -/
theorem rest_prefix {xs ys : List α} (h : p.bytes <+: xs++ys) (hr : p.read=xs.length) (n : Nat) :
    p.rest n <+: ys := by
  have hd := ((List.take_prefix n _).trans h).drop p.read
  rw [hr,List.drop_left] at hd
  rw [rest,hr]
  exact hd

section Reads

variable [DecidableEq α]

/-- A read where nothing is left but what was torn fails. -/
theorem fails_of_torn (hnil : ∀h,fails (decode [] h)) {tail s : List α}
    (ht : Torn stop decode fails tail) (hs : s <+: tail) :
    fails (Framing.readNext stop decode s).1 := by
  rcases ht with rfl | ⟨text,v,m,hr,hm,rfl⟩
  · have he := List.prefix_nil.mp hs
    subst he
    have hend : Framing.nextLine limit stop []=([],[]) := Framing.nextLine_last (by simp) (by simp)
    obtain ⟨h,hread⟩ := Framing.readNext_of_nextLine decode hend
    rw [hread]
    exact hnil h
  · have hle := hs.length_le
    rw [List.length_take] at hle
    have hk : s.length < text.length := by omega
    have he : s=text.take s.length := List.prefix_iff_eq_take.mp (hs.trans (List.take_prefix m _))
    rw [he]
    exact (hr.fails_iff hk.le).mpr fun h => by omega

/-- The next read, of a whole message that is left or of a beginning of it. -/
theorem read_message (hb : Readable stop decode fails line value b) {s more : List α}
    (hs : s <+: line b++more) : fails (Framing.readNext stop decode s).1 ∨
      (Framing.readNext stop decode s).1=value b ∧
        ((Framing.nextLine limit stop s).1.length=(line b).length ∨
          (Framing.nextLine limit stop s).1.length+1=(line b).length) := by
  obtain ⟨text,ht,hr⟩ := hb
  have hlen : (line b).length=text.length+1 := by simp [ht]
  rw [ht,List.append_assoc,List.singleton_append] at hs
  rcases Nat.lt_or_ge text.length s.length with hk | hk
  · obtain ⟨s',rfl⟩ : ∃s',s=text++stop::s' := by
      obtain ⟨more',hm⟩ := hs
      have hp : text++[stop] <+: s := by
        have hfull : text++[stop] <+: text++stop::more := ⟨more,by simp⟩
        have hlong : (text++[stop]).length ≤ s.length := by simpa using Nat.succ_le_of_lt hk
        exact List.prefix_of_prefix_length_le hfull (hm ▸ List.prefix_append _ _) hlong
      obtain ⟨s',hs'⟩ := hp
      exact ⟨s',by simpa using hs'.symm⟩
    rcases Nat.lt_trichotomy text.length limit with h | h | h
    · have hline := Framing.nextLine_line hr.single h s'
      obtain ⟨hd,hread⟩ := Framing.readNext_of_nextLine decode hline
      rw [hread,hline]
      exact .inr ⟨hr.whole hd,.inl (by simp [hlen])⟩
    · -- The text is read without its stop sign, which stays behind.
      have hlong := Framing.nextLine_long hr.single h.ge (stop::s')
      rw [List.take_of_length_le h.le] at hlong
      obtain ⟨hd,hread⟩ := Framing.readNext_of_nextLine decode hlong
      rw [hread,hlong]
      exact .inr ⟨hr.bare hd,.inr hlen.symm⟩
    · obtain ⟨hd,hread⟩ := Framing.readNext_of_nextLine decode
        (Framing.nextLine_long hr.single h.le (stop::s'))
      rw [hread]
      exact .inl (hr.torn limit h hd)
  · have he : s=text.take s.length := by
      have hp : s <+: text :=
        List.prefix_of_prefix_length_le hs (List.prefix_append _ _) hk
      exact List.prefix_iff_eq_take.mp hp
    by_cases hc : s.length=text.length ∧ s.length ≤ limit
    · have hst : s=text := by rw [he,hc.1,List.take_length]
      subst hst
      have hlast := Framing.nextLine_last hr.single hc.2
      obtain ⟨hd,hread⟩ := Framing.readNext_of_nextLine decode hlast
      rw [hread,hlast]
      exact .inr ⟨hr.bare hd,.inr hlen.symm⟩
    · rw [he]
      exact .inl ((hr.fails_iff hk).mpr hc)

/-- A read fails, or it gives the oldest message that was not taken out, and the pipe
carries what is left. -/
theorem Carries.readLine (h : Carries stop decode fails line value p ch) (hp : Placed line p ch)
    (hl : 0 < limit) (hstop : ∀h,fails (decode [stop] h)) (hnil : ∀h,fails (decode [] h))
    (n : Nat) : fails (decode (p.nextLine limit stop n) (p.nextLine_bound limit stop n)) ∨
      ∃b ch',ch.take=some (b,ch') ∧
        decode (p.nextLine limit stop n) (p.nextLine_bound limit stop n)=value b ∧
        Carries stop decode fails line value (p.skipLine limit stop n) ch' ∧
        Placed line (p.skipLine limit stop n) ch' := by
  obtain ⟨tail,ht,hbytes⟩ := h.bytes
  have split : ch.written.flatMap line=
      ch.heard.flatMap line++(ch.written.drop ch.taken).flatMap line := by
    rw [Channel.heard,← List.flatMap_append,List.take_append_drop]
  rw [split,List.append_assoc] at hbytes
  rcases hp with hp | hp
  · have hrest := rest_prefix hbytes hp n
    cases hd : ch.written.drop ch.taken with
    | nil =>
      rw [hd,List.flatMap_nil,List.nil_append] at hrest
      exact .inl (fails_of_torn hnil ht hrest)
    | cons b bs =>
      have hlt : ch.taken < ch.written.length := by
        by_contra hge
        rw [List.drop_of_length_le (Nat.le_of_not_lt hge)] at hd
        cases hd
      have hget : ch.written[ch.taken]=b := by
        rw [List.drop_eq_getElem_cons hlt] at hd
        exact (List.cons.inj hd).1
      have htake : ch.take=some (b,⟨ch.written,ch.taken+1,hlt⟩) := by
        rw [Channel.take,dif_pos hlt,hget]
      obtain ⟨-,-,-,hheard⟩ := Channel.take_some htake
      rw [hd,List.flatMap_cons,List.append_assoc] at hrest
      have hb := h.readable b (hget ▸ List.getElem_mem hlt)
      rcases read_message hb hrest with hf | ⟨hv,hlen⟩
      · exact .inl hf
      · refine .inr ⟨b,_,htake,hv,⟨h.readable,h.bytes⟩,?_⟩
        rw [Placed,hheard,List.flatMap_append,List.flatMap_singleton,List.length_append,skipLine]
        dsimp only [nextLine]
        omega
  · -- The stop sign that was left behind makes the read fail.
    obtain ⟨before,hbefore⟩ : ∃before,ch.heard.flatMap line=before++[stop] := by
      rcases List.eq_nil_or_concat' ch.heard with hnone | ⟨init,b,hsome⟩
      · rw [hnone] at hp
        cases hp
      · have hb : b∈ch.heard := by simp [hsome]
        obtain ⟨text,hline,-⟩ := h.readable b (Channel.written_of_heard hb)
        exact ⟨init.flatMap line++text,by simp [hsome,hline]⟩
    rw [hbefore,List.append_assoc,List.singleton_append] at hbytes
    rw [hbefore,List.length_append,List.length_singleton] at hp
    have hrest := rest_prefix hbytes (Nat.succ.inj hp) n
    cases hs : p.rest n with
    | nil =>
      left
      have hnone : Torn stop decode fails [] := .inl rfl
      exact fails_of_torn hnil hnone (hs ▸ List.nil_prefix)
    | cons x s =>
      rw [hs] at hrest
      obtain ⟨rfl,-⟩ := List.cons_prefix_cons.mp hrest
      obtain ⟨hd,hread⟩ := Framing.readNext_of_nextLine decode
        (@Framing.nextLine_line _ _ limit x [] List.not_mem_nil hl s)
      left
      change fails (Framing.readNext x decode (p.rest n)).1
      rw [hs]
      exact hread ▸ hstop hd

end Reads

end Carries

end Pipe
end Framework
