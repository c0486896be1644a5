import Mathlib.Data.List.Basic
import Mathlib.Data.List.Infix

namespace Framework.Framing

section Lines

variable {α : Type*} [DecidableEq α] (limit : Nat) (stop : α)

/-- The next line of a stream with its stop sign, or the first items of a longer one, or
what is left at the end; and the stream behind it. -/
def nextLine (s : List α) : List α×List α :=
  s.splitAt (min limit ((s.takeWhile fun x => x≠stop).length+1))

theorem nextLine_length (s : List α) : (nextLine limit stop s).1.length ≤ limit := by
  simp only [nextLine,List.splitAt_eq,List.length_take]
  omega

variable {limit stop} {t : List α}

theorem takeWhile_text (ht : stop∉t) (s : List α) :
    (t++s).takeWhile (fun x => x≠stop)=t++s.takeWhile fun x => x≠stop :=
  List.takeWhile_append_of_pos fun _ hx => decide_eq_true fun he => ht (he ▸ hx)

theorem nextLine_line (ht : stop∉t) (hl : t.length < limit) (s : List α) :
    nextLine limit stop (t++stop::s)=(t++[stop],s) := by
  have hw : (t++stop::s).takeWhile (fun x => x≠stop)=t := by
    rw [takeWhile_text ht]
    simp
  have hk : min limit (t.length+1)=(t++[stop]).length := by
    rw [List.length_append,List.length_singleton]
    omega
  rw [nextLine,hw,hk,List.splitAt_eq,List.append_cons t stop s,List.take_left,
    List.drop_left]

/-- A text that reaches the limit is cut there, and its stop sign stays in the stream. -/
theorem nextLine_long (ht : stop∉t) (hl : limit ≤ t.length) (s : List α) :
    nextLine limit stop (t++s)=(t.take limit,t.drop limit++s) := by
  have hk : min limit (((t++s).takeWhile fun x => x≠stop).length+1)=limit := by
    rw [takeWhile_text ht,List.length_append]
    omega
  rw [nextLine,hk,List.splitAt_eq,List.take_append_of_le_length hl,List.drop_append_of_le_length hl]

theorem nextLine_last (ht : stop∉t) (hl : t.length ≤ limit) : nextLine limit stop t=(t,[]) := by
  have hw := takeWhile_text ht []
  rw [List.append_nil,List.takeWhile_nil,List.append_nil] at hw
  have hk : t.length ≤ min limit (t.length+1) := by omega
  rw [nextLine,hw,List.splitAt_eq,List.take_of_length_le hk,List.drop_of_length_le hk]

end Lines

section Stream

variable {α β ρ : Type*} [DecidableEq α] {limit : Nat} (stop : α)
  (decode : (text : List α) → text.length ≤ limit → ρ) (fails : ρ → Prop)

/-- Reads one line: what the reader makes of it, and the stream behind it. -/
def readNext (s : List α) : ρ×List α :=
  (decode (nextLine limit stop s).1 (nextLine_length limit stop s),(nextLine limit stop s).2)

/-- The text of a message on one line. The reader takes it with or without its stop sign,
and fails on any proper beginning of it. -/
structure Reads (text : List α) (v : ρ) : Prop where
  fine : ¬fails v
  single : stop∉text
  whole : ∀h,decode (text++[stop]) h=v
  bare : ∀h,decode text h=v
  torn : ∀n,n < text.length → ∀h,fails (decode (text.take n) h)

/-- The reads that follow give these messages, and the one behind them fails. -/
def Delivers (next : List α → ρ×List α) (value : β → ρ) : List β → List α → Prop
  | [],s => fails (next s).1
  | b::bs,s => (next s).1=value b ∧ Delivers next value bs (next s).2

variable (limit) (line : β → List α)

/-- The messages whose whole line lies before the cut. -/
def complete : List β → Nat → List β
  | [],_ => []
  | b::bs,cut => if cut < (line b).length then [] else b::complete bs (cut-(line b).length)

/-- No line is longer than the limit but the last complete one, by its stop sign alone,
and the stream does not end between a text and its stop sign, unless it then follows
such a line. -/
def SafeCut : List β → Nat → Prop
  | [],_ => True
  | b::bs,cut =>
    if cut < (line b).length then ¬(cut+1=(line b).length ∧ cut ≤ limit)
    else if (line b).length ≤ limit then SafeCut bs (cut-(line b).length)
    else (line b).length=limit+1 ∧ complete line bs (cut-(line b).length)=[]

variable {limit stop decode fails line} {text : List α} {v : ρ}

variable (decode) in
theorem readNext_of_nextLine {s t r : List α} (h : nextLine limit stop s=(t,r)) :
    ∃hl,readNext stop decode s=(decode t hl,r) := by
  have ht : (nextLine limit stop s).1=t := congrArg Prod.fst h
  have hr : (nextLine limit stop s).2=r := congrArg Prod.snd h
  subst ht hr
  exact ⟨nextLine_length limit stop s,rfl⟩

/-- The read of what is left of a line fails, unless it is the whole text. -/
theorem Reads.fails_iff (f : Reads stop decode fails text v) {cut : Nat}
    (h : cut ≤ text.length) : fails (readNext stop decode (text.take cut)).1 ↔
      ¬(cut=text.length ∧ cut ≤ limit) := by
  have hs : stop∉text.take cut := fun hm => f.single (List.mem_of_mem_take hm)
  have hn : ∃r,nextLine limit stop (text.take cut)=(text.take (min limit cut),r) := by
    rcases Nat.le_total cut limit with hc | hc
    · rw [nextLine_last hs (by simp; omega),Nat.min_eq_right hc]
      exact ⟨_,rfl⟩
    · have hlong : nextLine limit stop (text.take cut++[])=_ := nextLine_long hs (by simp; omega) []
      rw [List.append_nil] at hlong
      rw [hlong,List.take_take]
      exact ⟨_,rfl⟩
  obtain ⟨r,hn⟩ := hn
  obtain ⟨hl,hread⟩ := readNext_of_nextLine decode hn
  rw [hread]
  constructor
  · intro hf hc
    have ht : text.take (min limit cut)=text := by
      rw [Nat.min_eq_right hc.2,hc.1,List.take_length]
    simp only [ht] at hf
    exact f.fine (f.bare (ht ▸ hl) ▸ hf)
  · intro hc
    exact f.torn _ (by omega) hl

omit [DecidableEq α] in
theorem take_line (t s : List α) {cut : Nat} (h : (t++[stop]).length ≤ cut) :
    (t++[stop]++s).take cut=t++stop::s.take (cut-(t++[stop]).length) := by
  rw [List.take_append,List.take_of_length_le h,List.append_assoc]
  rfl

omit [DecidableEq α] in
theorem complete_subset {bs : List β} {cut : Nat} : complete line bs cut ⊆ bs := by
  induction bs generalizing cut with
  | nil => exact List.Subset.refl _
  | cons b bs ih =>
    rw [complete]
    split_ifs
    · exact List.nil_subset _
    · exact List.cons_subset_cons b ih

variable {value : β → ρ}

/-- Reading a cut stream gives the complete messages and then fails, exactly where the
cut is safe. -/
theorem delivers_iff (hl : 0 < limit) (hstop : ∀h,fails (decode [stop] h))
    (hnil : ∀h,fails (decode [] h)) {bs : List β}
    (hb : ∀b∈bs,∃text,line b=text++[stop] ∧ Reads stop decode fails text (value b)) (cut : Nat) :
    Delivers fails (readNext stop decode) value (complete line bs cut)
      ((bs.flatMap line).take cut) ↔ SafeCut limit line bs cut := by
  induction bs generalizing cut with
  | nil =>
    have hend : nextLine limit stop []=([],[]) := nextLine_last (by simp) (by simp)
    obtain ⟨h,hs⟩ := readNext_of_nextLine decode hend
    simp [complete,Delivers,SafeCut,hs,hnil]
  | cons b bs ih =>
    obtain ⟨text,ht,f⟩ := hb b List.mem_cons_self
    have ih := ih fun c hc => hb c (List.mem_cons_of_mem b hc)
    have hlen : (line b).length=text.length+1 := by simp [ht]
    rw [complete,SafeCut,List.flatMap_cons]
    by_cases hc : cut < (line b).length
    · have hs : (line b++bs.flatMap line).take cut=text.take cut := by
        rw [List.take_append_of_le_length hc.le,ht,List.take_append_of_le_length (by omega)]
      rw [if_pos hc,if_pos hc,hs,Delivers,f.fails_iff (by omega),hlen,Nat.add_right_cancel_iff]
    · have hs := take_line text (bs.flatMap line) (ht ▸ Nat.le_of_not_lt hc)
      rw [← ht] at hs
      rw [if_neg hc,if_neg hc,hs,Delivers]
      rcases Nat.lt_trichotomy text.length limit with h | h | h
      · obtain ⟨hd,hread⟩ := readNext_of_nextLine decode
          (nextLine_line f.single h ((bs.flatMap line).take (cut-(line b).length)))
        rw [if_pos (by omega),hread,f.whole hd,ih]
        simp
      · -- The text is read without its stop sign, which then makes the next read fail.
        have hlong := nextLine_long f.single h.ge
          (stop::(bs.flatMap line).take (cut-(line b).length))
        rw [List.take_of_length_le h.le,List.drop_of_length_le h.le,List.nil_append] at hlong
        obtain ⟨hd,hread⟩ := readNext_of_nextLine decode hlong
        have hnext : nextLine limit stop (stop::(bs.flatMap line).take (cut-(line b).length))=
            ([stop],(bs.flatMap line).take (cut-(line b).length)) :=
          nextLine_line List.not_mem_nil hl _
        obtain ⟨hd',hread'⟩ := readNext_of_nextLine decode hnext
        rw [if_neg (by omega),hread,f.bare hd]
        cases hcs : complete line bs (cut-(line b).length) with
        | nil =>
          rw [Delivers,hread']
          simpa [hlen,h] using hstop hd'
        | cons c cs =>
          have hc := complete_subset (hcs ▸ List.mem_cons_self)
          obtain ⟨text',-,g⟩ := hb c (List.mem_cons_of_mem b hc)
          have hg : decode [stop] hd'≠value c := fun he => g.fine (he ▸ hstop hd')
          rw [Delivers,hread']
          simp [hg]
      · obtain ⟨hd,hread⟩ := readNext_of_nextLine decode
          (nextLine_long f.single h.le (stop::(bs.flatMap line).take (cut-(line b).length)))
        have hf : decode (text.take limit) hd≠value b :=
          fun he => f.fine (he ▸ f.torn limit h hd)
        rw [if_neg (by omega),hread]
        simp [hf,hlen,h.ne']

end Stream
end Framework.Framing
