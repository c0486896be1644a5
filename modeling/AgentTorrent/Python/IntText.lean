import Mathlib.Algebra.Order.Ring.Int
import AgentTorrent.Python.JsonLoads
import AgentTorrent.Python.Platform

namespace AgentTorrent

variable (P : Platform)

/-- The value of a decimal digit of any script. -/
def digitValue (c : CodePoint) : Option Nat :=
  if isDigit c then some (c.val-0x30) else if c.val<128 then none else P.decimal c

/-- White space that int() skips. Of ASCII it is less than what strip() removes. -/
def isIntSpace (c : CodePoint) : Bool :=
  (9 ≤ c.val && c.val≤13) || c.val=0x20 || (128 ≤ c.val && isSpace c)

/-- Digits with single underscores between them. A digit is due at the start and after
an underscore. -/
def readDigits : Bool → PyStr → Option (List Nat)
  | due,[] => if due then none else some []
  | due,c::cs =>
    if c.val=0x5f then if due then none else readDigits true cs
    else match digitValue P c with
      | none => none
      | some d => (readDigits false cs).map (d::·)

def ofDigits (ds : List Nat) : Nat := ds.foldl (fun n d => 10*n+d) 0

/-- int(s), none for a ValueError. It reads at most as many digits as str() prints. -/
def pyInt (s : PyStr) : Option Int :=
  let t := (s.dropWhile isIntSpace).rdropWhile isIntSpace
  let minus := t.head?.any fun c => c.val=0x2d
  let signed := t.head?.any fun c => c.val=0x2d || c.val=0x2b
  (readDigits P true (if signed then t.tail else t)).bind fun ds =>
    if P.intPrints (10^(ds.length-1)) then
      some (if minus then -(ofDigits ds : Int) else ofDigits ds)
    else none

variable {P}

theorem isIntSpace_digit {c : CodePoint} (h : isDigit c=true) : isIntSpace c=false := by
  simp only [isDigit,Bool.and_eq_true,decide_eq_true_eq] at h
  have h1 : ¬(c.val≤13) := by omega
  have h2 : ¬(c.val=0x20) := by omega
  have h3 : ¬(128 ≤ c.val) := by omega
  simp [isIntSpace,h1,h2,h3]

theorem readDigits_digits (due : Bool) {t : PyStr} (ht : t≠[] ∨ due=false)
    (hd : ∀c∈t,isDigit c=true) : readDigits P due t=some (t.map fun c => c.val-0x30) := by
  induction t generalizing due with
  | nil =>
    have hf : due=false := ht.resolve_left fun h => h rfl
    rw [hf]
    rfl
  | cons c t ih =>
    have hc := hd c List.mem_cons_self
    have hu : c.val≠0x5f := by
      simp only [isDigit,Bool.and_eq_true,decide_eq_true_eq] at hc
      omega
    rw [readDigits,if_neg hu,digitValue,if_pos hc]
    dsimp only
    rw [ih false (.inr rfl) fun d hm => hd d (List.mem_cons_of_mem c hm)]
    rfl

theorem ofDigits_natOf (t : PyStr) : ofDigits (t.map fun c => c.val-0x30)=natOf t := by
  rw [ofDigits,natOf,List.foldl_map]

/-- Text that is all digits is read as its number, unless it is too long. -/
theorem pyInt_digits {t : PyStr} (ht : t≠[]) (hd : ∀c∈t,isDigit c=true) :
    pyInt P t=if P.intPrints (10^(t.length-1)) then some (natOf t : Int) else none := by
  have space (c : CodePoint) (hc : c∈t) : isIntSpace c=false := isIntSpace_digit (hd c hc)
  have hl : t.dropWhile isIntSpace=t := by
    cases t with
    | nil => rfl
    | cons c t => rw [List.dropWhile_cons,space c List.mem_cons_self]; rfl
  have hr : t.rdropWhile isIntSpace=t := by
    rw [List.rdropWhile_eq_self_iff]
    intro h
    rw [space _ (List.getLast_mem h)]
    exact Bool.false_ne_true
  have sign (x : Nat) (hx : x<0x30) : (t.head?.any fun c => c.val=x)=false := by
    cases t with
    | nil => rfl
    | cons c t =>
      have hc := hd c List.mem_cons_self
      simp only [isDigit,Bool.and_eq_true,decide_eq_true_eq] at hc
      simp
      omega
  have hm := sign 0x2d (by decide)
  have hs : (t.head?.any fun c => c.val=0x2d || c.val=0x2b)=false := by
    have hp := sign 0x2b (by decide)
    cases t with
    | nil => rfl
    | cons c t =>
      simp only [List.head?_cons,Option.any_some,decide_eq_false_iff_not] at hm hp ⊢
      simp [hm,hp]
  simp only [pyInt,hl,hr,hm,hs,Bool.false_eq_true,if_false,readDigits_digits true (.inl ht) hd,
    Option.bind_some,List.length_map,ofDigits_natOf]

theorem pow_renderNat {n : Nat} (hn : 0 < n) :
    10^((ofAscii (Json.renderNat n)).length-1) ≤ n := by
  induction n using Nat.strong_induction_on with
  | _ n ih =>
    rcases Nat.lt_or_ge n 10 with h | h
    · rw [renderNat_small h]
      exact hn
    · have hd := ih (n/10) (by omega) (by omega)
      have hl : 0 < (ofAscii (Json.renderNat (n/10))).length := by
        obtain ⟨-,-,c,t,ht,-⟩ := renderNat_digits (n/10)
        rw [ht]
        exact Nat.succ_pos _
      rw [renderNat_large h,List.length_append,List.length_singleton,Nat.add_sub_cancel]
      calc 10^(ofAscii (Json.renderNat (n/10))).length
          = 10*10^((ofAscii (Json.renderNat (n/10))).length-1) := by
            rw [← Nat.pow_succ',Nat.succ_eq_add_one,Nat.sub_add_cancel hl]
        _ ≤ 10*(n/10) := Nat.mul_le_mul_left 10 hd
        _ ≤ n := Nat.mul_div_le n 10

/-- The text of a positive integer is digits. -/
theorem intText_digits {n : Int} (hn : 0 < n) : Json.intText n≠[] ∧
    (∀c∈Json.intText n,isDigit c=true) ∧ (natOf (Json.intText n) : Int)=n ∧
    10^((Json.intText n).length-1) ≤ n.natAbs := by
  cases n with
  | ofNat n =>
    have hpos : 0 < n := by simpa using hn
    have ht : Json.intText (.ofNat n)=ofAscii (Json.renderNat n) := rfl
    obtain ⟨hd,hv,c,t,he,-⟩ := renderNat_digits n
    refine ⟨?_,ht ▸ hd,?_,?_⟩
    · rw [ht,he]
      exact List.cons_ne_nil _ _
    · rw [ht,hv]
      rfl
    · rw [ht]
      exact pow_renderNat hpos
  | negSucc n => exact absurd hn (by simp)

/-- int() reads what str() printed, where no number with fewer digits fails to print. -/
theorem pyInt_intText (hfewer : ∀m n : Int,m.natAbs ≤ n.natAbs → P.intPrints n=true →
    P.intPrints m=true) {n : Int} (hn : 0 < n) (hp : P.intPrints n=true) :
    pyInt P (Json.intText n)=some n := by
  obtain ⟨ht,hd,hv,hl⟩ := intText_digits hn
  have hlimit : P.intPrints (10^((Json.intText n).length-1))=true := by
    refine hfewer _ n ?_ hp
    rw [Int.natAbs_pow]
    exact hl
  rw [pyInt_digits ht hd,if_pos hlimit,hv]

end AgentTorrent
