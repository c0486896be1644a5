import Mathlib.Data.List.Induction
import Mathlib.Data.List.Sort

namespace Framework

/-- A table of rows, each under its own key, in the order of first insertion. -/
@[ext] structure Table {ρ κ : Type*} (key : ρ → κ) where
  rows : List ρ
  nodup : (rows.map key).Nodup

namespace Table

variable {ρ κ : Type*} {key : ρ → κ}

def empty : Table key := ⟨[],List.nodup_nil⟩

def keep (p : ρ → Bool) (t : Table key) : Table key where
  rows := t.rows.filter p
  nodup := t.nodup.sublist (List.filter_sublist.map key)

section Sorted

variable [LinearOrder κ]

/-- The rows in ascending key order. -/
def sorted (t : Table key) : List ρ := t.rows.insertionSort fun a b => key a ≤ key b

theorem mem_sorted (t : Table key) (r : ρ) : r∈t.sorted ↔ r∈t.rows := List.mem_insertionSort _

theorem sorted_le (t : Table key) : t.sorted.Pairwise fun a b => key a ≤ key b := by
  have : Std.Total fun a b : ρ => key a ≤ key b := ⟨fun a b => le_total (key a) (key b)⟩
  have : IsTrans ρ fun a b => key a ≤ key b := ⟨fun _ _ _ h g => le_trans h g⟩
  exact List.pairwise_insertionSort _ t.rows

theorem sorted_lt (t : Table key) : (t.sorted.map key).Pairwise (·<·) := by
  have hn : (t.sorted.map key).Nodup :=
    ((List.perm_insertionSort _ t.rows).map key).nodup_iff.mpr t.nodup
  have hle : (t.sorted.map key).Pairwise (·≤·) := List.pairwise_map.mpr t.sorted_le
  exact (hle.and hn).imp fun h => lt_of_le_of_ne h.1 h.2

/-- Two tables with the same rows, in whatever order, list them alike. -/
theorem sorted_congr {s t : Table key} (h : ∀r,r∈s.rows ↔ r∈t.rows) : s.sorted=t.sorted := by
  apply List.Perm.eq_of_pairwise _ s.sorted_le t.sorted_le
  · have hp : s.rows.Perm t.rows :=
      (List.perm_ext_iff_of_nodup s.nodup.of_map t.nodup.of_map).mpr h
    exact (List.perm_insertionSort _ _).trans
      (hp.trans (List.perm_insertionSort _ _).symm)
  · intro a b ha hb hab hba
    exact List.inj_on_of_nodup_map s.nodup ((s.mem_sorted a).mp ha)
      ((h b).mpr ((t.mem_sorted b).mp hb)) (le_antisymm hab hba)

end Sorted

variable [DecidableEq κ]

def find (t : Table key) (k : κ) : Option ρ := t.rows.find? fun r => key r=k

/-- Assignment under the row's key: a row with that key is replaced in place. -/
def putRow (key : ρ → κ) (r : ρ) : List ρ → List ρ
  | [] => [r]
  | s::rs => if key s=key r then r::rs else s::putRow key r rs

theorem putRow_keys (r : ρ) (rs : List ρ) :
    (putRow key r rs).map key=
      if key r∈rs.map key then rs.map key else rs.map key++[key r] := by
  induction rs with
  | nil => simp [putRow]
  | cons s rs ih =>
    by_cases h : key s=key r
    · simp [putRow,h]
    · have hr : key r≠key s := fun e => h e.symm
      by_cases hm : key r∈rs.map key
      · simp only [putRow,h,if_false,List.map_cons,ih,hm,if_true,List.mem_cons,or_true]
      · simp only [putRow,h,if_false,List.map_cons,ih,hm,List.mem_cons,hr,or_self,
          List.cons_append]

def put (r : ρ) (t : Table key) : Table key where
  rows := putRow key r t.rows
  nodup := by
    rw [putRow_keys]
    split_ifs with h
    · exact t.nodup
    · exact List.nodup_append.mpr ⟨t.nodup,List.nodup_singleton _,by
        intro a ha b hb e
        rw [List.mem_singleton.mp hb] at e
        exact h (e ▸ ha)⟩

@[simp] theorem find_empty (k : κ) : (empty : Table key).find k=none := rfl

theorem find_putRow (r : ρ) (rs : List ρ) (k : κ) :
    (putRow key r rs).find? (fun s => key s=k)=
      if key r=k then some r else rs.find? fun s => key s=k := by
  induction rs with
  | nil => by_cases hk : key r=k <;> simp [putRow,hk]
  | cons s rs ih =>
    by_cases h : key s=key r
    · by_cases hk : key r=k <;> simp [putRow,h,hk]
    · by_cases hs : key s=k
      · have hk : key r≠k := fun e => h (hs.trans e.symm)
        simp [putRow,hs,hk,Ne.symm hk]
      · simp only [putRow,h,if_false,List.find?_cons,hs,decide_false,ih]

@[simp] theorem find_put (r : ρ) (t : Table key) (k : κ) :
    (t.put r).find k=if key r=k then some r else t.find k := find_putRow r t.rows k

theorem find_eq_some_iff (t : Table key) (k : κ) (r : ρ) :
    t.find k=some r ↔ r∈t.rows ∧ key r=k := by
  constructor
  · intro h
    exact ⟨List.mem_of_find?_eq_some h,by simpa using List.find?_some h⟩
  · intro hh
    obtain ⟨hr,rfl⟩ := hh
    cases hf : t.find (key r) with
    | none => simpa using List.find?_eq_none.mp hf r hr
    | some s =>
      have hs : s∈t.rows := List.mem_of_find?_eq_some hf
      have hk : key s=key r := by simpa using List.find?_some hf
      exact congrArg some (List.inj_on_of_nodup_map t.nodup hs hr hk)

theorem find_keep (p : ρ → Bool) (t : Table key) (k : κ) :
    (t.keep p).find k=(t.find k).filter p := by
  ext r
  rw [Option.filter_eq_some_iff,find_eq_some_iff,find_eq_some_iff,keep,List.mem_filter]
  tauto

theorem mem_rows_iff (t : Table key) (r : ρ) : r∈t.rows ↔ t.find (key r)=some r := by
  simp [find_eq_some_iff]

end Table

/-- What happens to an expiring table: a row comes in, or all rows with a stamp
before the cutoff are dropped. -/
inductive TableOp (ρ τ : Type*)
  | put (row : ρ)
  | expire (cutoff : τ)

namespace TableOp

variable {ρ κ τ : Type*} {key : ρ → κ} [DecidableEq κ] [LinearOrder τ] (stamp : ρ → τ)

def apply (t : Table key) : TableOp ρ τ → Table key
  | .put r => t.put r
  | .expire c => t.keep fun r => c ≤ stamp r

def run (ops : List (TableOp ρ τ)) : Table key := ops.foldl (apply stamp) .empty

/-- The rows that came in, oldest first. -/
def puts : List (TableOp ρ τ) → List ρ
  | [] => []
  | .put r::ops => r::puts ops
  | .expire _::ops => puts ops

omit [LinearOrder τ] in
theorem puts_append (ops ops' : List (TableOp ρ τ)) : puts (ops++ops')=puts ops++puts ops' := by
  induction ops with
  | nil => rfl
  | cons op ops ih => cases op <;> simp [puts,ih]

/-- The most recent row of a key in a log of rows, oldest first. -/
def latest (key : ρ → κ) (k : κ) (log : List ρ) : Option ρ :=
  log.reverse.find? fun r => key r=k

theorem latest_snoc (k : κ) (log : List ρ) (r : ρ) :
    latest key k (log++[r])=if key r=k then some r else latest key k log := by
  by_cases h : key r=k <;> simp [latest,h]

/-- A lazily expiring table is a cache of the log: read at a cutoff that none of
the earlier ones exceeds, it holds for each key the latest row, if that is
still fresh, whatever was evicted or overwritten on the way. -/
theorem find_run (ops : List (TableOp ρ τ)) (c : τ) (h : ∀c',TableOp.expire c'∈ops → c' ≤ c)
    (k : κ) : ((run stamp ops : Table key).keep fun r => c ≤ stamp r).find k=
      (latest key k (puts ops)).filter fun r => c ≤ stamp r := by
  induction ops using List.reverseRecOn with
  | nil => simp [run,puts,latest,Table.find_keep]
  | append_singleton ops op ih =>
    have hi := ih fun c' hc => h c' (by simp [hc])
    rw [Table.find_keep] at hi ⊢
    simp only [run,List.foldl_append,List.foldl_cons,List.foldl_nil,puts_append] at hi ⊢
    cases op with
    | put r =>
      simp only [apply,puts,latest_snoc,Table.find_put]
      by_cases hk : key r=k
      · simp only [hk,if_true]
      · simpa only [hk,if_false] using hi
    | expire c' =>
      have hc : c' ≤ c := h c' (by simp)
      simp only [apply,puts,List.append_nil,Table.find_keep]
      rw [← hi]
      ext r
      simp only [Option.filter_eq_some_iff,decide_eq_true_eq]
      exact ⟨fun ⟨⟨ht,_⟩,hr⟩ => ⟨ht,hr⟩,fun ⟨ht,hr⟩ => ⟨⟨ht,hc.trans hr⟩,hr⟩⟩

/-- In a log with ascending stamps the fresh rows alone decide which latest rows
are fresh. -/
theorem latest_fresh (c : τ) (k : κ) (log : List ρ)
    (h : log.Pairwise fun r s => stamp r ≤ stamp s) :
    (latest key k log).filter (fun r => c ≤ stamp r)=
      latest key k (log.filter fun r => c ≤ stamp r) := by
  induction log using List.reverseRecOn with
  | nil => rfl
  | append_singleton log r ih =>
    obtain ⟨hl,-,hr⟩ := List.pairwise_append.mp h
    rw [latest_snoc,List.filter_append]
    by_cases hc : c ≤ stamp r
    · simp only [List.filter_cons,hc,decide_true,if_true,List.filter_nil,latest_snoc]
      by_cases hk : key r=k
      · simp [hk,hc]
      · simpa only [hk,if_false] using ih hl
    · have stale : log.filter (fun s => c ≤ stamp s)=[] := by
        rw [List.filter_eq_nil_iff]
        intro s hs he
        exact hc ((of_decide_eq_true he).trans (hr s hs r (by simp)))
      by_cases hk : key r=k
      · simp [hk,not_le.mp hc,stale,latest]
      · have hi := ih hl
        rw [stale] at hi
        simp only [hk,if_false,hi,stale,List.filter_cons,hc,decide_false,Bool.false_eq_true,
          List.filter_nil,List.append_nil]

/-- Without expiry the table holds the latest row of each key. -/
theorem find_run_puts (log : List ρ) (k : κ) :
    (run stamp (log.map put) : Table key).find k=latest key k log := by
  induction log using List.reverseRecOn with
  | nil => rfl
  | append_singleton log r ih =>
    rw [List.map_append,run,List.foldl_append,latest_snoc,← ih]
    exact Table.find_put r _ k

/-- A row that is the latest of its key has no later row of that key. -/
theorem latest_eq_some {k : κ} {log : List ρ} {r : ρ} (h : latest key k log=some r) :
    key r=k ∧ ∃pre post,log=pre++r::post ∧ ∀s∈post,key s≠k := by
  obtain ⟨hk,as,bs,hr,ha⟩ := List.find?_eq_some_iff_append.mp h
  refine ⟨by simpa using hk,bs.reverse,as.reverse,?_,?_⟩
  · simpa using congrArg List.reverse hr
  · intro s hs
    simpa using ha s (List.mem_reverse.mp hs)

theorem latest_append_cons {k : κ} {pre post : List ρ} {r : ρ} (hk : key r=k)
    (h : ∀s∈post,key s≠k) : latest key k (pre++r::post)=some r := by
  have hn : post.reverse.find? (fun s => key s=k)=none := by simpa using h
  simp only [latest,List.reverse_append,List.reverse_cons,List.append_assoc,List.find?_append,hn,
    List.singleton_append,List.find?_cons,hk,decide_true,Option.none_or]

/-- Dropping the rows that fail a test changes no latest row, exactly when each
row that fails it is followed by one of its key that passes. -/
theorem latest_filter_iff (p : ρ → Prop) [DecidablePred p] (log : List ρ) :
    (∀k,latest key k log=latest key k (log.filter p)) ↔
      ∀pre r post,log=pre++r::post → ¬p r → ∃s∈post,key s=key r ∧ p s := by
  constructor
  · intro h pre r post hlog hr
    subst hlog
    have hs := h (key r)
    cases hl : latest key (key r) (pre++r::post) with
    | none =>
      have := List.find?_eq_none.mp hl r (by simp)
      simp at this
    | some s =>
      obtain ⟨hk,as,bs,he,hb⟩ := latest_eq_some hl
      have hp : p s := by
        have hm := List.mem_of_find?_eq_some (hs.symm.trans hl)
        simpa using (List.mem_filter.mp (List.mem_reverse.mp hm)).2
      refine ⟨s,?_,hk,hp⟩
      -- s is the last row of its key, and r is one, so s stands behind r.
      rcases List.append_eq_append_iff.mp he with ⟨cs,ha,hc⟩ | ⟨cs,ha,hc⟩
      · cases cs with
        | nil =>
          have e : r=s := by simpa using (List.cons.inj hc).1
          exact absurd hp (e ▸ hr)
        | cons c cs =>
          rw [(List.cons.inj hc).2]
          simp
      · cases cs with
        | nil =>
          have e : s=r := by simpa using (List.cons.inj hc).1
          exact absurd hp (e ▸ hr)
        | cons c cs =>
          have hm : r∈bs := by
            rw [(List.cons.inj hc).2]
            simp
          exact absurd rfl (hb r hm)
  · intro h k
    cases hl : latest key k log with
    | none =>
      symm
      rw [latest,List.find?_eq_none] at hl ⊢
      intro r hr
      exact hl r (List.mem_reverse.mpr (List.mem_filter.mp (List.mem_reverse.mp hr)).1)
    | some r =>
      obtain ⟨hk,pre,post,he,hb⟩ := latest_eq_some hl
      have hp : p r := by
        by_contra hr
        obtain ⟨s,hs,hks,-⟩ := h pre r post he hr
        exact hb s hs (hks.trans hk)
      subst he
      rw [List.filter_append,List.filter_cons,if_pos (by simpa using hp)]
      exact (latest_append_cons hk fun s hs => hb s (List.mem_filter.mp hs).1).symm

end TableOp
end Framework
