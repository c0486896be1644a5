import AgentTorrent.Ledger.Invariant
import AgentTorrent.Peer.Delegate
import AgentTorrent.Discovery.PeerTable
import AgentTorrent.Wire.Receiving

namespace AgentTorrent

/-- Everything that the network and the far side decide about one delegation. -/
structure Remote where
  connecting : Connecting
  handshakeTs : PyFloat
  handshakeSent : Bool
  handshakeLine : ReadLine
  offerTs : PyFloat
  offerSent : Bool
  replyLine : ReadLine
  resultLine : ReadLine

variable (P : Platform) (peer : Peer)

/-- The answers that the call meets at each point. -/
def Remote.answers (r : Remote) (a : Answers) : DelegatePc → Answers
  | .active .connect _ _ => {a with connecting := r.connecting}
  | .active .handshakeSend _ _ => {a with ts := r.handshakeTs,sent := r.handshakeSent}
  | .active .handshakeRecv _ _ => {a with received := readOpened P r.handshakeLine}
  | .active .offerSend _ _ => {a with ts := r.offerTs,sent := r.offerSent}
  | .active .offerRecv _ _ => {a with received := readOpened P r.replyLine}
  | .active .resultRecv _ _ => {a with received := readOpened P r.resultLine}
  | _ => a

section Call

variable (args : DelegateArgs) (a : Answers) (r : Remote)

/-- One step of a call that nothing else interleaves with. -/
def delegateNext (s : Ledger×DelegatePc) : Ledger×DelegatePc :=
  let t := delegateStep P peer args (r.answers P a s.2) s.1 s.2
  (t.1,t.2.1)

/-- The whole call of Peer.delegate. -/
def delegate (L : Ledger) : Ledger×DelegatePc := (delegateNext P peer args a r)^[10] (L,.start)

/-- The call gets as far as the escrow, and the escrow is recorded. -/
structure Escrows (L : Ledger) (job : Job) (worker : PeerInfo) : Prop where
  canOffer : L.canOffer=true
  chosen : chooseWorker args a=.escrow job worker
  fresh : L.jobRecords job.id=[]

end Call

/-- The escrow of the job is closed exactly once: by a settle that pays the worker
where the call returned status ok, else by a refund. -/
def ClosedOnce (L : Ledger) (job : Job) (worker : PeerInfo) (t : Ledger×DelegatePc) : Prop :=
  ∃outcome,t.2=.finished outcome ∧
    jobCount .escrow job.id t.1.records=1 ∧
    jobCount .settle job.id t.1.records=(statusOk outcome).toNat ∧
    jobCount .refund job.id t.1.records=(!statusOk outcome).toNat ∧
    (statusOk outcome=true → settleRecord job.id worker.peerId.val∈t.1.records) ∧
    t.1.balance selfAccount=L.balance selfAccount-(statusOk outcome).toNat

section Escapes

variable (a : Answers) (r : Remote) (job : Job) (worker : PeerInfo)

/-- Waiting for the result raises past the handler: the timeout does not fit, the
line breaks the read, or the TASK_RESULT has no body or a result that is no object. -/
def EscapesResult : Prop :=
  P.timeoutFits job.maxRuntimeSeconds.val=false ∨ Breaks P r.resultLine ∨
  ∃o,recv P (some worker.peerId) [msgTaskResult] (readOpened P r.resultLine)=.ok o ∧
    (o.body=none ∨ ∃v,o.body.bind (Json.get? (lit "result"))=some v ∧ v.isObj=false)

def EscapesReply : Prop :=
  Breaks P r.replyLine ∨
  ∃o,recv P (some worker.peerId) [msgTaskAccept,msgTaskReject] (readOpened P r.replyLine)=.ok o ∧
    o.msgType=msgTaskAccept ∧ EscapesResult P r job worker

def EscapesOffer : Prop :=
  (∀p,sealMessage P peer.identity r.offerTs msgTaskOffer (offerBody job)≠.ok p) ∨
  r.offerSent=true ∧ EscapesReply P r job worker

def EscapesHandshake : Prop :=
  Breaks P r.handshakeLine ∨
  ∃o,recv P none [msgHandshake] (readOpened P r.handshakeLine)=.ok o ∧ o.sender=worker.peerId ∧
    EscapesOffer P peer r job worker

def EscapesGreeting : Prop :=
  (∀p,sealMessage P peer.identity r.handshakeTs msgHandshake (.obj [])≠.ok p) ∨
  r.handshakeSent=true ∧ EscapesHandshake P peer r job worker

/-- What the remote side does makes an exception that is no ProtocolError leave
delegate between escrow and close. -/
def Escapes : Prop :=
  r.connecting=.noPeername ∨
  r.connecting=.connected ∧ EscapesGreeting P peer r job worker

end Escapes

section Close

variable {L : Ledger} {job : Job} {worker : PeerInfo}

theorem fresh_counts (hj : L.jobRecords job.id=[]) (k : RecordKind) (w : PyStr) :
    jobCount k job.id (L.extend (escrowRecord job.id w)).records=if k=.escrow then 1 else 0 := by
  rw [Ledger.extend_records,jobCount_snoc,Ledger.jobCount_of_no_records hj]
  cases k <;> simp [escrowRecord]

variable (args : DelegateArgs) (a : Answers) (r : Remote)

theorem finished_stays (n : Nat) (M : Ledger) (o : Except PyExc DelegateResult) :
    (delegateNext P peer args a r)^[n] (M,.finished o)=(M,.finished o) := by
  induction n with
  | zero => rfl
  | succ n ih => rw [Function.iterate_succ_apply]; exact ih

variable (hj : L.jobRecords job.id=[])

include hj

/-- The refund that a failure after the escrow ends in closes the escrow. -/
theorem refund_closes (n : Nat) {o : Except PyExc DelegateResult} (ho : statusOk o=false) :
    ClosedOnce L job worker ((delegateNext P peer args a r)^[n+1]
      (L.extend (escrowRecord job.id worker.peerId.val),.refund job worker o)) := by
  let M := L.extend (escrowRecord job.id worker.peerId.val)
  have hf (k : RecordKind) := fresh_counts hj k worker.peerId.val
  have hr : M.refund none job.id=(M.extend (refundRecord job.id),.ok ()) := by
    have ho := @Ledger.requireOpenEscrow_of_open M job.id
      ⟨by rw [hf]; decide,hf _,hf _⟩
    rw [Ledger.refund,ho,Ledger.append_ok]
  have hn : delegateNext P peer args a r (M,.refund job worker o)=
      (M.extend (refundRecord job.id),.finished o) := by
    simp only [delegateNext,delegateStep,hr,ledgerCall]
  rw [Function.iterate_succ_apply]
  change ClosedOnce L job worker (_^[n] (delegateNext P peer args a r (M,.refund job worker o)))
  rw [hn,finished_stays]
  refine ⟨o,rfl,?_,?_,?_,?_,?_⟩
  · rw [Ledger.extend_records,jobCount_snoc,hf]
    simp [refundRecord]
  · rw [Ledger.extend_records,jobCount_snoc,hf,ho]
    simp [refundRecord]
  · rw [Ledger.extend_records,jobCount_snoc,hf,ho]
    simp [refundRecord]
  · simp [ho]
  · rw [Ledger.balance_extend,Ledger.balance_extend,ho]
    simp [refundRecord,escrowRecord,balance_transfer,jobPrice]

/-- The settle closes the escrow and pays the worker. -/
theorem settle_closes (n : Nat) (result : Json) :
    ClosedOnce L job worker ((delegateNext P peer args a r)^[n+1]
      (L.extend (escrowRecord job.id worker.peerId.val),.settle job worker result)) := by
  let M := L.extend (escrowRecord job.id worker.peerId.val)
  have hf (k : RecordKind) := fresh_counts hj k worker.peerId.val
  have hr : M.settle none job.id worker.peerId.val=
      (M.extend (settleRecord job.id worker.peerId.val),.ok ()) := by
    have ho := @Ledger.requireOpenEscrow_of_open M job.id
      ⟨by rw [hf]; decide,hf _,hf _⟩
    rw [Ledger.settle,ho,Ledger.append_ok]
  have hn : delegateNext P peer args a r (M,.settle job worker result)=
      (M.extend (settleRecord job.id worker.peerId.val),
        .finished (.ok (delivered job worker result))) := by
    simp only [delegateNext,delegateStep,hr,ledgerCall]
  rw [Function.iterate_succ_apply]
  change ClosedOnce L job worker (_^[n] (delegateNext P peer args a r (M,.settle job worker result)))
  rw [hn,finished_stays]
  obtain ⟨h1,h2,h3⟩ := peerId_isRemote worker.peerId
  refine ⟨_,rfl,?_,?_,?_,?_,?_⟩
  · rw [Ledger.extend_records,jobCount_snoc,hf]
    simp [settleRecord]
  · rw [Ledger.extend_records,jobCount_snoc,hf]
    simp [settleRecord,statusOk,delivered]
  · rw [Ledger.extend_records,jobCount_snoc,hf]
    simp [settleRecord,statusOk,delivered]
  · simp
  · rw [Ledger.balance_extend,Ledger.balance_extend]
    simp [settleRecord,escrowRecord,balance_transfer,jobPrice,h1,statusOk,delivered]
    omega

/-- An exception that escapes leaves the escrow open. -/
theorem escape_leaves_open (n : Nat) (e : PyExc) :
    ¬ClosedOnce L job worker ((delegateNext P peer args a r)^[n]
      (L.extend (escrowRecord job.id worker.peerId.val),.finished (.error e))) := by
  rw [finished_stays]
  intro hh
  obtain ⟨o,he,-,-,hr,-⟩ := hh
  cases he
  rw [fresh_counts hj] at hr
  simp [statusOk] at hr

omit hj in
theorem giveUp_escape (job : Job) (worker : PeerInfo) {e : PyExc} (h : e.isProtocolError=false) :
    giveUp P job worker e=.finished (.error e) := by
  cases e with
  | protocolError why => cases h
  | _ => rfl

theorem giveUp_closes_iff (n : Nat) (e : PyExc) :
    ClosedOnce L job worker ((delegateNext P peer args a r)^[n+1]
      (L.extend (escrowRecord job.id worker.peerId.val),giveUp P job worker e)) ↔
    e.isProtocolError=true := by
  cases hp : e.isProtocolError with
  | false =>
    rw [giveUp_escape P job worker hp]
    exact iff_of_false (escape_leaves_open P peer args a r hj (n+1) e) Bool.false_ne_true
  | true =>
    obtain ⟨why,rfl⟩ : ∃why,e=.protocolError why := by
      cases e with
      | protocolError why => exact ⟨why,rfl⟩
      | _ => cases hp
    exact iff_of_true (refund_closes P peer args a r hj n rfl) rfl

/-- What the handler does with a failed recv. -/
theorem recv_error_closes (n : Nat) {remote : Option PeerId} {types : List PyStr}
    {line : ReadLine} {e : PyExc} (h : recv P remote types (readOpened P line)=.error e) :
    ClosedOnce L job worker ((delegateNext P peer args a r)^[n+1]
      (L.extend (escrowRecord job.id worker.peerId.val),giveUp P job worker e)) ↔
    ¬Breaks P line := by
  rw [giveUp_closes_iff P peer args a r hj]
  constructor
  · intro hp hb
    obtain ⟨e',he,hn⟩ := recv_breaks P hb remote types
    rw [h] at he
    cases he
    rw [hp] at hn
    cases hn
  · exact fun hb => (recv_error P h).resolve_right hb

theorem judge_closes (n : Nat) {o : Opened} (ho : ∀b,o.body=some b → b.isObj=true) :
    ClosedOnce L job worker ((delegateNext P peer args a r)^[n+1]
      (L.extend (escrowRecord job.id worker.peerId.val),judge P job worker o.payload)) ↔
    ¬(o.body=none ∨ ∃v,o.body.bind (Json.get? (lit "result"))=some v ∧ v.isObj=false) := by
  have quit := @giveUp_closes_iff P peer L job worker args a r hj n
  cases hb : o.body with
  | none =>
    have hi : ∃e,o.payload.item (lit "body")=.error e ∧ e.isProtocolError=false := by
      cases hx : o.payload.item (lit "body") with
      | error e => exact ⟨e,rfl,by rcases Json.item_error hx with rfl | rfl <;> rfl⟩
      | ok b => rw [body_item hx] at hb; cases hb
    obtain ⟨e,he,hn⟩ := hi
    simp only [judge,he,quit,hn]
    simp
  | some body =>
    obtain ⟨ms,rfl⟩ : ∃ms,body=.obj ms := by
      have := ho body hb
      cases body with
      | obj ms => exact ⟨ms,rfl⟩
      | _ => cases this
    have hi : o.payload.item (lit "body")=.ok (.obj ms) := (Json.item_ok_iff _ _ _).mpr hb
    have hr : (Json.obj ms).getD (lit "result") (.obj [])=
        .ok ((ms.lookup (lit "result")).getD (.obj [])) := rfl
    simp only [judge,hi,hr,reduceCtorEq,false_or,Option.bind_some,Json.get?_obj]
    -- An absent result is read as an empty dict, which names no job.
    cases hl : ms.lookup (lit "result") with
    | none =>
      have hg : (Json.obj []).getD (lit "job_id") .null=.ok .null := rfl
      have hs : ¬Json.null.isStr job.id=true := by simp [Json.isStr,Json.asStr]
      simp only [Option.getD_none,hg]
      rw [if_pos hs]
      exact iff_of_true ((quit _).mpr rfl) (by simp)
    | some v =>
      simp only [Option.getD_some,Option.some.injEq]
      cases v with
      | obj rs =>
        have hg : (Json.obj rs).getD (lit "job_id") .null=
          .ok ((rs.lookup (lit "job_id")).getD .null) := rfl
        simp only [hg]
        refine iff_of_true ?_ (by simp)
        split_ifs
        · exact settle_closes P peer args a r hj n _
        · exact refund_closes P peer args a r hj n (reportedFailure_failed ..)
        · exact (quit _).mpr rfl
      | _ => exact iff_of_false ((quit _).not.mpr Bool.false_ne_true) (by simp [Json.isObj])

end Close

section Phases

variable (args : DelegateArgs) (a : Answers) (r : Remote)

variable {L : Ledger} {job : Job} {worker : PeerInfo} (hj : L.jobRecords job.id=[])

include hj

theorem closes_result (n : Nat) :
    ClosedOnce L job worker ((delegateNext P peer args a r)^[n+2]
      (L.extend (escrowRecord job.id worker.peerId.val),.active .resultRecv job worker)) ↔
    ¬EscapesResult P r job worker := by
  rw [Function.iterate_succ_apply]
  simp only [delegateNext,delegateStep,activeStep,Remote.answers]
  by_cases ht : P.timeoutFits job.maxRuntimeSeconds.val=true
  · rw [if_neg (not_not.mpr ht)]
    cases hr : recv P (some worker.peerId) [msgTaskResult] (readOpened P r.resultLine) with
    | error e =>
      simp only [EscapesResult,ht,hr,reduceCtorEq,false_or,false_and,exists_false,or_false]
      exact recv_error_closes P peer args a r hj n hr
    | ok o =>
      simp only [EscapesResult,ht,hr,recv_ok_not_breaks P hr,reduceCtorEq,false_or,
        Except.ok.injEq,exists_eq_left']
      exact judge_closes P peer args a r hj n (recv_ok P hr).2.2.2
  · rw [if_pos ht]
    refine iff_of_false ((giveUp_closes_iff P peer args a r hj n .overflowError).not.mpr
      Bool.false_ne_true) ?_
    exact not_not.mpr (.inl (by simpa using ht))

theorem closes_reply (n : Nat) :
    ClosedOnce L job worker ((delegateNext P peer args a r)^[n+3]
      (L.extend (escrowRecord job.id worker.peerId.val),.active .offerRecv job worker)) ↔
    ¬EscapesReply P r job worker := by
  rw [Function.iterate_succ_apply]
  simp only [delegateNext,delegateStep,activeStep,Remote.answers]
  cases hr : recv P (some worker.peerId) [msgTaskAccept,msgTaskReject]
      (readOpened P r.replyLine) with
  | error e =>
    simp only [EscapesReply,hr,reduceCtorEq,false_and,exists_false,or_false]
    exact recv_error_closes P peer args a r hj (n+1) hr
  | ok o =>
    simp only [EscapesReply,hr,recv_ok_not_breaks P hr,false_or,Except.ok.injEq,exists_eq_left']
    have ht : o.msgType=msgTaskAccept ∨ o.msgType=msgTaskReject := by
      simpa using (recv_ok P hr).2.2.1
    have differ : msgTaskReject≠msgTaskAccept := by decide
    rcases ht with ht | ht
    · rw [if_neg (ht ▸ differ.symm),and_iff_right ht]
      exact closes_result P peer args a r hj n
    · rw [if_pos ht]
      refine iff_of_true (refund_closes P peer args a r hj (n+1) (rejection_failed ..)) ?_
      exact fun h => differ (ht.symm.trans h.1)

/-- A send closes the escrow if it raises ProtocolError, and goes on if it returns. -/
theorem closes_send (n : Nat) (b : Answers) (msgType : PyStr) (body : Json) (next : Phase)
    (rest : Prop) (hnext : ClosedOnce L job worker ((delegateNext P peer args a r)^[n+1]
      (L.extend (escrowRecord job.id worker.peerId.val),.active next job worker)) ↔ ¬rest) :
    ClosedOnce L job worker ((delegateNext P peer args a r)^[n+1]
      (L.extend (escrowRecord job.id worker.peerId.val),
        (delegateSend P peer b job worker msgType body next).1)) ↔
    ¬((∀p,sealMessage P peer.identity b.ts msgType body≠.ok p) ∨ b.sent=true ∧ rest) := by
  unfold delegateSend
  cases hs : sealMessage P peer.identity b.ts msgType body with
  | error e =>
    refine iff_of_false ?_ (not_not.mpr (.inl fun p => by simp))
    rw [giveUp_closes_iff P peer args a r hj,sealMessage_error P hs]
    exact Bool.false_ne_true
  | ok payload =>
    cases hb : b.sent with
    | false => exact iff_of_true (refund_closes P peer args a r hj n rfl) (by simp)
    | true => simpa using hnext

theorem closes_offer (n : Nat) :
    ClosedOnce L job worker ((delegateNext P peer args a r)^[n+4]
      (L.extend (escrowRecord job.id worker.peerId.val),.active .offerSend job worker)) ↔
    ¬EscapesOffer P peer r job worker := by
  rw [Function.iterate_succ_apply]
  exact closes_send P peer args a r hj (n+2) _ msgTaskOffer (offerBody job) .offerRecv _
    (closes_reply P peer args a r hj n)

theorem closes_handshake (n : Nat) :
    ClosedOnce L job worker ((delegateNext P peer args a r)^[n+5]
      (L.extend (escrowRecord job.id worker.peerId.val),.active .handshakeRecv job worker)) ↔
    ¬EscapesHandshake P peer r job worker := by
  rw [Function.iterate_succ_apply]
  simp only [delegateNext,delegateStep,activeStep,Remote.answers]
  cases hr : recv P none [msgHandshake] (readOpened P r.handshakeLine) with
  | error e =>
    simp only [EscapesHandshake,hr,reduceCtorEq,false_and,exists_false,or_false]
    exact recv_error_closes P peer args a r hj (n+3) hr
  | ok o =>
    simp only [EscapesHandshake,hr,recv_ok_not_breaks P hr,false_or,Except.ok.injEq,
      exists_eq_left']
    by_cases hs : o.sender=worker.peerId
    · rw [if_neg (not_not.mpr hs),and_iff_right hs]
      exact closes_offer P peer args a r hj n
    · rw [if_pos hs]
      exact iff_of_true (refund_closes P peer args a r hj (n+3) rfl) fun h => hs h.1

theorem closes_greeting (n : Nat) :
    ClosedOnce L job worker ((delegateNext P peer args a r)^[n+6]
      (L.extend (escrowRecord job.id worker.peerId.val),.active .handshakeSend job worker)) ↔
    ¬EscapesGreeting P peer r job worker := by
  rw [Function.iterate_succ_apply]
  exact closes_send P peer args a r hj (n+4) _ msgHandshake (.obj []) .handshakeRecv _
    (closes_handshake P peer args a r hj n)

theorem closes_connect (n : Nat) :
    ClosedOnce L job worker ((delegateNext P peer args a r)^[n+7]
      (L.extend (escrowRecord job.id worker.peerId.val),.active .connect job worker)) ↔
    ¬Escapes P peer r job worker := by
  rw [Function.iterate_succ_apply]
  simp only [delegateNext,delegateStep,activeStep,Remote.answers]
  cases hc : r.connecting with
  | refused =>
    simp only [Escapes,hc,reduceCtorEq,false_and,or_false,not_false_eq_true,iff_true]
    exact refund_closes P peer args a r hj (n+5) rfl
  | noPeername =>
    simp only [Escapes,hc,reduceCtorEq,false_and,or_false,not_true_eq_false,iff_false]
    exact escape_leaves_open P peer args a r hj (n+6) .osError
  | connected =>
    simp only [Escapes,hc,reduceCtorEq,true_and,false_or]
    exact closes_greeting P peer args a r hj n

end Phases

section Runs

variable (args : DelegateArgs) (a : Answers) (r : Remote)

/-- How many steps a call still takes at most. -/
def DelegatePc.budget : DelegatePc → Nat
  | .start => 10
  | .choose => 9
  | .escrow _ _ => 8
  | .active ph _ _ => 7-ph.rank
  | .settle _ _ _ | .refund _ _ _ => 1
  | .finished _ => 0

theorem next_budget (s : Ledger×DelegatePc) :
    (delegateNext P peer args a r s).2.budget ≤ s.2.budget-1 := by
  obtain ⟨L,pc⟩ := s
  have call (done : Ledger×Except PyExc Unit) (rec : Record) (next : DelegatePc) :
      (ledgerCall done rec next).2.1.budget ≤ next.budget := by
    obtain ⟨M,x⟩ := done
    cases x with
    | ok u => exact le_rfl
    | error e => exact Nat.zero_le _
  cases pc with
  | start =>
    simp only [delegateNext,delegateStep]
    split_ifs
    · exact le_rfl
    · exact Nat.zero_le _
  | choose =>
    simp only [delegateNext,delegateStep,chooseWorker]
    split
    · exact Nat.zero_le _
    · exact Nat.zero_le _
    · split
      · exact Nat.zero_le _
      · split
        · exact Nat.zero_le _
        · exact le_rfl
  | escrow job worker => exact call ..
  | active ph job worker =>
    have hn := (activeStep_cases P peer (r.answers P a (.active ph job worker)) job worker ph).1
    change (activeStep P peer _ job worker ph).1.budget≤7-ph.rank-1
    have hr : ph.rank≤5 := by cases ph <;> decide
    generalize (activeStep P peer (r.answers P a (.active ph job worker)) job worker ph).1=pc' at hn
    cases hn with
    | forward ph' h hm => simp only [DelegatePc.budget]; omega
    | refund o h => simp only [DelegatePc.budget]; omega
    | escape e h => exact Nat.zero_le _
    | settle o result hp hf h hr => simp only [DelegatePc.budget]; omega
  | settle job worker result => exact call ..
  | refund job worker o => exact call ..
  | finished o => exact le_rfl

/-- Every call finishes. -/
theorem delegate_finishes (L : Ledger) :
    ∃outcome,(delegate P peer args a r L).2=.finished outcome := by
  have hb (n : Nat) (s : Ledger×DelegatePc) :
      ((delegateNext P peer args a r)^[n] s).2.budget ≤ s.2.budget-n := by
    induction n generalizing s with
    | zero => exact le_rfl
    | succ n ih =>
      rw [Function.iterate_succ_apply]
      have := ih (delegateNext P peer args a r s)
      have := next_budget P peer args a r s
      omega
  have h0 : (delegate P peer args a r L).2.budget≤0 := hb 10 (L,.start)
  cases hd : (delegate P peer args a r L).2 with
  | finished o => exact ⟨o,rfl⟩
  | active ph job worker =>
    rw [hd] at h0
    have hr : ph.rank≤5 := by cases ph <;> decide
    simp only [DelegatePc.budget] at h0
    omega
  | _ =>
    rw [hd] at h0
    exact absurd h0 (by simp [DelegatePc.budget])

variable {args a} {L : Ledger} {job : Job} {worker : PeerInfo}

theorem delegate_escrows (h : Escrows args a L job worker) :
    delegate P peer args a r L=(delegateNext P peer args a r)^[7]
      (L.extend (escrowRecord job.id worker.peerId.val),.active .connect job worker) := by
  have hb : ¬L.balance selfAccount < jobPrice := not_lt.mpr (of_decide_eq_true h.canOffer)
  have h1 : delegateNext P peer args a r (L,.start)=(L,.choose) := by
    simp only [delegateNext,delegateStep,h.canOffer,if_true]
  have h2 : delegateNext P peer args a r (L,.choose)=(L,.escrow job worker) := by
    simp only [delegateNext,delegateStep,Remote.answers,h.chosen]
  have h3 : delegateNext P peer args a r (L,.escrow job worker)=
      (L.extend (escrowRecord job.id worker.peerId.val),.active .connect job worker) := by
    have he : L.escrow none job.id worker.peerId.val=
        (L.extend (escrowRecord job.id worker.peerId.val),.ok ()) := by
      rw [Ledger.escrow,if_neg hb,if_neg (not_not.mpr h.fresh),Ledger.append_ok]
    simp only [delegateNext,delegateStep,he,ledgerCall]
  rw [delegate,Function.iterate_succ_apply,h1,Function.iterate_succ_apply,h2,
    Function.iterate_succ_apply,h3]

/-- A call that records no escrow records nothing. -/
theorem delegate_unescrowed (h : ∀job worker,¬Escrows args a L job worker) :
    (delegate P peer args a r L).1=L := by
  have rest (n : Nat) (o : Except PyExc DelegateResult) :
      ((delegateNext P peer args a r)^[n] (L,.finished o)).1=L := by rw [finished_stays]
  rw [delegate,Function.iterate_succ_apply]
  by_cases hc : L.canOffer=true
  · have h1 : delegateNext P peer args a r (L,.start)=(L,.choose) := by
      simp only [delegateNext,delegateStep,hc,if_true]
    rw [h1,Function.iterate_succ_apply]
    have h2 : delegateNext P peer args a r (L,.choose)=(L,chooseWorker args a) := rfl
    rw [h2]
    rcases chooseWorker_cases args a with ⟨job,rows,worker,-,-,-,hw⟩ | ⟨o,-,hw⟩
    · have hj : L.jobRecords job.id≠[] := by
        intro hj
        exact h job worker ⟨hc,hw,hj⟩
      have hb : ¬L.balance selfAccount < jobPrice := not_lt.mpr (of_decide_eq_true hc)
      rw [hw,Function.iterate_succ_apply]
      have h3 : delegateNext P peer args a r (L,.escrow job worker)=
          (L,.finished (.error (.ledgerError
            (lit "job "++job.id++lit " already has ledger records")))) := by
        simp only [delegateNext,delegateStep,Ledger.escrow,if_neg hb,if_pos hj,ledgerCall]
      rw [h3]
      exact rest 7 _
    · rw [hw]
      exact rest 8 o
  · have h1 : ∃o,delegateNext P peer args a r (L,.start)=(L,.finished o) :=
      ⟨_,by simp only [delegateNext,delegateStep,if_neg hc]; rfl⟩
    obtain ⟨o,h1⟩ := h1
    rw [h1]
    exact rest 9 o

/-- For every run that records an escrow and every remote side: the escrow is
closed exactly once unless the remote side makes an exception escape. -/
theorem escrow_closed_iff (h : Escrows args a L job worker) :
    ClosedOnce L job worker (delegate P peer args a r L) ↔ ¬Escapes P peer r job worker := by
  rw [delegate_escrows P peer r h]
  exact closes_connect P peer args a r h.fresh 0

end Runs

section Sample

def samplePeer : Peer where
  identity := requesterIdentity
  config := ⟨300,true,false,1,[]⟩
  harnesses := []

def sampleHost : Host where
  usable := fun _ => none
  which := fun _ => none
  executable := lit "/usr/bin/python3"
  apiHarnessScript := lit "/opt/agenttorrent/api_harness.py"
  mkdtemp := some (lit "/tmp/agenttorrent-job-1")
  environ := []
  defpath := lit "/bin:/usr/bin"
  launch := fun _ => .timeoutExpired
  runtime := sampleRuntime

/-- A requester that knows one worker, and draws the id of the sample job. -/
def sampleAnswers : Answers where
  uuid := sampleJob.id
  discovery := some [workerRow 5]
  connecting := .connected
  ts := requesterHandshake.ts
  sent := true
  received := .error (.protocolError .timedOut)
  host := sampleHost
  listing := .null

/-- The worker answers the handshake, then with the given reply and result. -/
def sampleRemote (reply result : ReadLine) : Remote where
  connecting := .connected
  handshakeTs := requesterHandshake.ts
  handshakeSent := true
  handshakeLine := lineOf workerHandshake handshake_sampled
  offerTs := requesterOffer.ts
  offerSent := true
  replyLine := reply
  resultLine := result

theorem sample_escrows : Escrows sampleArgs sampleAnswers Ledger.fresh sampleJob (workerRow 5) where
  canOffer := by decide
  chosen := by
    have hn : newJob sampleJob.id sampleArgs=.ok sampleJob := validateJob_toJson sampleJob
    have hc : latestSeen (candidates sampleJob [workerRow 5])=some (workerRow 5) := by
      have : candidates sampleJob [workerRow 5]=[workerRow 5] := by
        have ht : (workerRow 5).manifest.acceptsTasks=true := rfl
        have ha : sampleJob.requiredHarness.val=lit "any" := rfl
        simp [candidates,ht,ha]
      rw [this]
      rfl
    simp only [chooseWorker,sampleAnswers,hn,hc]
  fresh := by decide

/-- A delegation to an honest worker is settled once. -/
theorem escrow_closed_sample :
    ClosedOnce Ledger.fresh sampleJob (workerRow 5)
      (delegate samplePlatform samplePeer sampleArgs sampleAnswers
        (sampleRemote (lineOf workerAccept accept_sampled)
          (lineOf workerResult result_sampled)) Ledger.fresh) := by
  have h1 := sample_recv handshake_sampled none [msgHandshake] (by simp) (by decide) rfl
  have h2 := sample_recv accept_sampled (some workerId) [msgTaskAccept,msgTaskReject] (by simp; rfl)
    (by decide) rfl
  have h3 := sample_recv result_sampled (some workerId) [msgTaskResult] (by simp; rfl) (by decide) rfl
  apply (escrow_closed_iff samplePlatform samplePeer _ sample_escrows).mpr
  intro hh
  rcases hh with h | ⟨-,h | ⟨-,h | ⟨o,ho,-,h | ⟨-,h | ⟨q,hq,-,h | h | ⟨w,hw,h⟩⟩⟩⟩⟩⟩
  · cases h
  · exact h _ (sealMessage_prints samplePlatform _ _ (by decide) (by decide))
  · exact recv_ok_not_breaks _ h1 h
  · exact h _ (sealMessage_prints samplePlatform _ _ (by decide) (by decide +kernel))
  · exact recv_ok_not_breaks _ h2 h
  · exact absurd h (by decide)
  · exact recv_ok_not_breaks _ h3 h
  · cases h3.symm.trans hw
    rcases h with h | ⟨v,hv,hn⟩
    · cases h
    · cases hv
      cases hn

/-- A signed TASK_ACCEPT whose body is a list makes AttributeError escape, and
the escrow stays open. -/
theorem escrow_listBody_stays_open :
    Escrows sampleArgs sampleAnswers Ledger.fresh sampleJob (workerRow 5) ∧
    ¬ClosedOnce Ledger.fresh sampleJob (workerRow 5)
      (delegate samplePlatform samplePeer sampleArgs sampleAnswers
        (sampleRemote (lineOf workerListAccept listAccept_sampled)
          (lineOf workerResult result_sampled)) Ledger.fresh) := by
  refine ⟨sample_escrows,?_⟩
  have h1 := sample_recv handshake_sampled none [msgHandshake] (by simp) (by decide) rfl
  rw [delegate_escrows _ _ _ sample_escrows]
  apply (closes_connect samplePlatform samplePeer sampleArgs sampleAnswers _ sample_escrows.fresh
    0).not.mpr
  have hb : Breaks samplePlatform (lineOf workerListAccept listAccept_sampled) :=
    .inr ⟨workerListAccept.opened,sample_reads listAccept_sampled _,
      .inl ⟨.arr [],rfl,rfl⟩⟩
  exact not_not.mpr (.inr ⟨rfl,.inr ⟨rfl,.inr ⟨_,h1,rfl,.inr ⟨rfl,.inl hb⟩⟩⟩⟩)

end Sample

end AgentTorrent
