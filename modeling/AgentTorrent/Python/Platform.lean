import AgentTorrent.Python.Json

namespace AgentTorrent

/-- A peer id is a SHA-1 hex digest. -/
abbrev PeerId := {s : PyStr // s.length=40}

/-- The ways in which a connection gives up, one per raise ProtocolError. -/
inductive ProtocolFault
  | sendFailed
  | timedOut
  | connectionError
  | closedByRemote
  | unverifiable
  | senderChanged
  | unexpectedType (expected : List PyStr) (got : PyStr)
  | cannotConnect
  | wrongPeer (identified expected : PeerId)
  | differentJob
  deriving DecidableEq

/-- The exception classes that reach a handler of the program or escape it. -/
inductive PyExc
  | protocolError (why : ProtocolFault)
  | ledgerError (msg : PyStr)
  | envelopeError (msg : PyStr)
  | jobError (msg : PyStr)
  | manifestError (msg : PyStr)
  | keyError (key : PyStr)
  | typeError
  | valueError
  | attributeError
  | assertionError
  | osError
  | overflowError
  | recursionError
  deriving DecidableEq

def PyExc.isProtocolError : PyExc → Bool
  | .protocolError _ => true
  | _ => false

/-- json.loads(data.decode()) raises a ValueError of some kind, or RecursionError
where the text nests deeper than the interpreter's stack. -/
inductive LoadsError
  | value
  | recursion
  deriving DecidableEq

theorem except_bind_ok {ε α β : Type} {x : Except ε α} {f : α → Except ε β} {b : β} :
    (x>>=f)=.ok b ↔ ∃a,x=.ok a ∧ f a=.ok b := by
  cases x <;> simp [bind,Except.bind]

theorem except_bind_error {ε α β : Type} {x : Except ε α} {f : α → Except ε β} {e : ε} :
    (x>>=f)=.error e ↔ x=.error e ∨ ∃a,x=.ok a ∧ f a=.error e := by
  cases x <;> simp [bind,Except.bind]

/-- What the program takes from the interpreter and from PyNaCl. -/
structure Platform where
  /-- json.loads(data.decode()) -/
  loads : Bytes → Except LoadsError Json
  /-- the nesting that json.dumps and str can print -/
  dumpsDepth : Nat
  strDepth : Nat
  /-- str(v) and repr(v), and str of a ProtocolError with what the system reports -/
  str : Json → PyStr
  repr : Json → PyStr
  describe : ProtocolFault → PyStr
  /-- the integer is below the limit on digits for int to str conversion -/
  intPrints : Int → Bool
  /-- settimeout(n + 15.0) neither overflows a float nor the C timeout -/
  timeoutFits : Int → Bool
  /-- unicodedata.decimal of a character that is not ASCII -/
  decimal : CodePoint → Option Nat
  /-- os.fsencode takes the character -/
  encodes : CodePoint → Bool
  /-- hashlib.sha1(data).hexdigest() -/
  sha1 : Bytes → PeerId
  /-- crypto_sign_open under a 32-byte key and a 64-byte signature -/
  verify : Bytes → Bytes → Bytes → Bool

namespace Json

/-- v[key] for a string key -/
def item (key : PyStr) : Json → Except PyExc Json
  | .obj ms => match ms.lookup key with
    | some v => .ok v
    | none => .error (.keyError key)
  | _ => .error .typeError

/-- v.get(key, default), where only a dict has get -/
def getD (v : Json) (key : PyStr) (default : Json) : Except PyExc Json :=
  match v with
  | .obj ms => .ok ((ms.lookup key).getD default)
  | _ => .error .attributeError

theorem item_ok_iff (key : PyStr) (v w : Json) : v.item key=.ok w ↔ v.get? key=some w := by
  cases v with
  | obj ms => cases h : ms.lookup key <;> simp [item,h]
  | _ => simp [item,get?]

theorem item_error {key : PyStr} {v : Json} {e : PyExc} (h : v.item key=.error e) :
    e=.keyError key ∨ e=.typeError := by
  cases v with
  | obj ms =>
    cases hl : ms.lookup key <;> simp only [item,hl] at h
    · exact .inl (Except.error.inj h).symm
    · cases h
  | _ => exact .inr (Except.error.inj h).symm

theorem getD_ok {v w x : Json} {key : PyStr} (h : v.getD key w=.ok x) :
    x=(v.get? key).getD w := by
  cases v with
  | obj ms => exact (Except.ok.inj h).symm
  | _ => cases h

theorem getD_error {v w : Json} {key : PyStr} {e : PyExc} (h : v.getD key w=.error e) :
    e=.attributeError ∧ v.isObj=false := by
  cases v with
  | obj ms => cases h
  | _ => exact ⟨(Except.error.inj h).symm,rfl⟩

end Json

variable (P : Platform)

/-- str(v) fails only where the value nests too deep. -/
def Platform.pyStr (v : Json) : Except PyExc Unit :=
  if P.strDepth < v.depth then .error .recursionError else .ok ()

end AgentTorrent
