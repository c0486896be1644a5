import Mathlib.Data.List.DropRight
import Mathlib.Data.List.Lex
import Mathlib.Data.List.Sort

namespace AgentTorrent

abbrev Bytes := List UInt8

/-- Python strings are sequences of code points; a lone surrogate is a code
point like any other. -/
abbrev CodePoint := Fin 0x110000

abbrev PyStr := List CodePoint

/-- chr(n) -/
abbrev codePoint (n : Nat) : CodePoint := Fin.ofNat _ n

theorem codePoint_val (n : Nat) : (codePoint n).val=n%0x110000 := rfl

def ascii (s : String) : Bytes := s.toByteArray.data.toList

def ofAscii (bs : Bytes) : PyStr := bs.map fun b => Fin.ofNat _ b.toNat

/-- A string literal of the program. All that are modelled are ASCII. -/
def lit (s : String) : PyStr := ofAscii (ascii s)

/-- The code points for which str.isspace holds. -/
def isSpace (c : CodePoint) : Bool :=
  (9 ≤ c.val && c.val≤13) || (0x1c ≤ c.val && c.val≤0x20) || c.val=0x85 || c.val=0xa0 ||
  c.val=0x1680 || (0x2000 ≤ c.val && c.val≤0x200a) || c.val=0x2028 || c.val=0x2029 ||
  c.val=0x202f || c.val=0x205f || c.val=0x3000

/-- not s.strip() -/
def isBlank (s : PyStr) : Bool := s.all isSpace

/-- s.strip() -/
def strip (s : PyStr) : PyStr := (s.dropWhile isSpace).rdropWhile isSpace

/-- sep.join(parts) -/
def join (sep : PyStr) : List PyStr → PyStr
  | [] => []
  | [s] => s
  | s::ss => s++sep++join sep ss

def hexValue (c : CodePoint) : Option Nat :=
  if 48 ≤ c.val ∧ c.val≤57 then some (c.val-48)
  else if 97 ≤ c.val ∧ c.val≤102 then some (c.val-87)
  else if 65 ≤ c.val ∧ c.val≤70 then some (c.val-55)
  else none

/-- The text of a number that is not an integer literal. -/
def isFloatToken (text : Bytes) : Bool :=
  text.all (fun b => (ascii "0123456789.eE+-NaInfity").contains b) &&
  text.any (fun b => !(ascii "-0123456789").contains b) &&
  text.head?.any fun b => (ascii "-0123456789NI").contains b

/-- A float, kept as the text that printing it gives. -/
structure PyFloat where
  repr : Bytes
  token : isFloatToken repr=true
  deriving DecidableEq

/-- The values that json.loads builds. A dict keeps its insertion order. -/
inductive Json
  | null
  | bool (b : Bool)
  | int (n : Int)
  | float (f : PyFloat)
  | str (s : PyStr)
  | arr (xs : List Json)
  | obj (ms : List (PyStr×Json))

namespace Json

/-- d.get(key), and none also where the value is not a dict. -/
def get? (key : PyStr) : Json → Option Json
  | .obj ms => ms.lookup key
  | _ => none

def isObj : Json → Bool
  | .obj _ => true
  | _ => false

def asStr : Json → Option PyStr
  | .str s => some s
  | _ => none

def strField (key : PyStr) (v : Json) : PyStr := ((v.get? key).bind asStr).getD []

/-- v == s for a string s -/
def isStr (v : Json) (s : PyStr) : Bool := v.asStr=some s

@[simp] theorem get?_obj (key : PyStr) (ms : List (PyStr×Json)) :
    (Json.obj ms).get? key=ms.lookup key := rfl

@[simp] theorem isObj_obj (ms : List (PyStr×Json)) : (Json.obj ms).isObj=true := rfl

@[simp] theorem asStr_str (s : PyStr) : (Json.str s).asStr=some s := rfl

theorem asStr_eq_some {v : Json} {s : PyStr} (h : v.asStr=some s) : v=.str s := by
  cases v <;> simp_all [asStr]

theorem isStr_iff (v : Json) (s : PyStr) : v.isStr s=true ↔ v=.str s := by
  constructor
  · intro h
    exact asStr_eq_some (by simpa [isStr] using h)
  · intro h
    subst h
    simp [isStr]

theorem strField_of_get {v : Json} {key s : PyStr} (h : v.get? key=some (.str s)) :
    v.strField key=s := by simp [strField,h]

theorem isObj_of_get {v w : Json} {key : PyStr} (h : v.get? key=some w) : v.isObj=true := by
  cases v <;> simp_all [get?]

mutual

/-- Nesting depth of lists and dicts. -/
def depth : Json → Nat
  | .arr xs => depthItems xs+1
  | .obj ms => depthMembers ms+1
  | _ => 0

def depthItems : List Json → Nat
  | [] => 0
  | x::xs => max x.depth (depthItems xs)

def depthMembers : List (PyStr×Json) → Nat
  | [] => 0
  | (_,v)::ms => max v.depth (depthMembers ms)

end

theorem depthMembers_lookup {ms : List (PyStr×Json)} {key : PyStr} {w : Json}
    (h : ms.lookup key=some w) : w.depth ≤ depthMembers ms := by
  induction ms with
  | nil => simp at h
  | cons m ms ih =>
    obtain ⟨k,v⟩ := m
    rw [List.lookup_cons] at h
    rw [depthMembers]
    split at h
    · cases h
      exact le_max_left _ _
    · exact (ih h).trans (le_max_right _ _)

theorem depth_get? {v w : Json} {key : PyStr} (h : v.get? key=some w) : w.depth < v.depth := by
  cases v with
  | obj ms => exact Nat.lt_succ_of_le (depthMembers_lookup h)
  | _ => cases h

mutual

/-- Every integer in the value satisfies the test. -/
def intsAll (p : Int → Bool) : Json → Bool
  | .int n => p n
  | .arr xs => intsAllItems p xs
  | .obj ms => intsAllMembers p ms
  | _ => true

def intsAllItems (p : Int → Bool) : List Json → Bool
  | [] => true
  | x::xs => x.intsAll p && intsAllItems p xs

def intsAllMembers (p : Int → Bool) : List (PyStr×Json) → Bool
  | [] => true
  | (_,v)::ms => v.intsAll p && intsAllMembers p ms

end

def hexDigit (n : Nat) : UInt8 := UInt8.ofNat (if n<10 then 48+n else 87+n)

theorem hexValue_hexDigit (n : Fin 16) :
    hexValue (Fin.ofNat _ (hexDigit n.val).toNat)=some n.val := by
  revert n
  decide

def escapeUnit (u : Nat) : Bytes :=
  ascii "\\u"++[hexDigit (u/4096%16),hexDigit (u/256%16),hexDigit (u/16%16),hexDigit (u%16)]

/-- One code point of a string literal under ensure_ascii. -/
def renderChar (c : CodePoint) : Bytes :=
  if c.val=0x22 then ascii "\\\""
  else if c.val=0x5c then ascii "\\\\"
  else if 0x20 ≤ c.val ∧ c.val≤0x7e then [UInt8.ofNat c.val]
  else if c.val=0x0a then ascii "\\n"
  else if c.val=0x0d then ascii "\\r"
  else if c.val=0x09 then ascii "\\t"
  else if c.val=0x0c then ascii "\\f"
  else if c.val=0x08 then ascii "\\b"
  else if c.val<0x10000 then escapeUnit c.val
  else escapeUnit (0xd800+(c.val-0x10000)/0x400)++escapeUnit (0xdc00+(c.val-0x10000)%0x400)

def renderStr (s : PyStr) : Bytes := ascii "\""++s.flatMap renderChar++ascii "\""

def renderNat (n : Nat) : Bytes := (Nat.toDigits 10 n).map fun c => UInt8.ofNat c.toNat

def renderInt : Int → Bytes
  | .ofNat n => renderNat n
  | .negSucc n => ascii "-"++renderNat (n+1)

/-- str(n) -/
def intText (n : Int) : PyStr := ofAscii (renderInt n)

section Render

-- The separators after an item and after a key.
variable (item colon : Bytes)

mutual

/-- json.dumps with the given separators. -/
def render : Json → Bytes
  | .null => ascii "null"
  | .bool true => ascii "true"
  | .bool false => ascii "false"
  | .int n => renderInt n
  | .float f => f.repr
  | .str s => renderStr s
  | .arr [] => ascii "[]"
  | .arr (x::xs) => ascii "["++render x++renderItems xs++ascii "]"
  | .obj [] => ascii "\x7b\x7d"
  | .obj ((k,v)::ms) =>
      ascii "\x7b"++renderStr k++colon++render v++renderMembers ms++ascii "\x7d"

def renderItems : List Json → Bytes
  | [] => []
  | x::xs => item++render x++renderItems xs

def renderMembers : List (PyStr×Json) → Bytes
  | [] => []
  | (k,v)::ms => item++renderStr k++colon++render v++renderMembers ms

end

end Render

mutual

/-- sort_keys=True: every dict in ascending key order. -/
def sortKeys : Json → Json
  | .arr xs => .arr (sortKeysItems xs)
  | .obj ms => .obj (sortKeysMembers ms)
  | v => v

def sortKeysItems : List Json → List Json
  | [] => []
  | x::xs => x.sortKeys::sortKeysItems xs

def sortKeysMembers : List (PyStr×Json) → List (PyStr×Json)
  | [] => []
  | (k,v)::ms => (sortKeysMembers ms).orderedInsert (fun a b => a.1 ≤ b.1) (k,v.sortKeys)

end

/-- json.dumps(v) -/
def dumps (v : Json) : Bytes := v.render (ascii ", ") (ascii ": ")

/-- json.dumps(v, sort_keys=True, separators=(",", ":")) -/
def dumpsCanonical (v : Json) : Bytes := v.sortKeys.render (ascii ",") (ascii ":")

example : dumpsCanonical (.obj [(lit "b",.int (-12)),(lit "a",.arr [.null,.str [0xe9,0x0a]])])
    =ascii "\x7b\"a\":[null,\"\\u00e9\\n\"],\"b\":-12\x7d" := by decide

end Json
end AgentTorrent
