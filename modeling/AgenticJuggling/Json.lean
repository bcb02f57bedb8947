/-
Python values as they travel in JSON messages.

`Json` is what `json.loads` returns and `json.dumps` takes: dictionaries are
lists of key-value pairs in which, as in a dictionary display or a JSON text,
the last pair with a key wins.  So `{**a, **b}` is `a ++ b`, and
`lookup_append` says that `b` takes precedence.
-/
import Mathlib

/-- A Python float; the finite ones are rationals. -/
inductive PyFloat
  | fin (q : ℚ)
  | posInf
  | negInf
  | nan
  deriving DecidableEq

namespace PyFloat

/-- `-x`. -/
def neg : PyFloat → PyFloat
  | fin q => fin (-q)
  | posInf => negInf
  | negInf => posInf
  | nan => nan

/-- `x + y`, exact on finite operands. -/
def add : PyFloat → PyFloat → PyFloat
  | fin p, fin q => fin (p + q)
  | nan, _ => nan
  | _, nan => nan
  | posInf, negInf => nan
  | negInf, posInf => nan
  | posInf, _ => posInf
  | _, posInf => posInf
  | negInf, _ => negInf
  | _, negInf => negInf

/-- `x - y`. -/
def sub (x y : PyFloat) : PyFloat := x.add y.neg

@[simp] theorem fin_add_fin (p q : ℚ) : (fin p).add (fin q) = fin (p + q) := rfl

@[simp] theorem fin_sub_fin (p q : ℚ) : (fin p).sub (fin q) = fin (p - q) := by
  rw [sub_eq_add_neg]
  rfl

end PyFloat

/-- The values of a JSON text. -/
inductive Json
  | null
  | bool (b : Bool)
  | int (i : ℤ)
  | float (x : PyFloat)
  | str (s : String)
  | arr (items : List Json)
  | obj (kvs : List (String × Json))

namespace Json

/-- The value of a key; the last pair wins. -/
def lookup : List (String × Json) → String → Option Json
  | [], _ => none
  | (k, v) :: rest, key => (lookup rest key).or (if k = key then some v else none)

/-- `d.get(key, default)`. -/
def getD (kvs : List (String × Json)) (key : String) (default : Json) : Json :=
  (lookup kvs key).getD default

/-- The pairs of a dictionary; `none` where `.get` raises `AttributeError`. -/
def asObj : Json → Option (List (String × Json))
  | obj kvs => some kvs
  | _ => none

/-- `payload[key]`; `none` where it raises. -/
def get? (j : Json) (key : String) : Option Json := j.asObj.bind fun kvs => lookup kvs key

@[simp] theorem get?_obj (kvs : List (String × Json)) (key : String) :
    (obj kvs).get? key = lookup kvs key := rfl

/-- The text of a string value. -/
def asStr : Json → Option String
  | str s => some s
  | _ => none

/-- The items of a list value. -/
def asArr : Json → Option (List Json)
  | arr items => some items
  | _ => none

/-- What iterating over the value yields. -/
def items : Json → Option (List Json)
  | arr items => some items
  | obj kvs => some (kvs.map fun p => .str p.1)
  | str s => some (s.toList.map fun c => .str (String.singleton c))
  | _ => none

/-- An integer that `float()` takes; a larger one raises `OverflowError`. -/
def fitsFloat (i : ℤ) : Bool := decide (i.natAbs < 2 ^ 1024 - 2 ^ 970)

/-- The value of a number next to a float: `bool` is a subclass of `int`. -/
def asNumber : Json → Option PyFloat
  | bool b => some (.fin (if b then 1 else 0))
  | int i => if fitsFloat i then some (.fin i) else none
  | float x => some x
  | _ => none

/-- `bool(value)`. -/
def truthy : Json → Bool
  | null => false
  | bool b => b
  | int i => decide (i ≠ 0)
  | float x => decide (x ≠ .fin 0)
  | str s => decide (s ≠ "")
  | arr items => !items.isEmpty
  | obj kvs => !kvs.isEmpty

/-- Whether the value can be a dictionary key. -/
def hashable : Json → Bool
  | arr _ => false
  | obj _ => false
  | _ => true

end Json
