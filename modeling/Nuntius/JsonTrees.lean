import Nuntius.SignedIntegers

/-!
# JSON values with their numbers

A number is an unsigned integer, a negative integer or a float of the carrier `F`, as a parser
that distinguishes the three reads it. Accessors answer only for the kind they are named
after; integers also count as floats.
-/

namespace Nuntius.JsonTrees

inductive JsonTree (F : Type) where
  | null
  | bool (b : Bool)
  | posInt (n : UInt64)
  | negInt (n : I64)
  | float (x : F)
  | str (s : String)
  | arr (items : List (JsonTree F))
  | obj (fields : List (String × JsonTree F))

namespace JsonTree
variable {F : Type}

def get (v : JsonTree F) (key : String) : Option (JsonTree F) :=
  match v with
  | obj fields => fields.lookup key
  | _ => none

def isNull : JsonTree F → Bool
  | null => true
  | _ => false

def asBool : JsonTree F → Option Bool
  | bool b => some b
  | _ => none

def asStr : JsonTree F → Option String
  | str s => some s
  | _ => none

def asArray : JsonTree F → Option (List (JsonTree F))
  | arr items => some items
  | _ => none

def asU64 : JsonTree F → Option UInt64
  | posInt n => some n
  | _ => none

def asI64 : JsonTree F → Option I64
  | posInt n => if (n.toNat : ℤ) ≤ i64Max then some (I64.ofU64 n) else none
  | negInt n => some n
  | _ => none

def asF64 [F64 F] : JsonTree F → Option F
  | posInt n => some (F64.lit n.toNat)
  | negInt n => some (F64.lit n.val)
  | float x => some x
  | _ => none

end JsonTree

end Nuntius.JsonTrees
