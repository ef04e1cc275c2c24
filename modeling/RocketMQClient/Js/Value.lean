import Mathlib.Algebra.Group.Nat.Defs
import Mathlib.Data.Rat.Defs

namespace RocketMQClient.Js

/-- A Number by its mathematical value; no conversion below tells `-0` from `0`. -/
inductive JsNumber
  | nan
  | infinity (negative : Bool)
  | finite (value : ℚ)
  deriving DecidableEq

/-- ToInt32: towards zero, and then modulo `2 ^ 32` into the signed range. -/
def JsNumber.toInt32 : JsNumber → Int
  | .finite q => (q.num.tdiv q.den).bmod (2 ^ 32)
  | _ => 0

@[simp] theorem JsNumber.toInt32_int (v : Int) : (JsNumber.finite v).toInt32 = v.bmod (2 ^ 32) := by
  simp [JsNumber.toInt32]

/-- Strings are the well-formed ones, and an object is what its properties yield. -/
inductive JsValue
  | undefined
  | null
  | boolean (b : Bool)
  | number (n : JsNumber)
  | string (s : String)
  | symbol
  | function (id : Nat)
  | buffer (bytes : List UInt8)
  | object (properties : List (String × JsValue))

namespace JsValue

def toBoolean : JsValue → Bool
  | undefined => false
  | null => false
  | boolean b => b
  | number .nan => false
  | number (.infinity _) => true
  | number (.finite q) => q ≠ 0
  | string s => s ≠ ""
  | symbol => true
  | function _ => true
  | buffer _ => true
  | object _ => true

def isUndefined : JsValue → Bool
  | undefined => true
  | _ => false

def isNull : JsValue → Bool
  | null => true
  | _ => false

def get : JsValue → String → JsValue
  | object properties, name => (properties.lookup name).getD undefined
  | _, _ => undefined

end JsValue

end RocketMQClient.Js
