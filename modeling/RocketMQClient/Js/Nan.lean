import RocketMQClient.Js.Value
import RocketMQClient.Library.CString
import RocketMQClient.Library.Utf16

namespace RocketMQClient.Js

open Library

def intMax : Nat := 2 ^ 31 - 1

/-- `Nan::Utf8String` asserts that three bytes a code unit and a NUL fit an `int`. -/
def Convertible (units : List UInt16) : Prop := 3 * units.length + 1 ≤ intMax

instance (units : List UInt16) : Decidable (Convertible units) :=
  inferInstanceAs (Decidable (_ ≤ _))

/-- `Nan::Utf8String`; without a result the process is aborted. -/
def utf8String (units : List UInt16) : Option (List UInt8) :=
  if Convertible units then some (utf8 (Utf16.decode units)) else none

/-- The longest `std::string` that `Nan::New` takes: it asserts that the size fits an `int`, and
V8 makes a string of at most `maxLength` bytes (`String::kMaxLength`). -/
def newMax (maxLength : Nat) : Nat := min intMax maxLength

/-- `Nan::New` of a `std::string` and `ToLocalChecked`, which abort instead of a result. -/
def newString (maxLength : Nat) (D : Utf8Decoder) (bytes : List UInt8) : Option String :=
  if bytes.length ≤ newMax maxLength then some (D.decode bytes) else none

def JsValue.Convertible : JsValue → Prop
  | .string s => Js.Convertible (utf16 s)
  | _ => True

instance : DecidablePred JsValue.Convertible
  | .string s => inferInstanceAs (Decidable (Js.Convertible (utf16 s)))
  | .undefined | .null | .boolean _ | .number _ | .symbol | .function _ | .buffer _ | .object _ =>
    isTrue trivial

variable {units : List UInt16} {bytes : List UInt8}

theorem utf8String_eq_some :
    utf8String units = some bytes ↔ Convertible units ∧ utf8 (Utf16.decode units) = bytes := by
  rw [utf8String]
  split_ifs with h <;> simp [h]

theorem utf8String_utf16 {s : String} :
    utf8String (utf16 s) = some bytes ↔ Convertible (utf16 s) ∧ utf8 s = bytes := by
  rw [utf8String_eq_some, Utf16.decode_utf16]

theorem newString_eq_some {maxLength : Nat} {D : Utf8Decoder} {s : String} :
    newString maxLength D bytes = some s ↔
      bytes.length ≤ newMax maxLength ∧ D.decode bytes = s := by
  rw [newString]
  split_ifs with h <;> simp [h]

theorem Convertible.length_le {s : String} (h : Convertible (utf16 s)) :
    (utf8 s).length ≤ intMax := by
  have hlength := length_utf8_le s
  unfold Convertible at h
  omega

end RocketMQClient.Js
