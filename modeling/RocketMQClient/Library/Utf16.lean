import RocketMQClient.Library.CString

namespace RocketMQClient.Library

def highSurrogate (c : Char) : UInt16 := UInt16.ofNat (0xd800 + (c.toNat - 0x10000) / 0x400)

def lowSurrogate (c : Char) : UInt16 := UInt16.ofNat (0xdc00 + (c.toNat - 0x10000) % 0x400)

def utf16EncodeChar (c : Char) : List UInt16 :=
  if c.toNat < 0x10000 then [UInt16.ofNat c.toNat] else [highSurrogate c, lowSurrogate c]

def utf16 (s : String) : List UInt16 := s.toList.flatMap utf16EncodeChar

namespace Utf16

def isHighSurrogate (u : UInt16) : Bool := 0xd800 ≤ u.toNat ∧ u.toNat < 0xdc00

def isLowSurrogate (u : UInt16) : Bool := 0xdc00 ≤ u.toNat ∧ u.toNat < 0xe000

def ofUnit (u : UInt16) : Char :=
  if isHighSurrogate u || isLowSurrogate u then '\ufffd' else Char.ofNat u.toNat

def ofPair (u v : UInt16) : Char :=
  Char.ofNat (0x10000 + (u.toNat - 0xd800) * 0x400 + (v.toNat - 0xdc00))

def decodeChars : List UInt16 → List Char
  | [] => []
  | [u] => [ofUnit u]
  | u :: v :: units =>
    if isHighSurrogate u && isLowSurrogate v then ofPair u v :: decodeChars units
    else ofUnit u :: decodeChars (v :: units)

def decode (units : List UInt16) : String := String.ofList (decodeChars units)

theorem toNat_notMem_surrogates (c : Char) :
    c.toNat < 0xd800 ∨ 0xdfff < c.toNat ∧ c.toNat < 0x110000 :=
  c.valid

theorem decodeChars_unit {u : UInt16} (h : isHighSurrogate u = false) (units : List UInt16) :
    decodeChars (u :: units) = ofUnit u :: decodeChars units := by
  cases units with
  | nil => rfl
  | cons v units => simp [decodeChars, h]

theorem decodeChars_basic {c : Char} (h : c.toNat < 0x10000) (units : List UInt16) :
    decodeChars (UInt16.ofNat c.toNat :: units) = c :: decodeChars units := by
  have hc := toNat_notMem_surrogates c
  have hu : (UInt16.ofNat c.toNat).toNat = c.toNat := UInt16.toNat_ofNat_of_lt' h
  have hhigh : isHighSurrogate (UInt16.ofNat c.toNat) = false := by
    simp only [isHighSurrogate, hu, decide_eq_false_iff_not]
    omega
  have hlow : isLowSurrogate (UInt16.ofNat c.toNat) = false := by
    simp only [isLowSurrogate, hu, decide_eq_false_iff_not]
    omega
  rw [decodeChars_unit hhigh]
  simp [ofUnit, hhigh, hlow, hu]

theorem toNat_highSurrogate (c : Char) :
    (highSurrogate c).toNat = 0xd800 + (c.toNat - 0x10000) / 0x400 := by
  have hc := toNat_notMem_surrogates c
  exact UInt16.toNat_ofNat_of_lt' (show _ < 2 ^ 16 by omega)

theorem toNat_lowSurrogate (c : Char) :
    (lowSurrogate c).toNat = 0xdc00 + (c.toNat - 0x10000) % 0x400 :=
  UInt16.toNat_ofNat_of_lt' (show _ < 2 ^ 16 by omega)

theorem decodeChars_pair {c : Char} (h : 0x10000 ≤ c.toNat) (units : List UInt16) :
    decodeChars (highSurrogate c :: lowSurrogate c :: units) = c :: decodeChars units := by
  have hc := toNat_notMem_surrogates c
  have hu := toNat_highSurrogate c
  have hv := toNat_lowSurrogate c
  have hhigh : isHighSurrogate (highSurrogate c) = true := by
    simp only [isHighSurrogate, hu, decide_eq_true_eq]
    omega
  have hlow : isLowSurrogate (lowSurrogate c) = true := by
    simp only [isLowSurrogate, hv, decide_eq_true_eq]
    omega
  have hpair : 0x10000 + (0xd800 + (c.toNat - 0x10000) / 0x400 - 0xd800) * 0x400 +
      (0xdc00 + (c.toNat - 0x10000) % 0x400 - 0xdc00) = c.toNat := by omega
  simp only [decodeChars, hhigh, hlow, Bool.and_self, if_true, ofPair, hu, hv, hpair,
    Char.ofNat_toNat]

theorem decodeChars_append (c : Char) (units : List UInt16) :
    decodeChars (utf16EncodeChar c ++ units) = c :: decodeChars units := by
  rw [utf16EncodeChar]
  split_ifs with h
  · exact decodeChars_basic h units
  · exact decodeChars_pair (Nat.le_of_not_lt h) units

theorem decodeChars_flatMap (cs : List Char) : decodeChars (cs.flatMap utf16EncodeChar) = cs := by
  induction cs with
  | nil => rfl
  | cons c cs ih => rw [List.flatMap_cons, decodeChars_append, ih]

@[simp] theorem decode_utf16 (s : String) : decode (utf16 s) = s := by
  rw [decode, utf16, decodeChars_flatMap, String.ofList_toList]

end Utf16

theorem length_utf16_le (s : String) : (utf16 s).length ≤ 2 * s.toList.length := by
  rw [utf16]
  induction s.toList with
  | nil => exact Nat.le_refl 0
  | cons c cs ih =>
    have hc : (utf16EncodeChar c).length ≤ 2 := by
      rw [utf16EncodeChar]
      split_ifs <;> simp
    simp only [List.flatMap_cons, List.length_append, List.length_cons]
    omega

theorem length_utf8EncodeChar_le (c : Char) :
    (String.utf8EncodeChar c).length ≤ 3 * (utf16EncodeChar c).length := by
  have hfour := c.utf8Size_le_four
  rw [String.length_utf8EncodeChar, utf16EncodeChar]
  split_ifs with hc
  · have hval : c.val.toNat < 0x10000 := hc
    have hthree : c.utf8Size ≤ 3 := by
      simp only [Char.utf8Size]
      split_ifs with _ _ hbasic
      · decide
      · decide
      · exact Nat.le_refl 3
      · exact absurd (UInt32.le_iff_toNat_le.mpr (Nat.le_of_lt_succ hval)) hbasic
    simpa using hthree
  · simp only [List.length_cons, List.length_nil]
    omega

theorem length_utf8_le (s : String) : (utf8 s).length ≤ 3 * (utf16 s).length := by
  rw [utf8, utf16]
  induction s.toList with
  | nil => exact Nat.le_refl 0
  | cons c cs ih =>
    have hc := length_utf8EncodeChar_le c
    simp only [List.flatMap_cons, List.length_append]
    omega

end RocketMQClient.Library
