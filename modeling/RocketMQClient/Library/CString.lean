import Mathlib.Algebra.Group.Nat.Defs
import Mathlib.Data.List.Basic
import Mathlib.Data.List.TakeWhile

/-! UTF-8 images of Unicode strings and the NUL-terminated strings of C.  A
Lean `String` is a sequence of Unicode scalar values, so it is exactly a string
without lone surrogates. -/

namespace RocketMQClient.Library

def utf8 (s : String) : List UInt8 := s.toList.flatMap String.utf8EncodeChar

def cString (bytes : List UInt8) : List UInt8 := bytes.takeWhile (· ≠ 0)

/-- A decoder that reads every encoded character for what it is.  For malformed
bytes it substitutes characters other than NUL, at most one for each byte. -/
structure Utf8Decoder where
  decode : List UInt8 → String
  decode_append : ∀ s bytes, decode (utf8 s ++ bytes) = s ++ decode bytes
  length_le : ∀ bytes, (decode bytes).length ≤ bytes.length
  zero_mem : ∀ bytes, '\x00' ∈ (decode bytes).toList → (0 : UInt8) ∈ bytes

theorem zero_mem_utf8EncodeChar (c : Char) : (0 : UInt8) ∈ String.utf8EncodeChar c ↔ c = '\x00' := by
  have hval : c = '\x00' ↔ c.val.toNat = 0 := by
    rw [Char.ext_iff, ← UInt32.toNat_inj]
    rfl
  have hzero : ∀ n, (0 : UInt8) = UInt8.ofNat n ↔ n % 256 = 0 := by
    intro n
    rw [← UInt8.toNat_inj, UInt8.toNat_ofNat']
    simp [eq_comm]
  rw [hval, String.utf8EncodeChar]
  split_ifs <;> simp only [List.mem_cons, hzero, List.not_mem_nil, or_false] <;> omega

theorem zero_mem_utf8 (s : String) : (0 : UInt8) ∈ utf8 s ↔ '\x00' ∈ s.toList := by
  simp [utf8, zero_mem_utf8EncodeChar]

theorem cString_eq_self {bytes : List UInt8} : cString bytes = bytes ↔ (0 : UInt8) ∉ bytes := by
  rw [cString, List.takeWhile_eq_self_iff]
  constructor
  · intro h h0
    simpa using h 0 h0
  · intro h b hb
    simpa using fun h0 : b = 0 => h (h0 ▸ hb)

@[simp] theorem cString_cString (bytes : List UInt8) : cString (cString bytes) = cString bytes := by
  rw [cString_eq_self, cString]
  intro h
  simpa using List.mem_takeWhile_imp h

@[simp] theorem Utf8Decoder.decode_utf8 (D : Utf8Decoder) (s : String) : D.decode (utf8 s) = s := by
  have hnil : D.decode [] = "" := by simpa using D.length_le []
  simpa [hnil] using D.decode_append s []

theorem Utf8Decoder.zero_notMem_decode_cString (D : Utf8Decoder) (bytes : List UInt8) :
    '\x00' ∉ (D.decode (cString bytes)).toList := by
  intro h
  exact cString_eq_self.mp (cString_cString bytes) (D.zero_mem _ h)

theorem Utf8Decoder.decode_cString_utf8 (D : Utf8Decoder) (s : String) :
    D.decode (cString (utf8 s)) = s ↔ '\x00' ∉ s.toList := by
  constructor
  · intro h
    have hzero := D.zero_notMem_decode_cString (utf8 s)
    rwa [h] at hzero
  · intro h
    rw [cString_eq_self.mpr (mt (zero_mem_utf8 s).mp h), D.decode_utf8]

def untilNul (s : String) : String := String.ofList (s.toList.takeWhile (· ≠ '\x00'))

theorem cString_utf8 (s : String) : cString (utf8 s) = utf8 (untilNul s) := by
  simp only [utf8, untilNul, cString, String.toList_ofList]
  induction s.toList with
  | nil => rfl
  | cons c cs ih =>
    by_cases hc : c = '\x00'
    · subst hc
      rfl
    · have hall : ∀ b ∈ String.utf8EncodeChar c, (decide (b ≠ 0)) = true := by
        intro b hb
        simpa using fun h0 : b = 0 => hc ((zero_mem_utf8EncodeChar c).mp (h0 ▸ hb))
      rw [List.flatMap_cons, List.takeWhile_append_of_pos hall, ih,
        List.takeWhile_cons_of_pos (by simpa using hc), List.flatMap_cons]

theorem Utf8Decoder.decode_cString (D : Utf8Decoder) (s : String) :
    D.decode (cString (utf8 s)) = untilNul s := by
  rw [cString_utf8, D.decode_utf8]

theorem length_flatMap_utf8 (cs : List Char) :
    (cs.flatMap String.utf8EncodeChar).length ≤ 4 * cs.length := by
  induction cs with
  | nil => simp
  | cons c cs ih =>
    have hc := c.utf8Size_le_four
    simp only [List.flatMap_cons, List.length_append, String.length_utf8EncodeChar,
      List.length_cons]
    omega

theorem Utf8Decoder.decode_char_append (D : Utf8Decoder) (c : Char) (bytes : List UInt8) :
    D.decode (String.utf8EncodeChar c ++ bytes) = String.singleton c ++ D.decode bytes := by
  simpa [utf8] using D.decode_append (String.singleton c) bytes

theorem Utf8Decoder.length_decode_take (D : Utf8Decoder) (cs : List Char) (n : Nat)
    (h : n + 16 ≤ (cs.flatMap String.utf8EncodeChar).length) :
    (D.decode ((cs.flatMap String.utf8EncodeChar).take n)).length < cs.length := by
  induction cs generalizing n with
  | nil => simp at h
  | cons c cs ih =>
    rw [List.flatMap_cons] at h ⊢
    have hsize := String.length_utf8EncodeChar c
    by_cases hn : c.utf8Size ≤ n
    · have hcut : n - c.utf8Size + 16 ≤ (cs.flatMap String.utf8EncodeChar).length := by
        rw [List.length_append] at h
        omega
      rw [List.take_append, List.take_of_length_le (by omega), hsize, D.decode_char_append]
      have := ih _ hcut
      simp
      omega
    · have hle := D.length_le (List.take n (String.utf8EncodeChar c ++ cs.flatMap String.utf8EncodeChar))
      have htake := List.length_take_le n (String.utf8EncodeChar c ++ cs.flatMap String.utf8EncodeChar)
      have hfour := c.utf8Size_le_four
      have hlen := length_flatMap_utf8 cs
      rw [List.length_append] at h
      simp only [List.length_cons]
      omega

theorem Utf8Decoder.decode_cString_wrapped (D : Utf8Decoder) (s : String) {k : Nat} (hk : 4 ≤ k) :
    D.decode (cString ((utf8 s).take ((utf8 s).length % 2 ^ k))) = s ↔
      '\x00' ∉ s.toList ∧ (utf8 s).length < 2 ^ k := by
  constructor
  · intro h
    have hzero : '\x00' ∉ s.toList := by
      have := D.zero_notMem_decode_cString ((utf8 s).take ((utf8 s).length % 2 ^ k))
      rwa [h] at this
    refine ⟨hzero, ?_⟩
    by_contra hge
    have hpow : 2 ^ 4 ≤ 2 ^ k := Nat.pow_le_pow_right (by decide) hk
    have hcut : (utf8 s).length % 2 ^ k + 16 ≤ (utf8 s).length := by
      have hmod := Nat.mod_add_div (utf8 s).length (2 ^ k)
      have hdiv : 1 ≤ (utf8 s).length / 2 ^ k := (Nat.one_le_div_iff (by omega)).mpr (by omega)
      have hmul : 2 ^ k * 1 ≤ 2 ^ k * ((utf8 s).length / 2 ^ k) := Nat.mul_le_mul_left _ hdiv
      omega
    have hself : (0 : UInt8) ∉ (utf8 s).take ((utf8 s).length % 2 ^ k) := fun h0 =>
      hzero ((zero_mem_utf8 s).mp (List.mem_of_mem_take h0))
    have hshort := D.length_decode_take s.toList _ hcut
    rw [cString_eq_self.mpr hself] at h
    rw [← utf8, h, String.length_toList] at hshort
    exact Nat.lt_irrefl _ hshort
  · rintro ⟨hzero, hlt⟩
    rw [Nat.mod_eq_of_lt hlt, List.take_length]
    exact (D.decode_cString_utf8 s).mpr hzero

namespace Replacing

def decodeChar? (bytes : List UInt8) : Option Char := bytes.toByteArray.utf8DecodeChar? 0

theorem decodeChar?_append (c : Char) (bytes : List UInt8) :
    decodeChar? (String.utf8EncodeChar c ++ bytes) = some c := by
  rw [decodeChar?, List.toByteArray_append]
  exact ByteArray.utf8DecodeChar?_utf8EncodeChar_append

theorem decodeChar?_eq_some {bytes : List UInt8} {c : Char} (h : decodeChar? bytes = some c) :
    ∃ rest, bytes = String.utf8EncodeChar c ++ rest := by
  obtain ⟨l, hl⟩ := ByteArray.exists_of_utf8DecodeChar?_eq_some h
  refine ⟨l.data.toList, ?_⟩
  have hdata := congrArg (fun b : ByteArray => b.data.toList) hl
  simpa using hdata

def decodeChars (bytes : List UInt8) : List Char :=
  if bytes = [] then [] else
    match decodeChar? bytes with
    | some c => c :: decodeChars (bytes.drop c.utf8Size)
    | none => '\ufffd' :: decodeChars bytes.tail
termination_by bytes.length
decreasing_by
  · have := List.length_pos_iff.mpr ‹bytes ≠ []›
    have := c.utf8Size_pos
    rw [List.length_drop]
    omega
  · have := List.length_pos_iff.mpr ‹bytes ≠ []›
    rw [List.length_tail]
    omega

theorem decodeChars_append (c : Char) (bytes : List UInt8) :
    decodeChars (String.utf8EncodeChar c ++ bytes) = c :: decodeChars bytes := by
  have hne : String.utf8EncodeChar c ++ bytes ≠ [] := by simp
  rw [decodeChars, if_neg hne, decodeChar?_append]
  simp

theorem decodeChars_flatMap (cs : List Char) (bytes : List UInt8) :
    decodeChars (cs.flatMap String.utf8EncodeChar ++ bytes) = cs ++ decodeChars bytes := by
  induction cs with
  | nil => simp
  | cons c cs ih => rw [List.flatMap_cons, List.append_assoc, decodeChars_append, ih, List.cons_append]

theorem length_decodeChars (bytes : List UInt8) : (decodeChars bytes).length ≤ bytes.length := by
  fun_induction decodeChars bytes with
  | case1 => simp
  | case2 bytes hne c hc ih =>
    obtain ⟨rest, rfl⟩ := decodeChar?_eq_some hc
    have := c.utf8Size_pos
    simp at ih ⊢
    omega
  | case3 bytes hne hc ih =>
    have := List.length_pos_iff.mpr hne
    simp at ih ⊢
    omega

theorem zero_mem_decodeChars (bytes : List UInt8) (h : '\x00' ∈ decodeChars bytes) :
    (0 : UInt8) ∈ bytes := by
  fun_induction decodeChars bytes with
  | case1 => simp at h
  | case2 bytes hne c hc ih =>
    rcases List.mem_cons.mp h with rfl | h
    · obtain ⟨rest, rfl⟩ := decodeChar?_eq_some hc
      exact List.mem_append_left _ ((zero_mem_utf8EncodeChar _).mpr rfl)
    · exact List.mem_of_mem_drop (ih h)
  | case3 bytes hne hc ih =>
    exact List.mem_of_mem_tail (ih (by simpa using h))

end Replacing

def replacing : Utf8Decoder where
  decode bytes := String.ofList (Replacing.decodeChars bytes)
  decode_append s bytes := by
    rw [utf8, Replacing.decodeChars_flatMap, String.ofList_append, String.ofList_toList]
  length_le bytes := by simpa using Replacing.length_decodeChars bytes
  zero_mem bytes h := Replacing.zero_mem_decodeChars bytes (by simpa using h)

end RocketMQClient.Library
