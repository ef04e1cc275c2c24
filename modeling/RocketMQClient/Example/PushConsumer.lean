import RocketMQClient.Example.Producer
import RocketMQClient.Library.ComparatorSort
import RocketMQClient.Marshal.Receive

namespace RocketMQClient.Example

open Js Library Marshal

def precedes (a b : String) : Prop := utf16 a < utf16 b

instance (a b : String) : Decidable (precedes a b) :=
  inferInstanceAs (Decidable (utf16 a < utf16 b))

def compareBodies (a b : MessageObject) : Int :=
  match a.lookup "body", b.lookup "body" with
  | some a, some b => if precedes a b then -1 else 1
  | _, _ => 1

def expected (i : Nat) (msg : MessageObject) : MessageObject :=
  [("topic", "test"), ("tags", "bar"), ("keys", "foo"), ("body", body i),
    ("msgId", (msg.lookup "msgId").getD "")]

def deepStrictEqual (a b : MessageObject) : Bool :=
  a.length = b.length ∧ a.all fun (key, value) => b.lookup key = some value

def asserts (msgs : List MessageObject) : Bool :=
  msgs.zipIdx.all fun (msg, i) => deepStrictEqual msg (expected i msg)

structure Listening where
  msgs : List MessageObject := []
  passed : Option Bool := none

/-- The listener; when all messages are there it sorts them in place. -/
def Listening.hear (S : ComparatorSort MessageObject) (messageCount : Nat) (s : Listening)
    (msg : MessageObject) : Listening :=
  let msgs := s.msgs ++ [msg]
  if msgs.length = messageCount then
    { msgs := S.sort compareBodies msgs, passed := some (asserts (S.sort compareBodies msgs)) }
  else { s with msgs }

def listening (S : ComparatorSort MessageObject) (messageCount : Nat) (heard : List MessageObject) :
    Listening :=
  heard.foldl (Listening.hear S messageCount) {}

section Listening

variable {S : ComparatorSort MessageObject} {n : Nat}

theorem listening_concat (heard : List MessageObject) (msg : MessageObject) :
    listening S n (heard ++ [msg]) = (listening S n heard).hear S n msg := by
  simp [listening]

theorem listening_eq (heard : List MessageObject) :
    (listening S n heard).msgs.length = heard.length ∧
      (heard.length < n → (listening S n heard).msgs = heard) ∧
      (listening S n heard).passed =
        if 0 < n ∧ n ≤ heard.length then some (asserts (S.sort compareBodies (heard.take n)))
        else none := by
  induction heard using List.reverseRecOn with
  | nil =>
    refine ⟨rfl, fun _ => rfl, ?_⟩
    have hnone : ¬(0 < n ∧ n ≤ 0) := by omega
    exact (if_neg hnone).symm
  | append_singleton heard msg ih =>
    obtain ⟨hlength, hmsgs, hpassed⟩ := ih
    rw [listening_concat, Listening.hear]
    simp only [List.length_append, List.length_singleton, hlength]
    split_ifs with hn
    · have hheard := hmsgs (by omega)
      have htake : (heard ++ [msg]).take n = heard ++ [msg] :=
        List.take_of_length_le (by simp; omega)
      refine ⟨?_, fun hlt => absurd hlt (by omega), ?_⟩
      · rw [(S.perm _ _).length_eq, hheard]
        simp
      · rw [htake, hheard]
    · omega
    · refine ⟨by simp [hlength], fun hlt => by rw [hmsgs (by omega)], ?_⟩
      have htake : (heard ++ [msg]).take n = heard.take n :=
        List.take_append_of_le_length (by omega)
      rw [hpassed, if_pos (by omega), htake]
    · refine ⟨by simp [hlength], fun hlt => by rw [hmsgs (by omega)], ?_⟩
      rw [hpassed, if_neg (by omega)]

end Listening

def sample (i : Nat) (msgId : String) : MessageObject :=
  [("topic", "test"), ("tags", "bar"), ("keys", "foo"), ("body", body i), ("msgId", msgId)]

section Sample

variable {S : ComparatorSort MessageObject} {n i j : Nat} {msgs : List MessageObject}

theorem body_injective (h : body i = body j) : i = j := by
  have hdigits : Nat.toDigits 10 i = Nat.toDigits 10 j := by
    have := congrArg String.toList h
    simpa [body] using this
  rw [← Nat.ofDigitChars_ten_toDigits (n := i), hdigits, Nat.ofDigitChars_ten_toDigits]

theorem body_plain (i : Nat) : '\x00' ∉ (body i).toList := by
  intro h
  simp only [body, String.toList_append, List.mem_append] at h
  rcases h with h | h
  · revert h
    decide
  · have hmem : '\x00' ∈ Nat.toDigits 10 i := by simpa using h
    have hdigit := Nat.isDigit_of_mem_toDigits (by decide) (by decide) hmem
    exact absurd hdigit (by decide)

theorem precedes_trans {a b c : String} (h : precedes a b) (h' : precedes b c) : precedes a c :=
  List.lt_trans h h'

theorem precedes_asymm {a b : String} (h : precedes a b) : ¬precedes b a := List.lt_asymm h

theorem precedes_or {a b : String} (h : a ≠ b) : precedes a b ∨ precedes b a := by
  by_contra hne
  obtain ⟨hab, hba⟩ := not_or.mp hne
  have hunits : utf16 a = utf16 b := List.le_antisymm hba hab
  exact h (by rw [← Utf16.decode_utf16 a, hunits, Utf16.decode_utf16])

def Samples (msgs : List MessageObject) : Prop := ∀ msg ∈ msgs, ∃ i msgId, msg = sample i msgId

def bodies (msgs : List MessageObject) : List (Option String) := msgs.map (·.lookup "body")

theorem sample_body (i : Nat) (msgId : String) : (sample i msgId).lookup "body" = some (body i) :=
  rfl

theorem compareBodies_sample (msgId msgId' : String) :
    compareBodies (sample i msgId) (sample j msgId') =
      if precedes (body i) (body j) then -1 else 1 := rfl

theorem compareBodies_neg (msgId msgId' : String) :
    compareBodies (sample i msgId) (sample j msgId') < 0 ↔ precedes (body i) (body j) := by
  rw [compareBodies_sample]
  split_ifs with h <;> simp [h]

theorem consistent_of_nodup (h : Samples msgs) (hnodup : (bodies msgs).Nodup) :
    Consistent compareBodies msgs where
  apart := by
    refine (List.pairwise_map.mp hnodup).imp_of_mem fun {a b} ha hb hne => ?_
    obtain ⟨i, k, rfl⟩ := h a ha
    obtain ⟨j, l, rfl⟩ := h b hb
    have hbody : body i ≠ body j := fun heq => hne (congrArg some heq)
    obtain hlt | hlt := precedes_or hbody
    · left
      simp [compareBodies_sample, hlt, precedes_asymm hlt]
    · right
      simp [compareBodies_sample, hlt, precedes_asymm hlt]
  trans a ha b hb c hc hab hbc := by
    obtain ⟨i, k, rfl⟩ := h a ha
    obtain ⟨j, l, rfl⟩ := h b hb
    obtain ⟨m, o, rfl⟩ := h c hc
    rw [compareBodies_neg] at hab hbc ⊢
    exact precedes_trans hab hbc

theorem deepStrictEqual_sample (msgId : String) :
    deepStrictEqual (sample j msgId) (expected i (sample j msgId)) = true ↔ body j = body i := by
  simp [deepStrictEqual, sample, expected, List.lookup_cons, eq_comm]

theorem asserts_iff (h : Samples msgs) :
    asserts msgs = true ↔ bodies msgs = (List.range msgs.length).map fun i => some (body i) := by
  rw [asserts, List.all_eq_true]
  constructor
  · intro hall
    refine List.ext_getElem (by simp [bodies]) fun i hi hi' => ?_
    have hlt : i < msgs.length := by simpa [bodies] using hi
    obtain ⟨j, msgId, hj⟩ := h msgs[i] (List.getElem_mem hlt)
    have hmem : (msgs[i], i) ∈ msgs.zipIdx :=
      List.mem_zipIdx_iff_getElem?.mpr (List.getElem?_eq_getElem hlt)
    have hequal := hall _ hmem
    simp only [hj] at hequal
    simp [bodies, hj, sample_body, (deepStrictEqual_sample msgId).mp hequal]
  · rintro heq ⟨msg, i⟩ hmem
    have hget : msgs[i]? = some msg := List.mem_zipIdx_iff_getElem?.mp hmem
    obtain ⟨hlt, rfl⟩ := List.getElem?_eq_some_iff.mp hget
    obtain ⟨j, msgId, hj⟩ := h msgs[i] (List.getElem_mem hlt)
    have hbody : (bodies msgs)[i]? = some (some (body i)) := by
      rw [heq]
      simp [hlt]
    simp only [bodies, List.getElem?_map, hget, Option.map_some, hj, sample_body] at hbody
    simp only [hj]
    exact (deepStrictEqual_sample msgId).mpr (Option.some.inj (Option.some.inj hbody))

def inOrder (n : Nat) : List (Option String) := (List.range n).map fun i => some (body i)

def BodyPrecedes (a b : Option String) : Prop := ∃ s ∈ a, ∃ t ∈ b, precedes s t

theorem bodyPrecedes_body : BodyPrecedes (some (body i)) (some (body j)) ↔
    precedes (body i) (body j) := by
  simp [BodyPrecedes]

theorem inOrder_nodup (n : Nat) : (inOrder n).Nodup :=
  List.Nodup.map (fun _ _ h => body_injective (Option.some.inj h)) List.nodup_range

/-- As strings the bodies are in order up to the tenth: `baz 10` precedes `baz 2`. -/
theorem inOrder_pairwise : (inOrder n).Pairwise BodyPrecedes ↔ n ≤ 10 := by
  simp only [inOrder, List.pairwise_map, bodyPrecedes_body]
  constructor
  · intro h
    by_contra hn
    have hlt := List.pairwise_iff_getElem.mp h 2 10 (by simp; omega) (by simp; omega) (by decide)
    simp only [List.getElem_range] at hlt
    exact absurd hlt (by decide)
  · intro hn
    have hten : (List.range 10).Pairwise fun i j => precedes (body i) (body j) := by decide
    exact hten.sublist (List.range_sublist.mpr hn)

theorem sorted_bodies (h : Samples msgs)
    (hsorted : msgs.Pairwise fun a b => compareBodies a b < 0) :
    (bodies msgs).Pairwise BodyPrecedes := by
  refine List.pairwise_map.mpr (hsorted.imp_of_mem fun {a b} ha hb hlt => ?_)
  obtain ⟨i, k, rfl⟩ := h a ha
  obtain ⟨j, l, rfl⟩ := h b hb
  exact bodyPrecedes_body.mpr ((compareBodies_neg k l).mp hlt)

/-- The assertions about the sorted messages hold exactly if there are at most ten of them and
none came twice. -/
theorem asserts_sort_iff (h : ∀ msg ∈ msgs, ∃ i < msgs.length, ∃ msgId, msg = sample i msgId) :
    asserts (S.sort compareBodies msgs) = true ↔ msgs.length ≤ 10 ∧ (bodies msgs).Nodup := by
  have hperm := S.perm compareBodies msgs
  have hsamples : Samples msgs := fun msg hmsg =>
    let ⟨i, _, hi⟩ := h msg hmsg
    ⟨i, hi⟩
  have hsorted : Samples (S.sort compareBodies msgs) := fun msg hmsg =>
    hsamples msg (hperm.mem_iff.mp hmsg)
  have hbodies : (bodies (S.sort compareBodies msgs)).Perm (bodies msgs) := hperm.map _
  have hpairwise : (bodies msgs).Nodup →
      (bodies (S.sort compareBodies msgs)).Pairwise BodyPrecedes := fun hnodup =>
    sorted_bodies hsorted (S.ordered _ _ (consistent_of_nodup hsamples hnodup))
  rw [asserts_iff hsorted, hperm.length_eq]
  change bodies (S.sort compareBodies msgs) = inOrder msgs.length ↔ _
  constructor
  · intro heq
    have hnodup : (bodies msgs).Nodup := hbodies.nodup_iff.mp (heq ▸ inOrder_nodup _)
    exact ⟨inOrder_pairwise.mp (heq ▸ hpairwise hnodup), hnodup⟩
  · rintro ⟨hten, hnodup⟩
    -- ten different ones of ten are all of them
    have hsubset : bodies msgs ⊆ inOrder msgs.length := by
      intro b hb
      obtain ⟨msg, hmsg, rfl⟩ := List.mem_map.mp hb
      obtain ⟨i, hi, msgId, rfl⟩ := h msg hmsg
      exact List.mem_map.mpr ⟨i, List.mem_range.mpr hi, rfl⟩
    have hall : (bodies msgs).Perm (inOrder msgs.length) :=
      (hnodup.subperm hsubset).perm_of_length_le (by simp [inOrder, bodies])
    refine List.Perm.eq_of_pairwise ?_ (hpairwise hnodup) (inOrder_pairwise.mpr hten)
      (hbodies.trans hall)
    rintro _ _ - - ⟨s, rfl, t, rfl, hlt⟩ ⟨s', hs', t', ht', hgt⟩
    cases hs'
    cases ht'
    exact absurd hgt (precedes_asymm hlt)

end Sample

end RocketMQClient.Example
