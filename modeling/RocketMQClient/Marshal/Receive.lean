import RocketMQClient.Marshal.Send

namespace RocketMQClient.Marshal

open Js Library

structure CMessageExt where
  topic : List UInt8
  tags : List UInt8
  keys : List UInt8
  body : List UInt8
  msgId : List UInt8
  deriving DecidableEq

def messageHandlerParamKeys : List String := ["topic", "tags", "keys", "body", "msgId"]

/-- `GetMessageColumn`; `std::string` copies a C string, and a name with another
first character yields no column. -/
def getMessageColumn (name : String) (msg : CMessageExt) : List UInt8 :=
  match name.toList with
  | 't' :: rest => if rest.head? = some 'o' then cString msg.topic else cString msg.tags
  | 'k' :: _ => cString msg.keys
  | 'b' :: _ => cString msg.body
  | 'm' :: _ => cString msg.msgId
  | _ => []

abbrev MessageObject := List (String × String)

def column (D : Utf8Decoder) (msg : CMessageExt) (name : String) : String × String :=
  (name, D.decode (getMessageColumn name msg))

def messageObject (D : Utf8Decoder) (msg : CMessageExt) : MessageObject :=
  messageHandlerParamKeys.map (column D msg)

/-- `messageObject` as the binding makes it, which aborts on a column that is too long. -/
def newMessageObject (maxLength : Nat) (D : Utf8Decoder) (msg : CMessageExt) :
    Option MessageObject :=
  messageHandlerParamKeys.mapM fun name =>
    (newString maxLength D (getMessageColumn name msg)).map (Prod.mk name)

/-- The SDK and the broker carry the stored bytes unchanged. -/
def CMessage.carried (m : CMessage) (msgId : List UInt8) : CMessageExt where
  topic := m.topic
  tags := m.tags
  keys := m.keys
  body := m.body
  msgId := msgId

structure Received where
  topic : Option String
  tags : Option String
  keys : Option String
  body : Option String
  deriving DecidableEq

def received (o : MessageObject) : Received where
  topic := o.lookup "topic"
  tags := o.lookup "tags"
  keys := o.lookup "keys"
  body := o.lookup "body"

theorem received_messageObject (D : Utf8Decoder) (msg : CMessageExt) :
    received (messageObject D msg) =
      ⟨some (D.decode (cString msg.topic)), some (D.decode (cString msg.tags)),
        some (D.decode (cString msg.keys)), some (D.decode (cString msg.body))⟩ := rfl

def Body.of (asBuffer : Bool) (body : String) : Body :=
  if asBuffer then .buffer (utf8 body) else .string body

theorem newMessageObject_eq_some {maxLength : Nat} {D : Utf8Decoder} {msg : CMessageExt}
    {o : MessageObject} :
    newMessageObject maxLength D msg = some o ↔
      (∀ name ∈ messageHandlerParamKeys, (getMessageColumn name msg).length ≤ newMax maxLength) ∧
        messageObject D msg = o := by
  rw [newMessageObject, messageObject]
  generalize messageHandlerParamKeys = names
  induction names generalizing o with
  | nil => simp [eq_comm]
  | cons name names ih =>
    simp only [List.mapM_cons, Option.bind_eq_bind, Option.bind_eq_some_iff, Option.map_eq_some_iff,
      newString_eq_some, List.forall_mem_cons, List.map_cons, column]
    constructor
    · rintro ⟨_, ⟨_, ⟨hlength, rfl⟩, rfl⟩, rest, hrest, ho⟩
      cases ho
      obtain ⟨hlengths, rfl⟩ := ih.mp hrest
      exact ⟨⟨hlength, hlengths⟩, rfl⟩
    · rintro ⟨⟨hlength, hlengths⟩, rfl⟩
      exact ⟨_, ⟨_, ⟨hlength, rfl⟩, rfl⟩, _, ih.mpr ⟨hlengths, rfl⟩, rfl⟩

def readString : JsValue → String
  | .string s => untilNul s
  | _ => ""

def SendRequest.read (D : Utf8Decoder) (r : SendRequest) : Received where
  topic := some (untilNul r.topic)
  tags := some (readString (r.options.get "tags"))
  keys := some (readString (r.options.get "keys"))
  body := some <| match r.body with
    | .string body => untilNul body
    | .buffer bytes => D.decode (cString (bytes.take (bytes.length % 2 ^ 32)))

theorem decode_stringBytes (D : Utf8Decoder) (v : JsValue) :
    D.decode (cString (stringBytes v)) = readString v := by
  cases v with
  | string s => rw [stringBytes, cString_cString, D.decode_cString, readString]
  | _ => exact D.decode_utf8 ""

theorem received_message (D : Utf8Decoder) (r : SendRequest) (msgId : List UInt8) :
    received (messageObject D (r.message.carried msgId)) = r.read D := by
  rw [received_messageObject]
  simp only [CMessage.carried, SendRequest.message, SendRequest.read, cString_cString,
    D.decode_cString, decode_stringBytes]
  cases r.body with
  | string body => simp only [cString_cString, D.decode_cString]
  | buffer bytes => rfl

theorem columns_le_iff {msg : CMessageExt} {n : Nat} :
    (∀ name ∈ messageHandlerParamKeys, (getMessageColumn name msg).length ≤ n) ↔
      (cString msg.topic).length ≤ n ∧ (cString msg.tags).length ≤ n ∧
        (cString msg.keys).length ≤ n ∧ (cString msg.body).length ≤ n ∧
        (cString msg.msgId).length ≤ n := by
  simp [messageHandlerParamKeys, getMessageColumn]

structure SendRequest.Carries (r : SendRequest) (topic tags keys body : String) (asBuffer : Bool) :
    Prop where
  topic : r.topic = topic
  tags : r.options.get "tags" = .string tags
  keys : r.options.get "keys" = .string keys
  body : r.body = .of asBuffer body

section Carries

variable {D : Utf8Decoder} {r : SendRequest} {topic tags keys body : String} {asBuffer : Bool}

theorem SendRequest.Carries.message (h : r.Carries topic tags keys body asBuffer) :
    r.message = {
      topic := cString (utf8 topic)
      tags := cString (utf8 tags)
      keys := cString (utf8 keys)
      body := if asBuffer then (utf8 body).take ((utf8 body).length % 2 ^ 32)
        else cString (utf8 body) } := by
  rw [SendRequest.message, h.topic, h.tags, h.keys, h.body]
  cases asBuffer <;> rfl

theorem SendRequest.Carries.convertible_iff (h : r.Carries topic tags keys body asBuffer) :
    r.Convertible ↔ Js.Convertible (utf16 topic) ∧ Js.Convertible (utf16 tags) ∧
      Js.Convertible (utf16 keys) ∧ (asBuffer = false → Js.Convertible (utf16 body)) := by
  have hbody : (∀ s, r.body = .string s → Js.Convertible (utf16 s)) ↔
      (asBuffer = false → Js.Convertible (utf16 body)) := by
    rw [h.body]
    cases asBuffer <;> simp [Body.of]
  have htags : (r.options.get "tags").Convertible ↔ Js.Convertible (utf16 tags) := by
    rw [h.tags, JsValue.Convertible]
  have hkeys : (r.options.get "keys").Convertible ↔ Js.Convertible (utf16 keys) := by
    rw [h.keys, JsValue.Convertible]
  rw [← hbody, ← htags, ← hkeys, ← h.topic]
  constructor
  · rintro ⟨htopic, htags, hkeys, hstring⟩
    exact ⟨htopic, htags, hkeys, hstring⟩
  · rintro ⟨htopic, htags, hkeys, hstring⟩
    exact ⟨htopic, htags, hkeys, hstring⟩

theorem SendRequest.Carries.received_iff (h : r.Carries topic tags keys body asBuffer)
    (msgId : List UInt8) :
    received (messageObject D (r.message.carried msgId)) =
        ⟨some topic, some tags, some keys, some body⟩ ↔
      ('\x00' ∉ topic.toList ∧ '\x00' ∉ tags.toList ∧ '\x00' ∉ keys.toList ∧
          '\x00' ∉ body.toList) ∧ (asBuffer = true → (utf8 body).length < 2 ^ 32) := by
  have hbody : D.decode (cString (if asBuffer then (utf8 body).take ((utf8 body).length % 2 ^ 32)
      else cString (utf8 body))) = body ↔
        '\x00' ∉ body.toList ∧ (asBuffer = true → (utf8 body).length < 2 ^ 32) := by
    cases asBuffer with
    | false => simp [D.decode_cString_utf8]
    | true => simpa using D.decode_cString_wrapped body (k := 32) (by decide)
  rw [received_messageObject, h.message]
  simp only [CMessage.carried, Received.mk.injEq, Option.some.injEq, cString_cString, hbody,
    D.decode_cString_utf8, and_assoc]

theorem SendRequest.Carries.sent_columns_le_iff (h : r.Carries topic tags keys body asBuffer)
    (hzero : '\x00' ∉ topic.toList ∧ '\x00' ∉ tags.toList ∧ '\x00' ∉ keys.toList ∧
      '\x00' ∉ body.toList) (hlength : asBuffer = true → (utf8 body).length < 2 ^ 32)
    (msgId : List UInt8) {n : Nat} :
    (∀ name ∈ messageHandlerParamKeys,
        (getMessageColumn name (r.message.carried msgId)).length ≤ n) ↔
      (utf8 topic).length ≤ n ∧ (utf8 tags).length ≤ n ∧ (utf8 keys).length ≤ n ∧
        (utf8 body).length ≤ n ∧ (cString msgId).length ≤ n := by
  have hcut : ∀ {s : String}, '\x00' ∉ s.toList → cString (utf8 s) = utf8 s := fun hs =>
    cString_eq_self.mpr (mt (zero_mem_utf8 _).mp hs)
  obtain ⟨htopic, htags, hkeys, hbody⟩ := hzero
  have hbytes : (if asBuffer then (utf8 body).take ((utf8 body).length % 2 ^ 32)
      else cString (utf8 body)) = utf8 body := by
    cases asBuffer with
    | false => exact hcut hbody
    | true => rw [if_pos rfl, Nat.mod_eq_of_lt (hlength rfl), List.take_length]
  rw [columns_le_iff, h.message, hbytes]
  simp only [CMessage.carried, hcut htopic, hcut htags, hcut hkeys, hcut hbody]

end Carries

/-- The listener receives the four strings that were sent exactly when none of them has a NUL
in it and no conversion on the way aborts. -/
theorem received_sent_iff (maxLength : Nat) (D : Utf8Decoder) (topic tags keys body : String)
    (asBuffer : Bool) (properties : List (String × JsValue)) (callback : Option Nat)
    (msgId : List UInt8) (htags : (JsValue.object properties).get "tags" = .string tags)
    (hkeys : (JsValue.object properties).get "keys" = .string keys) :
    ∃ r, send (.string topic) (Body.of asBuffer body).toJs (.object properties) callback = .ok r ∧
      ((∃ msg o, RocketMQProducer.send r = some msg ∧
          newMessageObject maxLength D (msg.carried msgId) = some o ∧
          received o = ⟨some topic, some tags, some keys, some body⟩) ↔
        ('\x00' ∉ topic.toList ∧ '\x00' ∉ tags.toList ∧ '\x00' ∉ keys.toList ∧
            '\x00' ∉ body.toList) ∧
          (Convertible (utf16 topic) ∧ Convertible (utf16 tags) ∧ Convertible (utf16 keys) ∧
            (asBuffer = false → Convertible (utf16 body))) ∧
          (utf8 topic).length ≤ newMax maxLength ∧ (utf8 tags).length ≤ newMax maxLength ∧
          (utf8 keys).length ≤ newMax maxLength ∧ (utf8 body).length ≤ newMax maxLength ∧
          (cString msgId).length ≤ newMax maxLength) := by
  refine ⟨_, send_object topic _ properties callback, ?_⟩
  generalize hr : SendRequest.mk topic (.of asBuffer body) (.object properties) callback = r
  have hcarries : r.Carries topic tags keys body asBuffer := by
    subst hr
    exact ⟨rfl, htags, hkeys, rfl⟩
  simp only [send_eq_some, newMessageObject_eq_some]
  rw [← hcarries.convertible_iff]
  constructor
  · rintro ⟨_, _, ⟨hconvertible, rfl⟩, ⟨hcolumns, rfl⟩, hreceived⟩
    obtain ⟨hzero, hlength⟩ := (hcarries.received_iff msgId).mp hreceived
    exact ⟨hzero, hconvertible, (hcarries.sent_columns_le_iff hzero hlength msgId).mp hcolumns⟩
  · rintro ⟨hzero, hconvertible, hcolumns⟩
    have hbody : (utf8 body).length ≤ intMax := hcolumns.2.2.2.1.trans (min_le_left _ _)
    have hlength : asBuffer = true → (utf8 body).length < 2 ^ 32 :=
      fun _ => hbody.trans_lt (by decide)
    exact ⟨_, _, ⟨hconvertible, rfl⟩,
      ⟨(hcarries.sent_columns_le_iff hzero hlength msgId).mpr hcolumns, rfl⟩,
      (hcarries.received_iff msgId).mpr ⟨hzero, hlength⟩⟩

theorem received_sent_iff_plain :
    ∃ r, send (.string "t") (Body.of true "b").toJs
        (.object [("tags", .string "x"), ("keys", .string "k")]) none = .ok r ∧
      ∃ msg o, RocketMQProducer.send r = some msg ∧
        newMessageObject (2 ^ 30 - 25) replacing (msg.carried []) = some o ∧
        received o = ⟨some "t", some "x", some "k", some "b"⟩ := by
  obtain ⟨r, hr, hiff⟩ := received_sent_iff (2 ^ 30 - 25) replacing "t" "x" "k" "b" true
    [("tags", .string "x"), ("keys", .string "k")] none [] rfl rfl
  exact ⟨r, hr, hiff.mpr (by decide)⟩

theorem body_cut_at_nul :
    ∃ r msg o, send (.string "t") (Body.of false "a\x00b").toJs
        (.object [("tags", .string "x"), ("keys", .string "k")]) none = .ok r ∧
      RocketMQProducer.send r = some msg ∧
      newMessageObject (2 ^ 30 - 25) replacing (msg.carried []) = some o ∧
      (received o).body = some "a" ∧ "a" ≠ "a\x00b" := by
  refine ⟨_, _, _, rfl, rfl, newMessageObject_eq_some.mpr ⟨by decide, rfl⟩, ?_, by decide⟩
  rw [received_messageObject]
  exact congrArg some (replacing.decode_utf8 "a")

end RocketMQClient.Marshal
