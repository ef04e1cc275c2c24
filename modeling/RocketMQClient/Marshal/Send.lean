import RocketMQClient.Js.Nan

namespace RocketMQClient.Marshal

open Js Library

/-- The native message, each field as the bytes that the SDK stores. -/
structure CMessage where
  topic : List UInt8
  tags : List UInt8 := []
  keys : List UInt8 := []
  body : List UInt8 := []
  deriving DecidableEq

def createMessage (topic : List UInt8) : CMessage where
  topic := cString topic

def setMessageTags (msg : CMessage) (tags : List UInt8) : CMessage :=
  { msg with tags := cString tags }

def setMessageKeys (msg : CMessage) (keys : List UInt8) : CMessage :=
  { msg with keys := cString keys }

def setMessageBody (msg : CMessage) (body : List UInt8) : CMessage :=
  { msg with body := cString body }

def setByteMessageBody (msg : CMessage) (body : List UInt8) (length : Nat) : CMessage :=
  { msg with body := body.take length }

inductive AssertionError
  | assertion
  deriving DecidableEq

inductive Body
  | string (s : String)
  | buffer (bytes : List UInt8)
  deriving DecidableEq

structure SendRequest where
  topic : String
  body : Body
  options : JsValue
  callback : Option Nat

def send (topic body options : JsValue) (callback : Option Nat) :
    Except AssertionError SendRequest :=
  match topic, body with
  | .string topic, .string s => .ok (request topic (.string s))
  | .string topic, .buffer bytes => .ok (request topic (.buffer bytes))
  | _, _ => .error .assertion
where
  request (topic : String) (body : Body) : SendRequest :=
    match options with
    | .function f => ⟨topic, body, .object [], some f⟩
    | options => ⟨topic, body, if options.toBoolean then options else .object [], callback⟩

def setString (set : CMessage → List UInt8 → CMessage) (property : JsValue) (msg : CMessage) :
    Option CMessage :=
  match property with
  | .string s => (utf8String (utf16 s)).map (set msg)
  | _ => some msg

/-- `RocketMQProducer::Send` up to the worker; `none` is an abort. -/
def RocketMQProducer.send (r : SendRequest) : Option CMessage := do
  let topic ← utf8String (utf16 r.topic)
  let msg := createMessage topic
  let msg ← setString setMessageTags (r.options.get "tags") msg
  let msg ← setString setMessageKeys (r.options.get "keys") msg
  match r.body with
  | .string body => (utf8String (utf16 body)).map (setMessageBody msg)
  -- the length goes through an `unsigned int`
  | .buffer bytes => some (setByteMessageBody msg bytes (bytes.length % 2 ^ 32))

def Body.toJs : Body → JsValue
  | .string s => .string s
  | .buffer bytes => .buffer bytes

theorem send_object (topic : String) (body : Body) (properties : List (String × JsValue))
    (callback : Option Nat) :
    send (.string topic) body.toJs (.object properties) callback =
      .ok ⟨topic, body, .object properties, callback⟩ := by
  cases body <;> rfl

theorem truthy_get (options : JsValue) (name : String) :
    (if options.toBoolean then options else .object []).get name = options.get name := by
  split_ifs with h
  · rfl
  · cases options with
    | object => exact absurd rfl h
    | _ => rfl

theorem send_string (topic : String) (options : JsValue) (callback : Option Nat) :
    ∃ options' callback', (∀ name, options'.get name = options.get name) ∧
      ∀ body : Body, send (.string topic) body.toJs options callback =
        .ok ⟨topic, body, options', callback'⟩ := by
  cases options with
  | function f =>
    exact ⟨.object [], some f, fun _ => rfl, fun body => by cases body <;> rfl⟩
  | _ => exact ⟨_, callback, truthy_get _, fun body => by cases body <;> rfl⟩

def stringBytes : JsValue → List UInt8
  | .string s => cString (utf8 s)
  | _ => []

namespace SendRequest

def message (r : SendRequest) : CMessage where
  topic := cString (utf8 r.topic)
  tags := stringBytes (r.options.get "tags")
  keys := stringBytes (r.options.get "keys")
  body := match r.body with
    | .string body => cString (utf8 body)
    | .buffer bytes => bytes.take (bytes.length % 2 ^ 32)

structure Convertible (r : SendRequest) : Prop where
  topic : Js.Convertible (utf16 r.topic)
  tags : (r.options.get "tags").Convertible
  keys : (r.options.get "keys").Convertible
  body : ∀ body, r.body = .string body → Js.Convertible (utf16 body)

end SendRequest

section Send

variable {r : SendRequest} {msg msg' : CMessage} {property : JsValue}

theorem setMessageTags_eq_some (h : msg.tags = []) :
    setString setMessageTags property msg = some msg' ↔
      property.Convertible ∧ { msg with tags := stringBytes property } = msg' := by
  unfold setString
  cases property with
  | string s => simp [utf8String_utf16, JsValue.Convertible, setMessageTags, stringBytes]
  | _ => simp [JsValue.Convertible, stringBytes, ← h]

theorem setMessageKeys_eq_some (h : msg.keys = []) :
    setString setMessageKeys property msg = some msg' ↔
      property.Convertible ∧ { msg with keys := stringBytes property } = msg' := by
  unfold setString
  cases property with
  | string s => simp [utf8String_utf16, JsValue.Convertible, setMessageKeys, stringBytes]
  | _ => simp [JsValue.Convertible, stringBytes, ← h]

theorem send_eq_some : RocketMQProducer.send r = some msg ↔ r.Convertible ∧ r.message = msg := by
  obtain ⟨topic, body, options, callback⟩ := r
  simp only [RocketMQProducer.send, Option.bind_eq_bind, Option.bind_eq_some_iff, utf8String_utf16]
  constructor
  · rintro ⟨_, ⟨htopic, rfl⟩, _, hsetTags, _, hsetKeys, hset⟩
    obtain ⟨htags, rfl⟩ := (setMessageTags_eq_some rfl).mp hsetTags
    obtain ⟨hkeys, rfl⟩ := (setMessageKeys_eq_some rfl).mp hsetKeys
    cases body with
    | string body =>
      obtain ⟨_, hbytes, rfl⟩ := Option.map_eq_some_iff.mp hset
      obtain ⟨hbody, rfl⟩ := utf8String_utf16.mp hbytes
      exact ⟨⟨htopic, htags, hkeys, by simpa using hbody⟩, rfl⟩
    | buffer bytes =>
      cases hset
      exact ⟨⟨htopic, htags, hkeys, by simp⟩, rfl⟩
  · rintro ⟨⟨htopic, htags, hkeys, hbody⟩, rfl⟩
    refine ⟨_, ⟨htopic, rfl⟩, _, (setMessageTags_eq_some rfl).mpr ⟨htags, rfl⟩, _,
      (setMessageKeys_eq_some rfl).mpr ⟨hkeys, rfl⟩, ?_⟩
    cases body with
    | string body =>
      exact Option.map_eq_some_iff.mpr ⟨_, utf8String_utf16.mpr ⟨hbody body rfl, rfl⟩, rfl⟩
    | buffer bytes => rfl

end Send

/-- A string and the Buffer of its UTF-8 bytes are sent as the same message, with all the
bytes in its body, exactly when the string has no NUL in it and no conversion aborts. -/
theorem send_string_eq_buffer_iff (topic s : String) (options : JsValue) (callback : Option Nat) :
    ∃ r r', send (.string topic) (.string s) options callback = .ok r ∧
      send (.string topic) (.buffer (utf8 s)) options callback = .ok r' ∧
      ((∃ msg, RocketMQProducer.send r = some msg ∧ RocketMQProducer.send r' = some msg ∧
          msg.body = utf8 s) ↔
        '\x00' ∉ s.toList ∧ Convertible (utf16 s) ∧ Convertible (utf16 topic) ∧
          (options.get "tags").Convertible ∧ (options.get "keys").Convertible) := by
  obtain ⟨options', callback', hget, hsend⟩ := send_string topic options callback
  refine ⟨_, _, hsend (.string s), hsend (.buffer (utf8 s)), ?_⟩
  simp only [send_eq_some]
  have hcut : cString (utf8 s) = utf8 s ↔ '\x00' ∉ s.toList :=
    cString_eq_self.trans (not_congr (zero_mem_utf8 s))
  constructor
  · rintro ⟨_, ⟨hr, rfl⟩, -, hbody⟩
    exact ⟨hcut.mp hbody, hr.body s rfl, hr.topic, hget "tags" ▸ hr.tags, hget "keys" ▸ hr.keys⟩
  · rintro ⟨hzero, hs, htopic, htags, hkeys⟩
    have hlength : (utf8 s).length < 2 ^ 32 := hs.length_le.trans_lt (by decide)
    have hbuffer : (utf8 s).take ((utf8 s).length % 2 ^ 32) = cString (utf8 s) := by
      rw [Nat.mod_eq_of_lt hlength, List.take_length, hcut.mpr hzero]
    rw [← hget] at htags hkeys
    refine ⟨_, ⟨⟨htopic, htags, hkeys, ?_⟩, rfl⟩, ⟨⟨htopic, htags, hkeys, ?_⟩, ?_⟩, hcut.mpr hzero⟩
    · rintro _ ⟨⟩
      exact hs
    · rintro _ ⟨⟩
    · simp only [SendRequest.message, hbuffer]

theorem string_body_cut_at_nul :
    ∃ r r' msg msg', send (.string "t") (.string "a\x00b") (.object []) none = .ok r ∧
      send (.string "t") (.buffer (utf8 "a\x00b")) (.object []) none = .ok r' ∧
      RocketMQProducer.send r = some msg ∧ RocketMQProducer.send r' = some msg' ∧
      msg ≠ msg' ∧ msg.body = utf8 "a" := by
  refine ⟨_, _, _, _, rfl, rfl, rfl, rfl, fun h => ?_, by decide⟩
  have := congrArg (fun m => m.body.length) h
  revert this
  decide

end RocketMQClient.Marshal
