import RocketMQClient.Client.Module
import RocketMQClient.Client.Options
import RocketMQClient.Js.Number
import RocketMQClient.Library.Utf16

namespace RocketMQClient.Client

open Js Library

/-- What a program passes to a constructor; an argument that it omits is `undefined`.
Functions, arrays and Buffers are objects, and an object is what its conversion to a
string and the reading of its own properties yield, `none` where that throws. -/
inductive Argument
  | undefined
  | null
  | boolean (b : Bool)
  | number (n : JsNumber)
  | bigint (n : Int)
  | string (units : List UInt16)
  | symbol
  | object (text : Option (List UInt16)) (properties : Option (List (String × JsValue)))

namespace Argument

def toBoolean : Argument → Bool
  | undefined => false
  | null => false
  | boolean b => b
  | number n => (JsValue.number n).toBoolean
  | bigint n => n ≠ 0
  | string units => units ≠ []
  | symbol => true
  | object _ _ => true

def isString : Argument → Bool
  | string _ => true
  | _ => false

def isNull : Argument → Bool
  | null => true
  | _ => false

def toText : Argument → Option (List UInt16)
  | undefined => some (utf16 "undefined")
  | null => some (utf16 "null")
  | boolean b => some (utf16 (if b then "true" else "false"))
  | number n => some (utf16 n.toString)
  | bigint n => some (utf16 (ToString.toString n))
  | string units => some units
  | symbol => none
  | object text _ => text

def utf8String (v : Argument) : Option (List UInt8) := v.toText.bind Js.utf8String

def empty : Argument := object (some (utf16 "[object Object]")) (some [])

/-- `Object.assign({}, v)`.  The properties of a string are its indices, and no
option is called like one. -/
def assigned : Argument → Option JsValue
  | object _ properties => properties.map .object
  | _ => some (.object [])

end Argument

def optionsLogLevel : List (String × Int) :=
  [("FATAL", 1), ("ERROR", 2), ("WARN", 3), ("INFO", 4), ("DEBUG", 5), ("TRACE", 6), ("NUM", 7)]

/-- Outside ASCII, only a dotless `ı` has its upper case in one of the names, and that
name is the default. -/
def logLevelOf (s : String) : Int := (optionsLogLevel.lookup (s.map Char.toUpper)).getD 4

def withLogLevel : JsValue → JsValue
  | .object properties =>
    match (JsValue.object properties).get "logLevel" with
    | .string s =>
      if s ≠ "" then .object (("logLevel", .number (.finite (logLevelOf s))) :: properties)
      else .object properties
    | _ => .object properties
  | options => options

structure Construction where
  groupId : List UInt8
  instanceName : Option (List UInt8)
  options : List SdkCall
  deriving DecidableEq

def RocketMQProducer.new (groupId instanceName : Argument) (options : JsValue) :
    Option Construction := do
  let group_id ← groupId.utf8String
  let instance_name ← instanceName.utf8String
  if (options.get "nameServer").Convertible ∧ (options.get "groupName").Convertible then
    some {
      groupId := cString group_id
      instanceName := if instanceName.isNull then none else some (cString instance_name)
      options := RocketMQProducer.setOptions options }
  else none

def RocketMQPushConsumer.new (groupId instanceName : Argument) (options : JsValue) :
    Option Construction := do
  let v8_group_id ← groupId.utf8String
  let v8_instance_name ← instanceName.utf8String
  let group_id := cString v8_group_id
  let instance_name := cString v8_instance_name
  if (options.get "nameServer").Convertible then
    some {
      groupId := cString group_id
      instanceName := if instanceName.isNull then none else some (cString instance_name)
      options := RocketMQPushConsumer.setOptions options }
  else none

def setOptions (k : ClassKind) (options : JsValue) : List SdkCall :=
  match k with
  | .producer => RocketMQProducer.setOptions options
  | .pushConsumer => RocketMQPushConsumer.setOptions options

def new (k : ClassKind) (groupId instanceName : Argument) (options : JsValue) :
    Option Construction :=
  match k with
  | .producer => RocketMQProducer.new groupId instanceName options
  | .pushConsumer => RocketMQPushConsumer.new groupId instanceName options

def shift (instanceName options : Argument) : Argument × Argument :=
  if !instanceName.isString && !options.toBoolean then (.null, instanceName)
  else (instanceName, options)

/-- A constructor; `sdk` says whether all of the calls return.  None of the results is
a construction that fails. -/
def construct (k : ClassKind) (sdk : Construction → Bool)
    (groupId instanceName options : Argument) : Option Construction := do
  let (instanceName, options) := shift instanceName options
  let options ← (if options.toBoolean then options else .empty).assigned
  let construction ← new k groupId instanceName (withLogLevel options)
  if sdk construction then some construction else none

def Interpreted (instanceName : Argument) (call : Option (List UInt8)) : Prop :=
  match instanceName with
  | .string units => ∃ s, utf16 s = units ∧ call = some (utf8 s)
  | _ => call = none

def Plain (instanceName options : Argument) : Prop :=
  match instanceName with
  | .string units => ∃ s, utf16 s = units ∧ '\x00' ∉ s.toList
  | .null => True
  | _ => options.toBoolean = false

theorem logLevelOf_mem (s : String) : 1 ≤ logLevelOf s ∧ logLevelOf s ≤ 7 := by
  have hlevels : ∀ level ∈ optionsLogLevel, 1 ≤ level.2 ∧ level.2 ≤ 7 := by decide
  rw [logLevelOf]
  cases hlevel : optionsLogLevel.lookup (s.map Char.toUpper) with
  | none => decide
  | some level =>
    obtain ⟨before, after, hsplit, -⟩ := List.lookup_eq_some_iff.mp hlevel
    have hmem : (s.map Char.toUpper, level) ∈ optionsLogLevel := by simp [hsplit]
    exact hlevels _ hmem

theorem withLogLevel_get (options : JsValue) (name : String) :
    (withLogLevel options).get name = options.get name ∨
      ∃ s, options.get name = .string s ∧
        (withLogLevel options).get name = .number (.finite (logLevelOf s)) := by
  unfold withLogLevel
  split
  · next properties =>
    split
    · next s hs =>
      split_ifs
      · by_cases hname : name = "logLevel"
        · subst hname
          exact .inr ⟨s, hs, by simp [JsValue.get]⟩
        · simp [JsValue.get, List.lookup_cons, beq_eq_false_iff_ne.mpr hname]
      · exact .inl rfl
    · exact .inl rfl
  · exact .inl rfl

theorem withLogLevel_number {options : JsValue} {name : String} {n : JsNumber}
    (h : options.get name = .number n) : (withLogLevel options).get name = .number n := by
  obtain heq | ⟨s, hs, -⟩ := withLogLevel_get options name
  · rw [heq, h]
  · rw [h] at hs
    cases hs

theorem Integral.withLogLevel {options : JsValue} (h : Integral options) :
    Integral (withLogLevel options) := by
  intro name hname n hn
  obtain heq | ⟨s, -, hlevel⟩ := withLogLevel_get options name
  · exact h name hname n (heq.symm.trans hn)
  · rw [hlevel] at hn
    cases hn
    exact ⟨_, rfl⟩

theorem Fits.withLogLevel {options : JsValue} {name : String} (h : Fits options name) :
    Fits (withLogLevel options) name := by
  intro v hv
  obtain heq | ⟨s, -, hlevel⟩ := withLogLevel_get options name
  · exact h v (heq.symm.trans hv)
  · have hvalue := hlevel.symm.trans hv
    rw [JsValue.number.injEq, JsNumber.finite.injEq] at hvalue
    have := logLevelOf_mem s
    rw [← Rat.intCast_inj.mp hvalue]
    omega

section Construct

variable {k : ClassKind} {sdk : Construction → Bool} {groupId instanceName options : Argument}
  {c : Construction}

theorem shift_string (units : List UInt16) (options : Argument) :
    shift (.string units) options = (.string units, options) := rfl

theorem shift_of_truthy (h : options.toBoolean = true) :
    shift instanceName options = (instanceName, options) := by
  simp [shift, h]

theorem shift_of_falsy (hname : instanceName.isString = false) (h : options.toBoolean = false) :
    shift instanceName options = (.null, instanceName) := by
  simp [shift, hname, h]

theorem new_eq_some {options : JsValue} (h : new k groupId instanceName options = some c) :
    ∃ group name, groupId.utf8String = some group ∧ instanceName.utf8String = some name ∧
      c.groupId = cString group ∧
      c.instanceName = (if instanceName.isNull then none else some (cString name)) ∧
      c.options = setOptions k options := by
  cases k with
  | producer =>
    simp only [new, RocketMQProducer.new, Option.bind_eq_bind, Option.bind_eq_some_iff,
      Option.ite_none_right_eq_some, Option.some.injEq] at h
    obtain ⟨group, hgroup, name, hname, -, rfl⟩ := h
    exact ⟨group, name, hgroup, hname, rfl, rfl, rfl⟩
  | pushConsumer =>
    simp only [new, RocketMQPushConsumer.new, Option.bind_eq_bind, Option.bind_eq_some_iff,
      Option.ite_none_right_eq_some, Option.some.injEq] at h
    obtain ⟨group, hgroup, name, hname, -, rfl⟩ := h
    exact ⟨group, name, hgroup, hname, cString_cString group, by simp, rfl⟩

theorem construct_eq_some (h : construct k sdk groupId instanceName options = some c) :
    ∃ given, (if (shift instanceName options).2.toBoolean then (shift instanceName options).2
        else .empty).assigned = some given ∧
      new k groupId (shift instanceName options).1 (withLogLevel given) = some c := by
  simp only [construct, Option.bind_eq_bind, Option.bind_eq_some_iff] at h
  obtain ⟨given, hgiven, construction, hnew, hsdk⟩ := h
  split_ifs at hsdk
  cases hsdk
  exact ⟨given, hgiven, hnew⟩

theorem setOptions_unaltered {options : JsValue} (k : ClassKind) (hint : Integral options)
    (hfits : ∀ name ∈ numericOptions, Fits options name) :
    Unaltered options (setOptions k options) := by
  cases k with
  | producer =>
    have halways : ∀ name ∈ ["logFileNum", "logFileSize", "logLevel", "compressLevel",
        "sendMessageTimeout", "maxMessageSize"], name ∈ numericOptions := by decide
    exact (RocketMQProducer.converts options).unaltered hint (by decide)
      (fun name hname => hfits name (halways name hname)) (by simp)
  | pushConsumer =>
    have halways : ∀ name ∈ ["logFileNum", "logFileSize", "logLevel"], name ∈ numericOptions := by
      decide
    have hpositive : ∀ name ∈ ["threadCount", "maxBatchSize"], name ∈ numericOptions := by decide
    exact (RocketMQPushConsumer.converts options).unaltered hint (by decide)
      (fun name hname => hfits name (halways name hname))
      (fun name hname v hv => .inl (hfits name (hpositive name hname) v hv))

theorem construct_unaltered (h : construct k sdk groupId instanceName options = some c) :
    ∃ given, (if (shift instanceName options).2.toBoolean then (shift instanceName options).2
        else .empty).assigned = some given ∧
      (Integral given → (∀ name ∈ numericOptions, Fits given name) →
        Unaltered given c.options) := by
  obtain ⟨given, hgiven, hnew⟩ := construct_eq_some h
  refine ⟨given, hgiven, fun hint hfits name v hmem n hn => ?_⟩
  obtain ⟨_, _, -, -, -, -, hcalls⟩ := new_eq_some hnew
  rw [hcalls] at hmem
  exact setOptions_unaltered k hint.withLogLevel (fun name hname => (hfits name hname).withLogLevel)
    name v hmem n (withLogLevel_number hn)

theorem construct_instanceName (h : construct k sdk groupId instanceName options = some c) :
    ∃ name, (shift instanceName options).1.utf8String = some name ∧
      c.instanceName =
        if (shift instanceName options).1.isNull then none else some (cString name) := by
  obtain ⟨given, -, hnew⟩ := construct_eq_some h
  obtain ⟨_, name, -, hname, -, hcall, -⟩ := new_eq_some hnew
  exact ⟨name, hname, hcall⟩

theorem construct_string {units : List UInt16}
    (h : construct k sdk groupId (.string units) options = some c) :
    c.instanceName = some (cString (utf8 (Utf16.decode units))) := by
  obtain ⟨name, hname, hcall⟩ := construct_instanceName h
  rw [shift_string] at hname hcall
  obtain ⟨-, rfl⟩ := utf8String_eq_some.mp hname
  exact hcall

theorem construct_eq_none_iff (hstring : instanceName.isString = false)
    (h : construct k sdk groupId instanceName options = some c) :
    c.instanceName = none ↔ instanceName.isNull = true ∨ options.toBoolean = false := by
  obtain ⟨name, -, hcall⟩ := construct_instanceName h
  by_cases ho : options.toBoolean = true
  · rw [shift_of_truthy ho] at hcall
    rw [hcall]
    simp [ho]
  · rw [shift_of_falsy hstring (by simpa using ho)] at hcall
    rw [hcall]
    simp [ho, Argument.isNull]

end Construct

theorem Argument.eq_string {v : Argument} (h : v.isString = true) : ∃ units, v = .string units := by
  cases v with
  | string units => exact ⟨units, rfl⟩
  | _ => cases h

theorem interpreted_string (units : List UInt16) :
    Interpreted (.string units) (some (cString (utf8 (Utf16.decode units)))) ↔
      ∃ s, utf16 s = units ∧ '\x00' ∉ s.toList := by
  refine exists_congr fun s => and_congr_right fun hs => ?_
  rw [← hs, Utf16.decode_utf16, Option.some.injEq, cString_eq_self, zero_mem_utf8]

theorem interpreted_iff {instanceName : Argument} (h : instanceName.isString = false)
    (call : Option (List UInt8)) : Interpreted instanceName call ↔ call = none := by
  cases instanceName with
  | string units => cases h
  | _ => rfl

theorem plain_iff {instanceName : Argument} (h : instanceName.isString = false)
    (options : Argument) :
    Plain instanceName options ↔ instanceName.isNull = true ∨ options.toBoolean = false := by
  cases instanceName with
  | string units => cases h
  | _ => simp [Plain, Argument.isNull]

/-- The instance name is interpreted as documented exactly when it is a string without
lone surrogates and NUL, or is no string and is `null` or not followed by options. -/
theorem instanceName_interpreted_iff {k : ClassKind} {sdk : Construction → Bool}
    {groupId instanceName options : Argument} {c : Construction}
    (h : construct k sdk groupId instanceName options = some c) :
    Interpreted instanceName c.instanceName ↔ Plain instanceName options := by
  by_cases hstring : instanceName.isString = true
  · obtain ⟨units, rfl⟩ := Argument.eq_string hstring
    rw [construct_string h]
    exact interpreted_string units
  · rw [Bool.not_eq_true] at hstring
    rw [interpreted_iff hstring, plain_iff hstring]
    exact construct_eq_none_iff hstring h

theorem instanceName_interpreted_iff_named :
    ∃ c, construct .pushConsumer (fun _ => true) (.string (utf16 "group")) (.string (utf16 "name"))
        .undefined = some c ∧
      (Interpreted (.string (utf16 "name")) c.instanceName ↔
        Plain (.string (utf16 "name")) .undefined) :=
  ⟨_, rfl, @instanceName_interpreted_iff .pushConsumer (fun _ => true) (.string (utf16 "group"))
    (.string (utf16 "name")) .undefined _ rfl⟩

theorem undefined_names_instance :
    ∃ c, construct .producer (fun _ => true) (.string (utf16 "group")) .undefined .empty = some c ∧
      c.instanceName = some (utf8 "undefined") ∧ ¬ Interpreted .undefined c.instanceName := by
  refine ⟨_, rfl, by decide, fun h => ?_⟩
  cases h

end RocketMQClient.Client
