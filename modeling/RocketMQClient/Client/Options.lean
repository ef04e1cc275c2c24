import Mathlib.Algebra.Group.Int.Defs
import RocketMQClient.Js.Value
import RocketMQClient.Library.CString

namespace RocketMQClient.Client

open Js Library

inductive SdkCall
  | setProducerNameServerAddress (namesrv : List UInt8)
  | setProducerGroupName (groupName : List UInt8)
  | setProducerLogFileNumAndSize (fileNum fileSize : Int)
  | setProducerLogLevel (level : Int)
  | setProducerCompressLevel (level : Int)
  | setProducerSendMsgTimeout (timeout : Int)
  | setProducerMaxMessageSize (size : Int)
  | setPushConsumerNameServerAddress (namesrv : List UInt8)
  | setPushConsumerThreadCount (threadCount : Int)
  | setPushConsumerMessageBatchMaxSize (batchSize : Int)
  | setPushConsumerLogFileNumAndSize (fileNum fileSize : Int)
  | setPushConsumerLogLevel (level : Int)
  deriving DecidableEq

def stringOption (options : JsValue) (name : String) : Option (List UInt8) :=
  match options.get name with
  | .string s => some (cString (utf8 s))
  | _ => none

def int32Option (options : JsValue) (name : String) : Option Int :=
  match options.get name with
  | .number n => some n.toInt32
  | _ => none

/-- The calls of `SetOptions` when none of them throws; one that does ends it. -/
def RocketMQProducer.setOptions (options : JsValue) : List SdkCall :=
  (stringOption options "nameServer").toList.map .setProducerNameServerAddress ++
    (stringOption options "groupName").toList.map .setProducerGroupName ++
    [.setProducerLogFileNumAndSize ((int32Option options "logFileNum").getD 3)
      ((int32Option options "logFileSize").getD 104857600)] ++
    (int32Option options "logLevel").toList.map .setProducerLogLevel ++
    (int32Option options "compressLevel").toList.map .setProducerCompressLevel ++
    (int32Option options "sendMessageTimeout").toList.map .setProducerSendMsgTimeout ++
    (int32Option options "maxMessageSize").toList.map .setProducerMaxMessageSize

def RocketMQPushConsumer.setOptions (options : JsValue) : List SdkCall :=
  (stringOption options "nameServer").toList.map .setPushConsumerNameServerAddress ++
    ((int32Option options "threadCount").filter (0 < ·)).toList.map .setPushConsumerThreadCount ++
    ((int32Option options "maxBatchSize").filter (0 < ·)).toList.map
      .setPushConsumerMessageBatchMaxSize ++
    [.setPushConsumerLogFileNumAndSize ((int32Option options "logFileNum").getD 3)
      ((int32Option options "logFileSize").getD 104857600)] ++
    (int32Option options "logLevel").toList.map .setPushConsumerLogLevel

def SdkCall.integers : SdkCall → List (String × Int)
  | .setProducerNameServerAddress _ => []
  | .setProducerGroupName _ => []
  | .setProducerLogFileNumAndSize fileNum fileSize =>
    [("logFileNum", fileNum), ("logFileSize", fileSize)]
  | .setProducerLogLevel level => [("logLevel", level)]
  | .setProducerCompressLevel level => [("compressLevel", level)]
  | .setProducerSendMsgTimeout timeout => [("sendMessageTimeout", timeout)]
  | .setProducerMaxMessageSize size => [("maxMessageSize", size)]
  | .setPushConsumerNameServerAddress _ => []
  | .setPushConsumerThreadCount threadCount => [("threadCount", threadCount)]
  | .setPushConsumerMessageBatchMaxSize batchSize => [("maxBatchSize", batchSize)]
  | .setPushConsumerLogFileNumAndSize fileNum fileSize =>
    [("logFileNum", fileNum), ("logFileSize", fileSize)]
  | .setPushConsumerLogLevel level => [("logLevel", level)]

def passed (calls : List SdkCall) : List (String × Int) := calls.flatMap SdkCall.integers

def Given (options : JsValue) (name : String) (v : Int) : Prop :=
  options.get name = .number (.finite v)

def Unaltered (options : JsValue) (calls : List SdkCall) : Prop :=
  ∀ name v, (name, v) ∈ passed calls → ∀ n, options.get name = .number n → n = .finite v

def AppliedPositive (options : JsValue) (calls : List SdkCall) (name : String) : Prop :=
  ∀ v, (name, v) ∈ passed calls ↔ Given options name v ∧ 0 < v ∧ v < 2 ^ 31

def numericOptions : List String :=
  ["logFileNum", "logFileSize", "compressLevel", "sendMessageTimeout", "maxMessageSize",
    "threadCount", "maxBatchSize", "logLevel"]

def Integral (options : JsValue) : Prop :=
  ∀ name ∈ numericOptions, ∀ n, options.get name = .number n → ∃ v : Int, n = .finite v

def Fits (options : JsValue) (name : String) : Prop :=
  ∀ v, Given options name v → -2 ^ 31 ≤ v ∧ v < 2 ^ 31

def FitsOrDropped (options : JsValue) (name : String) : Prop :=
  ∀ v, Given options name v → (-2 ^ 31 ≤ v ∧ v < 2 ^ 31) ∨ v % 2 ^ 32 = 0 ∨ 2 ^ 31 ≤ v % 2 ^ 32

theorem bmod_eq_self_iff (v : Int) : v.bmod (2 ^ 32) = v ↔ -2 ^ 31 ≤ v ∧ v < 2 ^ 31 := by
  rw [Int.bmod_def]
  omega

theorem bmod_pos_iff (v : Int) : 0 < v.bmod (2 ^ 32) ↔ v % 2 ^ 32 ≠ 0 ∧ v % 2 ^ 32 < 2 ^ 31 := by
  rw [Int.bmod_def]
  omega

theorem int32Option_given {options : JsValue} {name : String} {v : Int} (h : Given options name v) :
    int32Option options name = some (v.bmod (2 ^ 32)) := by
  have hget : options.get name = .number (.finite v) := h
  simp [int32Option, hget]

theorem int32Option_eq_some {options : JsValue} {name : String} {w : Int}
    (h : int32Option options name = some w) :
    ∃ n, options.get name = .number n ∧ w = n.toInt32 := by
  unfold int32Option at h
  split at h
  · next n hn =>
    cases h
    exact ⟨n, hn, rfl⟩
  · cases h

structure Converts (options : JsValue) (calls : List SdkCall) (always positive : List String) :
    Prop where
  only : ∀ name v, (name, v) ∈ passed calls → name ∈ always ∨ name ∈ positive
  always : ∀ name ∈ always, ∀ w, int32Option options name = some w →
    ∀ v, (name, v) ∈ passed calls ↔ v = w
  positive : ∀ name ∈ positive, ∀ v,
    (name, v) ∈ passed calls ↔ int32Option options name = some v ∧ 0 < v

section Converts

variable {options : JsValue} {calls : List SdkCall} {always positive : List String}

theorem int32Option_integral (hint : Integral options) {name : String} (hname : name ∈ numericOptions)
    {w : Int} (h : int32Option options name = some w) :
    ∃ v, Given options name v ∧ w = v.bmod (2 ^ 32) := by
  obtain ⟨n, hn, rfl⟩ := int32Option_eq_some h
  obtain ⟨v, rfl⟩ := hint name hname n hn
  exact ⟨v, hn, JsNumber.toInt32_int v⟩

theorem Unaltered.eq_bmod (h : Unaltered options calls) {name : String} {v : Int}
    (hv : Given options name v) (hmem : (name, v.bmod (2 ^ 32)) ∈ passed calls) :
    -2 ^ 31 ≤ v ∧ v < 2 ^ 31 := by
  have heq := h name _ hmem _ hv
  rw [JsNumber.finite.injEq] at heq
  exact (bmod_eq_self_iff v).mp (Rat.intCast_inj.mp heq).symm

theorem FitsOrDropped.of_pos {name : String} (h : FitsOrDropped options name) {v : Int}
    (hv : Given options name v) (hpos : 0 < v.bmod (2 ^ 32)) : v.bmod (2 ^ 32) = v := by
  obtain hfits | hdropped := h v hv
  · exact (bmod_eq_self_iff v).mpr hfits
  · have := (bmod_pos_iff v).mp hpos
    omega

theorem Converts.fits (h : Converts options calls always positive) (hu : Unaltered options calls)
    {name : String} (hname : name ∈ always) : Fits options name := by
  intro v hv
  exact hu.eq_bmod hv ((h.always name hname _ (int32Option_given hv) _).mpr rfl)

theorem Converts.fitsOrDropped (h : Converts options calls always positive)
    (hu : Unaltered options calls) {name : String} (hname : name ∈ positive) :
    FitsOrDropped options name := by
  intro v hv
  by_cases hpos : 0 < v.bmod (2 ^ 32)
  · exact .inl (hu.eq_bmod hv ((h.positive name hname _).mpr ⟨int32Option_given hv, hpos⟩))
  · have := mt (bmod_pos_iff v).mpr hpos
    omega

theorem Converts.unaltered (h : Converts options calls always positive) (hint : Integral options)
    (hnames : ∀ name ∈ always ++ positive, name ∈ numericOptions)
    (halways : ∀ name ∈ always, Fits options name)
    (hpositive : ∀ name ∈ positive, FitsOrDropped options name) : Unaltered options calls := by
  intro name w hmem n hn
  have hname := List.mem_append.mpr (h.only name w hmem)
  obtain ⟨v, rfl⟩ := hint name (hnames name hname) n hn
  have hw := int32Option_given (show Given options name v from hn)
  obtain hname | hname := List.mem_append.mp hname
  · rw [(h.always name hname _ hw w).mp hmem, (bmod_eq_self_iff v).mpr (halways name hname v hn)]
  · obtain ⟨hsome, hpos⟩ := (h.positive name hname w).mp hmem
    cases hw.symm.trans hsome
    rw [(hpositive name hname).of_pos hn hpos]

theorem Converts.appliedPositive (h : Converts options calls always positive)
    (hint : Integral options) {name : String} (hname : name ∈ positive)
    (hnumeric : name ∈ numericOptions) (hpositive : FitsOrDropped options name) :
    AppliedPositive options calls name := by
  intro w
  rw [h.positive name hname w]
  constructor
  · rintro ⟨hsome, hpos⟩
    obtain ⟨v, hv, rfl⟩ := int32Option_integral hint hnumeric hsome
    have hself := hpositive.of_pos hv hpos
    rw [hself] at hpos ⊢
    exact ⟨hv, hpos, ((bmod_eq_self_iff v).mp hself).2⟩
  · rintro ⟨hw, hpos, hlt⟩
    refine ⟨?_, hpos⟩
    rw [int32Option_given hw, (bmod_eq_self_iff w).mpr (by omega)]

theorem Converts.unaltered_iff (h : Converts options calls always positive) (hint : Integral options)
    (hnames : ∀ name ∈ always ++ positive, name ∈ numericOptions) :
    (Unaltered options calls ∧ ∀ name ∈ positive, AppliedPositive options calls name) ↔
      (∀ name ∈ always, Fits options name) ∧ ∀ name ∈ positive, FitsOrDropped options name := by
  constructor
  · rintro ⟨hu, -⟩
    exact ⟨fun name hname => h.fits hu hname, fun name hname => h.fitsOrDropped hu hname⟩
  · rintro ⟨halways, hpositive⟩
    refine ⟨h.unaltered hint hnames halways hpositive, fun name hname => ?_⟩
    exact h.appliedPositive hint hname (hnames name (List.mem_append_right _ hname))
      (hpositive name hname)

end Converts

theorem RocketMQProducer.mem_passed (options : JsValue) (name : String) (v : Int) :
    (name, v) ∈ passed (RocketMQProducer.setOptions options) ↔
      (name = "logFileNum" ∧ v = (int32Option options "logFileNum").getD 3) ∨
      (name = "logFileSize" ∧ v = (int32Option options "logFileSize").getD 104857600) ∨
      (int32Option options "logLevel" = some v ∧ name = "logLevel") ∨
      (int32Option options "compressLevel" = some v ∧ name = "compressLevel") ∨
      (int32Option options "sendMessageTimeout" = some v ∧ name = "sendMessageTimeout") ∨
      (int32Option options "maxMessageSize" = some v ∧ name = "maxMessageSize") := by
  simp [RocketMQProducer.setOptions, passed, SdkCall.integers]

theorem RocketMQPushConsumer.mem_passed (options : JsValue) (name : String) (v : Int) :
    (name, v) ∈ passed (RocketMQPushConsumer.setOptions options) ↔
      ((int32Option options "threadCount" = some v ∧ 0 < v) ∧ name = "threadCount") ∨
      ((int32Option options "maxBatchSize" = some v ∧ 0 < v) ∧ name = "maxBatchSize") ∨
      (name = "logFileNum" ∧ v = (int32Option options "logFileNum").getD 3) ∨
      (name = "logFileSize" ∧ v = (int32Option options "logFileSize").getD 104857600) ∨
      (int32Option options "logLevel" = some v ∧ name = "logLevel") := by
  simp [RocketMQPushConsumer.setOptions, passed, SdkCall.integers, Option.filter_eq_some_iff]

theorem RocketMQProducer.converts (options : JsValue) :
    Converts options (RocketMQProducer.setOptions options)
      ["logFileNum", "logFileSize", "logLevel", "compressLevel", "sendMessageTimeout",
        "maxMessageSize"] [] where
  only name v h := by
    rw [mem_passed] at h
    simp only [List.mem_cons]
    tauto
  always name hname w hw v := by
    rw [mem_passed]
    simp only [List.mem_cons, List.not_mem_nil, or_false] at hname
    obtain rfl | rfl | rfl | rfl | rfl | rfl := hname <;> simp [hw, eq_comm]
  positive name hname := absurd hname List.not_mem_nil

theorem RocketMQPushConsumer.converts (options : JsValue) :
    Converts options (RocketMQPushConsumer.setOptions options)
      ["logFileNum", "logFileSize", "logLevel"] ["threadCount", "maxBatchSize"] where
  only name v h := by
    rw [mem_passed] at h
    simp only [List.mem_cons]
    tauto
  always name hname w hw v := by
    rw [mem_passed]
    simp only [List.mem_cons, List.not_mem_nil, or_false] at hname
    obtain rfl | rfl | rfl := hname <;> simp [hw, eq_comm]
  positive name hname v := by
    rw [mem_passed]
    simp only [List.mem_cons, List.not_mem_nil, or_false] at hname
    obtain rfl | rfl := hname <;> simp

end RocketMQClient.Client
