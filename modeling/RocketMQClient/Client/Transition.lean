import RocketMQClient.Client.Module

namespace RocketMQClient.Client

open Marshal Library

def required : Method → StartStatus
  | .start => .stopped
  | .shutdown => .started

def pending : Method → StartStatus
  | .start => .starting
  | .shutdown => .stopping

def target : Method → StartStatus
  | .start => .started
  | .shutdown => .stopped

namespace JsModule

@[simps!] def request (m : JsModule) (self : Nat) (method : Method) (callback : Option Nat) : JsModule :=
  (m.setStatus self (pending method)).asyncQueueWorker
    { self, job := .startOrShutdown method, callback }

@[simps!] def beginExecute (m : JsModule) (w : Nat) (wk : Worker) : JsModule :=
  (m.setWorker w (some { wk with phase := .executing })).emit (.called w wk.self wk.job)

@[simps!] def endExecute (m : JsModule) (w : Nat) (wk : Worker) (outcome : Outcome) : JsModule :=
  (m.setWorker w (some wk)).emit (.returned w outcome)

@[simps!] def finish (m : JsModule) (w : Nat) (wk : Worker) : JsModule :=
  (m.setWorker w none).emit (.completed w wk.self wk.job wk.errmsg)

@[simps!] def answer (m : JsModule) (w : Nat) (wk : Worker) : JsModule :=
  m.emit (.answered w wk.callback wk.answer)

end JsModule

inductive Accepted (m : JsModule) (self : Nat) : JsModule → Prop
  | requested : m.status[self]? = some (required method) →
      Accepted m self (m.request self method callback)
  | sent : Accepted m self (m.asyncQueueWorker { self, job := .sendMessage msg, callback })
  | subscribed : m.status[self]? = some .stopped →
      Accepted m self (m.emit (.subscribed self topic expression))

inductive Transition (m : JsModule) : Event → JsModule → Prop
  | construct : Transition m .construct { m with status := m.status ++ [.stopped] }
  | rejected : Transition m (.call self c) m
  | accepted : self < m.status.length → Accepted m self m' → Transition m (.call self c) m'
  | executing : m.workers w = some wk → wk.phase = .queued →
      Transition m (.execute w) (m.beginExecute w wk)
  | executed : m.workers w = some wk → wk.phase = .executing → wk.execute outcome = some wk' →
      Transition m (.nativeReturn w outcome) (m.endExecute w wk' outcome)
  | settled : m.workers w = some wk → wk.phase = .executed → wk.job = .startOrShutdown method →
      wk.errmsg = none →
      Transition m (.complete w) (((m.finish w wk).settle w wk.self method).answer w wk)
  | failed : m.workers w = some wk → wk.phase = .executed → wk.job = .startOrShutdown method →
      wk.errmsg = some err → Transition m (.complete w) ((m.finish w wk).answer w wk)
  | sendCompleted : m.workers w = some wk → wk.phase = .executed → wk.job = .sendMessage msg →
      Transition m (.complete w) ((m.finish w wk).answer w wk)

def CallSpec (m : JsModule) (self : Nat) (out : CallResult × JsModule) : Prop :=
  out.1.rejected = true ∧ out.2 = m ∨ out.1.rejected = false ∧ Accepted m self out.2

theorem result_not_rejected (m : JsModule) (callback : Option Nat) :
    (m.result callback).rejected = false := by
  cases callback <;> rfl

theorem changeStatus_spec (m : JsModule) (self : Nat) (method : Method) (callback : Option Nat) :
    CallSpec m self
      (m.changeStatus (required method) (pending method) self method callback) := by
  unfold JsModule.changeStatus
  split
  · exact .inr ⟨result_not_rejected _ _, .requested ‹_›⟩
  · exact .inl ⟨rfl, rfl⟩

theorem send_spec {m : JsModule} {self : Nat} {topic body options : Js.JsValue}
    {callback : Option Nat} {out : CallResult × JsModule}
    (h : m.send self topic body options callback = some out) : CallSpec m self out := by
  unfold JsModule.send at h
  split at h
  · cases h
    exact .inl ⟨rfl, rfl⟩
  · obtain ⟨msg, -, rfl⟩ := Option.map_eq_some_iff.mp h
    exact .inr ⟨result_not_rejected _ _, .sent⟩

theorem subscribeResult_not_rejected (sdk : SdkOutcome Unit) :
    (JsModule.subscribe.subscribeResult sdk).rejected = false := by
  cases sdk <;> rfl

theorem subscribe_spec {m : JsModule} {self : Nat} {topic expression : Js.JsValue}
    {sdk : SdkOutcome Unit} {out : CallResult × JsModule}
    (h : m.subscribe self topic expression sdk = some out) : CallSpec m self out := by
  unfold JsModule.subscribe at h
  split at h
  · split at h
    · split_ifs at h
      · cases h
        exact .inr ⟨subscribeResult_not_rejected sdk, .subscribed ‹_›⟩
      · cases h
        exact .inl ⟨rfl, rfl⟩
    · cases h
      exact .inl ⟨rfl, rfl⟩
  · cases h
    exact .inl ⟨rfl, rfl⟩

theorem call_spec {k : ClassKind} {m : JsModule} {self : Nat} {c : Call}
    {out : CallResult × JsModule} (h : m.call k self c = some out) : CallSpec m self out := by
  cases c with
  | start callback =>
    cases h
    exact changeStatus_spec m self .start callback
  | shutdown callback =>
    cases h
    exact changeStatus_spec m self .shutdown callback
  | send topic body options callback =>
    simp only [JsModule.call] at h
    split_ifs at h
    exact send_spec h
  | subscribe topic expression sdk =>
    simp only [JsModule.call] at h
    split_ifs at h
    exact subscribe_spec h

theorem workComplete_settled {m : JsModule} {w : Nat} {wk : Worker} {method : Method}
    (hj : wk.job = .startOrShutdown method) (he : wk.errmsg = none) :
    m.workComplete w wk = ((m.finish w wk).settle w wk.self method).answer w wk := by
  simp only [JsModule.workComplete, hj, he, JsModule.finish, JsModule.answer]

theorem workComplete_failed {m : JsModule} {w : Nat} {wk : Worker} {err : String}
    (he : wk.errmsg = some err) : m.workComplete w wk = (m.finish w wk).answer w wk := by
  cases hj : wk.job <;> simp only [JsModule.workComplete, he, hj, JsModule.finish, JsModule.answer]

theorem workComplete_send {m : JsModule} {w : Nat} {wk : Worker} {msg : CMessage}
    (hj : wk.job = .sendMessage msg) : m.workComplete w wk = (m.finish w wk).answer w wk := by
  simp only [JsModule.workComplete, hj, JsModule.finish, JsModule.answer]

theorem step_cases {k : ClassKind} {m m' : JsModule} {e : Event} (h : step k m e = some m') :
    Transition m e m' := by
  cases e with
  | construct =>
    cases h
    exact .construct
  | call self c =>
    simp only [step] at h
    split_ifs at h with hself
    obtain ⟨out, hc, rfl⟩ := Option.map_eq_some_iff.mp h
    rcases call_spec hc with ⟨-, hm⟩ | ⟨-, ha⟩
    · rw [hm]
      exact .rejected
    · exact .accepted hself ha
  | execute w =>
    simp only [step] at h
    split at h
    next wk hw =>
      split_ifs at h with hq
      cases h
      exact .executing hw hq
    next => cases h
  | nativeReturn w outcome =>
    simp only [step] at h
    split at h
    next wk hw =>
      split_ifs at h with hq
      obtain ⟨wk', hex, rfl⟩ := Option.map_eq_some_iff.mp h
      exact .executed hw hq hex
    next => cases h
  | complete w =>
    simp only [step] at h
    split at h
    next wk hw =>
      split_ifs at h with hq
      cases h
      cases hj : wk.job with
      | startOrShutdown method =>
        cases he : wk.errmsg with
        | none =>
          rw [workComplete_settled hj he]
          exact .settled hw hq hj he
        | some err =>
          rw [workComplete_failed he]
          exact .failed hw hq hj he
      | sendMessage msg =>
        rw [workComplete_send hj]
        exact .sendCompleted hw hq hj
    next => cases h

section Settle

variable (m : JsModule) (w self : Nat) (method : Method)

@[simp] theorem settle_status :
    (m.settle w self method).status = m.status.set self (target method) := by
  cases method <;> simp only [JsModule.settle] <;> split <;> simp [target]

@[simp] theorem settle_workers : (m.settle w self method).workers = m.workers := by
  cases method <;> simp only [JsModule.settle] <;> split <;> rfl

@[simp] theorem settle_nextWorker : (m.settle w self method).nextWorker = m.nextWorker := by
  cases method <;> simp only [JsModule.settle] <;> split <;> rfl

def Effect.untimed : Effect → Bool
  | .intervalSet _ => false
  | .intervalCleared _ => false
  | _ => true

theorem settle_trace :
    ∃ es, (m.settle w self method).trace = m.trace ++ .statusSet w self (target method) :: es ∧
      ∀ e ∈ es, e.untimed = false := by
  cases method <;> simp only [JsModule.settle] <;> split <;> simp [target, Effect.untimed]

end Settle

end RocketMQClient.Client
