import Mathlib.Tactic.MkIffOfInductiveProp
import RocketMQClient.Client.Tracking

namespace RocketMQClient.Client

open Library

def Effect.worker : Effect → Option Nat
  | .queued w _ _ _ => some w
  | .called w _ _ => some w
  | .returned w _ => some w
  | .completed w _ _ _ => some w
  | .statusSet w _ _ => some w
  | .answered w _ _ => some w
  | .intervalSet _ => none
  | .intervalCleared _ => none
  | .subscribed _ _ _ => none

def effectsOf (w : Nat) (trace : List Effect) : List Effect := trace.filter (·.worker = some w)

def Worker.statusEffect (w : Nat) (wk : Worker) : List Effect :=
  match wk.job, wk.errmsg with
  | .startOrShutdown method, none => [.statusSet w wk.self (target method)]
  | _, _ => []

def Worker.closing (w : Nat) (wk : Worker) : List Effect :=
  .completed w wk.self wk.job wk.errmsg ::
    (wk.statusEffect w ++ [.answered w wk.callback wk.answer])

inductive Story (w : Nat) : Option Worker → List Effect → Prop
  | queued {self job callback} :
      Story w (some { self, job, callback }) [.queued w self job callback]
  | called {self job callback} :
      Story w (some { self, job, callback, phase := .executing })
        [.queued w self job callback, .called w self job]
  | returned {self job callback o} {wk : Worker}
      (h : Worker.execute { self, job, callback, phase := .executing } o = some wk) :
      Story w (some wk) [.queued w self job callback, .called w self job, .returned w o]
  | completed {self job callback o} {wk : Worker}
      (h : Worker.execute { self, job, callback, phase := .executing } o = some wk) :
      Story w none
        ([.queued w self job callback, .called w self job, .returned w o] ++ wk.closing w)

structure Told (m : JsModule) : Prop where
  story : ∀ w, w < m.nextWorker → Story w (m.workers w) (effectsOf w m.trace)
  fresh : ∀ w, m.nextWorker ≤ w → m.workers w = none ∧ effectsOf w m.trace = []

@[simp] theorem effectsOf_append (w : Nat) (trace trace' : List Effect) :
    effectsOf w (trace ++ trace') = effectsOf w trace ++ effectsOf w trace' :=
  List.filter_append ..

@[simp] theorem effectsOf_cons (w : Nat) (e : Effect) (trace : List Effect) :
    effectsOf w (e :: trace) = (if e.worker = some w then [e] else []) ++ effectsOf w trace := by
  by_cases h : e.worker = some w <;> simp [effectsOf, h]

@[simp] theorem effectsOf_nil (w : Nat) : effectsOf w [] = [] := rfl

theorem Told.frame {m m' : JsModule} {es : List Effect} (h : Told m)
    (htrace : m'.trace = m.trace ++ es) (hworkers : m'.workers = m.workers)
    (hnext : m'.nextWorker = m.nextWorker) (hes : ∀ w, effectsOf w es = []) : Told m' where
  story w hw := by
    rw [hworkers, htrace, effectsOf_append, hes, List.append_nil]
    exact h.story w (hnext ▸ hw)
  fresh w hw := by
    rw [hworkers, htrace, effectsOf_append, hes, List.append_nil]
    exact h.fresh w (hnext ▸ hw)

theorem Told.advance {m m' : JsModule} {w : Nat} {wk : Worker} {wk? : Option Worker}
    (h : Told m) (hw : m.workers w = some wk) (es : List Effect)
    (htrace : ∀ v, effectsOf v m'.trace = effectsOf v m.trace ++ if w = v then es else [])
    (hworkers : m'.workers = Function.update m.workers w wk?)
    (hnext : m'.nextWorker = m.nextWorker)
    (hstory : ∀ l, Story w (some wk) l → Story w wk? (l ++ es)) : Told m' where
  story v hv := by
    rw [hnext] at hv
    rw [htrace, hworkers, Function.update_apply]
    split
    · subst v
      simpa using hstory _ (hw ▸ h.story w hv)
    · next hne => simpa [Ne.symm hne] using h.story v hv
  fresh v hv := by
    rw [hnext] at hv
    have hold := h.fresh v hv
    have hne : w ≠ v := by
      rintro rfl
      simp [hw] at hold
    simp [htrace, hworkers, hne, hne.symm, hold]

theorem Told.queue {m : JsModule} (h : Told m) (self : Nat) (job : Job) (callback : Option Nat) :
    Told (m.asyncQueueWorker { self, job, callback }) where
  story v hv := by
    rw [JsModule.asyncQueueWorker_workers, Function.update_apply, JsModule.asyncQueueWorker_trace,
      effectsOf_append, effectsOf_cons, effectsOf_nil, List.append_nil]
    split
    · subst v
      rw [(h.fresh _ (Nat.le_refl _)).2]
      simpa [Effect.worker] using Story.queued
    · next hne =>
      have hlt : v < m.nextWorker := by
        simp at hv
        omega
      simpa [Effect.worker, Ne.symm hne] using h.story v hlt
  fresh v hv := by
    have hlt : m.nextWorker < v := hv
    have hold := h.fresh v hlt.le
    simp [hold, hlt.ne', Effect.worker, hlt.ne]

theorem worker_of_timed {e : Effect} (h : e.untimed = false) : e.worker = none := by
  cases e <;> first | rfl | cases h

theorem effectsOf_settle (m : JsModule) (v w self : Nat) (method : Method) :
    effectsOf v (m.settle w self method).trace =
      effectsOf v m.trace ++ if w = v then [.statusSet w self (target method)] else [] := by
  obtain ⟨es, htrace, hes⟩ := settle_trace m w self method
  have hnil : effectsOf v es = [] := by
    refine List.filter_eq_nil_iff.mpr fun e he => ?_
    simp [worker_of_timed (hes e he)]
  rw [htrace, effectsOf_append, effectsOf_cons, hnil]
  simp [Effect.worker]

theorem status_changed {m m' : JsModule} {e : Event} (ht : Transition m e m') {i : Nat}
    (hi : i < m.status.length) (hne : m'.status[i]? ≠ m.status[i]?) :
    (∃ method, m'.status[i]? = some (pending method)) ∨
      ∃ w method, m'.status[i]? = some (target method) ∧
        .statusSet w i (target method) ∈ m'.trace := by
  cases ht with
  | construct => exact absurd (List.getElem?_append_left hi) hne
  | @accepted self _ _ _ ha =>
    cases ha with
    | @requested method callback =>
      by_cases hself : self = i
      · exact .inl ⟨method, by simp [hself, hi]⟩
      · simp [hself] at hne
    | _ => exact absurd rfl hne
  | @settled w wk method =>
    by_cases hself : wk.self = i
    · obtain ⟨es, htrace, -⟩ := settle_trace (m.finish w wk) w wk.self method
      exact .inr ⟨w, method, by simp [hself, hi], by simp [← hself, htrace]⟩
    · simp [hself] at hne
  | _ => exact absurd rfl hne

section Step

variable {m : JsModule}

theorem Told.accepted {m' : JsModule} {self : Nat} (h : Told m) (ha : Accepted m self m') :
    Told m' := by
  cases ha with
  | @requested method callback =>
    have hset : Told (m.setStatus self (pending method)) := ⟨h.story, h.fresh⟩
    exact hset.queue self (.startOrShutdown method) callback
  | sent => exact h.queue _ _ _
  | subscribed => exact h.frame rfl rfl rfl fun _ => rfl

theorem Told.executing {w : Nat} {wk : Worker} (h : Told m) (hw : m.workers w = some wk)
    (hq : wk.phase = .queued) : Told (m.beginExecute w wk) := by
  refine h.advance hw [.called w wk.self wk.job] (fun v => ?_) rfl rfl fun l hl => ?_
  · simp [Effect.worker]
  · cases hl with
    | queued => exact .called
    | called => cases hq
    | returned hex => simp [(execute_some hex).2.2.1] at hq

theorem Told.executed {w : Nat} {wk wk' : Worker} {outcome : Outcome} (h : Told m)
    (hw : m.workers w = some wk) (hq : wk.phase = .executing)
    (hex : wk.execute outcome = some wk') : Told (m.endExecute w wk' outcome) := by
  refine h.advance hw [.returned w outcome] (fun v => ?_) rfl rfl fun l hl => ?_
  · simp [Effect.worker]
  · cases hl with
    | queued => cases hq
    | called => exact .returned hex
    | returned hex => simp [(execute_some hex).2.2.1] at hq

theorem Told.closed {m' : JsModule} {w : Nat} {wk : Worker} (h : Told m)
    (hw : m.workers w = some wk) (hq : wk.phase = .executed)
    (htrace : ∀ v, effectsOf v m'.trace = effectsOf v m.trace ++ if w = v then wk.closing w else [])
    (hworkers : m'.workers = Function.update m.workers w none)
    (hnext : m'.nextWorker = m.nextWorker) : Told m' := by
  refine h.advance hw _ htrace hworkers hnext fun l hl => ?_
  cases hl with
  | queued => cases hq
  | called => cases hq
  | returned hex => exact .completed hex

theorem Told.step {m' : JsModule} {e : Event} (h : Told m) (ht : Transition m e m') : Told m' := by
  cases ht with
  | construct => exact ⟨h.story, h.fresh⟩
  | rejected => exact h
  | accepted _ ha => exact h.accepted ha
  | executing hw hq => exact h.executing hw hq
  | executed hw hq hex => exact h.executed hw hq hex
  | @settled w wk method hw hq hj he =>
    refine h.closed hw hq (fun v => ?_) ?_ ?_
    · rw [JsModule.answer_trace, effectsOf_append, effectsOf_settle]
      by_cases hv : w = v <;> simp [hv, Effect.worker, Worker.closing, Worker.statusEffect, hj, he]
    · funext v
      simp
    · simp
  | @failed w wk method err hw hq hj he =>
    refine h.closed hw hq (fun v => ?_) rfl rfl
    by_cases hv : w = v <;> simp [hv, Effect.worker, Worker.closing, Worker.statusEffect, hj, he]
  | @sendCompleted w wk msg hw hq hj =>
    refine h.closed hw hq (fun v => ?_) rfl rfl
    by_cases hv : w = v <;> simp [hv, Effect.worker, Worker.closing, Worker.statusEffect, hj]

end Step

theorem Told.init : Told {} where
  story w hw := absurd hw (Nat.not_lt_zero w)
  fresh _ _ := ⟨rfl, rfl⟩

theorem told_of_reachable {k : ClassKind} {m : JsModule} (h : (machine k).Reachable m) : Told m :=
  h.invariant Told.init fun _ _ _ hm hstep => hm.step (step_cases hstep)

theorem mem_effectsOf {w : Nat} {e : Effect} {trace : List Effect} (h : e.worker = some w) :
    e ∈ effectsOf w trace ↔ e ∈ trace := by
  simp [effectsOf, h]

theorem Told.completed {m : JsModule} {w self : Nat} {job : Job} {errmsg : Option String}
    (h : Told m) (hc : .completed w self job errmsg ∈ m.trace) :
    ∃ self job callback o wk,
      Worker.execute { self, job, callback, phase := .executing } o = some wk ∧
        effectsOf w m.trace =
          [.queued w self job callback, .called w self job, .returned w o] ++ wk.closing w := by
  have hmem := (mem_effectsOf rfl).mpr hc
  have hlt : w < m.nextWorker := by
    by_contra hge
    simp [(h.fresh w (Nat.le_of_not_lt hge)).2] at hmem
  have hstory := h.story w hlt
  generalize effectsOf w m.trace = l, m.workers w = wk? at hstory hmem ⊢
  cases hstory with
  | completed hex => exact ⟨_, _, _, _, _, hex, rfl⟩
  | _ => simp at hmem

def Effect.answer? : Effect → Option (Option Nat × Answer)
  | .answered _ callback answer => some (callback, answer)
  | _ => none

def answersOf (w : Nat) (trace : List Effect) : List (Option Nat × Answer) :=
  (effectsOf w trace).filterMap Effect.answer?

/-- An error is told exactly when the native call failed, the result of a send is
the one it wrote, and a status is set only by a call that returned 0. -/
@[mk_iff] structure Truthful (w : Nat) (trace : List Effect) (outcome : Outcome) (answer : Answer) : Prop where
  error : answer.isError = true ↔ outcome.isOk = false
  result : ∀ r, outcome = .sendMessage (.ok r) → answer = .success
    (.sendResult r.sendStatus (sendResultStatusStr r.sendStatus) r.msgId r.offset)
  status : ∀ self status, .statusSet w self status ∈ trace → outcome.isOk = true

def Reported (w : Nat) (trace : List Effect) : Prop :=
  ∃ self job callback outcome answer,
    .queued w self job callback ∈ trace ∧ .returned w outcome ∈ trace ∧
      answersOf w trace = [(callback, answer)] ∧ Truthful w trace outcome answer

def Outcome.Faithful : Outcome → Prop
  | .startOrShutdown (.failed _ _ _) => False
  | .sendMessage (.failed _ _ _) => False
  | .sendMessage (.ok r) => toNumber r.offset = r.offset
  | _ => True

section Truthful

variable {w self : Nat} {callback : Option Nat} {wk : Worker} {trace : List Effect}

theorem startOrShutdown_truthful {method : Method} {o : SdkOutcome Unit}
    (hex : Worker.execute
      { self, job := .startOrShutdown method, callback, phase := .executing }
      (.startOrShutdown o) = some wk)
    (hstatus : ∀ i status, .statusSet w i status ∈ trace ↔ .statusSet w i status ∈ wk.closing w) :
    Truthful w trace (.startOrShutdown o) wk.answer ↔ (Outcome.startOrShutdown o).Faithful := by
  cases hex
  rw [truthful_iff]
  cases o with
  | ok _ =>
    simp [Worker.startOrShutdown, Worker.answer, Answer.isError, Outcome.isOk, SdkOutcome.isOk,
      Outcome.Faithful]
  | failed status nonzero _ =>
    simp [Worker.startOrShutdown, Worker.answer, Answer.isError, Outcome.isOk, SdkOutcome.isOk,
      Outcome.Faithful]
  | threw what =>
    simp [hstatus, Worker.startOrShutdown, Worker.answer, Answer.isError, Outcome.isOk,
      SdkOutcome.isOk, Outcome.Faithful, Worker.closing, Worker.statusEffect]

theorem sendMessage_truthful {msg : Marshal.CMessage} {o : SdkOutcome CSendResult}
    (hex : Worker.execute { self, job := .sendMessage msg, callback, phase := .executing }
      (.sendMessage o) = some wk)
    (hstatus : ∀ i status, .statusSet w i status ∈ trace ↔ .statusSet w i status ∈ wk.closing w) :
    Truthful w trace (.sendMessage o) wk.answer ↔ (Outcome.sendMessage o).Faithful := by
  cases hex
  rw [truthful_iff]
  cases o with
  | ok r =>
    simp [hstatus, Worker.sendMessage, Worker.answer, sendReply, Answer.isError, Outcome.isOk,
      SdkOutcome.isOk, Outcome.Faithful]
  | failed status nonzero written =>
    simp [Worker.sendMessage, Worker.answer, Answer.isError, Outcome.isOk, SdkOutcome.isOk,
      Outcome.Faithful]
  | threw what =>
    simp [hstatus, Worker.sendMessage, Worker.answer, Answer.isError, Outcome.isOk,
      SdkOutcome.isOk, Outcome.Faithful, Worker.closing, Worker.statusEffect]

theorem execute_truthful {job : Job} {o : Outcome}
    (hex : Worker.execute { self, job, callback, phase := .executing } o = some wk)
    (hstatus : ∀ i status, .statusSet w i status ∈ trace ↔ .statusSet w i status ∈ wk.closing w) :
    Truthful w trace o wk.answer ↔ o.Faithful := by
  cases o <;> cases job
  · exact startOrShutdown_truthful hex hstatus
  · cases hex
  · cases hex
  · exact sendMessage_truthful hex hstatus

end Truthful

@[simp] theorem answers_closing (w : Nat) (wk : Worker) :
    (wk.closing w).filterMap Effect.answer? = [(wk.callback, wk.answer)] := by
  unfold Worker.closing Worker.statusEffect
  split <;> rfl

@[simp] theorem returned_notMem_closing (w : Nat) (wk : Worker) (o : Outcome) :
    .returned w o ∉ wk.closing w := by
  unfold Worker.closing Worker.statusEffect
  split <;> simp

end RocketMQClient.Client
