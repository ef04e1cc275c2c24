import RocketMQClient.Client.Transition

namespace RocketMQClient.Client

open Marshal Library Lifecycle

def Effect.lifecycle (i : Nat) : Effect → Option Lifecycle.Event
  | .queued w self (.startOrShutdown method) _ => if self = i then some (.request w method) else none
  | .called w self (.startOrShutdown method) => if self = i then some (.issue w method) else none
  | .completed w self (.startOrShutdown method) errmsg =>
    if self = i then some (.finish w method errmsg.isNone) else none
  | .subscribed self _ _ => if self = i then some .configure else none
  | _ => none

def lifecycleOf (i : Nat) (trace : List Effect) : List Lifecycle.Event :=
  trace.filterMap (Effect.lifecycle i)

def Worker.carries (i : Nat) (wk : Worker) : Option (Method × Bool) :=
  match wk.job with
  | .startOrShutdown method =>
    if wk.self = i then some (method, wk.phase = .queued) else none
  | .sendMessage _ => none

def JsModule.carried (m : JsModule) (i w : Nat) : Option (Method × Bool) :=
  (m.workers w).bind (Worker.carries i)

def carriedIn (p : Phase) (w : Nat) : Option (Method × Bool) :=
  match p with
  | .requested w' method => if w = w' then some (method, true) else none
  | .issued w' method => if w = w' then some (method, false) else none
  | _ => none

def statusIn : Phase → Option StartStatus → Prop
  | .stopped, status => status = none ∨ status = some .stopped
  | .started, status => status = some .started
  | .requested _ method, status => status = some (pending method)
  | .issued _ method, status => status = some (pending method)
  | .broken, status => status = some .starting ∨ status = some .stopping

structure Tracks (m : JsModule) (i : Nat) (p : Phase) : Prop where
  accepts : Accepts (lifecycleOf i m.trace) p
  status : statusIn p m.status[i]?
  carried : ∀ w, m.carried i w = carriedIn p w

structure Tracked (m : JsModule) : Prop where
  tracks : ∀ i, ∃ p, Tracks m i p
  fresh : ∀ w wk, m.workers w = some wk → w < m.nextWorker

theorem Tracks.frame {m m' : JsModule} {i : Nat} {p : Phase} (h : Tracks m i p)
    (htrace : lifecycleOf i m'.trace = lifecycleOf i m.trace)
    (hstatus : m'.status[i]? = m.status[i]?) (hcarried : ∀ w, m'.carried i w = m.carried i w) :
    Tracks m' i p where
  accepts := htrace ▸ h.accepts
  status := hstatus ▸ h.status
  carried w := (hcarried w).trans (h.carried w)

theorem Tracks.advance {m m' : JsModule} {i : Nat} {p q : Phase} {e : Lifecycle.Event}
    (h : Tracks m i p) (hpq : Lifecycle.Transition p e q)
    (htrace : lifecycleOf i m'.trace = lifecycleOf i m.trace ++ [e])
    (hstatus : statusIn q m'.status[i]?) (hcarried : ∀ w, m'.carried i w = carriedIn q w) :
    Tracks m' i q where
  accepts := by
    rw [htrace]
    exact accepts_concat.mpr ⟨p, h.accepts, hpq⟩
  status := hstatus
  carried := hcarried

theorem statusIn_required {p : Phase} {method : Method}
    (h : statusIn p (some (required method))) : p = method.other.rest := by
  cases p with
  | stopped => cases method <;> simp_all [statusIn, required, Op.other, Op.rest]
  | started => cases method <;> simp_all [statusIn, required, Op.other, Op.rest]
  | requested w op => cases method <;> cases op <;> cases h
  | issued w op => cases method <;> cases op <;> cases h
  | broken => cases method <;> simp_all [statusIn, required]

theorem statusIn_target (method : Method) : statusIn method.rest (some (target method)) := by
  cases method <;> simp [statusIn, target, Op.rest]

theorem statusIn_pending (method : Method) : statusIn .broken (some (pending method)) := by
  cases method <;> simp [statusIn, pending]

@[simp] theorem carriedIn_rest (method : Method) (w : Nat) : carriedIn method.rest w = none := by
  cases method <;> rfl

theorem carriedIn_queued {p : Phase} {w : Nat} {method : Method}
    (h : carriedIn p w = some (method, true)) : p = .requested w method := by
  cases p <;> simp_all [carriedIn]

theorem carriedIn_called {p : Phase} {w : Nat} {method : Method}
    (h : carriedIn p w = some (method, false)) : p = .issued w method := by
  cases p <;> simp_all [carriedIn]

theorem statusIn_none {p : Phase} (h : statusIn p none) : p = .stopped := by
  cases p <;> simp_all [statusIn]

@[simp] theorem lifecycleOf_append (i : Nat) (trace trace' : List Effect) :
    lifecycleOf i (trace ++ trace') = lifecycleOf i trace ++ lifecycleOf i trace' :=
  List.filterMap_append

theorem lifecycleOf_cons (i : Nat) (e : Effect) (trace : List Effect) :
    lifecycleOf i (e :: trace) = (e.lifecycle i).toList ++ lifecycleOf i trace := by
  cases h : e.lifecycle i <;> simp [lifecycleOf, h]

theorem carried_update {m m' : JsModule} {w : Nat} {wk : Option Worker}
    (h : m'.workers = Function.update m.workers w wk) (i v : Nat) :
    m'.carried i v = if v = w then wk.bind (Worker.carries i) else m.carried i v := by
  rw [JsModule.carried, h, Function.update_apply]
  split <;> rfl

theorem carries_of_ne {i : Nat} {wk : Worker} (h : wk.self ≠ i) : wk.carries i = none := by
  unfold Worker.carries
  split
  · exact if_neg h
  · rfl

theorem carries_sendMessage {i : Nat} {wk : Worker} {msg : CMessage}
    (h : wk.job = .sendMessage msg) : wk.carries i = none := by
  simp only [Worker.carries, h]

theorem carries_startOrShutdown {wk : Worker} {method : Method}
    (h : wk.job = .startOrShutdown method) :
    wk.carries wk.self = some (method, decide (wk.phase = .queued)) := by
  simp only [Worker.carries, h, if_true]

theorem carries_congr {wk wk' : Worker} (hself : wk'.self = wk.self) (hjob : wk'.job = wk.job)
    (hphase : wk'.phase = .queued ↔ wk.phase = .queued) (i : Nat) :
    wk'.carries i = wk.carries i := by
  simp only [Worker.carries, hself, hjob, hphase]

theorem execute_some {wk wk' : Worker} {outcome : Outcome} (h : wk.execute outcome = some wk') :
    wk'.self = wk.self ∧ wk'.job = wk.job ∧ wk'.phase = .executed ∧ wk'.callback = wk.callback := by
  cases outcome <;> cases hj : wk.job <;> simp only [Worker.execute, hj] at h <;> cases h
  · rename_i o method
    cases o <;> exact ⟨rfl, hj, rfl, rfl⟩
  · rename_i o msg
    cases o <;> exact ⟨rfl, hj, rfl, rfl⟩

section Step

variable {m : JsModule}

theorem Tracked.carried_next (h : Tracked m) (i : Nat) : m.carried i m.nextWorker = none := by
  cases hw : m.workers m.nextWorker with
  | none => simp [JsModule.carried, hw]
  | some wk => exact absurd (h.fresh _ wk hw) (Nat.lt_irrefl _)

theorem Tracked.fresh_queue (h : Tracked m) (wk : Worker) :
    ∀ w wk', (m.asyncQueueWorker wk).workers w = some wk' → w < m.nextWorker + 1 := by
  intro w wk' hw
  rw [JsModule.asyncQueueWorker_workers, Function.update_apply] at hw
  split at hw
  · omega
  · exact Nat.lt_succ_of_lt (h.fresh w wk' hw)

theorem Tracked.fresh_set (h : Tracked m) {w : Nat} {wk : Worker} (hw : m.workers w = some wk)
    (wk? : Option Worker) :
    ∀ v wk', (m.setWorker w wk?).workers v = some wk' → v < m.nextWorker := by
  intro v wk' hv
  rw [JsModule.setWorker_workers, Function.update_apply] at hv
  split at hv
  · subst v
    exact h.fresh w wk hw
  · exact h.fresh v wk' hv

theorem Tracked.carried_queue (h : Tracked m) {wk : Worker} {i : Nat} (hwk : wk.carries i = none)
    (v : Nat) : (m.asyncQueueWorker wk).carried i v = m.carried i v := by
  rw [carried_update (m := m) rfl]
  split
  · subst v
    rw [h.carried_next]
    exact hwk
  · rfl

theorem carried_set {w i : Nat} {wk : Worker} (hw : m.workers w = some wk) (wk? : Option Worker)
    (hwk : wk?.bind (Worker.carries i) = wk.carries i) (v : Nat) :
    (m.setWorker w wk?).carried i v = m.carried i v := by
  rw [carried_update (m := m) rfl]
  split
  · subst v
    rw [hwk, JsModule.carried, hw]
    rfl
  · rfl

theorem Tracks.of_worker {i w : Nat} {p : Phase} {wk : Worker} {method : Method} (h : Tracks m i p)
    (hw : m.workers w = some wk) (hself : wk.self = i) (hj : wk.job = .startOrShutdown method) :
    carriedIn p w = some (method, decide (wk.phase = .queued)) := by
  rw [← h.carried, JsModule.carried, hw]
  exact hself ▸ carries_startOrShutdown hj

theorem Tracked.construct (h : Tracked m) : Tracked { m with status := m.status ++ [.stopped] } where
  fresh := h.fresh
  tracks i := by
    obtain ⟨p, hp⟩ := h.tracks i
    rcases Nat.lt_trichotomy i m.status.length with hlt | rfl | hgt
    · exact ⟨p, hp.frame rfl (List.getElem?_append_left hlt) fun _ => rfl⟩
    · have hstopped : p = .stopped := statusIn_none (by simpa using hp.status)
      subst hstopped
      exact ⟨.stopped, hp.accepts, by simp [statusIn], hp.carried⟩
    · refine ⟨p, hp.frame rfl ?_ fun _ => rfl⟩
      rw [List.getElem?_eq_none (by simp; omega), List.getElem?_eq_none (by omega)]

theorem Tracked.request {self : Nat} {method : Method} {callback : Option Nat} (h : Tracked m)
    (hs : m.status[self]? = some (required method)) :
    Tracked (m.request self method callback) where
  fresh := h.fresh_queue _
  tracks i := by
    obtain ⟨p, hp⟩ := h.tracks i
    by_cases hi : self = i
    · subst hi
      have hlt : self < m.status.length := (List.getElem?_eq_some_iff.mp hs).1
      have hrest : p = method.other.rest := statusIn_required (hs ▸ hp.status)
      subst hrest
      refine ⟨.requested m.nextWorker method, hp.advance .request ?_ ?_ fun w => ?_⟩
      · simp [lifecycleOf, Effect.lifecycle]
      · simp [statusIn, hlt]
      · rw [carried_update (m := m) rfl, hp.carried, carriedIn_rest]
        simp [Worker.carries, carriedIn]
    · refine ⟨p, hp.frame ?_ ?_ (h.carried_queue (carries_of_ne hi))⟩
      · simp [lifecycleOf, Effect.lifecycle, hi]
      · simp [hi]

theorem Tracked.sent {wk : Worker} {msg : CMessage} (h : Tracked m) (hj : wk.job = .sendMessage msg) :
    Tracked (m.asyncQueueWorker wk) where
  fresh := h.fresh_queue _
  tracks i := by
    obtain ⟨p, hp⟩ := h.tracks i
    refine ⟨p, hp.frame ?_ rfl (h.carried_queue (carries_sendMessage hj))⟩
    simp [lifecycleOf, Effect.lifecycle, hj]

theorem Tracked.subscribed {self : Nat} {topic expression : String} (h : Tracked m)
    (hs : m.status[self]? = some .stopped) :
    Tracked (m.emit (.subscribed self topic expression)) where
  fresh := h.fresh
  tracks i := by
    obtain ⟨p, hp⟩ := h.tracks i
    by_cases hi : self = i
    · subst hi
      have hstopped : p = .stopped := @statusIn_required p .start (hs ▸ hp.status)
      subst hstopped
      refine ⟨.stopped, hp.advance .configure ?_ hp.status hp.carried⟩
      simp [lifecycleOf, Effect.lifecycle]
    · refine ⟨p, hp.frame ?_ rfl fun _ => rfl⟩
      simp [lifecycleOf, Effect.lifecycle, hi]

theorem Tracked.accepted {m' : JsModule} {self : Nat} (h : Tracked m) (ha : Accepted m self m') :
    Tracked m' := by
  cases ha with
  | requested hs => exact h.request hs
  | sent => exact h.sent rfl
  | subscribed hs => exact h.subscribed hs

theorem Tracked.executing {w : Nat} {wk : Worker} (h : Tracked m) (hw : m.workers w = some wk)
    (hq : wk.phase = .queued) : Tracked (m.beginExecute w wk) where
  fresh := h.fresh_set hw _
  tracks i := by
    obtain ⟨p, hp⟩ := h.tracks i
    cases hj : wk.job with
    | startOrShutdown method =>
      by_cases hi : wk.self = i
      · have hcarried := hp.of_worker hw hi hj
        have hrequested : p = .requested w method := carriedIn_queued (by simpa [hq] using hcarried)
        subst hrequested
        refine ⟨.issued w method, hp.advance .issue ?_ hp.status fun v => ?_⟩
        · simp [lifecycleOf, Effect.lifecycle, hj, hi]
        · rw [carried_update (m := m) rfl, hp.carried]
          by_cases hv : v = w <;> simp [hv, Worker.carries, carriedIn, hj, hi]
      · refine ⟨p, hp.frame ?_ rfl (carried_set hw _ ?_)⟩
        · simp [lifecycleOf, Effect.lifecycle, hj, hi]
        · simp [Worker.carries, hj, hi]
    | sendMessage msg =>
      refine ⟨p, hp.frame ?_ rfl (carried_set hw _ ?_)⟩
      · simp [lifecycleOf, Effect.lifecycle, hj]
      · simp [Worker.carries, hj]

theorem Tracked.executed {w : Nat} {wk wk' : Worker} {outcome : Outcome} (h : Tracked m)
    (hw : m.workers w = some wk) (hq : wk.phase = .executing)
    (hex : wk.execute outcome = some wk') : Tracked (m.endExecute w wk' outcome) where
  fresh := h.fresh_set hw _
  tracks i := by
    obtain ⟨p, hp⟩ := h.tracks i
    obtain ⟨hself, hjob, hphase, -⟩ := execute_some hex
    refine ⟨p, hp.frame ?_ rfl (carried_set hw _ ?_)⟩
    · simp [lifecycleOf, Effect.lifecycle]
    · exact carries_congr hself hjob (by simp [hphase, hq]) i

theorem Tracked.failed {w : Nat} {wk : Worker} {method : Method} {err : String} (h : Tracked m)
    (hw : m.workers w = some wk) (hq : wk.phase = .executed) (hj : wk.job = .startOrShutdown method)
    (he : wk.errmsg = some err) : Tracked ((m.finish w wk).answer w wk) where
  fresh := h.fresh_set hw _
  tracks i := by
    obtain ⟨p, hp⟩ := h.tracks i
    by_cases hi : wk.self = i
    · have hissued : p = .issued w method :=
        carriedIn_called (by simpa [hq] using hp.of_worker hw hi hj)
      subst hissued
      refine ⟨.broken, hp.advance .fail ?_ ?_ fun v => ?_⟩
      · simp [lifecycleOf, Effect.lifecycle, hj, hi, he]
      · have hs : m.status[i]? = some (pending method) := hp.status
        simpa [hs] using statusIn_pending method
      · rw [carried_update (m := m) rfl, hp.carried]
        by_cases hv : v = w <;> simp [hv, carriedIn]
    · refine ⟨p, hp.frame ?_ rfl (carried_set hw _ (carries_of_ne hi).symm)⟩
      simp [lifecycleOf, Effect.lifecycle, hj, hi]

theorem lifecycle_of_timed {e : Effect} (h : e.untimed = false) (i : Nat) : e.lifecycle i = none := by
  cases e <;> first | rfl | cases h

@[simp] theorem lifecycleOf_settle (i w self : Nat) (method : Method) :
    lifecycleOf i (m.settle w self method).trace = lifecycleOf i m.trace := by
  obtain ⟨es, htrace, hes⟩ := settle_trace m w self method
  have hnil : lifecycleOf i es = [] :=
    List.filterMap_eq_nil_iff.mpr fun e he => lifecycle_of_timed (hes e he) i
  rw [htrace, lifecycleOf_append, lifecycleOf_cons, hnil]
  simp [Effect.lifecycle]

theorem Tracked.settled {w : Nat} {wk : Worker} {method : Method} (h : Tracked m)
    (hw : m.workers w = some wk) (hq : wk.phase = .executed) (hj : wk.job = .startOrShutdown method)
    (he : wk.errmsg = none) :
    Tracked (((m.finish w wk).settle w wk.self method).answer w wk) where
  fresh v wk' := by
    simpa using h.fresh_set hw none v wk'
  tracks i := by
    obtain ⟨p, hp⟩ := h.tracks i
    have hworkers : (((m.finish w wk).settle w wk.self method).answer w wk).workers =
        Function.update m.workers w none := by
      funext v
      simp
    by_cases hi : wk.self = i
    · have hissued : p = .issued w method :=
        carriedIn_called (by simpa [hq] using hp.of_worker hw hi hj)
      subst hissued
      have hs : m.status[i]? = some (pending method) := hp.status
      have hlt : i < m.status.length := (List.getElem?_eq_some_iff.mp hs).1
      refine ⟨method.rest, hp.advance .succeed ?_ ?_ fun v => ?_⟩
      · rw [JsModule.answer_trace, lifecycleOf_append, lifecycleOf_settle]
        simp [lifecycleOf, Effect.lifecycle, hj, hi, he]
      · simpa [hi, hlt] using statusIn_target method
      · rw [carried_update hworkers, hp.carried, carriedIn_rest]
        by_cases hv : v = w <;> simp [hv, carriedIn]
    · refine ⟨p, hp.frame ?_ ?_ fun v => ?_⟩
      · rw [JsModule.answer_trace, lifecycleOf_append, lifecycleOf_settle]
        simp [lifecycleOf, Effect.lifecycle, hj, hi]
      · simp [hi]
      · rw [JsModule.carried, hworkers]
        exact carried_set hw none (carries_of_ne hi).symm v

theorem Tracked.status_of_executed {w : Nat} {wk : Worker} {method : Method} (h : Tracked m)
    (hw : m.workers w = some wk) (hq : wk.phase = .executed) (hj : wk.job = .startOrShutdown method) :
    m.status[wk.self]? = some (pending method) := by
  obtain ⟨p, hp⟩ := h.tracks wk.self
  have hissued : p = .issued w method :=
    carriedIn_called (by simpa [hq] using hp.of_worker hw rfl hj)
  subst hissued
  exact hp.status

theorem Tracked.sendCompleted {w : Nat} {wk : Worker} {msg : CMessage} (h : Tracked m)
    (hw : m.workers w = some wk) (hj : wk.job = .sendMessage msg) :
    Tracked ((m.finish w wk).answer w wk) where
  fresh := h.fresh_set hw _
  tracks i := by
    obtain ⟨p, hp⟩ := h.tracks i
    refine ⟨p, hp.frame ?_ rfl (carried_set hw _ (carries_sendMessage hj).symm)⟩
    simp [lifecycleOf, Effect.lifecycle, hj]

theorem Tracked.step {m' : JsModule} {e : Event} (h : Tracked m) (ht : Transition m e m') :
    Tracked m' := by
  cases ht with
  | construct => exact h.construct
  | rejected => exact h
  | accepted _ ha => exact h.accepted ha
  | executing hw hq => exact h.executing hw hq
  | executed hw hq hex => exact h.executed hw hq hex
  | settled hw hq hj he => exact h.settled hw hq hj he
  | failed hw hq hj he => exact h.failed hw hq hj he
  | sendCompleted hw _ hj => exact h.sendCompleted hw hj

end Step

theorem Tracked.init : Tracked {} where
  fresh := by simp
  tracks i := ⟨.stopped, rfl, .inl rfl, fun _ => rfl⟩

theorem tracked_of_reachable {k : ClassKind} {m : JsModule} (h : (machine k).Reachable m) :
    Tracked m :=
  h.invariant Tracked.init fun _ _ _ hm hstep => hm.step (step_cases hstep)

end RocketMQClient.Client
