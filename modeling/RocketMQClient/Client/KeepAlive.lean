import RocketMQClient.Client.Tracking

namespace RocketMQClient.Client

open Marshal Library Lifecycle

def StartStatus.live : StartStatus → Bool
  | .started => true
  | .stopping => true
  | _ => false

def JsModule.live (m : JsModule) : Nat := m.status.countP StartStatus.live

def activeStep (active : List Nat) : Effect → List Nat
  | .intervalSet id => id :: active
  | .intervalCleared timer => active.filter fun id => some id ≠ timer
  | _ => active

def timers : Machine (List Nat) Effect where
  init := []
  step active e := some (activeStep active e)

def TimerOk (active : List Nat) : Effect → Prop
  | .intervalSet _ => active = []
  | .intervalCleared timer => ∃ id, timer = some id ∧ active = [id]
  | _ => True

structure Timed (m : JsModule) : Prop where
  active : timers.exec [] m.trace = some m.intervals
  timed : timers.Along TimerOk [] m.trace

structure KeepAlive (m : JsModule) : Prop extends Timed m where
  ref : m.producerRef = m.live
  idle : m.live = 0 → m.intervals = []
  busy : m.live ≠ 0 → ∃ id, m.timer = some id ∧ m.intervals = [id]

theorem Timed.concat {m m' : JsModule} (h : Timed m) (e : Effect) (he : TimerOk m.intervals e)
    (htrace : m'.trace = m.trace ++ [e]) (hintervals : m'.intervals = activeStep m.intervals e) :
    Timed m' where
  active := by
    rw [htrace, hintervals, Machine.exec_append, h.active]
    rfl
  timed := by
    rw [htrace]
    exact (Machine.along_append h.active).mpr ⟨h.timed, he, fun _ _ => trivial⟩

theorem Timed.emit {m : JsModule} {e : Effect} (h : Timed m) (he : e.untimed = true) :
    Timed (m.emit e) := by
  refine h.concat e ?_ rfl ?_
  · cases e <;> trivial
  · cases e <;> first | rfl | cases he

theorem Timed.setInterval {m : JsModule} (h : Timed m) (hidle : m.intervals = []) :
    Timed m.setInterval :=
  h.concat (.intervalSet m.nextInterval) hidle rfl rfl

theorem Timed.clearInterval {m : JsModule} (h : Timed m)
    (hbusy : ∃ id, m.timer = some id ∧ m.intervals = [id]) : Timed m.clearInterval :=
  h.concat (.intervalCleared m.timer) hbusy rfl rfl

theorem KeepAlive.frame {m m' : JsModule} {e : Effect} (h : KeepAlive m) (he : e.untimed = true)
    (htrace : m'.trace = m.trace ++ [e]) (hlive : m'.live = m.live)
    (href : m'.producerRef = m.producerRef) (htimer : m'.timer = m.timer)
    (hintervals : m'.intervals = m.intervals) : KeepAlive m' where
  toTimed := by
    have ht := h.toTimed.emit he
    refine ⟨?_, ?_⟩
    · rw [htrace, hintervals]
      exact ht.active
    · rw [htrace]
      exact ht.timed
  ref := by rw [href, hlive, h.ref]
  idle := by
    rw [hlive, hintervals]
    exact h.idle
  busy := by
    rw [hlive, htimer, hintervals]
    exact h.busy

theorem live_set {m : JsModule} {self : Nat} {status : StartStatus}
    (hs : m.status[self]? = some status) (status' : StartStatus) :
    (m.setStatus self status').live + status.live.toNat = m.live + status'.live.toNat := by
  obtain ⟨hlt, hget⟩ := List.getElem?_eq_some_iff.mp hs
  have hpos : status.live = true → 0 < m.status.countP StartStatus.live := fun hl =>
    List.countP_pos_iff.mpr ⟨status, hget ▸ List.getElem_mem hlt, hl⟩
  simp only [JsModule.live, JsModule.setStatus_status, List.countP_set hlt, hget]
  cases hl : status.live <;> cases status'.live <;> simp <;> have := hpos hl <;> omega

theorem live_pending {m : JsModule} {self : Nat} {method : Method}
    (hs : m.status[self]? = some (required method)) :
    (m.setStatus self (pending method)).live = m.live := by
  have hsame : (pending method).live = (required method).live := by cases method <;> rfl
  have hset := live_set hs (pending method)
  rw [hsame] at hset
  omega

theorem settle_start_of_zero {m : JsModule} {w self : Nat} (h : m.producerRef = 0) :
    m.settle w self .start =
      { ((m.setStatus self .started).emit (.statusSet w self .started)).setInterval with
        producerRef := m.producerRef + 1 } :=
  congrArg (fun t : JsModule => { t with producerRef := t.producerRef + 1 }) (if_pos h)

theorem settle_start_of_ne {m : JsModule} {w self : Nat} (h : m.producerRef ≠ 0) :
    m.settle w self .start =
      { (m.setStatus self .started).emit (.statusSet w self .started) with
        producerRef := m.producerRef + 1 } :=
  congrArg (fun t : JsModule => { t with producerRef := t.producerRef + 1 }) (if_neg h)

theorem settle_shutdown_of_zero {m : JsModule} {w self : Nat} (h : m.producerRef - 1 = 0) :
    m.settle w self .shutdown =
      { (m.setStatus self .stopped).emit (.statusSet w self .stopped) with
        producerRef := m.producerRef - 1 }.clearInterval :=
  if_pos h

theorem settle_shutdown_of_ne {m : JsModule} {w self : Nat} (h : m.producerRef - 1 ≠ 0) :
    m.settle w self .shutdown =
      { (m.setStatus self .stopped).emit (.statusSet w self .stopped) with
        producerRef := m.producerRef - 1 } :=
  if_neg h

theorem KeepAlive.settle_start {m : JsModule} {w self : Nat} (h : KeepAlive m)
    (hs : m.status[self]? = some .starting) : KeepAlive (m.settle w self .start) := by
  have hlive : (m.setStatus self .started).live = m.live + 1 := live_set hs _
  have htimed : Timed ((m.setStatus self .started).emit (.statusSet w self .started)) :=
    Timed.emit ⟨h.active, h.timed⟩ rfl
  have href : m.producerRef + 1 = ((m.setStatus self .started).live : Int) := by
    simp [h.ref, hlive]
  have hne : (m.setStatus self .started).live ≠ 0 := by simp [hlive]
  by_cases hm : m.producerRef = 0
  · have hidle : m.intervals = [] := h.idle (by simpa [h.ref] using hm)
    have hset := htimed.setInterval hidle
    rw [settle_start_of_zero hm]
    refine ⟨⟨hset.active, hset.timed⟩, href, fun hl => absurd hl hne, fun _ => ?_⟩
    exact ⟨m.nextInterval, rfl, congrArg _ hidle⟩
  · rw [settle_start_of_ne hm]
    refine ⟨⟨htimed.active, htimed.timed⟩, href, fun hl => absurd hl hne, fun _ => ?_⟩
    exact h.busy (by simpa [h.ref] using hm)

theorem KeepAlive.settle_shutdown {m : JsModule} {w self : Nat} (h : KeepAlive m)
    (hs : m.status[self]? = some .stopping) : KeepAlive (m.settle w self .shutdown) := by
  have hlive : (m.setStatus self .stopped).live + 1 = m.live := live_set hs _
  have htimed : Timed ((m.setStatus self .stopped).emit (.statusSet w self .stopped)) :=
    Timed.emit ⟨h.active, h.timed⟩ rfl
  have hbusy := h.busy (by omega)
  have href : m.producerRef - 1 = ((m.setStatus self .stopped).live : Int) := by
    simp [h.ref, ← hlive]
  by_cases hm : m.producerRef - 1 = 0
  · have hclear : Timed { (m.setStatus self .stopped).emit (.statusSet w self .stopped) with
        producerRef := m.producerRef - 1 }.clearInterval :=
      Timed.clearInterval ⟨htimed.active, htimed.timed⟩ hbusy
    have hzero : (m.setStatus self .stopped).live = 0 := by simpa [href] using hm
    rw [settle_shutdown_of_zero hm]
    refine ⟨hclear, href, fun _ => ?_, fun hl => absurd hzero hl⟩
    obtain ⟨id, htimer, hintervals⟩ := hbusy
    simp [htimer, hintervals]
  · have hne : (m.setStatus self .stopped).live ≠ 0 := by simpa [href] using hm
    rw [settle_shutdown_of_ne hm]
    exact ⟨⟨htimed.active, htimed.timed⟩, href, fun hl => absurd hl hne, fun _ => hbusy⟩

theorem KeepAlive.settle {m : JsModule} {w self : Nat} {method : Method} (h : KeepAlive m)
    (hs : m.status[self]? = some (pending method)) : KeepAlive (m.settle w self method) := by
  cases method with
  | start => exact h.settle_start hs
  | shutdown => exact h.settle_shutdown hs

section Step

variable {m : JsModule}

theorem KeepAlive.construct (h : KeepAlive m) :
    KeepAlive { m with status := m.status ++ [.stopped] } := by
  have hlive : JsModule.live { m with status := m.status ++ [.stopped] } = m.live := by
    simp [JsModule.live, StartStatus.live]
  exact ⟨⟨h.active, h.timed⟩, hlive ▸ h.ref, hlive ▸ h.idle, hlive ▸ h.busy⟩

theorem KeepAlive.accepted {m' : JsModule} {self : Nat} (h : KeepAlive m) (ha : Accepted m self m') :
    KeepAlive m' := by
  cases ha with
  | requested hs => exact h.frame rfl rfl (live_pending hs) rfl rfl rfl
  | sent => exact h.frame rfl rfl rfl rfl rfl rfl
  | subscribed => exact h.frame rfl rfl rfl rfl rfl rfl

theorem KeepAlive.finish {w : Nat} {wk : Worker} (h : KeepAlive m) : KeepAlive (m.finish w wk) :=
  h.frame rfl rfl rfl rfl rfl rfl

theorem KeepAlive.answer {w : Nat} {wk : Worker} (h : KeepAlive m) : KeepAlive (m.answer w wk) :=
  h.frame rfl rfl rfl rfl rfl rfl

theorem KeepAlive.step {m' : JsModule} {e : Event} (h : KeepAlive m) (hm : Tracked m)
    (ht : Transition m e m') : KeepAlive m' := by
  cases ht with
  | construct => exact h.construct
  | rejected => exact h
  | accepted _ ha => exact h.accepted ha
  | executing => exact h.frame rfl rfl rfl rfl rfl rfl
  | executed => exact h.frame rfl rfl rfl rfl rfl rfl
  | settled hw hq hj =>
    have hs := hm.status_of_executed hw hq hj
    exact (h.finish.settle hs).answer
  | failed => exact h.finish.answer
  | sendCompleted => exact h.finish.answer

end Step

theorem KeepAlive.init : KeepAlive {} where
  active := rfl
  timed := trivial
  ref := rfl
  idle _ := rfl
  busy h := absurd rfl h

theorem keepAlive_of_reachable {k : ClassKind} {m : JsModule} (h : (machine k).Reachable m) :
    KeepAlive m := by
  refine (h.invariant (I := fun m => Tracked m ∧ KeepAlive m) ?_ ?_).2
  · exact ⟨Tracked.init, KeepAlive.init⟩
  · intro m e m' hm hstep
    have ht := step_cases hstep
    exact ⟨hm.1.step ht, hm.2.step hm.1 ht⟩

/-- In either module and in every reachable state the counter is the number of
live instances, and one interval is active or none. -/
theorem keepAlive_exact {s : ClassKind → JsModule} (h : client.Reachable s) (k : ClassKind) :
    (s k).producerRef = (s k).live ∧
      (s k).intervals.length = (if 0 < (s k).producerRef then 1 else 0) ∧
      timers.exec [] (s k).trace = some (s k).intervals ∧
      timers.Along TimerOk [] (s k).trace := by
  have hk := keepAlive_of_reachable (Machine.pi_reachable h k)
  refine ⟨hk.ref, ?_, hk.active, hk.timed⟩
  by_cases hm : (s k).live = 0
  · simp [hk.ref, hm, hk.idle hm]
  · obtain ⟨id, -, hintervals⟩ := hk.busy hm
    simp [hk.ref, hintervals, Nat.pos_of_ne_zero hm]

theorem keepAlive_exact_started :
    ∃ s, client.exec client.init (startRun (.ok ())) = some s ∧ (s .producer).producerRef = 1 ∧
      (s .producer).producerRef = (s .producer).live ∧
      (s .producer).intervals.length = (if 0 < (s .producer).producerRef then 1 else 0) ∧
      timers.exec [] (s .producer).trace = some (s .producer).intervals ∧
      timers.Along TimerOk [] (s .producer).trace :=
  ⟨_, rfl, rfl, keepAlive_exact ⟨startRun (.ok ()), rfl⟩ .producer⟩

end RocketMQClient.Client
