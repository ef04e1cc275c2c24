import RocketMQClient.Client.KeepAlive
import RocketMQClient.Client.Outstanding

namespace RocketMQClient.Client

open Library Marshal

def Worker.Fails (i : Nat) (wk : Worker) : Prop :=
  wk.self = i → wk.job = .startOrShutdown .shutdown → wk.errmsg.isSome = true

/-- In `STOPPING`, and no shutdown of the instance can still succeed. -/
structure JsModule.HungUp (m : JsModule) (i : Nat) : Prop where
  status : m.status[i]? = some .stopping
  fails : ∀ w wk, m.workers w = some wk → wk.Fails i

def JsModule.Quiet (m : JsModule) : Prop := m.intervals = [] ∧ ∀ w, m.workers w = none

def Event.winds : Event → Bool
  | .call _ (.shutdown _) => true
  | e => e.serves && e.succeeds

section Step

variable {m m' : JsModule} {e : Event} {i w : Nat}

theorem Worker.Fails.congr {wk wk' : Worker} (h : wk.Fails i) (hself : wk'.self = wk.self)
    (hjob : wk'.job = wk.job) (herr : wk.errmsg.isSome = true → wk'.errmsg.isSome = true) :
    wk'.Fails i := by
  intro hi hj
  exact herr (h (hself ▸ hi) (hjob ▸ hj))

theorem execute_errmsg {wk wk' : Worker} {outcome : Outcome} (h : wk.execute outcome = some wk')
    (he : wk.errmsg.isSome = true) : wk'.errmsg.isSome = true := by
  cases outcome <;> cases hj : wk.job <;> simp only [Worker.execute, hj] at h <;> cases h
  · rename_i o method
    cases o <;> first | exact he | rfl
  · rename_i o msg
    cases o <;> first | exact he | rfl

theorem execute_errmsg_of_isOk {wk wk' : Worker} {outcome : Outcome}
    (h : wk.execute outcome = some wk') (hok : outcome.isOk = true) : wk'.errmsg = wk.errmsg := by
  cases outcome <;> cases hj : wk.job <;> simp only [Worker.execute, hj] at h <;> cases h
  · rename_i o method
    cases o <;> first | rfl | cases hok
  · rename_i o msg
    cases o <;> first | rfl | cases hok

theorem settled_workers (m : JsModule) (w : Nat) (wk : Worker) (method : Method) :
    (((m.finish w wk).settle w wk.self method).answer w wk).workers =
      Function.update m.workers w none := by
  funext v
  simp

theorem JsModule.HungUp.update {wk? : Option Worker} (h : m.HungUp i)
    (hstatus : m'.status[i]? = m.status[i]?) (hworkers : m'.workers = Function.update m.workers w wk?)
    (hnew : ∀ wk, wk? = some wk → wk.Fails i) : m'.HungUp i where
  status := hstatus.trans h.status
  fails v wk hv := by
    rw [hworkers, Function.update_apply] at hv
    split_ifs at hv
    · exact hnew wk hv
    · exact h.fails v wk hv

theorem JsModule.HungUp.step (h : m.HungUp i) (hm : Tracked m) (ht : Transition m e m') :
    m'.HungUp i := by
  have hlt : i < m.status.length := (List.getElem?_eq_some_iff.mp h.status).1
  cases ht with
  | construct => exact ⟨(List.getElem?_append_left hlt).trans h.status, h.fails⟩
  | rejected => exact h
  | @accepted self _ _ _ ha =>
    cases ha with
    | @requested method callback hs =>
      have hi : self ≠ i := by
        rintro rfl
        cases method <;> cases hs.symm.trans h.status
      refine h.update (by simp [hi]) rfl fun wk hwk => ?_
      cases hwk
      exact fun hself => absurd hself hi
    | sent =>
      refine h.update rfl rfl fun wk hwk => ?_
      cases hwk
      exact fun _ hj => by cases hj
    | subscribed => exact ⟨h.status, h.fails⟩
  | @executing w wk hw hq =>
    refine h.update rfl rfl fun wk' hwk => ?_
    cases hwk
    exact (h.fails w wk hw).congr rfl rfl id
  | @executed w wk outcome wk' hw hq hex =>
    refine h.update rfl rfl fun wk'' hwk => ?_
    cases hwk
    exact (h.fails w wk hw).congr (execute_some hex).1 (execute_some hex).2.1 (execute_errmsg hex)
  | @settled w wk method hw hq hj he =>
    have hi : wk.self ≠ i := by
      rintro rfl
      cases method with
      | start => cases (hm.status_of_executed hw hq hj).symm.trans h.status
      | shutdown => simpa [he] using h.fails w wk hw rfl hj
    exact h.update (by simp [hi]) (settled_workers m w wk method) fun _ hwk => by cases hwk
  | failed => exact h.update rfl rfl (fun _ hwk => by cases hwk)
  | sendCompleted => exact h.update rfl rfl (fun _ hwk => by cases hwk)

theorem JsModule.HungUp.of_update {wk? : Option Worker} (h : m'.HungUp i)
    (hstatus : m'.status[i]? = m.status[i]?) (hworkers : m'.workers = Function.update m.workers w wk?)
    (hold : ∀ wk, m.workers w = some wk → wk.Fails i) : m.HungUp i where
  status := hstatus.symm.trans h.status
  fails v wk hv := by
    by_cases hvw : v = w
    · exact hold wk (hvw ▸ hv)
    · refine h.fails v wk ?_
      rw [hworkers, Function.update_of_ne hvw, hv]

theorem JsModule.HungUp.of_serves (h : m'.HungUp i) (ht : Transition m e m')
    (he : e.serves = true) (hok : e.succeeds = true) : m.HungUp i := by
  cases ht with
  | construct | rejected | accepted => cases he
  | @executing w wk hw hq =>
    refine h.of_update rfl rfl fun wk' hwk => ?_
    cases hw.symm.trans hwk
    exact (h.fails w { wk with phase := .executing } (by simp)).congr rfl rfl id
  | @executed w wk outcome wk' hw hq hex =>
    refine h.of_update rfl rfl fun wk'' hwk => ?_
    cases hw.symm.trans hwk
    have hfails := h.fails w wk' (by simp)
    refine hfails.congr (execute_some hex).1.symm (execute_some hex).2.1.symm fun herr => ?_
    rwa [← execute_errmsg_of_isOk hex hok]
  | @settled w wk method hw hq hj herr =>
    have hi : wk.self ≠ i := by
      rintro rfl
      have hstatus := h.status
      simp only [JsModule.answer_status, settle_status, List.getElem?_set_self'] at hstatus
      cases method <;> cases hs : (m.finish w wk).status[wk.self]? <;>
        simp [target] at hstatus
    refine h.of_update (by simp [hi]) (settled_workers m w wk method) fun wk' hwk => ?_
    cases hw.symm.trans hwk
    exact fun hself => absurd hself hi
  | @failed w wk method err hw hq hj herr =>
    refine h.of_update rfl rfl fun wk' hwk => ?_
    cases hw.symm.trans hwk
    exact fun _ _ => by simp [herr]
  | @sendCompleted w wk msg hw hq hj =>
    refine h.of_update rfl rfl fun wk' hwk => ?_
    cases hw.symm.trans hwk
    exact fun _ hj' => by cases hj.symm.trans hj'

theorem JsModule.HungUp.of_shutdown {self : Nat} {callback : Option Nat} (hm : Tracked m)
    (h : (m.request self .shutdown callback).HungUp i) :
    m.HungUp i := by
  have hi : self ≠ i := by
    rintro rfl
    have hfails := h.fails m.nextWorker { self, job := .startOrShutdown .shutdown, callback } (by simp)
    simpa using hfails rfl rfl
  refine h.of_update (by simp [hi]) rfl fun wk hwk => ?_
  exact absurd (hm.fresh _ wk hwk) (Nat.lt_irrefl _)

end Step

theorem countP_set_add {α : Type} {p : α → Bool} {l : List α} {i : Nat} {a : α} (h : l[i]? = some a)
    (b : α) : (l.set i b).countP p + (p a).toNat = l.countP p + (p b).toNat := by
  obtain ⟨hlt, hget⟩ := List.getElem?_eq_some_iff.mp h
  have hpos : p a = true → 0 < l.countP p := fun ha =>
    List.countP_pos_iff.mpr ⟨a, hget ▸ List.getElem_mem hlt, ha⟩
  rw [List.countP_set hlt, hget]
  cases ha : p a <;> cases p b <;> simp <;> have := hpos ha <;> omega

def StartStatus.up : StartStatus → Bool
  | .started | .starting => true
  | _ => false

def JsModule.effort (m : JsModule) : Nat := m.work + 4 * m.status.countP StartStatus.up

section Effort

variable {m m' : JsModule} {e : Event}

theorem Told.effort_serves (h : Told m) (hm : Tracked m) (ht : Transition m e m')
    (he : e.serves = true) : m'.effort < m.effort := by
  have hwork := h.work_serves ht he
  have hstatus : m'.status.countP StartStatus.up = m.status.countP StartStatus.up := by
    cases ht with
    | construct | rejected | accepted => cases he
    | @settled w wk method hw hq hj =>
      have hset := countP_set_add (p := StartStatus.up) (hm.status_of_executed hw hq hj) (target method)
      have hsame : (pending method).up = (target method).up := by cases method <;> rfl
      rw [hsame] at hset
      simpa using hset
    | _ => rfl
  rw [JsModule.effort, JsModule.effort, hstatus]
  omega

theorem effort_shutdown {self : Nat} {callback : Option Nat}
    (hs : m.status[self]? = some .started) : (m.request self .shutdown callback).effort < m.effort := by
  have hset := countP_set_add (p := StartStatus.up) hs .stopping
  have hwork : (m.request self .shutdown callback).work = m.work + 3 :=
    work_asyncQueueWorker (m.setStatus self .stopping) rfl
  have hstatus : (m.request self .shutdown callback).status = m.status.set self .stopping := rfl
  rw [JsModule.effort, JsModule.effort, hwork, hstatus]
  simp [StartStatus.up] at hset
  omega

theorem winds_of_serves (he : e.serves = true) (hok : e.succeeds = true) : e.winds = true := by
  cases e with
  | construct | call => cases he
  | _ => simp [Event.winds, he, hok]

structure Closable (m : JsModule) : Prop where
  tracked : Tracked m
  told : Told m
  keepAlive : KeepAlive m
  free : ∀ i, ¬m.HungUp i

theorem Closable.step (h : Closable m) (ht : Transition m e m') (hfree : ∀ i, ¬m'.HungUp i) :
    Closable m' :=
  ⟨h.tracked.step ht, h.told.step ht, h.keepAlive.step h.tracked ht, hfree⟩

theorem Closable.progress (k : ClassKind) (h : Closable m) :
    m.Quiet ∨
      ∃ e m', e.winds = true ∧ Client.step k m e = some m' ∧ Closable m' ∧ m'.effort < m.effort := by
  by_cases hworkers : ∀ w, m.workers w = none
  · by_cases hup : ∃ self : Nat, m.status[self]? = some .started
    · obtain ⟨self, hs⟩ := hup
      have hlt : self < m.status.length := (List.getElem?_eq_some_iff.mp hs).1
      have hstep : Client.step k m (.call self (.shutdown none)) =
          some (m.request self .shutdown none) := by
        have hshutdown : m.shutdown self none =
            (m.setStatus self .stopping).startOrShutdown self .shutdown none := if_pos hs
        simp only [Client.step, hlt, if_true, JsModule.call, hshutdown]
        rfl
      refine .inr ⟨_, _, rfl, hstep, h.step (step_cases hstep) ?_, effort_shutdown hs⟩
      exact fun i hi => h.free i (hi.of_shutdown h.tracked)
    · left
      refine ⟨h.keepAlive.idle (List.countP_eq_zero.mpr fun status hmem => ?_), hworkers⟩
      obtain ⟨i, hlt, rfl⟩ := List.getElem_of_mem hmem
      have hget := List.getElem?_eq_getElem hlt
      cases hs : m.status[i] with
      | started => exact absurd ⟨i, hs ▸ hget⟩ hup
      | stopping => exact absurd ⟨hs ▸ hget, fun w wk hw => by simp [hworkers] at hw⟩ (h.free i)
      | _ => simp [StartStatus.live]
  · right
    simp only [not_forall] at hworkers
    obtain ⟨w, hw⟩ := hworkers
    obtain ⟨wk, hw⟩ := Option.ne_none_iff_exists'.mp hw
    obtain ⟨e, he, hok, hsome⟩ := served k hw
    obtain ⟨m', hm'⟩ := Option.isSome_iff_exists.mp hsome
    have ht := step_cases hm'
    refine ⟨e, m', ?_, hm', h.step ht ?_, h.told.effort_serves h.tracked ht he⟩
    · exact winds_of_serves he hok
    · exact fun i hi => h.free i (hi.of_serves ht he hok)

theorem KeepAlive.not_live_of_quiet (h : KeepAlive m) (hq : m.Quiet) {status : StartStatus}
    (hs : status ∈ m.status) : status.live = false := by
  by_contra hl
  have hlive : m.live ≠ 0 := fun hzero => hl (by simpa using List.countP_eq_zero.mp hzero status hs)
  obtain ⟨id, -, hid⟩ := h.busy hlive
  cases hq.1.symm.trans hid

theorem JsModule.HungUp.not_quiet {i : Nat} (h : m.HungUp i) (hk : KeepAlive m) : ¬m.Quiet := by
  intro hq
  cases hk.not_live_of_quiet hq (List.mem_of_getElem? h.status)

end Effort

end RocketMQClient.Client
