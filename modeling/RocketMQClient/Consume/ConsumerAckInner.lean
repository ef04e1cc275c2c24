import Mathlib.Tactic.SplitIfs
import RocketMQClient.Library.Machine

/-! `ConsumerAckInner` twice: by its critical sections, as the rest of the model uses
it, and statement by statement around its mutex and its condition.  The second
refines the first. -/

namespace RocketMQClient.Consume

open Library

inductive CConsumeStatus
  | consumeSuccess | reconsumeLater
  deriving DecidableEq

inductive WaitState
  | entry
  | waiting (signalled : Bool)
  | returned (result : Option CConsumeStatus)
  deriving DecidableEq

def WaitState.signal : WaitState → WaitState
  | .waiting _ => .waiting true
  | w => w

structure ConsumerAckInner where
  acked : Bool := false
  status : Option CConsumeStatus := none
  waiter : WaitState := .entry
  deriving DecidableEq

namespace ConsumerAckInner

def ack (inner : ConsumerAckInner) (status : CConsumeStatus) : ConsumerAckInner :=
  if inner.acked then inner
  else { acked := true, status := some status, waiter := inner.waiter.signal }

def waitResult (inner : ConsumerAckInner) : Option ConsumerAckInner :=
  match inner.waiter with
  | .entry =>
    if inner.acked then some { inner with waiter := .returned inner.status }
    else some { inner with waiter := .waiting false }
  | _ => none

/-- `uv_cond_wait` returns, signalled or not, and `WaitResult` after it. -/
def wake (inner : ConsumerAckInner) : Option ConsumerAckInner :=
  match inner.waiter with
  | .waiting _ => some { inner with waiter := .returned inner.status }
  | _ => none

inductive Section
  | ack (status : CConsumeStatus)
  | waitResult
  | wake

def sections : Machine ConsumerAckInner Section where
  init := {}
  step inner
    | .ack status => some (inner.ack status)
    | .waitResult => inner.waitResult
    | .wake => inner.wake

inductive AckPoint
  | check | setAcked | signal | unlock
  deriving DecidableEq

inductive WaitPoint
  | check | found | reacquired
  deriving DecidableEq

inductive Mutex
  | free
  | ack (status : CConsumeStatus) (point : AckPoint)
  | wait (point : WaitPoint)
  deriving DecidableEq

inductive Waiter
  | entry | inside | waiting | woken
  | returned (result : Option CConsumeStatus)
  deriving DecidableEq

/-- `order` keeps the statuses of the calls of `Ack` in the order in which they took
the mutex. -/
structure State where
  acked : Bool := false
  status : Option CConsumeStatus := none
  mutex : Mutex := .free
  waiter : Waiter := .entry
  order : List CConsumeStatus := []
  deriving DecidableEq

inductive Event
  | ackLock (status : CConsumeStatus)
  | ack
  | waitLock
  | wait
  | wake
  | relock
  deriving DecidableEq

def ackStep (s : State) (status : CConsumeStatus) : AckPoint → State
  | .check =>
    if s.acked then { s with mutex := .ack status .unlock }
    else { s with status := some status, mutex := .ack status .setAcked }
  | .setAcked => { s with acked := true, mutex := .ack status .signal }
  | .signal =>
    { s with
      waiter := if s.waiter = .waiting then .woken else s.waiter
      mutex := .ack status .unlock }
  | .unlock => { s with mutex := .free }

def waitStep (s : State) : WaitPoint → State
  | .check =>
    if s.acked then { s with mutex := .wait .found }
    else { s with mutex := .free, waiter := .waiting }
  | .found => { s with mutex := .free, waiter := .returned s.status }
  | .reacquired => { s with mutex := .free, waiter := .returned s.status }

def step (s : State) : Event → Option State
  | .ackLock status =>
    if s.mutex = .free then
      some { s with mutex := .ack status .check, order := s.order ++ [status] }
    else none
  | .ack =>
    match s.mutex with
    | .ack status point => some (ackStep s status point)
    | _ => none
  | .waitLock =>
    if s.mutex = .free ∧ s.waiter = .entry then
      some { s with mutex := .wait .check, waiter := .inside }
    else none
  | .wait =>
    match s.mutex with
    | .wait point => some (waitStep s point)
    | _ => none
  | .wake => if s.waiter = .waiting then some { s with waiter := .woken } else none
  | .relock =>
    if s.mutex = .free ∧ s.waiter = .woken then
      some { s with mutex := .wait .reacquired, waiter := .inside }
    else none

def machine : Machine State Event where
  init := {}
  step := step

inductive Transition (s : State) : Event → State → Prop
  | ackLock (status : CConsumeStatus) : s.mutex = .free → Transition s (.ackLock status)
      { s with mutex := .ack status .check, order := s.order ++ [status] }
  | ack {status : CConsumeStatus} {point : AckPoint} : s.mutex = .ack status point →
      Transition s .ack (ackStep s status point)
  | waitLock : s.mutex = .free → s.waiter = .entry →
      Transition s .waitLock { s with mutex := .wait .check, waiter := .inside }
  | wait {point : WaitPoint} : s.mutex = .wait point → Transition s .wait (waitStep s point)
  | wake : s.waiter = .waiting → Transition s .wake { s with waiter := .woken }
  | relock : s.mutex = .free → s.waiter = .woken →
      Transition s .relock { s with mutex := .wait .reacquired, waiter := .inside }

theorem step_cases {s t : State} {e : Event} (hst : machine.step s e = some t) :
    Transition s e t := by
  cases e with
  | ackLock status =>
    simp only [machine, ConsumerAckInner.step] at hst
    split_ifs at hst with hfree
    cases hst
    exact .ackLock status hfree
  | ack =>
    simp only [machine, ConsumerAckInner.step] at hst
    split at hst
    · next status point hm =>
      cases hst
      exact .ack hm
    · cases hst
  | waitLock =>
    simp only [machine, ConsumerAckInner.step] at hst
    split_ifs at hst with hfree
    cases hst
    exact .waitLock hfree.1 hfree.2
  | wait =>
    simp only [machine, ConsumerAckInner.step] at hst
    split at hst
    · next point hm =>
      cases hst
      exact .wait hm
    · cases hst
  | wake =>
    simp only [machine, ConsumerAckInner.step] at hst
    split_ifs at hst with hwaiting
    cases hst
    exact .wake hwaiting
  | relock =>
    simp only [machine, ConsumerAckInner.step] at hst
    split_ifs at hst with hfree
    cases hst
    exact .relock hfree.1 hfree.2

theorem Transition.enabled {s t : State} {e : Event} (h : Transition s e t) :
    machine.step s e = some t := by
  cases h with
  | ackLock _ hfree => exact if_pos hfree
  | ack hm => simp only [machine, ConsumerAckInner.step, hm]
  | waitLock hfree hentry => exact if_pos ⟨hfree, hentry⟩
  | wait hm => simp only [machine, ConsumerAckInner.step, hm]
  | wake hwaiting => exact if_pos hwaiting
  | relock hfree hwoken => exact if_pos ⟨hfree, hwoken⟩

def ReturnsFirst (s : State) : Prop :=
  ∀ result, s.waiter = .returned result →
    s.acked = true ∧ ∃ status, result = some status ∧ s.order.head? = some status

def WokenAcked (s : State) : Event → Prop
  | .wait => s.mutex = .wait .reacquired → s.acked = true
  | _ => True

def Mutex.Holds (s : State) : Mutex → Prop
  | .free => s.acked = false → s.order = []
  | .ack status .check => s.acked = false → s.order = [status]
  | .ack status .setAcked => s.status = some status ∧ s.order = [status]
  | .ack _ _ => s.acked = true
  | .wait .found => s.acked = true
  | .wait _ => s.acked = false → s.order = []

structure FirstWins (s : State) : Prop where
  value : s.acked = true → ∃ status, s.status = some status ∧ s.order.head? = some status
  holds : s.mutex.Holds s

structure Sound (s : State) : Prop where
  value : s.acked = true → ∃ status, s.status = some status ∧ s.order.head? = some status
  holds : s.mutex.Holds s
  returned : ReturnsFirst s

theorem FirstWins.init : FirstWins {} where
  value := by simp
  holds := by simp [Mutex.Holds]

theorem Sound.init : Sound {} where
  value := FirstWins.init.value
  holds := FirstWins.init.holds
  returned := by simp [ReturnsFirst]

section Step

variable {s t : State} {e : Event}

theorem FirstWins.ackLock (h : FirstWins s) (hfree : s.mutex = .free) (status : CConsumeStatus) :
    FirstWins { s with mutex := .ack status .check, order := s.order ++ [status] } where
  value ha := by
    obtain ⟨st, hst, hhead⟩ := h.value ha
    exact ⟨st, hst, by simp [hhead]⟩
  holds := by
    have hholds := h.holds
    rw [hfree] at hholds
    intro ha
    simp [hholds ha]

theorem FirstWins.ack (h : FirstWins s) {status : CConsumeStatus} {point : AckPoint}
    (hm : s.mutex = .ack status point) : FirstWins (ackStep s status point) := by
  have hholds := h.holds
  rw [hm] at hholds
  cases point with
  | check =>
    rw [ackStep]
    split
    · next ha => exact ⟨h.value, ha⟩
    · next ha =>
      have hfirst := hholds (by simpa using ha)
      exact ⟨fun ha' => absurd ha' ha, rfl, hfirst⟩
  | setAcked =>
    have hhead : s.order.head? = some status := by simp [hholds.2]
    exact ⟨fun _ => ⟨status, hholds.1, hhead⟩, rfl⟩
  | signal => exact ⟨h.value, hholds⟩
  | unlock => exact ⟨h.value, fun ha => absurd (hholds.symm.trans ha) (by decide)⟩

theorem FirstWins.wait (h : FirstWins s) {point : WaitPoint} (hm : s.mutex = .wait point) :
    FirstWins (waitStep s point) := by
  have hholds := h.holds
  rw [hm] at hholds
  cases point with
  | check =>
    rw [waitStep]
    split
    · next ha => exact ⟨h.value, ha⟩
    · exact ⟨h.value, hholds⟩
  | found => exact ⟨h.value, fun ha => absurd (hholds.symm.trans ha) (by decide)⟩
  | reacquired => exact ⟨h.value, hholds⟩

theorem FirstWins.step (h : FirstWins s) (hst : machine.step s e = some t) : FirstWins t := by
  have hholds := h.holds
  cases step_cases hst with
  | ackLock status hfree => exact h.ackLock hfree status
  | ack hm => exact h.ack hm
  | wait hm => exact h.wait hm
  | wake => exact ⟨h.value, hholds⟩
  | waitLock hfree | relock hfree =>
    rw [hfree] at hholds
    exact ⟨h.value, hholds⟩

theorem ackStep_returned {status : CConsumeStatus} {point : AckPoint}
    {result : Option CConsumeStatus} (h : (ackStep s status point).waiter = .returned result) :
    s.waiter = .returned result := by
  cases point with
  | check =>
    rw [ackStep] at h
    split at h <;> exact h
  | signal =>
    rw [ackStep] at h
    split at h
    · cases h
    · exact h
  | setAcked => exact h
  | unlock => exact h

theorem step_returned (hst : machine.step s e = some t) {result : Option CConsumeStatus}
    (hresult : t.waiter = .returned result) :
    s.waiter = .returned result ∨
      e = .wait ∧ (s.mutex = .wait .found ∨ s.mutex = .wait .reacquired) ∧
        t = { s with mutex := .free, waiter := .returned s.status } := by
  cases step_cases hst with
  | ackLock => exact .inl hresult
  | ack => exact .inl (ackStep_returned hresult)
  | @wait point hm =>
    cases point with
    | check =>
      rw [waitStep] at hresult
      split at hresult
      · exact .inl hresult
      · cases hresult
    | found => exact .inr ⟨rfl, .inl hm, rfl⟩
    | reacquired => exact .inr ⟨rfl, .inr hm, rfl⟩
  | waitLock | wake | relock => cases hresult

theorem latch (ha : s.acked = true) (hst : machine.step s e = some t) :
    t.acked = true ∧ t.status = s.status := by
  cases step_cases hst with
  | @ack status point hm =>
    cases point with
    | check => simp [ackStep, ha]
    | setAcked => exact ⟨rfl, rfl⟩
    | signal => exact ⟨ha, rfl⟩
    | unlock => exact ⟨ha, rfl⟩
  | @wait point hm =>
    cases point with
    | check => simp [waitStep, ha]
    | found => exact ⟨ha, rfl⟩
    | reacquired => exact ⟨ha, rfl⟩
  | ackLock | waitLock | wake | relock => exact ⟨ha, rfl⟩

theorem Sound.step (h : Sound s) (hP : WokenAcked s e) (hst : machine.step s e = some t) :
    Sound t := by
  have hfirst : FirstWins s := ⟨h.value, h.holds⟩
  have hnext := hfirst.step hst
  refine ⟨hnext.value, hnext.holds, fun result hresult => ?_⟩
  obtain hreturned | ⟨rfl, hm, rfl⟩ := step_returned hst hresult
  · obtain ⟨ha, status, rfl, hhead⟩ := h.returned result hreturned
    obtain ⟨first, hvalue, horder⟩ := h.value ha
    obtain ⟨hacked, hsame⟩ := latch ha hst
    obtain ⟨last, hlast, horder'⟩ := hnext.value hacked
    have hlast_first : last = first := by simpa [hsame, hvalue] using hlast.symm
    exact ⟨hacked, status, rfl, by rw [horder', hlast_first, ← horder, hhead]⟩
  · have ha : s.acked = true := by
      obtain hm | hm := hm
      · have hholds := h.holds
        rwa [hm] at hholds
      · exact hP hm
    cases hresult
    exact ⟨ha, h.value ha⟩

end Step

/-- `WaitResult` never invents its result exactly when no wakeup of `uv_cond_wait`
is followed by its return with `acked` still unset. -/
theorem returnsFirst_iff_wokenAcked {es : List Event} {s : State}
    (h : machine.exec machine.init es = some s) :
    machine.Throughout ReturnsFirst machine.init es ↔ machine.Along WokenAcked machine.init es := by
  refine Machine.throughout_iff_along (I := Sound) ?_ ?_ ?_ Sound.init h
  · exact fun s hs => hs.returned
  · exact fun s e t hs hP hst => hs.step hP hst
  · intro s e t hs hP hst hQ
    cases e with
    | wait =>
      obtain ⟨hm, ha⟩ := Classical.not_imp.mp hP
      simp only [machine, step, hm, waitStep] at hst
      cases hst
      exact ha (hQ s.status rfl).1
    | _ => exact hP trivial

theorem returnsFirst_acked_late :
    machine.Throughout ReturnsFirst machine.init
      [.waitLock, .wait, .ackLock .reconsumeLater, .ack, .ack, .ack, .ack, .relock, .wait] := by
  refine (returnsFirst_iff_wokenAcked rfl).mpr ?_
  simp [Machine.Along, WokenAcked, machine, step, ackStep, waitStep]

theorem spurious_not_returnsFirst :
    ∃ s, machine.exec machine.init [.waitLock, .wait, .wake, .relock, .wait] = some s ∧
      s.waiter = .returned none ∧ ¬ ReturnsFirst s := by
  refine ⟨_, rfl, rfl, fun h => ?_⟩
  cases (h none rfl).1

def SameFields (s : State) (inner : ConsumerAckInner) : Prop :=
  inner.acked = s.acked ∧ inner.status = s.status ∧ (s.acked = false → s.status = none)

def Mutex.Matches (s : State) (inner : ConsumerAckInner) : Mutex → Prop
  | .ack status .setAcked => s.acked = false ∧ s.status = some status ∧ inner.acked = false ∧
      inner.status = none
  | .ack status .signal => s.acked = true ∧ s.status = some status ∧ inner.acked = false ∧
      inner.status = none
  | .wait .check => SameFields s inner ∧ inner.waiter = .entry
  | .wait .found => SameFields s inner ∧ inner.waiter = .entry ∧ s.acked = true
  | .wait .reacquired => SameFields s inner ∧ ∃ b, inner.waiter = .waiting b
  | _ => SameFields s inner

theorem Mutex.Matches.congr {s t : State} {inner : ConsumerAckInner} {m : Mutex}
    (h : m.Matches s inner) (hacked : t.acked = s.acked) (hstatus : t.status = s.status) :
    m.Matches t inner := by
  unfold Mutex.Matches SameFields at *
  rwa [hacked, hstatus]

def Waiter.Matches (waiter : WaitState) : Waiter → Prop
  | .entry => waiter = .entry
  | .inside => True
  | .waiting => ∃ b, waiter = .waiting b
  | .woken => ∃ b, waiter = .waiting b
  | .returned result => waiter = .returned result

structure Matches (s : State) (inner : ConsumerAckInner) : Prop where
  mutex : s.mutex.Matches s inner
  waiter : s.waiter.Matches inner.waiter

def completes (s : State) : Event → List Section
  | .ack =>
    match s.mutex with
    | .ack status .check => if s.acked then [.ack status] else []
    | .ack status .signal => [.ack status]
    | _ => []
  | .wait =>
    match s.mutex with
    | .wait .check => if s.acked then [] else [.waitResult]
    | .wait .found => [.waitResult]
    | .wait .reacquired => [.wake]
    | _ => []
  | _ => []

theorem Waiter.Matches.signal {w : WaitState} {waiter : Waiter} (h : waiter.Matches w) :
    (if waiter = .waiting then Waiter.woken else waiter).Matches w.signal := by
  cases waiter with
  | inside => trivial
  | entry =>
    cases h
    rfl
  | waiting =>
    obtain ⟨b, rfl⟩ := h
    exact ⟨true, rfl⟩
  | woken =>
    obtain ⟨b, rfl⟩ := h
    exact ⟨true, rfl⟩
  | returned result =>
    cases h
    rfl

section Refine

variable {s : State} {inner : ConsumerAckInner}

def Refines (inner : ConsumerAckInner) (t : State) (es : List Section) : Prop :=
  ∃ inner', sections.exec inner es = some inner' ∧ Matches t inner'

theorem Matches.ack (h : Matches s inner) {status : CConsumeStatus} {point : AckPoint}
    (hm : s.mutex = .ack status point) :
    Refines inner (ackStep s status point) (completes s .ack) := by
  have hmutex := h.mutex
  rw [hm] at hmutex
  simp only [completes, hm]
  cases point with
  | check =>
    obtain ⟨hacked, hstatus, hnone⟩ := hmutex
    rw [ackStep]
    split
    · next ha =>
      have hsame : inner.ack status = inner := if_pos (hacked.trans ha)
      exact ⟨inner, by simp [sections, hsame], ⟨hacked, hstatus, hnone⟩, h.waiter⟩
    · next ha =>
      have ha : s.acked = false := by simpa using ha
      exact ⟨inner, rfl, ⟨ha, rfl, hacked.trans ha, hstatus.trans (hnone ha)⟩, h.waiter⟩
  | setAcked =>
    obtain ⟨-, hstatus, hacked, hnone⟩ := hmutex
    exact ⟨inner, rfl, ⟨rfl, hstatus, hacked, hnone⟩, h.waiter⟩
  | signal =>
    obtain ⟨ha, hstatus, hacked, -⟩ := hmutex
    have hack : inner.ack status =
        { acked := true, status := some status, waiter := inner.waiter.signal } := by
      simp [ConsumerAckInner.ack, hacked]
    refine ⟨inner.ack status, rfl, ?_⟩
    rw [hack]
    exact ⟨⟨ha.symm, hstatus.symm, fun hf => absurd (ha.symm.trans hf) (by decide)⟩, h.waiter.signal⟩
  | unlock => exact ⟨inner, rfl, hmutex, h.waiter⟩

theorem Matches.wait (h : Matches s inner) {point : WaitPoint} (hm : s.mutex = .wait point) :
    Refines inner (waitStep s point) (completes s .wait) := by
  have hmutex := h.mutex
  rw [hm] at hmutex
  simp only [completes, hm]
  cases point with
  | check =>
    obtain ⟨hsame, hentry⟩ := hmutex
    rw [waitStep]
    split
    · next ha => exact ⟨inner, rfl, ⟨hsame, hentry, ha⟩, h.waiter⟩
    · next ha =>
      have hwait : inner.waitResult = some { inner with waiter := .waiting false } := by
        simp [waitResult, hentry, hsame.1, ha]
      refine ⟨{ inner with waiter := .waiting false }, ?_, hsame, false, rfl⟩
      simp [sections, hwait]
  | found =>
    obtain ⟨hsame, hentry, ha⟩ := hmutex
    have hwait : inner.waitResult = some { inner with waiter := .returned inner.status } := by
      simp [waitResult, hentry, hsame.1, ha]
    refine ⟨{ inner with waiter := .returned inner.status }, ?_, hsame, ?_⟩
    · simp [sections, hwait]
    · exact congrArg WaitState.returned hsame.2.1
  | reacquired =>
    obtain ⟨hsame, b, hb⟩ := hmutex
    have hwake : inner.wake = some { inner with waiter := .returned inner.status } := by
      simp [wake, hb]
    refine ⟨{ inner with waiter := .returned inner.status }, ?_, hsame, ?_⟩
    · simp [sections, hwake]
    · exact congrArg WaitState.returned hsame.2.1

theorem Matches.step {t : State} {e : Event} (h : Matches s inner) (hst : machine.step s e = some t) :
    Refines inner t (completes s e) := by
  have hmutex := h.mutex
  have hwaiter := h.waiter
  cases step_cases hst with
  | ackLock status hfree =>
    rw [hfree] at hmutex
    exact ⟨inner, rfl, hmutex, hwaiter⟩
  | ack hm => exact h.ack hm
  | wait hm => exact h.wait hm
  | wake hwaiting =>
    rw [hwaiting] at hwaiter
    exact ⟨inner, rfl, hmutex.congr rfl rfl, hwaiter⟩
  | waitLock hfree hoff | relock hfree hoff =>
    rw [hfree] at hmutex
    rw [hoff] at hwaiter
    exact ⟨inner, rfl, ⟨hmutex, hwaiter⟩, trivial⟩

/-- The critical sections are atomic: every run of the statements is one of the sections. -/
def atomic : Machine.Simulation machine sections where
  rel := Matches
  image := completes
  init := ⟨⟨rfl, rfl, fun _ => rfl⟩, rfl⟩
  step _ _ _ _ h hst := h.step hst

end Refine

end ConsumerAckInner

end RocketMQClient.Consume
