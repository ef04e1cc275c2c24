import Mathlib.Data.List.Induction
import RocketMQClient.Library.Machine

/-! The protocol of a resource that is started and shut down by asynchronous
operations, and that may be configured only while it rests stopped.  The
protocol is an automaton over the events of one resource; what an accepted trace
looks like is derived here once for every user of the automaton. -/

namespace RocketMQClient.Library.Lifecycle

inductive Op
  | start | shutdown
  deriving DecidableEq

def Op.other : Op → Op
  | .start => .shutdown
  | .shutdown => .start

inductive Event
  | request (job : Nat) (op : Op)
  | issue (job : Nat) (op : Op)
  | finish (job : Nat) (op : Op) (ok : Bool)
  | configure
  deriving DecidableEq

inductive Phase
  | stopped
  | started
  | requested (job : Nat) (op : Op)
  | issued (job : Nat) (op : Op)
  | broken
  deriving DecidableEq

def Op.rest : Op → Phase
  | .start => .started
  | .shutdown => .stopped

def Phase.next : Phase → Event → Option Phase
  | p, .request w op => if p = op.other.rest then some (.requested w op) else none
  | p, .issue w op => if p = .requested w op then some (.issued w op) else none
  | p, .finish w op true => if p = .issued w op then some op.rest else none
  | p, .finish w op false => if p = .issued w op then some .broken else none
  | p, .configure => if p = .stopped then some .stopped else none

inductive Transition : Phase → Event → Phase → Prop
  | request : Transition op.other.rest (.request w op) (.requested w op)
  | issue : Transition (.requested w op) (.issue w op) (.issued w op)
  | succeed : Transition (.issued w op) (.finish w op true) op.rest
  | fail : Transition (.issued w op) (.finish w op false) .broken
  | configure : Transition .stopped .configure .stopped

theorem Phase.next_eq_some {p q : Phase} {e : Event} : p.next e = some q ↔ Transition p e q := by
  constructor
  · intro h
    unfold Phase.next at h
    split at h <;> split_ifs at h with hp <;> cases h <;> subst hp
    · exact .request
    · exact .issue
    · exact .succeed
    · exact .fail
    · exact .configure
  · intro h
    cases h <;> simp [Phase.next]

def protocol : Machine Phase Event where
  init := .stopped
  step := Phase.next

abbrev Accepts (trace : List Event) (p : Phase) : Prop := protocol.exec .stopped trace = some p

theorem accepts_concat {trace : List Event} {e : Event} {p : Phase} :
    Accepts (trace ++ [e]) p ↔ ∃ q, Accepts trace q ∧ Transition q e p := by
  simp [Accepts, Machine.exec_append, Option.bind_eq_some_iff, protocol, Phase.next_eq_some]

theorem exec_split {pre post : List Event} {e : Event} {p q : Phase}
    (h : protocol.exec p (pre ++ e :: post) = some q) :
    ∃ r t, protocol.exec p pre = some r ∧ Transition r e t ∧ protocol.exec t post = some q := by
  obtain ⟨r, t, hr, ht, hq⟩ := Machine.exec_split h
  exact ⟨r, t, hr, Phase.next_eq_some.mp ht, hq⟩

def Event.issued? : Event → Option Op
  | .issue _ op => some op
  | _ => none

def Event.succeeded? : Event → Option Op
  | .finish _ op true => some op
  | _ => none

def issues (trace : List Event) : List Op := trace.filterMap Event.issued?

def lastSuccess (trace : List Event) : Option Op := (trace.filterMap Event.succeeded?).getLast?

def turn (k : Nat) : Op := if k % 2 = 0 then .start else .shutdown

@[simp] theorem turn_succ (k : Nat) : turn (k + 1) = (turn k).other := by
  unfold turn
  rcases Nat.mod_two_eq_zero_or_one k with hk | hk <;> simp [Nat.add_mod, hk, Op.other]

def Alternates (ops : List Op) : Prop := ∀ k op, ops[k]? = some op → op = turn k

theorem Alternates.concat {ops : List Op} (h : Alternates ops) :
    Alternates (ops ++ [turn ops.length]) := by
  intro k op hk
  rcases Nat.lt_trichotomy k ops.length with hlt | heq | hgt
  · rw [List.getElem?_append_left hlt] at hk
    exact h k op hk
  · subst heq
    simpa using hk.symm
  · rw [List.getElem?_eq_none (by simp; omega)] at hk
    cases hk

def Phase.expects : Phase → Option Op
  | .stopped => some .start
  | .started => some .shutdown
  | .requested _ op => some op
  | .issued _ op => some op.other
  | .broken => none

def Phase.up : Phase → Option Bool
  | .stopped => some false
  | .started => some true
  | .requested _ op => some (decide (op = .shutdown))
  | .issued _ op => some (decide (op = .shutdown))
  | .broken => none

@[simp] theorem Op.expects_rest (op : Op) : op.rest.expects = some op.other := by cases op <;> rfl

@[simp] theorem Op.up_rest (op : Op) : op.rest.up = some (decide (op = .start)) := by cases op <;> rfl

@[simp] theorem Op.other_other (op : Op) : op.other.other = op := by cases op <;> rfl

@[simp] theorem Op.other_eq_start (op : Op) : op.other = .start ↔ op = .shutdown := by
  cases op <;> simp [Op.other]

theorem Op.rest_ne_requested (op op' : Op) (w : Nat) : op.rest ≠ .requested w op' := by
  cases op <;> simp [Op.rest]

theorem Op.rest_ne_issued (op op' : Op) (w : Nat) : op.rest ≠ .issued w op' := by
  cases op <;> simp [Op.rest]

theorem Op.rest_ne_broken (op : Op) : op.rest ≠ .broken := by cases op <;> simp [Op.rest]

theorem transition_requested {w : Nat} {op : Op} {e : Event} {q : Phase}
    (h : Transition (.requested w op) e q) : e = .issue w op ∧ q = .issued w op := by
  generalize hp : Phase.requested w op = p at h
  cases h with
  | request => exact absurd hp.symm (Op.rest_ne_requested _ _ _)
  | issue =>
    cases hp
    exact ⟨rfl, rfl⟩
  | _ => cases hp

theorem transition_issued {w : Nat} {op : Op} {e : Event} {q : Phase}
    (h : Transition (.issued w op) e q) : e = .finish w op true ∨ q = .broken := by
  generalize hp : Phase.issued w op = p at h
  cases h with
  | request => exact absurd hp.symm (Op.rest_ne_issued _ _ _)
  | succeed =>
    cases hp
    exact .inl rfl
  | fail => exact .inr rfl
  | _ => cases hp

theorem not_transition_broken {e : Event} {q : Phase} : ¬ Transition .broken e q := by
  intro h
  generalize hp : Phase.broken = p at h
  cases h with
  | request => exact Op.rest_ne_broken _ hp.symm
  | _ => cases hp

theorem exec_broken {trace : List Event} {p : Phase} (h : protocol.exec .broken trace = some p) :
    p = .broken := by
  cases trace with
  | nil =>
    cases h
    rfl
  | cons e trace =>
    obtain ⟨q, hq, -⟩ := Machine.exec_cons_eq_some.mp h
    exact absurd (Phase.next_eq_some.mp hq) not_transition_broken

theorem exec_issued {w : Nat} {op : Op} {trace : List Event} {p : Phase}
    (h : protocol.exec (.issued w op) trace = some p) :
    p = .issued w op ∨ p = .broken ∨ .finish w op true ∈ trace := by
  cases trace with
  | nil =>
    cases h
    exact .inl rfl
  | cons e trace =>
    obtain ⟨q, hq, hqp⟩ := Machine.exec_cons_eq_some.mp h
    rcases transition_issued (Phase.next_eq_some.mp hq) with rfl | rfl
    · simp
    · exact .inr (.inl (exec_broken hqp))

theorem exec_requested {w : Nat} {op : Op} {trace : List Event} {p : Phase}
    (h : protocol.exec (.requested w op) trace = some p) :
    p = .requested w op ∨ p = .issued w op ∨ p = .broken ∨ .finish w op true ∈ trace := by
  cases trace with
  | nil =>
    cases h
    exact .inl rfl
  | cons e trace =>
    obtain ⟨q, hq, hqp⟩ := Machine.exec_cons_eq_some.mp h
    obtain ⟨-, rfl⟩ := transition_requested (Phase.next_eq_some.mp hq)
    rcases exec_issued hqp with rfl | rfl | hmem
    · simp
    · simp
    · simp [hmem]

theorem issues_concat (trace : List Event) (e : Event) :
    issues (trace ++ [e]) = issues trace ++ e.issued?.toList := by
  cases h : e.issued? <;> simp [issues, h]

theorem lastSuccess_concat (trace : List Event) (e : Event) :
    lastSuccess (trace ++ [e]) = e.succeeded?.or (lastSuccess trace) := by
  cases h : e.succeeded? <;> simp [lastSuccess, h, List.filterMap_append]

structure Facts (p : Phase) (trace : List Event) : Prop where
  alternates : Alternates (issues trace)
  expects : ∀ op, p.expects = some op → op = turn (issues trace).length
  success : ∀ b, p.up = some b → (lastSuccess trace = some .start ↔ b = true)

theorem Facts.nil : Facts .stopped [] where
  alternates := by simp [Alternates, issues]
  expects := by simp [Phase.expects, issues, turn]
  success := by simp [Phase.up, lastSuccess]

theorem Facts.request {trace : List Event} {w : Nat} {op : Op} (h : Facts op.other.rest trace) :
    Facts (.requested w op) (trace ++ [.request w op]) where
  alternates := by simpa [issues_concat, Event.issued?] using h.alternates
  expects op' hop := by
    cases hop
    simpa [issues_concat, Event.issued?] using h.expects op (by simp)
  success b hb := by
    cases hb
    rw [lastSuccess_concat]
    exact h.success _ (by simp)

theorem Facts.issue {trace : List Event} {w : Nat} {op : Op} (h : Facts (.requested w op) trace) :
    Facts (.issued w op) (trace ++ [.issue w op]) where
  alternates := by
    rw [issues_concat, h.expects op rfl]
    exact h.alternates.concat
  expects op' hop := by
    cases hop
    simp [issues_concat, Event.issued?, ← h.expects op rfl]
  success b hb := by
    rw [lastSuccess_concat]
    exact h.success b hb

theorem Facts.succeed {trace : List Event} {w : Nat} {op : Op} (h : Facts (.issued w op) trace) :
    Facts op.rest (trace ++ [.finish w op true]) where
  alternates := by simpa [issues_concat, Event.issued?] using h.alternates
  expects := by simpa [issues_concat, Event.issued?] using h.expects op.other rfl
  success b hb := by
    rw [Op.up_rest] at hb
    cases hb
    simp [lastSuccess_concat, Event.succeeded?]

theorem Facts.fail {trace : List Event} {w : Nat} {op : Op} (h : Facts (.issued w op) trace) :
    Facts .broken (trace ++ [.finish w op false]) where
  alternates := by simpa [issues_concat, Event.issued?] using h.alternates
  expects := by simp [Phase.expects]
  success := by simp [Phase.up]

theorem Facts.configure {trace : List Event} (h : Facts .stopped trace) :
    Facts .stopped (trace ++ [.configure]) where
  alternates := by simpa [issues_concat, Event.issued?] using h.alternates
  expects := by simpa [issues_concat, Event.issued?] using h.expects
  success := by simpa [lastSuccess_concat, Event.succeeded?] using h.success

theorem Accepts.facts {trace : List Event} {p : Phase} (h : Accepts trace p) : Facts p trace := by
  induction trace using List.reverseRecOn generalizing p with
  | nil =>
    cases h
    exact .nil
  | append_singleton trace e ih =>
    obtain ⟨q, hq, hqp⟩ := accepts_concat.mp h
    have hfacts := ih hq
    cases hqp with
    | request => exact hfacts.request
    | issue => exact hfacts.issue
    | succeed => exact hfacts.succeed
    | fail => exact hfacts.fail
    | configure => exact hfacts.configure

theorem Accepts.failed {trace : List Event} (h : Accepts trace .broken) :
    ∃ w op, .finish w op false ∈ trace := by
  cases trace using List.reverseRecOn with
  | nil => cases h
  | append_singleton trace e =>
    obtain ⟨q, -, hq⟩ := accepts_concat.mp h
    generalize hp : Phase.broken = p at hq
    cases hq with
    | @fail w op => exact ⟨w, op, by simp⟩
    | succeed => exact absurd hp.symm (Op.rest_ne_broken _)
    | _ => cases hp

section Accepted

variable {pre mid post : List Event} {p : Phase}

theorem Accepts.alternates {trace : List Event} (h : Accepts trace p) : Alternates (issues trace) :=
  h.facts.alternates

theorem Accepts.issue_after_success {w w' : Nat} {op op' : Op}
    (h : Accepts (pre ++ .issue w op :: (mid ++ .issue w' op' :: post)) p) :
    .finish w op true ∈ mid := by
  obtain ⟨q, r, -, hissue, hr⟩ := exec_split h
  obtain ⟨t, u, ht, hu, -⟩ := exec_split hr
  cases hissue
  cases hu
  simpa using exec_issued ht

theorem Accepts.configure_after_success {w : Nat} {op : Op}
    (h : Accepts (pre ++ .request w op :: (mid ++ .configure :: post)) p) :
    .finish w op true ∈ mid := by
  obtain ⟨q, r, -, hrequest, hr⟩ := exec_split h
  obtain ⟨t, u, ht, hu, -⟩ := exec_split hr
  cases hrequest
  cases hu
  simpa using exec_requested ht

theorem Accepts.configure_down (h : Accepts (pre ++ .configure :: post) p) :
    lastSuccess pre ≠ some .start := by
  obtain ⟨q, r, hq, ht, -⟩ := exec_split h
  cases ht
  simpa using (Accepts.facts hq).success false rfl

end Accepted

end RocketMQClient.Library.Lifecycle
