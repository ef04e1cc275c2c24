import Mathlib.Tactic.SplitIfs
import RocketMQClient.Library.Machine

/-! A synchronous call that is carried out by handing it over: the server gets the
request once, with a token to answer through, and the call returns the first
answer.  The protocol is an automaton over the events of one call. -/

universe u

namespace RocketMQClient.Library.Handoff

variable {σ α κ ρ : Type u}

inductive Event (σ α κ ρ : Type u)
  | call (server : σ) (request : α)
  | deliver (server : σ) (request : α) (token : κ)
  | answer (token : κ) (reply : ρ)
  | finish (result : Option ρ)

inductive Phase (σ α κ ρ : Type u)
  | idle
  | called (server : σ) (request : α)
  | delivered (token : κ)
  | answered (token : κ) (reply : ρ)
  | finished (token : κ) (reply : ρ)

inductive Transition : Phase σ α κ ρ → Event σ α κ ρ → Phase σ α κ ρ → Prop
  | call : Transition .idle (.call server request) (.called server request)
  | deliver : Transition (.called server request) (.deliver server request token) (.delivered token)
  | answer : Transition (.delivered token) (.answer token reply) (.answered token reply)
  | again : Transition (.answered token reply) (.answer token reply') (.answered token reply)
  | finish : Transition (.answered token reply) (.finish (some reply)) (.finished token reply)
  | late : Transition (.finished token reply) (.answer token reply') (.finished token reply)

def Answers (token : κ) (trace : List (Event σ α κ ρ)) : Prop :=
  ∀ e ∈ trace, ∃ reply, e = .answer token reply

theorem Answers.concat {token : κ} {trace : List (Event σ α κ ρ)} (h : Answers token trace)
    (reply : ρ) : Answers token (trace ++ [.answer token reply]) := by
  intro e he
  rcases List.mem_append.mp he with he | he
  · exact h e he
  · exact ⟨reply, List.mem_singleton.mp he⟩

section Protocol

variable [DecidableEq σ] [DecidableEq α] [DecidableEq κ] [DecidableEq ρ]

def Phase.next : Phase σ α κ ρ → Event σ α κ ρ → Option (Phase σ α κ ρ)
  | .idle, .call server request => some (.called server request)
  | .called server request, .deliver server' request' token =>
    if server = server' ∧ request = request' then some (.delivered token) else none
  | .delivered token, .answer token' reply =>
    if token = token' then some (.answered token reply) else none
  | .answered token reply, .answer token' _ =>
    if token = token' then some (.answered token reply) else none
  | .answered token reply, .finish result =>
    if result = some reply then some (.finished token reply) else none
  | .finished token reply, .answer token' _ =>
    if token = token' then some (.finished token reply) else none
  | _, _ => none

theorem Phase.next_eq_some {p q : Phase σ α κ ρ} {e : Event σ α κ ρ} :
    p.next e = some q ↔ Transition p e q := by
  constructor
  · intro h
    unfold Phase.next at h
    split at h
    · cases h
      exact .call
    · split_ifs at h with he
      obtain ⟨rfl, rfl⟩ := he
      cases h
      exact .deliver
    · split_ifs at h with he
      subst he
      cases h
      exact .answer
    · split_ifs at h with he
      subst he
      cases h
      exact .again
    · split_ifs at h with he
      subst he
      cases h
      exact .finish
    · split_ifs at h with he
      subst he
      cases h
      exact .late
    · cases h
  · intro h
    cases h <;> simp [Phase.next]

def protocol (σ α κ ρ : Type u) [DecidableEq σ] [DecidableEq α] [DecidableEq κ] [DecidableEq ρ] :
    Machine (Phase σ α κ ρ) (Event σ α κ ρ) where
  init := .idle
  step := Phase.next

abbrev Accepts (trace : List (Event σ α κ ρ)) (p : Phase σ α κ ρ) : Prop :=
  (protocol σ α κ ρ).exec .idle trace = some p

theorem accepts_concat {trace : List (Event σ α κ ρ)} {e : Event σ α κ ρ} {p : Phase σ α κ ρ} :
    Accepts (trace ++ [e]) p ↔ ∃ q, Accepts trace q ∧ Transition q e p := by
  simp [Accepts, Machine.exec_append, Option.bind_eq_some_iff, protocol, Phase.next_eq_some]

theorem Accepts.concat {trace : List (Event σ α κ ρ)} {e : Event σ α κ ρ} {p q : Phase σ α κ ρ}
    (h : Accepts trace p) (ht : Transition p e q) : Accepts (trace ++ [e]) q :=
  accepts_concat.mpr ⟨p, h, ht⟩

def Phase.Shape : Phase σ α κ ρ → List (Event σ α κ ρ) → Prop
  | .idle, trace => trace = []
  | .called server request, trace => trace = [.call server request]
  | .delivered token, trace => ∃ server request,
      trace = [.call server request, .deliver server request token]
  | .answered token reply, trace => ∃ server request answers, Answers token answers ∧
      trace = .call server request :: .deliver server request token :: .answer token reply :: answers
  | .finished token reply, trace => ∃ server request answers late,
      Answers token answers ∧ Answers token late ∧
        trace = .call server request :: .deliver server request token :: .answer token reply ::
          (answers ++ .finish (some reply) :: late)

theorem Accepts.shape {trace : List (Event σ α κ ρ)} {p : Phase σ α κ ρ} (h : Accepts trace p) :
    p.Shape trace := by
  induction trace using List.reverseRecOn generalizing p with
  | nil =>
    cases h
    rfl
  | append_singleton trace e ih =>
    obtain ⟨q, hq, hqp⟩ := accepts_concat.mp h
    have hshape := ih hq
    cases hqp with
    | call =>
      rw [hshape]
      rfl
    | deliver =>
      rw [hshape]
      exact ⟨_, _, rfl⟩
    | answer =>
      obtain ⟨server, request, rfl⟩ := hshape
      exact ⟨server, request, [], fun _ he => by simp at he, rfl⟩
    | @again token reply reply' =>
      obtain ⟨server, request, answers, hanswers, rfl⟩ := hshape
      exact ⟨server, request, _, hanswers.concat reply', rfl⟩
    | finish =>
      obtain ⟨server, request, answers, hanswers, rfl⟩ := hshape
      exact ⟨server, request, answers, [], hanswers, fun _ he => by simp at he, rfl⟩
    | @late token reply reply' =>
      obtain ⟨server, request, answers, late, hanswers, hlate, rfl⟩ := hshape
      exact ⟨server, request, answers, _, hanswers, hlate.concat reply', by simp⟩

section Accepted

variable {pre post : List (Event σ α κ ρ)} {p : Phase σ α κ ρ}

theorem exec_split {e : Event σ α κ ρ} (h : Accepts (pre ++ e :: post) p) :
    ∃ q r, Accepts pre q ∧ Transition q e r := by
  obtain ⟨q, r, hq, hr, -⟩ := Machine.exec_split h
  exact ⟨q, r, hq, Phase.next_eq_some.mp hr⟩

theorem Accepts.deliver {server : σ} {request : α} {token : κ}
    (h : Accepts (pre ++ .deliver server request token :: post) p) :
    pre = [.call server request] := by
  obtain ⟨q, r, hq, ht⟩ := exec_split h
  cases ht
  exact hq.shape

theorem Accepts.answer {token : κ} {reply : ρ}
    (h : Accepts (pre ++ .answer token reply :: post) p) :
    ∃ server request, .deliver server request token ∈ pre := by
  obtain ⟨q, r, hq, ht⟩ := exec_split h
  have hshape := hq.shape
  cases ht with
  | answer =>
    obtain ⟨server, request, rfl⟩ := hshape
    exact ⟨server, request, by simp⟩
  | again =>
    obtain ⟨server, request, answers, -, rfl⟩ := hshape
    exact ⟨server, request, by simp⟩
  | late =>
    obtain ⟨server, request, answers, late, -, -, rfl⟩ := hshape
    exact ⟨server, request, by simp⟩

theorem Accepts.finish {result : Option ρ} (h : Accepts (pre ++ .finish result :: post) p) :
    ∃ server request token reply answers, result = some reply ∧ Answers token answers ∧
      pre = .call server request :: .deliver server request token :: .answer token reply ::
        answers := by
  obtain ⟨q, r, hq, ht⟩ := exec_split h
  cases ht with
  | finish =>
    obtain ⟨server, request, answers, hanswers, hpre⟩ := hq.shape
    exact ⟨server, request, _, _, answers, rfl, hanswers, hpre⟩

theorem Accepts.of_append (h : Accepts (pre ++ post) p) : ∃ q, Accepts pre q := by
  simp only [Accepts, Machine.exec_append, Option.bind_eq_some_iff] at h
  obtain ⟨q, hq, -⟩ := h
  exact ⟨q, hq⟩

theorem Accepts.call {server : σ} {request : α}
    (h : Accepts (pre ++ .call server request :: post) p) : pre = [] := by
  obtain ⟨q, r, hq, ht⟩ := exec_split h
  cases ht
  exact hq.shape

theorem Accepts.deliver_of_finish {trace : List (Event σ α κ ρ)} {result : Option ρ} {server : σ}
    {request : α} (h : Accepts trace p) (hfinish : .finish result ∈ trace)
    (hcall : .call server request ∈ trace) : ∃ token, .deliver server request token ∈ trace := by
  obtain ⟨pre, post, rfl⟩ := List.append_of_mem hcall
  obtain rfl := h.call
  obtain ⟨pre, rest, hsplit⟩ := List.append_of_mem hfinish
  rw [hsplit] at h ⊢
  obtain ⟨server', request', token, reply, answers, -, -, rfl⟩ := h.finish
  obtain ⟨rfl, rfl⟩ : server = server' ∧ request = request' := by
    simp only [List.nil_append, List.cons_append, List.cons.injEq, Event.call.injEq] at hsplit
    exact hsplit.1
  exact ⟨token, by simp⟩

end Accepted

end Protocol

end RocketMQClient.Library.Handoff
