import RocketMQClient.Consume.Order
import RocketMQClient.Example.PushConsumer
import RocketMQClient.System.Transport

namespace RocketMQClient.Example

open Js Library Marshal Client RocketMQClient.System

structure NpmTest where
  program : Producing := {}
  transport : Transport := {}

inductive NpmTest.Event
  | program (e : Example.Event)
  | transport (e : System.Event)

def NpmTest.step (D : Utf8Decoder) (messageCount : Nat) (s : NpmTest) : Event → Option NpmTest
  | .program e =>
    (s.program.step messageCount e).map fun p =>
      { program := p, transport := { s.transport with producers := p.producer } }
  | .transport (.producers _) => none
  | .transport e => (s.transport.step D e).map fun t => { s with transport := t }

def npmTest (D : Utf8Decoder) (messageCount : Nat) : Machine NpmTest NpmTest.Event where
  init := {}
  step := NpmTest.step D messageCount

def heardBy (c : Nat) (trace : List Consume.Effect) : List MessageObject :=
  (trace.filterMap (Consume.Effect.heard c)).map Prod.snd

/-- What the two programs do to the transport, without a spurious wakeup. -/
def Played (n : Nat) : System.Event → Prop
  | .producers e => Made n e
  | .consumers (.wait _ .wake) => False
  | _ => True

section NpmTest

variable {D : Utf8Decoder} {n : Nat}

theorem exec_producers {s : Transport} {m : JsModule} {es : List Client.Event}
    (h : (machine .producer).exec s.producers es = some m) :
    (transport D).exec s (es.map .producers) = some { s with producers := m } := by
  induction es generalizing s with
  | nil =>
    cases h
    rfl
  | cons e es ih =>
    obtain ⟨u, hu, h⟩ := Machine.exec_cons_eq_some.mp h
    refine Machine.exec_cons_eq_some.mpr ⟨{ s with producers := u }, ?_, ih h⟩
    exact Option.map_eq_some_iff.mpr ⟨u, hu, rfl⟩

theorem transport_cases {s t : NpmTest} {e : System.Event}
    (h : (npmTest D n).step s (.transport e) = some t) :
    (∀ f, e ≠ .producers f) ∧ (transport D).step s.transport e = some t.transport ∧
      t.transport.producers = s.transport.producers ∧ t.program = s.program := by
  have hstep : (∀ f, e ≠ .producers f) ∧
      ∃ u, (transport D).step s.transport e = some u ∧ { s with transport := u } = t := by
    cases e with
    | producers e => cases h
    | consumers | take | remove => exact ⟨by simp, Option.map_eq_some_iff.mp h⟩
  obtain ⟨hne, u, hu, rfl⟩ := hstep
  refine ⟨hne, hu, ?_, rfl⟩
  cases System.step_cases hu with
  | producers => exact absurd rfl (hne _)
  | consumers | take | remove => rfl

theorem played_transport {e : System.Event} (h : ∀ f, e ≠ .producers f)
    (he : ∀ x, e ≠ .consumers (.wait x .wake)) : Played n e := by
  unfold Played
  split
  · exact absurd rfl (h _)
  · exact absurd rfl (he _)
  · trivial

def npmTest_refines (D : Utf8Decoder) (n : Nat) :
    Machine.Refinement (npmTest D n) (transport D)
      (fun _ e => ∀ x, e ≠ .transport (.consumers (.wait x .wake))) (fun _ e => Played n e) where
  rel s a := s.transport = a ∧ a.producers = s.program.producer ∧ Stage n s.program
  init := ⟨rfl, rfl, .begin rfl⟩
  step := by
    rintro s e t _ ⟨rfl, hsame, hstage⟩ he hst
    cases e with
    | program e =>
      obtain ⟨p, hp, rfl⟩ := Option.map_eq_some_iff.mp hst
      obtain ⟨fs, hfs, hmade⟩ := hstage.exec hp
      refine ⟨fs.map .producers, _, exec_producers (hsame ▸ hfs), ?_, rfl, rfl, hstage.step hp⟩
      refine .of_forall (fun f hf _ => ?_) _
      obtain ⟨e, he, rfl⟩ := List.mem_map.mp hf
      exact hmade e he
    | transport e =>
      obtain ⟨hne, hu, hproducers, hprogram⟩ := transport_cases hst
      have hplayed : Played n e := played_transport hne fun x hx => he x (congrArg _ hx)
      refine ⟨[e], t.transport, by simp [hu], ⟨hplayed, fun _ _ => trivial⟩, rfl, ?_, ?_⟩
      · rw [hproducers, hsame, hprogram]
      · exact hprogram ▸ hstage

theorem request_of_requested {fs : List System.Event} {r : SendRequest}
    (hfs : ∀ f ∈ fs, Played n f) (h : Requested fs r) : ∃ i < n, r = Yield.request i := by
  obtain ⟨self, topic, body, options, callback, hmem, hr⟩ := h
  obtain hmade | hmade | ⟨y, hy, hcall⟩ := hfs _ hmem
  · cases hmade
  · cases hmade
  · cases y with
    | start | shutdown => cases hcall
    | send i =>
      cases hcall
      exact ⟨i, mem_yields.mp hy i rfl, (Except.ok.inj hr).symm⟩

theorem messageObject_request (i : Nat) (msgId : List UInt8) :
    messageObject D ((Yield.request i).message.carried msgId) =
      sample i (D.decode (cString msgId)) := by
  have hread : ∀ s : String, '\x00' ∉ s.toList → D.decode (cString (cString (utf8 s))) = s :=
    fun s hs => by rw [cString_cString, (D.decode_cString_utf8 s).mpr hs]
  have hcarries : (Yield.request i).Carries "test" "bar" "foo" (body i) false := ⟨rfl, rfl, rfl, rfl⟩
  have hcolumns : messageObject D ((Yield.request i).message.carried msgId) =
      [("topic", D.decode (cString (cString (utf8 "test")))),
        ("tags", D.decode (cString (cString (utf8 "bar")))),
        ("keys", D.decode (cString (cString (utf8 "foo")))),
        ("body", D.decode (cString (cString (utf8 (body i))))),
        ("msgId", D.decode (cString msgId))] := by
    rw [hcarries.message]
    rfl
  rw [hcolumns, hread _ (body_plain i), hread "test" (by decide), hread "bar" (by decide),
    hread "foo" (by decide)]
  rfl

theorem heard_samples {es : List NpmTest.Event} {s : NpmTest}
    (hes : ∀ x, .transport (.consumers (.wait x .wake)) ∉ es)
    (h : (npmTest D n).exec {} es = some s) (c : Nat) :
    ∀ msg ∈ heardBy c s.transport.consumers.trace, ∃ i < n, ∃ msgId, msg = sample i msgId := by
  have halong : (npmTest D n).Along
      (fun _ e => ∀ x, e ≠ .transport (.consumers (.wait x .wake))) {} es :=
    .of_forall (fun e he _ => by rintro x rfl; exact hes x he) _
  obtain ⟨fs, _, hfs, hplayed, rfl, -, -⟩ :=
    (npmTest_refines D n).exec (npmTest_refines D n).init halong h
  have hall : ∀ f ∈ fs, Played n f := hplayed.forall_mem hfs
  have hsound := sound_of_exec (fun x hx => hall _ hx) hfs
  intro msg hmsg
  obtain ⟨⟨call, msg⟩, hheard, rfl⟩ := List.mem_map.mp hmsg
  obtain ⟨k, hl⟩ := Consume.mem_heard.mp hheard
  obtain ⟨r, msgId, hr, rfl⟩ := hsound.requested_of_listener hl
  obtain ⟨i, hi, rfl⟩ := request_of_requested hall hr
  exact ⟨i, hi, _, messageObject_request i msgId⟩

/-- However the two programs, the pool, the threads and the broker interleave: the listener
hears what the program sent, and nothing else. Once it has heard as many messages as it expects
it makes its assertions, and they hold exactly if none of these came twice and there are at most
ten. -/
theorem npmTest_passes_iff (S : ComparatorSort MessageObject) {es : List NpmTest.Event}
    {s : NpmTest} (hes : ∀ x, .transport (.consumers (.wait x .wake)) ∉ es)
    (h : (npmTest D n).exec {} es = some s) (c : Nat) :
    (∀ msg ∈ heardBy c s.transport.consumers.trace, ∃ i < n, ∃ msgId, msg = sample i msgId) ∧
      (listening S n (heardBy c s.transport.consumers.trace)).passed =
        if 0 < n ∧ n ≤ (heardBy c s.transport.consumers.trace).length then
          some (decide (n ≤ 10 ∧ (bodies ((heardBy c s.transport.consumers.trace).take n)).Nodup))
        else none := by
  have hsamples := heard_samples hes h c
  refine ⟨hsamples, ?_⟩
  generalize heardBy c s.transport.consumers.trace = heard at hsamples ⊢
  rw [(listening_eq heard).2.2]
  split_ifs with hn
  · have hlength : (heard.take n).length = n := List.length_take_of_le hn.2
    refine congrArg some (Bool.eq_iff_iff.mpr ?_)
    rw [asserts_sort_iff fun msg hmsg => ?_, hlength, decide_eq_true_iff]
    rw [hlength]
    exact hsamples msg (List.mem_of_mem_take hmsg)
  · rfl

def oneMessage : List NpmTest.Event :=
  [.program (.run true), .program (.native (.execute 0)),
    .program (.native (.nativeReturn 0 (.startOrShutdown (.ok ())))),
    .program (.native (.complete 0)), .program .resume, .program (.native (.execute 1)),
    .transport (.take 1 []), .transport (.consumers (.construct 0)),
    .transport (.consumers (.onMessage 10 0
      ⟨utf8 "test", utf8 "bar", utf8 "foo", utf8 "baz 0", []⟩)),
    .transport (.consumers (.malloc 10 20)), .transport (.consumers (.advance 10)),
    .transport (.consumers (.advance 10)), .transport (.consumers (.advance 10)),
    .transport (.consumers (.wait 10 .waitLock)), .transport (.consumers (.wait 10 .wait)),
    .transport (.consumers (.dispatch 20 30)), .transport (.consumers .readColumn),
    .transport (.consumers .readColumn), .transport (.consumers .readColumn),
    .transport (.consumers .readColumn), .transport (.consumers .readColumn),
    .transport (.consumers (.callListener true))]

theorem npmTest_passes_oneMessage :
    ∃ s, (npmTest replacing 1).exec {} oneMessage = some s ∧
      (listening .insertion 1 (heardBy 0 s.transport.consumers.trace)).passed = some true := by
  have hes : ∀ x, .transport (.consumers (.wait x .wake)) ∉ oneMessage := by simp [oneMessage]
  exact ⟨_, rfl, (@npmTest_passes_iff replacing 1 .insertion oneMessage _ hes rfl 0).2⟩

end NpmTest

end RocketMQClient.Example
