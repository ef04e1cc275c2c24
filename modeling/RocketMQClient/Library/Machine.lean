import Mathlib.Data.List.Induction
import Mathlib.Data.List.Nodup
import Mathlib.Logic.Function.Basic

/-! Deterministic labelled machines.  A label carries every choice of its
environment, so a run is the list of its labels and `exec` computes it; `none`
says that the label is not enabled. -/

universe u v w

namespace RocketMQClient.Library

structure Machine (σ : Type u) (ε : Type v) where
  init : σ
  step : σ → ε → Option σ

namespace Machine

variable {σ : Type u} {ε : Type v} (M : Machine σ ε)

def exec : σ → List ε → Option σ
  | s, [] => some s
  | s, e :: es => (M.step s e).bind fun t => exec t es

/-- Every step taken from `s` along `es` satisfies `P` in the state before it. -/
def Along (P : σ → ε → Prop) : σ → List ε → Prop
  | _, [] => True
  | s, e :: es => P s e ∧ ∀ t, M.step s e = some t → Along P t es

/-- Every state visited from `s` along `es`, both ends included, satisfies `Q`. -/
def Throughout (Q : σ → Prop) : σ → List ε → Prop
  | s, [] => Q s
  | s, e :: es => Q s ∧ ∀ t, M.step s e = some t → Throughout Q t es

def Reachable (s : σ) : Prop := ∃ es, M.exec M.init es = some s

variable {M}

@[simp] theorem exec_nil (s : σ) : M.exec s [] = some s := rfl

@[simp] theorem exec_cons (s : σ) (e : ε) (es : List ε) :
    M.exec s (e :: es) = (M.step s e).bind fun t => M.exec t es := rfl

theorem exec_append (s : σ) (es fs : List ε) :
    M.exec s (es ++ fs) = (M.exec s es).bind fun t => M.exec t fs := by
  induction es generalizing s with
  | nil => rfl
  | cons e es ih =>
    simp only [List.cons_append, exec_cons, Option.bind_assoc]
    congr 1
    funext t
    exact ih t

theorem exec_cons_eq_some {s u : σ} {e : ε} {es : List ε} :
    M.exec s (e :: es) = some u ↔ ∃ t, M.step s e = some t ∧ M.exec t es = some u := by
  simp [Option.bind_eq_some_iff]

theorem exec_split {s t : σ} {pre post : List ε} {e : ε} (h : M.exec s (pre ++ e :: post) = some t) :
    ∃ u v, M.exec s pre = some u ∧ M.step u e = some v ∧ M.exec v post = some t := by
  rw [exec_append, Option.bind_eq_some_iff] at h
  obtain ⟨u, hu, h⟩ := h
  obtain ⟨v, hv, hvt⟩ := exec_cons_eq_some.mp h
  exact ⟨u, v, hu, hv, hvt⟩

theorem Reachable.init : M.Reachable M.init := ⟨[], rfl⟩

theorem Reachable.step {s t : σ} {e : ε} (h : M.Reachable s) (hst : M.step s e = some t) :
    M.Reachable t := by
  obtain ⟨es, hes⟩ := h
  refine ⟨es ++ [e], ?_⟩
  rw [exec_append, hes]
  simp [hst]

theorem exec_invariant {I : σ → Prop} (step_inv : ∀ s e t, I s → M.step s e = some t → I t)
    {s t : σ} {es : List ε} (hs : I s) (h : M.exec s es = some t) : I t := by
  induction es generalizing s with
  | nil =>
    cases h
    exact hs
  | cons e es ih =>
    obtain ⟨u, hu, hut⟩ := exec_cons_eq_some.mp h
    exact ih (step_inv s e u hs hu) hut

theorem Reachable.invariant {I : σ → Prop} (init_inv : I M.init)
    (step_inv : ∀ s e t, I s → M.step s e = some t → I t) {s : σ} (h : M.Reachable s) : I s := by
  obtain ⟨es, hes⟩ := h
  exact exec_invariant step_inv init_inv hes

theorem exec_history {I : List ε → σ → Prop} (init_inv : I [] M.init)
    (step_inv : ∀ es s e t, I es s → M.step s e = some t → I (es ++ [e]) t)
    {es : List ε} {s : σ} (h : M.exec M.init es = some s) : I es s := by
  induction es using List.reverseRecOn generalizing s with
  | nil =>
    cases h
    exact init_inv
  | append_singleton es e ih =>
    rw [exec_append, Option.bind_eq_some_iff] at h
    obtain ⟨t, ht, hts⟩ := h
    exact step_inv es t e s (ih ht) (by simpa using hts)

theorem Along.invariant {P : σ → ε → Prop} {I : σ → Prop}
    (step_inv : ∀ s e t, I s → P s e → M.step s e = some t → I t)
    {s t : σ} {es : List ε} (hP : M.Along P s es) (hs : I s) (h : M.exec s es = some t) : I t := by
  induction es generalizing s with
  | nil =>
    cases h
    exact hs
  | cons e es ih =>
    obtain ⟨u, hu, hut⟩ := exec_cons_eq_some.mp h
    exact ih (hP.2 u hu) (step_inv s e u hs hP.1 hu) hut

theorem Along.throughout {P : σ → ε → Prop} {I Q : σ → Prop} (here : ∀ s, I s → Q s)
    (step_inv : ∀ s e t, I s → P s e → M.step s e = some t → I t)
    {s : σ} {es : List ε} (hP : M.Along P s es) (hs : I s) : M.Throughout Q s es := by
  induction es generalizing s with
  | nil => exact here s hs
  | cons e es ih =>
    refine ⟨here s hs, fun t ht => ?_⟩
    exact ih (hP.2 t ht) (step_inv s e t hs hP.1 ht)

theorem Along.along {P P' : σ → ε → Prop} {I : σ → Prop} (here : ∀ s e, I s → P s e → P' s e)
    (step_inv : ∀ s e t, I s → P s e → M.step s e = some t → I t)
    {s : σ} {es : List ε} (hP : M.Along P s es) (hs : I s) : M.Along P' s es := by
  induction es generalizing s with
  | nil => trivial
  | cons e es ih =>
    exact ⟨here s e hs hP.1, fun t ht => ih (hP.2 t ht) (step_inv s e t hs hP.1 ht)⟩

section Measure

variable {P : σ → ε → Prop} {I : σ → Prop} {μ : σ → Nat} {s t : σ} {es : List ε}

theorem Along.measure (step_inv : ∀ s e t, I s → P s e → M.step s e = some t → I t ∧ μ t + 1 = μ s)
    (hP : M.Along P s es) (hs : I s) (h : M.exec s es = some t) : es.length + μ t = μ s := by
  induction es generalizing s with
  | nil =>
    cases h
    simp
  | cons e es ih =>
    obtain ⟨u, hu, hut⟩ := exec_cons_eq_some.mp h
    obtain ⟨hinv, hmeasure⟩ := step_inv s e u hs hP.1 hu
    have hrest := ih (hP.2 u hu) hinv hut
    rw [List.length_cons]
    omega

theorem Along.measure_le (step_inv : ∀ s e t, I s → P s e → M.step s e = some t → I t ∧ μ t < μ s)
    (hP : M.Along P s es) (hs : I s) (h : M.exec s es = some t) : es.length + μ t ≤ μ s := by
  induction es generalizing s with
  | nil =>
    cases h
    simp
  | cons e es ih =>
    obtain ⟨u, hu, hut⟩ := exec_cons_eq_some.mp h
    obtain ⟨hinv, hmeasure⟩ := step_inv s e u hs hP.1 hu
    have hrest := ih (hP.2 u hu) hinv hut
    rw [List.length_cons]
    omega

end Measure

theorem along_append {P : σ → ε → Prop} {s t : σ} {es fs : List ε} (h : M.exec s es = some t) :
    M.Along P s (es ++ fs) ↔ M.Along P s es ∧ M.Along P t fs := by
  induction es generalizing s with
  | nil =>
    cases h
    simp [Along]
  | cons e es ih =>
    obtain ⟨u, hu, hut⟩ := exec_cons_eq_some.mp h
    simp only [List.cons_append, Along, hu, Option.some.injEq, forall_eq', ih hut, and_assoc]

theorem Along.and {P P' : σ → ε → Prop} {s : σ} {es : List ε} (h : M.Along P s es)
    (h' : M.Along P' s es) : M.Along (fun s e => P s e ∧ P' s e) s es := by
  induction es generalizing s with
  | nil => trivial
  | cons e es ih => exact ⟨⟨h.1, h'.1⟩, fun t ht => ih (h.2 t ht) (h'.2 t ht)⟩

theorem Along.mono {P P' : σ → ε → Prop} (hPP : ∀ s e, P s e → P' s e) {s : σ} {es : List ε}
    (h : M.Along P s es) : M.Along P' s es := by
  induction es generalizing s with
  | nil => trivial
  | cons e es ih => exact ⟨hPP s e h.1, fun t ht => ih (h.2 t ht)⟩

theorem Along.of_forall {P : σ → ε → Prop} {es : List ε} (h : ∀ e ∈ es, ∀ s, P s e) (s : σ) :
    M.Along P s es := by
  induction es generalizing s with
  | nil => trivial
  | cons e es ih =>
    exact ⟨h e List.mem_cons_self s, fun t _ => ih (fun d hd => h d (List.mem_cons_of_mem e hd)) t⟩

theorem Along.forall_mem {P : ε → Prop} {s t : σ} {es : List ε} (hP : M.Along (fun _ e => P e) s es)
    (h : M.exec s es = some t) : ∀ e ∈ es, P e := by
  induction es generalizing s with
  | nil => simp
  | cons e es ih =>
    obtain ⟨u, hu, hut⟩ := exec_cons_eq_some.mp h
    simpa using ⟨hP.1, ih (hP.2 u hu) hut⟩

instance decidableAlong {P : σ → ε → Prop} [∀ s e, Decidable (P s e)] :
    ∀ s es, Decidable (M.Along P s es)
  | _, [] => isTrue trivial
  | s, e :: es =>
    match h : M.step s e with
    | none => decidable_of_iff (P s e) (by simp [Along, h])
    | some t =>
      have : Decidable (M.Along P t es) := decidableAlong t es
      decidable_of_iff (P s e ∧ M.Along P t es) (by simp [Along, h])

theorem Throughout.head {Q : σ → Prop} {s : σ} {es : List ε} (h : M.Throughout Q s es) : Q s := by
  cases es with
  | nil => exact h
  | cons e es => exact h.1

/-- The exact condition for a property of whole runs: `P` is the weakest
restriction of the steps under which every state visited satisfies `Q`, as soon
as an invariant carries `Q` over the steps in `P` and any other step leaves `Q`. -/
theorem throughout_iff_along {P : σ → ε → Prop} {I Q : σ → Prop} (here : ∀ s, I s → Q s)
    (keep : ∀ s e t, I s → P s e → M.step s e = some t → I t)
    (leave : ∀ s e t, I s → ¬ P s e → M.step s e = some t → ¬ Q t)
    {s t : σ} {es : List ε} (hs : I s) (h : M.exec s es = some t) :
    M.Throughout Q s es ↔ M.Along P s es := by
  refine ⟨fun hQ => ?_, fun hP => hP.throughout here keep hs⟩
  induction es generalizing s with
  | nil => trivial
  | cons e es ih =>
    obtain ⟨u, hu, hut⟩ := exec_cons_eq_some.mp h
    -- the first step outside `P` would leave `Q` in the state after it
    have hPe : P s e := by
      by_contra hne
      exact leave s e u hs hne hu (hQ.2 u hu).head
    refine ⟨hPe, fun v hv => ?_⟩
    cases hu.symm.trans hv
    exact ih (keep s e u hs hPe hu) hut (hQ.2 u hu)

def Reaches (M : Machine σ ε) (P : σ → ε → Prop) (s t : σ) : Prop :=
  ∃ es, M.exec s es = some t ∧ M.Along P s es

section Reaches

variable {P : σ → ε → Prop} {s t u : σ} {e : ε}

theorem Reaches.refl (s : σ) : M.Reaches P s s := ⟨[], rfl, trivial⟩

theorem Reaches.head (hP : P s e) (hst : M.step s e = some t) (h : M.Reaches P t u) :
    M.Reaches P s u := by
  obtain ⟨es, hes, hPes⟩ := h
  refine ⟨e :: es, exec_cons_eq_some.mpr ⟨t, hst, hes⟩, hP, fun v hv => ?_⟩
  cases hst.symm.trans hv
  exact hPes

theorem Reaches.single (hP : P s e) (hst : M.step s e = some t) : M.Reaches P s t :=
  .head hP hst (.refl t)

theorem Reaches.trans (h : M.Reaches P s t) (h' : M.Reaches P t u) : M.Reaches P s u := by
  obtain ⟨es, hes, hPes⟩ := h
  obtain ⟨fs, hfs, hPfs⟩ := h'
  refine ⟨es ++ fs, ?_, (along_append hes).mpr ⟨hPes, hPfs⟩⟩
  rw [exec_append, hes]
  exact hfs

theorem exists_reaches {I Q : σ → Prop} {μ : σ → Nat}
    (progress : ∀ s, I s → Q s ∨ ∃ t, M.Reaches P s t ∧ I t ∧ μ t < μ s) (hs : I s) :
    ∃ t, M.Reaches P s t ∧ I t ∧ Q t := by
  induction hn : μ s using Nat.strongRecOn generalizing s with
  | ind n ih =>
    rcases progress s hs with hQ | ⟨t, hst, ht, hlt⟩
    · exact ⟨s, .refl s, hs, hQ⟩
    · obtain ⟨u, htu, hu⟩ := ih (μ t) (hn ▸ hlt) ht rfl
      exact ⟨u, hst.trans htu, hu⟩

theorem Reaches.invariant {I : σ → Prop}
    (step_inv : ∀ s e t, I s → P s e → M.step s e = some t → I t) (h : M.Reaches P s t)
    (hs : I s) : I t := by
  obtain ⟨es, hes, hPes⟩ := h
  exact hPes.invariant step_inv hs hes

theorem Reaches.map {τ : Type w} {φ : Type*} {N : Machine τ φ} {Q : τ → φ → Prop}
    {f : σ → τ} {g : ε → φ}
    (step : ∀ s e t, P s e → M.step s e = some t → Q (f s) (g e) ∧ N.step (f s) (g e) = some (f t))
    (h : M.Reaches P s t) : N.Reaches Q (f s) (f t) := by
  obtain ⟨es, hes, hPes⟩ := h
  induction es generalizing s with
  | nil =>
    cases hes
    exact .refl (f t)
  | cons e es ih =>
    obtain ⟨u, hu, hut⟩ := exec_cons_eq_some.mp hes
    obtain ⟨hQ, hstep⟩ := step s e u hPes.1 hu
    exact .head hQ hstep (ih hut (hPes.2 u hu))

end Reaches

section Simulation

variable {τ : Type w} {φ : Type*} {N : Machine τ φ}

/-- Each step of `M` is matched by the steps `f s e` of `N`. -/
structure Simulation (M : Machine σ ε) (N : Machine τ φ) where
  rel : σ → τ → Prop
  image : σ → ε → List φ
  init : rel M.init N.init
  step : ∀ s e t a, rel s a → M.step s e = some t →
    ∃ b, N.exec a (image s e) = some b ∧ rel t b

theorem Simulation.exec (S : Simulation M N) {s t : σ} {a : τ} {es : List ε}
    (hr : S.rel s a) (h : M.exec s es = some t) :
    ∃ fs b, N.exec a fs = some b ∧ S.rel t b := by
  induction es generalizing s a with
  | nil =>
    cases h
    exact ⟨[], a, rfl, hr⟩
  | cons e es ih =>
    obtain ⟨u, hu, hut⟩ := exec_cons_eq_some.mp h
    obtain ⟨b, hb, hub⟩ := S.step s e u a hr hu
    obtain ⟨fs, c, hc, htc⟩ := ih hub hut
    exact ⟨S.image s e ++ fs, c, by rw [exec_append, hb]; exact hc, htc⟩

theorem Simulation.reachable (S : Simulation M N) {s : σ} (h : M.Reachable s) :
    ∃ a, N.Reachable a ∧ S.rel s a := by
  obtain ⟨es, hes⟩ := h
  obtain ⟨fs, a, ha, hsa⟩ := S.exec S.init hes
  exact ⟨a, ⟨fs, ha⟩, hsa⟩

structure Refinement (M : Machine σ ε) (N : Machine τ φ) (P : σ → ε → Prop) (Q : τ → φ → Prop) where
  rel : σ → τ → Prop
  init : rel M.init N.init
  step : ∀ s e t a, rel s a → P s e → M.step s e = some t →
    ∃ fs b, N.exec a fs = some b ∧ N.Along Q a fs ∧ rel t b

variable {P : σ → ε → Prop} {Q : τ → φ → Prop}

theorem Refinement.exec (R : Refinement M N P Q) {s t : σ} {a : τ} {es : List ε} (hr : R.rel s a)
    (hP : M.Along P s es) (h : M.exec s es = some t) :
    ∃ fs b, N.exec a fs = some b ∧ N.Along Q a fs ∧ R.rel t b := by
  induction es generalizing s a with
  | nil =>
    cases h
    exact ⟨[], a, rfl, trivial, hr⟩
  | cons e es ih =>
    obtain ⟨u, hu, hut⟩ := exec_cons_eq_some.mp h
    obtain ⟨fs, b, hb, hQ, hub⟩ := R.step s e u a hr hP.1 hu
    obtain ⟨gs, c, hc, hQ', htc⟩ := ih hub (hP.2 u hu) hut
    refine ⟨fs ++ gs, c, ?_, (along_append hb).mpr ⟨hQ, hQ'⟩, htc⟩
    rw [exec_append, hb]
    exact hc

theorem Refinement.keep (R : Refinement M N P Q) {I : τ → Prop}
    (step_inv : ∀ a f b, I a → Q a f → N.step a f = some b → I b) {s t : σ} {e : ε}
    (hs : ∃ a, R.rel s a ∧ I a) (hP : P s e) (h : M.step s e = some t) : ∃ b, R.rel t b ∧ I b := by
  obtain ⟨a, hr, ha⟩ := hs
  obtain ⟨fs, b, hb, hQ, htb⟩ := R.step s e t a hr hP h
  exact ⟨b, htb, hQ.invariant step_inv ha hb⟩

end Simulation

section Product

variable {ι : Type w} [DecidableEq ι]

def pi (N : ι → Machine σ ε) : Machine (ι → σ) (ι × ε) where
  init i := (N i).init
  step s e := ((N e.1).step (s e.1) e.2).map (Function.update s e.1)

variable {N : ι → Machine σ ε}

theorem pi_step_eq_some {s t : ι → σ} {e : ι × ε} :
    (pi N).step s e = some t ↔
      ∃ u, (N e.1).step (s e.1) e.2 = some u ∧ Function.update s e.1 u = t := by
  simp [pi]

theorem pi_step_invariant {I : ι → σ → Prop} {i : ι} {e : ε} {s t : ι → σ}
    (step_inv : ∀ u, I i (s i) → (N i).step (s i) e = some u → I i u)
    (hs : ∀ j, I j (s j)) (h : (pi N).step s (i, e) = some t) : ∀ j, I j (t j) := by
  obtain ⟨u, hu, rfl⟩ := pi_step_eq_some.mp h
  intro j
  by_cases hj : j = i
  · subst hj
    simpa using step_inv u (hs j) hu
  · simpa [Function.update_of_ne hj] using hs j

theorem pi_reachable {s : ι → σ} (h : (pi N).Reachable s) (i : ι) : (N i).Reachable (s i) := by
  refine h.invariant (I := fun s => ∀ i, (N i).Reachable (s i)) (fun i => .init) ?_ i
  rintro s ⟨i, e⟩ t hs ht
  exact pi_step_invariant (I := fun i => (N i).Reachable) (fun u hu => hu.step) hs ht

end Product

end Machine

section Log

variable {α : Type u}

def Preceded (R : List α → α → Prop) (log : List α) : Prop :=
  ∀ pre e post, log = pre ++ e :: post → R pre e

theorem preceded_nil {R : List α → α → Prop} : Preceded R [] := by
  intro pre e post h
  simp at h

theorem preceded_concat {R : List α → α → Prop} {log : List α} {e : α} :
    Preceded R (log ++ [e]) ↔ Preceded R log ∧ R log e := by
  constructor
  · intro h
    exact ⟨fun pre d post hlog => h pre d (post ++ [e]) (by simp [hlog]), h log e [] rfl⟩
  · rintro ⟨h, he⟩ pre d post hlog
    cases post using List.reverseRecOn with
    | nil =>
      obtain ⟨rfl, hde⟩ := List.append_inj' hlog rfl
      cases hde
      exact he
    | append_singleton post d' =>
      rw [← List.cons_append, ← List.append_assoc] at hlog
      exact h pre d post (List.append_inj' hlog rfl).1

theorem Preceded.and {R S : List α → α → Prop} {log : List α} (hR : Preceded R log)
    (hS : Preceded S log) : Preceded (fun past e => R past e ∧ S past e) log :=
  fun pre e post h => ⟨hR pre e post h, hS pre e post h⟩

section InOrder

variable {β : Type v} {sent heard : α → Option β} {log : List α}

/-- What is sent is new and waits for what was sent before it; what is heard was sent, and is
not heard again. -/
structure OneByOne (sent heard : α → Option β) (past : List α) (e : α) : Prop where
  new : ∀ b ∈ sent e, b ∉ past.filterMap sent
  waits : ∀ b ∈ sent e, past.filterMap sent ⊆ past.filterMap heard
  caused : ∀ b ∈ heard e, b ∈ past.filterMap sent
  once : ∀ b ∈ heard e, b ∉ past.filterMap heard
  apart : sent e = none ∨ heard e = none

theorem filterMap_concat (f : α → Option β) (log : List α) (e : α) :
    (log ++ [e]).filterMap f = log.filterMap f ++ (f e).toList := by
  cases h : f e <;> simp [h]

theorem Preceded.inOrder (h : Preceded (OneByOne sent heard) log) :
    ∃ l, l.length ≤ 1 ∧ log.filterMap sent = log.filterMap heard ++ l := by
  suffices (log.filterMap sent).Nodup ∧
      ∃ l, l.length ≤ 1 ∧ log.filterMap sent = log.filterMap heard ++ l from this.2
  induction log using List.reverseRecOn with
  | nil => exact ⟨List.nodup_nil, [], by simp⟩
  | append_singleton log e ih =>
    obtain ⟨hlog, he⟩ := preceded_concat.mp h
    obtain ⟨hnodup, l, hl, hsent⟩ := ih hlog
    simp only [filterMap_concat]
    cases hs : sent e with
    | some b =>
      have hnone : heard e = none := he.apart.resolve_left (by simp [hs])
      have hnil : l = [] := by
        refine List.eq_nil_iff_forall_not_mem.mpr fun x hx => ?_
        have hmem : x ∈ log.filterMap sent := hsent ▸ List.mem_append_right _ hx
        rw [hsent] at hnodup
        exact (List.nodup_append.mp hnodup).2.2 x (he.waits b hs hmem) x hx rfl
      rw [hnil, List.append_nil] at hsent
      refine ⟨?_, [b], by simp, by simp [hnone, hsent]⟩
      rw [Option.toList_some, ← List.concat_eq_append]
      exact List.Nodup.concat (he.new b hs) hnodup
    | none =>
      refine ⟨by simpa using hnodup, ?_⟩
      cases hb : heard e with
      | none => exact ⟨l, hl, by simpa using hsent⟩
      | some b =>
        have hmem := he.caused b hb
        rw [hsent] at hmem
        have hlast : l = [b] := by
          obtain hmem | hmem := List.mem_append.mp hmem
          · exact absurd hmem (he.once b hb)
          · cases l with
            | nil => cases hmem
            | cons x rest =>
              obtain rfl : rest = [] := by simpa using hl
              rw [List.mem_singleton.mp hmem]
        exact ⟨[], by simp, by simp [hsent, hlast]⟩

end InOrder

end Log

end RocketMQClient.Library
