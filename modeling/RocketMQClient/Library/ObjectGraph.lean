import Mathlib.Logic.Relation

universe u

namespace RocketMQClient.Library

structure ObjectGraph (ν : Type u) where
  root : ν → Prop
  edge : ν → ν → Prop

namespace ObjectGraph

variable {ν : Type u} {G : ObjectGraph ν} {u v : ν}

def Live (G : ObjectGraph ν) (v : ν) : Prop := ∃ r, G.root r ∧ Relation.ReflTransGen G.edge r v

theorem Live.of_root (h : G.root v) : G.Live v := ⟨v, h, .refl⟩

theorem Live.edge (h : G.Live u) (huv : G.edge u v) : G.Live v := by
  obtain ⟨r, hr, hru⟩ := h
  exact ⟨r, hr, hru.tail huv⟩

theorem live_iff : G.Live v ↔ G.root v ∨ ∃ u, G.Live u ∧ G.edge u v := by
  constructor
  · rintro ⟨r, hr, hrv⟩
    cases hrv with
    | refl => exact .inl hr
    | tail hru huv => exact .inr ⟨_, ⟨r, hr, hru⟩, huv⟩
  · rintro (hv | ⟨u, hu, huv⟩)
    · exact .of_root hv
    · exact hu.edge huv

end ObjectGraph

end RocketMQClient.Library
