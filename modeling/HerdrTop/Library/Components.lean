import Mathlib.Combinatorics.SimpleGraph.Connectivity.Connected
import Mathlib.Data.Set.Card

/-!
# Counting components

The components of an undirected graph, counted through a list of vertices that has one from each.
-/

namespace HerdrTop.Components

universe u

variable {V : Type u} {G : SimpleGraph V}

/-- One vertex of each component. -/
structure Represents (G : SimpleGraph V) (roots : List V) : Prop where
  /-- Each component has one. -/
  cover : ∀ v, ∃ r ∈ roots, G.Reachable r v
  /-- No two are in one component. -/
  apart : roots.Pairwise fun r r' => ¬G.Reachable r r'

/-- As many components have a property as representatives whose components have it. -/
theorem Represents.ncard {roots : List V} (h : Represents G roots) (P : G.ConnectedComponent → Prop)
    [DecidablePred fun r => P (G.connectedComponentMk r)] :
    {c | P c}.ncard = roots.countP fun r => P (G.connectedComponentMk r) := by
  classical
  let chosen := roots.filter fun r => P (G.connectedComponentMk r)
  have hnodup : (chosen.map G.connectedComponentMk).Nodup := by
    rw [List.Nodup, List.pairwise_map]
    refine (h.apart.filter _).imp fun hapart heq => hapart (SimpleGraph.ConnectedComponent.exact heq)
  have hset : {c | P c} = ((chosen.map G.connectedComponentMk).toFinset : Set G.ConnectedComponent) := by
    ext c
    simp only [Set.mem_ofPred_eq, List.coe_toFinset, List.mem_map, chosen, List.mem_filter, decide_eq_true_eq]
    constructor
    · intro hc
      induction c using SimpleGraph.ConnectedComponent.ind with
      | h v =>
        obtain ⟨r, hr, hreach⟩ := h.cover v
        have heq := SimpleGraph.ConnectedComponent.sound hreach
        exact ⟨r, ⟨hr, heq ▸ hc⟩, heq⟩
    · rintro ⟨r, ⟨-, hr⟩, rfl⟩
      exact hr
  rw [hset, Set.ncard_coe_finset, List.toFinset_card_of_nodup hnodup, List.length_map, List.countP_eq_length_filter]

end HerdrTop.Components
