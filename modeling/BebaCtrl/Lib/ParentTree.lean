import Mathlib.Combinatorics.SimpleGraph.Acyclic

/-!
# Trees from parents

Every vertex but the root has a parent, and going to the parent lowers a rank. The links to the
parents make a tree.
-/

namespace BebaCtrl

structure ParentSystem (V : Type) where
  root : V
  parent : V → V
  rank : V → ℕ
  rank_parent : ∀ v ≠ root, rank (parent v) < rank v

namespace ParentSystem

variable {V : Type} (S : ParentSystem V)

/-- `u` has the parent `v`. -/
def Child (u v : V) : Prop := u ≠ S.root ∧ S.parent u = v

variable {S} in
theorem Child.rank_lt {u v : V} (h : S.Child u v) : S.rank v < S.rank u := by
  obtain ⟨hu, rfl⟩ := h
  exact S.rank_parent u hu

def graph : SimpleGraph V where
  Adj u v := S.Child u v ∨ S.Child v u
  symm := ⟨fun _ _ => Or.symm⟩
  loopless := ⟨fun _ h => h.elim (fun h => h.rank_lt.ne rfl) fun h => h.rank_lt.ne rfl⟩

theorem reachable_root (v : V) : S.graph.Reachable v S.root := by
  by_cases hv : v = S.root
  · rw [hv]
  · have hlt := S.rank_parent v hv
    have hadj : S.graph.Adj v (S.parent v) := .inl ⟨hv, rfl⟩
    exact hadj.reachable.trans (reachable_root (S.parent v))
termination_by S.rank v

theorem connected_graph : S.graph.Connected :=
  haveI : Nonempty V := ⟨S.root⟩
  ⟨fun u v => (S.reachable_root u).trans (S.reachable_root v).symm⟩

/-- The edge from a vertex to its parent. -/
def edge (v : {v // v ≠ S.root}) : S.graph.edgeSet := ⟨s(v.1, S.parent v.1), .inl ⟨v.2, rfl⟩⟩

theorem edge_bijective : Function.Bijective S.edge := by
  constructor
  · rintro ⟨u, hu⟩ ⟨v, hv⟩ h
    have hedge : s(u, S.parent u) = s(v, S.parent v) := congrArg Subtype.val h
    rcases Sym2.eq_iff.1 hedge with ⟨rfl, -⟩ | ⟨huv, hvu⟩
    · rfl
    · have hu' := S.rank_parent u hu
      have hv' := S.rank_parent v hv
      rw [hvu] at hu'
      rw [← huv] at hv'
      omega
  · rintro ⟨e, he⟩
    induction e with
    | _ u v =>
      have hadj : S.Child u v ∨ S.Child v u := he
      rcases hadj with ⟨hu, hparent⟩ | ⟨hv, hparent⟩
      · exact ⟨⟨u, hu⟩, Subtype.ext (congrArg (s(u, ·)) hparent)⟩
      · exact ⟨⟨v, hv⟩, Subtype.ext ((congrArg (s(v, ·)) hparent).trans Sym2.eq_swap)⟩

theorem isTree_graph [Finite V] : S.graph.IsTree := by
  classical
  refine SimpleGraph.isTree_iff_connected_and_card.2 ⟨S.connected_graph, ?_⟩
  rw [← Nat.card_congr (Equiv.ofBijective S.edge S.edge_bijective)]
  have hcard : Nat.card {v // v = S.root} + Nat.card {v // v ≠ S.root} = Nat.card V := by
    rw [← Nat.card_sum]
    exact Nat.card_congr (Equiv.sumCompl _)
  rw [Nat.card_unique] at hcard
  omega

end ParentSystem

end BebaCtrl
