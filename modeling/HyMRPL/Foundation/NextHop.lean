import Mathlib.Data.List.Chain
import Mathlib.Data.List.Nodup
import Mathlib.Logic.Relation

/-!
# Following next hops

Nodes hand a packet to the next hop, until it is at a node that owns its
destination. `Arrives hop owner v` says that some way of following hops leads from
`v` to an owner, and survives when hops and owners are added. What arrives at all
arrives along a path that visits no node twice.
-/

namespace NextHop

variable {ν : Type*} {hop hop' : ν → ν → Prop} {owner owner' : ν → Prop} {v w : ν}

/-- Hops lead from `v` to an owner. -/
def Arrives (hop : ν → ν → Prop) (owner : ν → Prop) (v : ν) : Prop :=
  ∃ u, owner u ∧ Relation.ReflTransGen hop v u

/-- A path of hops from `v` to an owner, without a loop. -/
structure IsPath (hop : ν → ν → Prop) (owner : ν → Prop) (v : ν) (path : List ν) : Prop where
  head : path.head? = some v
  chain : path.IsChain hop
  last : ∃ u, path.getLast? = some u ∧ owner u
  nodup : path.Nodup

theorem Arrives.here (h : owner v) : Arrives hop owner v :=
  ⟨v, h, Relation.ReflTransGen.refl⟩

theorem Arrives.cons (hvw : hop v w) (h : Arrives hop owner w) : Arrives hop owner v := by
  obtain ⟨u, hu, hreach⟩ := h
  exact ⟨u, hu, hreach.head hvw⟩

theorem Arrives.mono (h : Arrives hop owner v) (hhop : ∀ a b, hop a b → hop' a b)
    (howner : ∀ a, owner a → owner' a) : Arrives hop' owner' v := by
  obtain ⟨u, hu, hreach⟩ := h
  exact ⟨u, howner u hu, Relation.ReflTransGen.mono hhop _ _ hreach⟩

theorem isPath_singleton (h : owner v) : IsPath hop owner v [v] :=
  ⟨rfl, List.isChain_singleton v, ⟨v, rfl, h⟩, List.nodup_singleton v⟩

/-- The part of a path from one of its nodes on. -/
theorem IsPath.of_mem {path : List ν} (h : IsPath hop owner v path) (hw : w ∈ path) :
    ∃ path', IsPath hop owner w path' := by
  obtain ⟨before, after, rfl⟩ := List.append_of_mem hw
  refine ⟨w :: after, rfl, (List.isChain_append.mp h.chain).2.1, ?_,
    (List.nodup_append.mp h.nodup).2.1⟩
  obtain ⟨u, hlast, hu⟩ := h.last
  exact ⟨u, by simpa [List.getLast?_append_of_ne_nil] using hlast, hu⟩

/-- One more hop makes the path longer, unless the path was there before. -/
theorem IsPath.exists_cons {path : List ν} (h : IsPath hop owner w path) (hvw : hop v w) :
    ∃ path', IsPath hop owner v path' := by
  by_cases hv : v ∈ path
  · exact h.of_mem hv
  · obtain ⟨rest, rfl⟩ : ∃ rest, path = w :: rest := by
      cases path with
      | nil => exact nomatch h.head
      | cons a rest => exact ⟨rest, congrArg (· :: rest) (Option.some.inj h.head)⟩
    refine ⟨v :: w :: rest, rfl, List.IsChain.cons_cons hvw h.chain, ?_,
      List.nodup_cons.mpr ⟨hv, h.nodup⟩⟩
    obtain ⟨u, hlast, hu⟩ := h.last
    exact ⟨u, by simpa using hlast, hu⟩

theorem Arrives.exists_path (h : Arrives hop owner v) : ∃ path, IsPath hop owner v path := by
  obtain ⟨u, hu, hreach⟩ := h
  induction hreach using Relation.ReflTransGen.head_induction_on with
  | refl => exact ⟨[u], isPath_singleton hu⟩
  | head hvw _ ih =>
      obtain ⟨path, hpath⟩ := ih
      exact hpath.exists_cons hvw

end NextHop
