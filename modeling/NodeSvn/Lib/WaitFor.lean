import Mathlib.Data.Fintype.Card
import Mathlib.Logic.Relation
import Mathlib.Order.WellFounded

/-!
# Wait-for relations

If everyone in a nonempty set of finitely many parties waits for someone in the set, there
is a cycle of waiting parties.  So a chain that runs into no cycle ends (`exists_last`); those
whose chains lead to a cycle wait for each other (`exists_next_of_cycle`).
-/

namespace NodeSvn

open Relation

variable {ι : Type} {r : ι → ι → Prop}

def Acyclic (r : ι → ι → Prop) : Prop := ∀ i, ¬ TransGen r i i

/-- An acyclic relation between finitely many parties has no infinite chains. -/
theorem Acyclic.wellFounded [Finite ι] (h : Acyclic r) :
    WellFounded fun j i => TransGen r i j := by
  have : IsTrans ι fun j i => TransGen r i j := ⟨fun _ _ _ hba hcb => hcb.trans hba⟩
  have : Std.Irrefl fun j i => TransGen r i j := ⟨h⟩
  exact Finite.wellFounded_of_trans_of_irrefl _

/-- Where the waiting is acyclic, somebody in the set waits for nobody in it. -/
theorem Acyclic.exists_free [Finite ι] (h : Acyclic r) {S : Set ι} (hne : S.Nonempty) :
    ∃ i ∈ S, ∀ j ∈ S, ¬ r i j := by
  obtain ⟨i, hi, hmin⟩ := h.wellFounded.has_min S hne
  exact ⟨i, hi, fun j hj hr => hmin j hj (.single hr)⟩

theorem Acyclic.of_lt [Preorder ι] (h : ∀ i j, r i j → i < j) : Acyclic r := by
  intro i hi
  have hlt : ∀ {j}, TransGen r i j → i < j := by
    intro j hj
    induction hj with
    | single hr => exact h _ _ hr
    | tail _ hr ih => exact ih.trans (h _ _ hr)
  exact lt_irrefl i (hlt hi)

/-- Where no chain from `i` runs into a cycle, one ends. -/
theorem exists_last [Finite ι] {i : ι} (h : ∀ j, ReflTransGen r i j → ¬ TransGen r j j) :
    ∃ k, ReflTransGen r i k ∧ ∀ j, ¬ r k j := by
  -- `r` among those that a chain from `i` reaches
  have hstart : ∀ {j k}, TransGen (fun j k => ReflTransGen r i j ∧ r j k) j k →
      ReflTransGen r i j := by
    intro j k hjk
    obtain ⟨m, hm, -⟩ := TransGen.head'_iff.mp hjk
    exact hm.1
  have hac : Acyclic fun j k => ReflTransGen r i j ∧ r j k :=
    fun j hj => h j (hstart hj) (TransGen.mono (fun _ _ h => h.2) _ _ hj)
  obtain ⟨k, hk, hfree⟩ := hac.exists_free (S := { k | ReflTransGen r i k }) ⟨i, .refl⟩
  exact ⟨k, hk, fun j hj => hfree j (ReflTransGen.tail hk hj) ⟨hk, hj⟩⟩

/-- Whose chain leads to a cycle, waits for one whose chain does, too. -/
theorem exists_next_of_cycle {i j : ι} (hj : TransGen r j j) (hi : ReflTransGen r i j) :
    ∃ k, r i k ∧ ReflTransGen r k j := by
  rcases hi.cases_head with rfl | ⟨k, hk, hkj⟩
  · exact TransGen.head'_iff.mp hj
  · exact ⟨k, hk, hkj⟩

end NodeSvn
