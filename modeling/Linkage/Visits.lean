/-!
# Visits

A walk through a finite graph that never goes on from a node twice ends, because
the number of nodes that it has not visited goes down.
-/

set_option autoImplicit false

namespace Linkage

variable {α : Type} [DecidableEq α]

/-- Number of nodes that have not been visited. -/
def unvisited (nodes visited : List α) : Nat := nodes.countP fun a => !visited.contains a

/-- A visit never leaves more nodes. -/
theorem unvisited_cons_le (nodes visited : List α) (a : α) :
    unvisited nodes (a :: visited) ≤ unvisited nodes visited := by
  refine List.countP_mono_left fun b _ h => ?_
  simp only [List.contains_cons, Bool.not_or, Bool.and_eq_true] at h
  exact h.2

/-- A first visit to a node of the graph leaves fewer nodes. -/
theorem unvisited_cons_lt {nodes visited : List α} {a : α} (hnode : a ∈ nodes)
    (hfirst : a ∉ visited) : unvisited nodes (a :: visited) < unvisited nodes visited := by
  induction nodes with
  | nil => simp at hnode
  | cons b bs ih =>
      have hle := unvisited_cons_le bs visited a
      by_cases hba : b = a
      · subst hba
        simpa [unvisited, hfirst, Nat.lt_succ_iff] using hle
      · have hlt := ih ((List.mem_cons.1 hnode).resolve_left (Ne.symm hba))
        by_cases hb : b ∈ visited <;> simpa [unvisited, hba, hb] using hlt

end Linkage
