import Mathlib.Logic.Relation

/-! A stack of nodes to visit and the nodes visited so far, over a finite list of edges. A round takes the
    top node off; a node not visited before changes the state and puts its successors on the stack. What
    every round keeps holds when the stack is empty (`drain_rule`), and the nodes visited by then are
    closed under the edges. -/

namespace Zith.Lib

section
variable {α σ : Type} [DecidableEq α]

/-- The heads of the edges from a node. -/
def successors (edges : List (α × α)) (node : α) : List α := (edges.filter fun edge => edge.1 == node).map Prod.snd

@[simp] theorem mem_successors {edges : List (α × α)} {node next : α} :
    next ∈ successors edges node ↔ (node, next) ∈ edges := by
  simp [successors]

/-- At most `fuel` rounds; the top of the stack comes first. -/
def drain (edges : List (α × α)) (visit : α → σ → σ) : Nat → List α → List α → σ → σ
  | 0, _, _, s => s
  | _ + 1, [], _, s => s
  | fuel + 1, node :: stack, visited, s =>
    if node ∈ visited then drain edges visit fuel stack visited s else
      drain edges visit fuel ((successors edges node).reverse ++ stack) (node :: visited) (visit node s)

/-- The rounds of `drain`, nothing when the fuel is out before the stack is empty. -/
def drain? (edges : List (α × α)) (visit : α → σ → σ) : Nat → List α → List α → σ → Option σ
  | _, [], _, s => some s
  | 0, _ :: _, _, _ => none
  | fuel + 1, node :: stack, visited, s =>
    if node ∈ visited then drain? edges visit fuel stack visited s else
      drain? edges visit fuel ((successors edges node).reverse ++ stack) (node :: visited) (visit node s)

/-- The edges whose tail is still to be visited. -/
def unvisited (edges : List (α × α)) (visited : List α) : List (α × α) :=
  edges.filter fun edge => !decide (edge.1 ∈ visited)

/-- Visiting a node takes its edges out of the unvisited ones. -/
theorem unvisited_cons (node : α) (visited : List α) (h : node ∉ visited) : ∀ edges : List (α × α),
      (unvisited edges visited).length = (successors edges node).length + (unvisited edges (node :: visited)).length
  | [] => rfl
  | edge :: edges => by
    have ih := unvisited_cons node visited h edges
    simp only [unvisited, successors, List.length_map] at ih ⊢
    by_cases hnode : edge.1 = node
    · subst hnode
      simp [h, ih]
      omega
    · by_cases hvis : edge.1 ∈ visited <;> simp [hnode, hvis, ih]
      omega

/-- An invariant of the visited nodes, the stack and the state that every round keeps holds at the end,
    with the stack empty. -/
theorem drain_rule {edges : List (α × α)} {visit : α → σ → σ} (I : List α → List α → σ → Prop)
    (skip : ∀ {visited node stack s}, node ∈ visited → I visited (node :: stack) s → I visited stack s)
    (enter : ∀ {visited node stack s}, node ∉ visited → I visited (node :: stack) s →
      I (node :: visited) ((successors edges node).reverse ++ stack) (visit node s)) :
    ∀ (fuel : Nat) (stack visited : List α) (s : σ),
      stack.length + (unvisited edges visited).length ≤ fuel → I visited stack s →
        ∃ seen, I seen [] (drain edges visit fuel stack visited s)
  | 0, stack, visited, s, hfuel, h => by
    have hnil : stack = [] := List.eq_nil_of_length_eq_zero (by omega)
    subst hnil
    exact ⟨visited, h⟩
  | _ + 1, [], visited, _, _, h => ⟨visited, h⟩
  | fuel + 1, node :: stack, visited, s, hfuel, h => by
    simp only [List.length_cons] at hfuel
    rw [drain]
    split
    · rename_i hmem
      exact drain_rule I skip enter fuel stack visited s (by omega) (skip hmem h)
    · rename_i hmem
      have hlen := unvisited_cons node visited hmem edges
      refine drain_rule I skip enter fuel _ _ _ ?_ (enter hmem h)
      simp only [List.length_append, List.length_reverse]
      omega

/-- The fuel is enough for a round for each node of the stack and each edge still to be put there. -/
theorem drain?_eq_some {edges : List (α × α)} {visit : α → σ → σ} : ∀ (fuel : Nat) (stack visited : List α) (s : σ),
      stack.length + (unvisited edges visited).length ≤ fuel →
        drain? edges visit fuel stack visited s = some (drain edges visit fuel stack visited s)
  | 0, [], _, _, _ => rfl
  | _ + 1, [], _, _, _ => rfl
  | 0, _ :: _, _, _, hfuel => by simp at hfuel
  | fuel + 1, node :: stack, visited, s, hfuel => by
    simp only [List.length_cons] at hfuel
    rw [drain?, drain]
    split
    · exact drain?_eq_some fuel stack visited s (by omega)
    · rename_i hmem
      have hlen := unvisited_cons node visited hmem edges
      refine drain?_eq_some fuel _ _ _ ?_
      simp only [List.length_append, List.length_reverse]
      omega

end

/-- What a set closed under the edges contains of a path's start, it contains of its end. -/
theorem mem_of_reachable {α : Type} {edges : List (α × α)} {visited : List α}
    (closed : ∀ {a b}, a ∈ visited → (a, b) ∈ edges → b ∈ visited) {a b : α} (ha : a ∈ visited)
    (h : Relation.ReflTransGen (fun x y => (x, y) ∈ edges) a b) : b ∈ visited := by
  induction h with
  | refl => exact ha
  | tail _ hedge ih => exact closed ih hedge

end Zith.Lib
