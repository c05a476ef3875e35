import Mathlib.Logic.Relation
import Mathlib.Order.Nat

/-! # Reaching a goal by descent

A state that is not yet at its goal can always be continued to one with a
smaller measure; then some continuation reaches the goal.
-/

namespace Descent

variable {α : Type*} {r : α → α → Prop} {I G : α → Prop}

theorem exists_goal (μ : α → ℕ)
    (hstep : ∀ a, I a → ¬ G a → ∃ b, Relation.ReflTransGen r a b ∧ I b ∧ μ b < μ a) {a : α}
    (ha : I a) : ∃ b, Relation.ReflTransGen r a b ∧ I b ∧ G b := by
  generalize hn : μ a = n
  induction n using Nat.strong_induction_on generalizing a with
  | _ n ih =>
      by_cases hgoal : G a
      · exact ⟨a, Relation.ReflTransGen.refl, ha, hgoal⟩
      · obtain ⟨b, hrun, hb, hlt⟩ := hstep a ha hgoal
        obtain ⟨c, hrest, hc, hgoal'⟩ := ih (μ b) (hn ▸ hlt) hb rfl
        exact ⟨c, hrun.trans hrest, hc, hgoal'⟩

end Descent
