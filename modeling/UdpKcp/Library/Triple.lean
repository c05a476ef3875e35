import Mathlib.Init

/-! # Programs whose steps may be undefined

A program changes a state and returns a result, or has no outcome at all when
one of its steps is undefined. A triple is total: from every state of the
precondition the program runs to its end. `Fails` is the other case, that it runs
into an undefined step from every state of the precondition.
-/

namespace Triples

variable {σ : Type} {α β : Type}

abbrev Prog (σ α : Type) := StateT σ Option α

/-- From every state of `P` the program has an outcome, and it is one of `Q`. -/
def Triple (P : σ → Prop) (x : Prog σ α) (Q : α → σ → Prop) : Prop :=
  ∀ s, P s → ∃ a s', x.run s = some (a, s') ∧ Q a s'

theorem Triple.pure {P : σ → Prop} {Q : α → σ → Prop} {a : α} (h : ∀ s, P s → Q a s) :
    Triple P (Pure.pure a) Q :=
  fun s hs => ⟨a, s, rfl, h s hs⟩

theorem Triple.bind {P : σ → Prop} {R : α → σ → Prop} {Q : β → σ → Prop} {x : Prog σ α}
    {f : α → Prog σ β} (hx : Triple P x R) (hf : ∀ a, Triple (R a) (f a) Q) :
    Triple P (x >>= f) Q := by
  intro s hs
  obtain ⟨a, s₁, hrun, hR⟩ := hx s hs
  obtain ⟨b, s₂, hrun', hQ⟩ := hf a s₁ hR
  refine ⟨b, s₂, ?_, hQ⟩
  simp [StateT.run_bind, hrun, hrun']

/-- The result of a step, when the precondition determines it. -/
theorem Triple.bind_eq {P R : σ → Prop} {Q : β → σ → Prop} {x : Prog σ α} {f : α → Prog σ β}
    (a : α) (hx : Triple P x fun b s => b = a ∧ R s) (hf : Triple R (f a) Q) :
    Triple P (x >>= f) Q := by
  refine hx.bind ?_
  rintro b s ⟨rfl, hR⟩
  exact hf s hR

theorem Triple.post {P : σ → Prop} {Q Q' : α → σ → Prop} {x : Prog σ α} (hx : Triple P x Q)
    (h : ∀ a s, Q a s → Q' a s) : Triple P x Q' := by
  intro s hs
  obtain ⟨a, s', hrun, hQ⟩ := hx s hs
  exact ⟨a, s', hrun, h a s' hQ⟩

theorem Triple.pre {P P' : σ → Prop} {Q : α → σ → Prop} {x : Prog σ α} (hx : Triple P x Q)
    (h : ∀ s, P' s → P s) : Triple P' x Q :=
  fun s hs => hx s (h s hs)

theorem Triple.exists {ι : Type*} {P : ι → σ → Prop} {Q : α → σ → Prop} {x : Prog σ α}
    (h : ∀ i, Triple (P i) x Q) : Triple (fun s => ∃ i, P i s) x Q := by
  rintro s ⟨i, hs⟩
  exact h i s hs

theorem Triple.and {p : Prop} {P : σ → Prop} {Q : α → σ → Prop} {x : Prog σ α}
    (h : p → Triple P x Q) : Triple (fun s => p ∧ P s) x Q := by
  rintro s ⟨hp, hs⟩
  exact h hp s hs

theorem Triple.ite {c : Prop} [Decidable c] {P : σ → Prop} {Q : α → σ → Prop} {x y : Prog σ α}
    (hx : c → Triple P x Q) (hy : ¬ c → Triple P y Q) : Triple P (if c then x else y) Q := by
  split
  · exact hx ‹_›
  · exact hy ‹_›

/-- Reading a part of the state. -/
theorem Triple.gets {P : σ → Prop} {f : σ → α} {Q : α → σ → Prop} (h : ∀ s, P s → Q (f s) s) :
    Triple P (do return f (← get)) Q :=
  fun s hs => ⟨f s, s, rfl, h s hs⟩

theorem Triple.modify {P : σ → Prop} {f : σ → σ} {Q : Unit → σ → Prop}
    (h : ∀ s, P s → Q () (f s)) : Triple P (modify f) Q :=
  fun s hs => ⟨(), f s, rfl, h s hs⟩

/-! ## Programs that fail -/

/-- From no state of `P` has the program an outcome. -/
def Fails (P : σ → Prop) (x : Prog σ α) : Prop := ∀ s, P s → x.run s = none

theorem Fails.bind {P : σ → Prop} {x : Prog σ α} {f : α → Prog σ β} (hx : Fails P x) :
    Fails P (x >>= f) := by
  intro s hs
  rw [StateT.run_bind, hx s hs]
  rfl

theorem Triple.bind_fails {P : σ → Prop} {R : α → σ → Prop} {x : Prog σ α} {f : α → Prog σ β}
    (hx : Triple P x R) (hf : ∀ a, Fails (R a) (f a)) : Fails P (x >>= f) := by
  intro s hs
  obtain ⟨a, s₁, hrun, hR⟩ := hx s hs
  rw [StateT.run_bind, hrun]
  exact hf a s₁ hR

theorem Triple.bind_eq_fails {P R : σ → Prop} {x : Prog σ α} {f : α → Prog σ β} (a : α)
    (hx : Triple P x fun b s => b = a ∧ R s) (hf : Fails R (f a)) : Fails P (x >>= f) := by
  apply hx.bind_fails
  rintro b s ⟨rfl, hR⟩
  exact hf s hR

theorem Fails.pre {P P' : σ → Prop} {x : Prog σ α} (hx : Fails P x) (h : ∀ s, P' s → P s) :
    Fails P' x :=
  fun s hs => hx s (h s hs)

theorem Fails.and {p : Prop} {P : σ → Prop} {x : Prog σ α} (h : p → Fails P x) :
    Fails (fun s => p ∧ P s) x := by
  rintro s ⟨hp, hs⟩
  exact h hp s hs

/-! ## Programs one after the other -/

section Runs

variable {ι κ : Type}

def runAll (run : ι → Prog σ α) : List ι → Prog σ (List α)
  | [] => return []
  | i :: is => do
      let a ← run i
      let as ← runAll run is
      return a :: as

/-- The same calls on a model of the state. -/
def applyAll (apply : κ → ι → κ × α) (k : κ) : List ι → κ × List α
  | [] => (k, [])
  | i :: is =>
      ((applyAll apply (apply k i).1 is).1, (apply k i).2 :: (applyAll apply (apply k i).1 is).2)

/-- Every call is made in a state of the model that admits it. -/
def Admits (apply : κ → ι → κ × α) (ok : κ → ι → Prop) (k : κ) : List ι → Prop
  | [] => True
  | i :: is => ok k i ∧ Admits apply ok (apply k i).1 is

variable {run : ι → Prog σ α} {apply : κ → ι → κ × α} {ok : κ → ι → Prop}

theorem admits_of_invariant {inv : κ → Prop} (hinv : ∀ k i, inv k → inv (apply k i).1)
    (hok : ∀ k i, inv k → ok k i) {k : κ} (hk : inv k) (is : List ι) : Admits apply ok k is := by
  induction is generalizing k with
  | nil => exact True.intro
  | cons i is ih => exact ⟨hok k i hk, ih (hinv k i hk)⟩

theorem admits_iff {k : κ} {is : List ι} :
    Admits apply ok k is ↔
      ∀ before i after, is = before ++ i :: after → ok (applyAll apply k before).1 i := by
  induction is generalizing k with
  | nil => simp [Admits]
  | cons j is ih =>
      constructor
      · rintro ⟨hj, hrest⟩ before i after hsplit
        cases before with
        | nil =>
            obtain ⟨rfl, rfl⟩ := List.cons.inj hsplit
            exact hj
        | cons b before =>
            obtain ⟨rfl, htail⟩ := List.cons.inj hsplit
            exact ih.mp hrest before i after htail
      · intro h
        refine ⟨h [] j is rfl, ih.mpr ?_⟩
        rintro before i after rfl
        exact h (j :: before) i after rfl

-- states that represent those of the model, as long as the calls are admitted
variable {represents : κ → σ → Prop}
  (hrun : ∀ k i, ok k i →
    Triple (represents k) (run i) fun a s => a = (apply k i).2 ∧ represents (apply k i).1 s)

include hrun

theorem runAll_triple {k : κ} {is : List ι} (h : Admits apply ok k is) :
    Triple (represents k) (runAll run is) fun as s =>
      as = (applyAll apply k is).2 ∧ represents (applyAll apply k is).1 s := by
  induction is generalizing k with
  | nil => exact Triple.pure fun s hs => ⟨rfl, hs⟩
  | cons i is ih =>
      apply (hrun k i h.1).bind_eq _
      apply (ih h.2).bind_eq _
      exact Triple.pure fun s hs => ⟨rfl, hs⟩

theorem runAll_fails (hfail : ∀ k i, ¬ ok k i → Fails (represents k) (run i)) {k : κ}
    {is : List ι} (h : ¬ Admits apply ok k is) : Fails (represents k) (runAll run is) := by
  induction is generalizing k with
  | nil => exact absurd True.intro h
  | cons i is ih =>
      by_cases hi : ok k i
      · apply (hrun k i hi).bind_eq_fails _
        exact (ih fun hrest => h ⟨hi, hrest⟩).bind
      · exact (hfail k i hi).bind

end Runs

end Triples
