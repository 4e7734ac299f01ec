/-!
# Recursions that end

A recursion is given by the calls that a call makes and by the way in which its answer is put
together from theirs. Nothing says that the calls get smaller, so a recursion need not end.
`Recursion.run` evaluates a call to a bounded depth and has no answer when calls are left below it.

* `run_of_le`: an answer that was found stays at every greater depth.
* `exists_ends`: a call ends when all the calls that it makes end. This is the step of every proof
  that a recursion ends, by induction over whatever decreases.
* `Ends.sound`, `Ends.eq_of_fixed`: what a recursion ends with has every property that one step
  keeps; in particular, it is the answer of every function that satisfies the equation of the
  recursion.
-/

namespace ShapedReply

/-- A recursion from calls to answers. -/
structure Recursion (α β : Type) where
  /-- The calls that a call makes. -/
  calls : α → List α
  /-- The answer to a call, given the answers to others. -/
  body : (α → β) → α → β
  /-- What stands for the answers to calls that are not made. -/
  fallback : β
  /-- Only the answers to the calls that are made count. -/
  body_congr : ∀ {f g : α → β} {x : α}, (∀ y ∈ calls x, f y = g y) → body f x = body g x

namespace Recursion

variable {α β : Type} {R : Recursion α β} {x : α} {b : β} {n m : Nat}

/-- The answer to a call, if no calls go deeper than a bound. -/
def run (R : Recursion α β) : Nat → α → Option β
  | 0, _ => none
  | n + 1, x =>
    if (R.calls x).all fun y => (R.run n y).isSome then
      some (R.body (fun y => (R.run n y).getD R.fallback) x)
    else none

/-- A call ends with an answer: it is found at every depth that is large enough. -/
def Ends (R : Recursion α β) (x : α) (b : β) : Prop :=
  ∃ n, ∀ m ≥ n, R.run m x = some b

/-- An answer is put together from the answers to the calls one level below. -/
theorem run_succ_eq_some_iff :
    R.run (n + 1) x = some b ↔
      ∃ f : α → β, (∀ y ∈ R.calls x, R.run n y = some (f y)) ∧ R.body f x = b := by
  rw [run]
  constructor
  · intro h
    split at h
    · next hall =>
      refine ⟨_, ?_, Option.some.inj h⟩
      intro y hy
      obtain ⟨a, ha⟩ := Option.isSome_iff_exists.mp (List.all_eq_true.mp hall y hy)
      rw [ha, Option.getD_some]
    · cases h
  · rintro ⟨f, hf, rfl⟩
    have hall : ((R.calls x).all fun y => (R.run n y).isSome) = true := by
      rw [List.all_eq_true]
      intro y hy
      rw [hf y hy, Option.isSome_some]
    rw [if_pos hall]
    refine congrArg some (R.body_congr ?_)
    intro y hy
    rw [hf y hy, Option.getD_some]

/-- One level more keeps an answer. -/
theorem run_succ (h : R.run n x = some b) : R.run (n + 1) x = some b := by
  induction n generalizing x b with
  | zero => cases h
  | succ n ih =>
    obtain ⟨f, hf, hb⟩ := run_succ_eq_some_iff.mp h
    exact run_succ_eq_some_iff.mpr ⟨f, fun y hy => ih (hf y hy), hb⟩

/-- An answer that was found stays at every greater depth. -/
theorem run_of_le (hnm : n ≤ m) (h : R.run n x = some b) : R.run m x = some b := by
  induction hnm with
  | refl => exact h
  | step _ ih => exact run_succ ih

/-- What a run gives, the recursion ends with. -/
theorem ends_of_run (h : R.run n x = some b) : R.Ends x b :=
  ⟨n, fun _ hm => run_of_le hm h⟩

/-- A depth that is large enough for all calls of a list. -/
theorem exists_depth {ys : List α} (h : ∀ y ∈ ys, ∃ b, R.Ends y b) :
    ∃ n, ∀ y ∈ ys, (R.run n y).isSome = true := by
  induction ys with
  | nil => exact ⟨0, fun y hy => absurd hy List.not_mem_nil⟩
  | cons y ys ih =>
    rw [List.forall_mem_cons] at h
    obtain ⟨⟨b, n, hn⟩, hys⟩ := h
    obtain ⟨m, hm⟩ := ih hys
    refine ⟨max n m, List.forall_mem_cons.mpr ⟨?_, ?_⟩⟩
    · rw [hn _ (Nat.le_max_left n m), Option.isSome_some]
    · intro z hz
      obtain ⟨a, ha⟩ := Option.isSome_iff_exists.mp (hm z hz)
      rw [run_of_le (Nat.le_max_right n m) ha, Option.isSome_some]

/-- **A call ends when all the calls that it makes end.** -/
theorem exists_ends (h : ∀ y ∈ R.calls x, ∃ b, R.Ends y b) : ∃ b, R.Ends x b := by
  obtain ⟨n, hn⟩ := exists_depth h
  have hrun : R.run (n + 1) x = some (R.body (fun y => (R.run n y).getD R.fallback) x) := by
    rw [run, if_pos (List.all_eq_true.mpr hn)]
  exact ⟨_, ends_of_run hrun⟩

/-- An answer has every property that a step of the recursion keeps. -/
theorem Ends.sound {P : α → β → Prop}
    (step : ∀ (f : α → β) (x : α), (∀ y ∈ R.calls x, P y (f y)) → P x (R.body f x))
    (h : R.Ends x b) : P x b := by
  have hrun (n : Nat) : ∀ x b, R.run n x = some b → P x b := by
    induction n with
    | zero =>
      intro x b h
      cases h
    | succ n ih =>
      intro x b h
      obtain ⟨f, hf, rfl⟩ := run_succ_eq_some_iff.mp h
      exact step f x fun y hy => ih y (f y) (hf y hy)
  obtain ⟨n, hn⟩ := h
  exact hrun n x b (hn n (Nat.le_refl n))

/-- A recursion that ends gives the answers of every function that satisfies its equation. -/
theorem Ends.eq_of_fixed {f : α → β} (hf : ∀ x, f x = R.body f x) (h : R.Ends x b) : b = f x := by
  refine h.sound (P := fun x b => b = f x) ?_
  intro g x hg
  rw [R.body_congr hg, ← hf]

end Recursion

end ShapedReply
