import I8086.Proofs.Checked.Step
import I8086.Proofs.Run

/-!
# Runs in the host's numbers

The host does not count the steps of a run. Before each of them it compares the limit with the
increase of the machine's own count, which not every step changes. That this comes to the same, that
the loop ends, and that no number in it overflows, is `run_eq`; what such a run amounts to, and that
it may be cut into two, is `run_within_limit`.
-/

namespace I8086.Checked

open Machine (ending?)

variable {World : Type}

/-- The rounds of a run that began when the count was `start`. The host has no bound on them, so
there is an allowance of steps here, and asking for one more is a trap. -/
def runFrom (start limit : Nat) : (allowance : Nat) → Machine World →
    Checked (Except Fault Outcome × Machine World)
  | allowance, m => do
    let spent ← difference m.count start
    if limit ≤ spent then pure (.ok .limitReached, m)
    else
      match allowance with
      | 0 => throw .unfinished
      | allowance + 1 => do
        let (result, m) ← step m
        match ending? result with
        | some outcome => pure (outcome, m)
        | none => runFrom start limit allowance m

/-- A run with a limit, which is also the number of steps that it may ask for. -/
def run (limit : Nat) (m : Machine World) : Checked (Except Fault Outcome × Machine World) :=
  runFrom m.count limit limit m

/-- The increase of the count tells how many steps are left. -/
theorem runFrom_eq {start limit left : Nat} {m : Machine World}
    (spent : m.count + left = start + limit)
    (begun : start ≤ m.count) (room : start + limit < 2 ^ 64) :
    runFrom start limit left m = pure (Machine.runFor left m) := by
  induction left generalizing m with
  | zero =>
      have enough : limit ≤ m.count - start := by omega
      rw [runFrom, difference_eq begun, pure_bind, if_pos enough, Machine.runFor]
  | succ left ih =>
      have more : ¬limit ≤ m.count - start := by omega
      rw [runFrom, difference_eq begun, pure_bind, if_neg more]
      dsimp only
      rw [step_eq (by omega), pure_bind]
      cases ends : ending? m.step.1 with
      | some outcome => simp only [Machine.runFor_succ_of_some ends]
      | none =>
          have count := Machine.count_step ends
          simp only [Machine.runFor_succ_of_none ends]
          exact ih (by omega) (by omega)

/-- A run whose last count still fits its number takes no more steps than its limit. -/
theorem run_eq {limit : Nat} {m : Machine World} (room : m.count + limit < 2 ^ 64) :
    run limit m = pure (m.run (some limit)) :=
  runFrom_eq rfl (Nat.le_refl _) room

/-- A run after whose first part the limit of that part is reached goes on as if it had not been
interrupted; a run that has ended by then is not changed by a larger limit. -/
theorem run_add {a b : Nat} {m : Machine World} (room : m.count + (a + b) < 2 ^ 64) :
    run (a + b) m =
      (do
        let (result, m') ← run a m
        match result with
        | .ok .limitReached => run b m'
        | result => pure (result, m')) := by
  rw [run_eq room, run_eq (by omega), pure_bind]
  change pure (Machine.runFor (a + b) m) = _
  rcases first : Machine.runFor a m with ⟨result, m'⟩
  have whole : m.run (some a) = (result, m') := first
  rw [whole]
  by_cases reached : result = .ok .limitReached
  · subst reached
    have count := (Machine.runFor_eq_limitReached_iff.mp first).count
    rw [Machine.runFor_add_of_limitReached first]
    exact (run_eq (by omega)).symm
  · rw [Machine.runFor_add_of_ne (by rwa [first]), first]
    rcases result with fault | _ | _ | _ <;> first | rfl | exact absurd rfl reached

/-- A run with a limit is a bounded iteration of steps. The loop ends after at most so many steps;
it reports that the limit is reached exactly if the program goes on after every one of them, in the
state that they lead to; otherwise it reports what ends the run, in the state that this step leaves.
It may be cut anywhere: running on where the first part has reached its limit gives what one run
would have given, and a run that ends in its first part has nothing more to give. -/
theorem run_within_limit {limit : Nat} {m : Machine World} (room : m.count + limit < 2 ^ 64) :
    run limit m = pure (m.run (some limit)) ∧
      (∀ m', m.run (some limit) = (.ok .limitReached, m') ↔ Machine.GoesOn limit m m') ∧
      ((¬∃ m', Machine.GoesOn limit m m') →
        ∃ k last outcome, k < limit ∧ Machine.GoesOn k m last ∧
          ending? last.step.1 = some outcome ∧ m.run (some limit) = (outcome, last.step.2)) ∧
      ∀ a b, a + b = limit →
        run limit m =
          (do
            let (result, m') ← run a m
            match result with
            | .ok .limitReached => run b m'
            | result => pure (result, m')) := by
  refine ⟨run_eq room, fun m' => Machine.runFor_eq_limitReached_iff, fun ends => ?_, ?_⟩
  · obtain ⟨m', steps, _⟩ | early := Machine.runFor_cases limit m
    · exact absurd ⟨m', steps⟩ ends
    · exact early
  · rintro a b rfl
    exact run_add room

/-- The first of two steps ends among seventeen prefixes, and the run may be cut there. -/
theorem run_within_limit_of_long_run :
    let m := Machine.booted (List.replicate 17 0x26 ++ [0x90])
    m.count + 2 < 2 ^ 64 ∧ m.step.2.pending.isSome ∧ Machine.GoesOn 1 m m.step.2 ∧
      run 2 m = run 1 m.step.2 := by
  intro m
  have holds : m.code.Holds (List.replicate 17 0x26 ++ [0x90]) := Machine.code_booted (by decide)
  have first := Machine.step_of_long_run (m := m) rfl holds.left (by decide) (by decide)
  have steps : Machine.GoesOn 1 m m.step.2 := .step (by rw [first]; rfl) (.refl _)
  have reached : m.run (some 1) = (.ok .limitReached, m.step.2) :=
    ((run_within_limit (show m.count + 1 < 2 ^ 64 by decide)).2.1 _).mpr steps
  refine ⟨by decide, by rw [first]; rfl, steps, ?_⟩
  rw [(run_within_limit (by decide)).2.2.2 1 1 rfl, run_eq (by decide), pure_bind, reached]

end I8086.Checked
