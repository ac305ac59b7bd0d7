import I8086.Proofs.Step

/-!
# Bounded runs

A run takes steps until one of them ends it or its limit is used up. `GoesOn n m m'` says that
exactly `n` steps lead from `m` to `m'` and that a run goes on after each of them. The limit is
reached exactly by so many steps of this kind; every other run ends with the first step that is of
another kind. So a run may be cut anywhere, also between the prefixes of one instruction: what has
been collected until then is part of the machine.
-/

namespace I8086.Machine

variable {World : Type}

/-- The end of a run that the result of a step brings about. There is none if the program goes on,
which it also does after an interrupt that nobody has served. -/
def ending? : Except Fault Step → Option (Except Fault Outcome)
  | .ok .next | .ok (.unhandled _ _) => none
  | .ok .halted => some (.ok .halted)
  | .ok (.exited code) => some (.ok (.exited code))
  | .error fault => some (.error fault)

/-- No step ends a run by using up its limit. -/
theorem ending?_ne_limitReached (result : Except Fault Step) :
    ending? result ≠ some (.ok .limitReached) := by
  rcases result with fault | _ | _ | _ | _ <;> exact nofun

theorem runFor_succ (n : Nat) (m : Machine World) :
    runFor (n + 1) m =
      match ending? m.step.1 with
      | some outcome => (outcome, m.step.2)
      | none => runFor n m.step.2 := by
  rw [runFor]
  rcases m.step with ⟨fault | _ | _ | _ | _, m'⟩ <;> rfl

theorem runFor_succ_of_none {m : Machine World} (goesOn : ending? m.step.1 = none) (n : Nat) :
    runFor (n + 1) m = runFor n m.step.2 := by
  rw [runFor_succ, goesOn]

theorem runFor_succ_of_some {m : Machine World} {outcome : Except Fault Outcome}
    (ends : ending? m.step.1 = some outcome) (n : Nat) :
    runFor (n + 1) m = (outcome, m.step.2) := by
  rw [runFor_succ, ends]

/-- Every step after which the program goes on is counted, one that only reads prefixes like one
that finds nobody to serve an interrupt. -/
theorem count_step {m : Machine World} (goesOn : ending? m.step.1 = none) :
    m.step.2.count = m.count + 1 := by
  cases running : m.cpu.halted with
  | true =>
      rw [step_of_halted running] at goesOn
      cases goesOn
  | false =>
      cases fetched : m.fetched with
      | prefixes p length =>
          rw [step_of_prefixes running fetched, ← m.count_markStart]
          rfl
      | undefined opcode =>
          rw [step_of_undefined running fetched] at goesOn
          cases goesOn
      | instruction i length =>
          have kept :
            ((m.markStart.executed i length).follow (m.markStart.signal i length)).2.count =
              m.count := (count_follow _ _).trans m.count_markStart
          rw [step_of_instruction running fetched, perform_eq] at goesOn ⊢
          generalize (m.markStart.executed i length).follow (m.markStart.signal i length) = result
            at goesOn kept
          obtain ⟨fault | step, m'⟩ := result
          · rw [fst_concluded] at goesOn
            cases goesOn
          · exact congrArg (· + 1) kept

/-- Exactly `n` steps lead to `m'`, and the program goes on after each of them. -/
inductive GoesOn : Nat → Machine World → Machine World → Prop where
  | refl (m) : GoesOn 0 m m
  | step {n m m'} : ending? m.step.1 = none → GoesOn n m.step.2 m' → GoesOn (n + 1) m m'

namespace GoesOn

variable {m m' : Machine World} {n : Nat}

theorem count (steps : GoesOn n m m') : m'.count = m.count + n := by
  induction steps with
  | refl => rfl
  | step goesOn _ ih =>
      rw [ih, count_step goesOn]
      omega

/-- Steps after which the program goes on use up so much of the limit, and nothing else happens. -/
theorem runFor_add (steps : GoesOn n m m') (k : Nat) : runFor (n + k) m = runFor k m' := by
  induction steps with
  | refl => rw [Nat.zero_add]
  | step goesOn _ ih =>
      rw [Nat.add_right_comm, runFor_succ_of_none goesOn, ih]

end GoesOn

/-- A run reaches its limit, or else some step before it ends the run and is the last one. -/
theorem runFor_cases (n : Nat) (m : Machine World) :
    (∃ m', GoesOn n m m' ∧ runFor n m = (.ok .limitReached, m')) ∨
      ∃ k last outcome, k < n ∧ GoesOn k m last ∧ ending? last.step.1 = some outcome ∧
        runFor n m = (outcome, last.step.2) := by
  induction n generalizing m with
  | zero => exact .inl ⟨m, .refl m, rfl⟩
  | succ n ih =>
      cases ends : ending? m.step.1 with
      | some outcome =>
          exact .inr ⟨0, m, outcome, Nat.succ_pos n, .refl m, ends, runFor_succ_of_some ends n⟩
      | none =>
          rw [runFor_succ_of_none ends]
          obtain ⟨m', steps, reached⟩ | ⟨k, last, outcome, before, steps, rest⟩ := ih m.step.2
          · exact .inl ⟨m', .step ends steps, reached⟩
          · exact .inr ⟨k + 1, last, outcome, Nat.succ_lt_succ before, .step ends steps, rest⟩

/-- The limit is reached exactly if the program goes on after every step within it. -/
theorem runFor_eq_limitReached_iff {n : Nat} {m m' : Machine World} :
    runFor n m = (.ok .limitReached, m') ↔ GoesOn n m m' := by
  constructor
  · intro reached
    obtain ⟨last, steps, same⟩ | ⟨_, last, outcome, _, _, ends, same⟩ := runFor_cases n m
    · rw [same] at reached
      cases reached
      exact steps
    · rw [same] at reached
      cases reached
      exact absurd ends (ending?_ne_limitReached _)
  · intro steps
    exact steps.runFor_add 0

/-- A run whose limit is reached may be continued, and gives what a longer run would have given at
once. -/
theorem runFor_add_of_limitReached {a : Nat} {m m' : Machine World}
    (reached : runFor a m = (.ok .limitReached, m')) (b : Nat) :
    runFor (a + b) m = runFor b m' :=
  (runFor_eq_limitReached_iff.mp reached).runFor_add b

/-- A larger limit makes no difference to a run that ends before its limit. -/
theorem runFor_add_of_ne {a : Nat} {m : Machine World}
    (ended : (runFor a m).1 ≠ .ok .limitReached) (b : Nat) : runFor (a + b) m = runFor a m := by
  obtain ⟨_, _, reached⟩ | ⟨k, last, outcome, before, steps, ends, result⟩ := runFor_cases a m
  · exact absurd (congrArg Prod.fst reached) ended
  · obtain ⟨rest, rfl⟩ := Nat.exists_eq_add_of_lt before
    rw [result, show k + rest + 1 + b = k + (rest + b + 1) by omega, steps.runFor_add,
      runFor_succ_of_some ends]

end I8086.Machine
