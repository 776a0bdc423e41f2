import Relaxation.Proofs.Assembly
import Relaxation.Proofs.Setup

/-!
What a setup makes of any matrix and any inverse diagonal, also where their fields do not belong
together. What does not fit is refused before anything is stored. Factors of no components do not
fit either, nor do those of more components than a word can count the values of; but the refusal
names their rows, and counting these divides by zero or overflows.
-/

namespace Relaxation

namespace InverseDiagonal

variable {α : Type} [Arithmetic α] {inverse : InverseDiagonal α} {diagonal : Array α} {n : Nat}

theorem factorize_of_range (range : n = 0 ∨ maxBlockSize < n) :
    factorize diagonal n = .error (.blockSizeRange n maxBlockSize) := by
  have several : n ≠ 1 := by
    rcases range with rfl | large
    · exact Nat.zero_ne_one
    · unfold maxBlockSize at large
      omega
  unfold factorize ofBlocks checkBlockSize
  rw [if_neg several, if_pos range]
  rfl

theorem factorize_ok (ran : factorize diagonal n = .ok inverse) :
    (0 < n ∧ n ≤ maxBlockSize) ∧ inverse.blockSize = n ∧
      inverse.values.size = diagonal.size := by
  unfold factorize at ran
  by_cases scalar : n = 1
  · subst scalar
    rw [if_pos rfl] at ran
    obtain ⟨rfl, _⟩ := of_scalars_ok ran
    exact ⟨by decide, rfl, Array.size_map⟩
  · rw [if_neg scalar] at ran
    obtain ⟨positive, small, _, values, rfl, size, _⟩ := of_blocks_ok ran
    exact ⟨⟨positive, small⟩, rfl, size⟩

theorem factorize_refuses {refusal : Refusal α}
    (ran : factorize diagonal n = .error refusal) : refusal.kind = .precondition := by
  unfold factorize at ran
  by_cases scalar : n = 1
  · rw [if_pos scalar] at ran
    unfold ofScalars at ran
    split at ran
    · cases ran
      rfl
    · cases ran
  · rw [if_neg scalar] at ran
    unfold ofBlocks checkBlockSize at ran
    by_cases range : n = 0 ∨ maxBlockSize < n
    · rw [if_pos range] at ran
      cases ran
      rfl
    rw [if_neg range] at ran
    by_cases ragged : diagonal.size % (n * n) ≠ 0
    · simp only [if_pos ragged] at ran
      cases ran
      rfl
    rw [if_neg ragged] at ran
    cases factored : (List.finRange (diagonal.size / (n * n))).mapM fun row =>
        (factorBlock (blockAt diagonal n row)).mapError (Refusal.singularBlock row.val) with
    | error singular =>
        obtain ⟨row, _, failed⟩ := mapM_error factored
        simp only [factored] at ran
        cases ran
        cases factor : factorBlock (blockAt diagonal n row) with
        | error pivot =>
            rw [factor] at failed
            cases failed
            rfl
        | ok block =>
            rw [factor] at failed
            cases failed
    | ok blocks =>
        simp only [factored] at ran
        cases ran

end InverseDiagonal

namespace Solver

variable {α : Type}

/-- A setup on a device that answers, faults or refuses, each on its own condition. What it does
not accept leaves the buffers of the device as they were. -/
structure Judges (run : DeviceM α (Solver α)) (device : Device α) (accepts faults : Prop) :
    Prop where
  accepted : (∃ solver after, run device = (.ok solver, after)) ↔ accepts
  faulted : (∃ fault after, run device = (.error (.faulted fault), after) ∧
    after.Alike device) ↔ faults
  refused : (∃ refusal after, run device = (.error (.refused refusal), after) ∧
    refusal.kind = .precondition ∧ after.Alike device) ↔ ¬accepts ∧ ¬faults

section Judged

variable {run : DeviceM α (Solver α)} {device after : Device α} {accepts faults : Prop}

theorem Judges.of_ok {solver : Solver α} (ran : run device = (.ok solver, after))
    (fits : accepts) (counted : ¬faults) : Judges run device accepts faults := by
  refine ⟨iff_of_true ⟨solver, after, ran⟩ fits, iff_of_false ?_ counted,
    iff_of_false ?_ fun unfit => unfit.1 fits⟩
  · rintro ⟨_, _, faulted, _⟩
    rw [ran] at faulted
    cases faulted
  · rintro ⟨_, _, refused, _⟩
    rw [ran] at refused
    cases refused

theorem Judges.of_fault {fault : Fault} (ran : run device = (.error (.faulted fault), after))
    (alike : after.Alike device) (unfit : ¬accepts) (uncounted : faults) :
    Judges run device accepts faults := by
  refine ⟨iff_of_false ?_ unfit, iff_of_true ⟨fault, after, ran, alike⟩ uncounted,
    iff_of_false ?_ fun counted => counted.2 uncounted⟩
  · rintro ⟨_, _, answered⟩
    rw [ran] at answered
    cases answered
  · rintro ⟨_, _, refused, _⟩
    rw [ran] at refused
    cases refused

theorem Judges.of_refusal {refusal : Refusal α}
    (ran : run device = (.error (.refused refusal), after)) (kind : refusal.kind = .precondition)
    (alike : after.Alike device) (unfit : ¬accepts) (counted : ¬faults) :
    Judges run device accepts faults := by
  refine ⟨iff_of_false ?_ unfit, iff_of_false ?_ counted,
    iff_of_true ⟨refusal, after, ran, kind, alike⟩ ⟨unfit, counted⟩⟩
  · rintro ⟨_, _, answered⟩
    rw [ran] at answered
    cases answered
  · rintro ⟨_, _, faulted, _⟩
    rw [ran] at faulted
    cases faulted

theorem Judges.congr {run' : DeviceM α (Solver α)} {accepts' faults' : Prop}
    (judged : Judges run device accepts faults) (ran : run' device = run device)
    (fits : accepts ↔ accepts') (uncounted : faults ↔ faults') :
    Judges run' device accepts' faults' := by
  obtain rfl := propext fits
  obtain rfl := propext uncounted
  exact ⟨ran ▸ judged.accepted, ran ▸ judged.faulted, ran ▸ judged.refused⟩

end Judged

section Shapes

variable [Arithmetic α] {matrix : Matrix α} {inverse : InverseDiagonal α}

theorem setup_failed (name : String) (config : Config α) {failure : Failure α}
    (failed : checkShape matrix inverse = .error failure) (device : Device α) :
    (setupWithInverse name matrix config inverse : DeviceM α (Solver α)) device =
      (.error failure, device.report (.setupSpan name)) := by
  unfold setupWithInverse
  rw [modify_bind, failed]
  rfl

theorem setup_with_inverse_judges (name : String) (matrix : Matrix α) (config : Config α)
    (inverse : InverseDiagonal α) (device : Device α) :
    Judges (setupWithInverse name matrix config inverse) device (Accepts matrix inverse)
      (Uncounted matrix inverse) := by
  have began : (device.report (.setupSpan name)).Alike device := ⟨rfl, rfl⟩
  obtain ⟨checked, fits, counted⟩ | ⟨⟨fault, failed⟩, unfit, uncounted⟩ |
    ⟨refusal, failed, kind, unfit, counted⟩ := @check_shape_cases α matrix inverse
  · obtain ⟨solver, after, ran, _⟩ := setup_checked name config checked device
    exact .of_ok ran fits counted
  · exact .of_fault (setup_failed name config failed device) began unfit uncounted
  · exact .of_refusal (setup_failed name config failed device) kind began unfit counted

theorem setup_eq (name : String) (matrix : Matrix α) (config : Config α) (device : Device α) :
    (setup name matrix config : DeviceM α (Solver α)) device =
      match InverseDiagonal.factorize matrix.diagonal matrix.blockSize with
      | .error refusal => (.error (.refused refusal), device)
      | .ok inverse => setupWithInverse name matrix config inverse device := by
  unfold setup
  by_cases range : matrix.blockSize = 0 ∨ maxBlockSize < matrix.blockSize
  · rw [InverseDiagonal.factorize_of_range range, checkBlockSize, if_pos range]
    rfl
  · rw [checkBlockSize, if_neg range]
    cases InverseDiagonal.factorize matrix.diagonal matrix.blockSize <;> rfl

theorem accepts_factorized
    (factored : InverseDiagonal.factorize matrix.diagonal matrix.blockSize = .ok inverse) :
    Accepts matrix inverse ↔
      matrix.diagonal.size = matrix.rows * matrix.blockSize * matrix.blockSize ∧
        matrix.rows ≤ matrix.columns := by
  obtain ⟨range, same, size⟩ := InverseDiagonal.factorize_ok factored
  refine ⟨fun fits => ⟨fits.diagonal, fits.covers⟩, fun whole => ?_⟩
  refine ⟨range, same, ?_, whole.1, whole.2⟩
  have countable := InverseDiagonal.square_lt_limit range.2
  rw [InverseDiagonal.rows_of_positive (same ▸ range.1) (same ▸ countable), same, size, whole.1, Nat.mul_assoc,
    Nat.mul_div_cancel _ (Nat.mul_pos range.1 range.1)]

/-- A setup accepts a matrix and an inverse diagonal just when they fit, and refuses everything
else as a broken precondition, but for factors whose rows cannot be counted, on which it faults.
Left to factorize the diagonal, it refuses what the factorization refuses, and never faults. -/
theorem setup_judges_shapes (name : String) (matrix : Matrix α) (config : Config α)
    (device : Device α) :
    (∀ inverse, Judges (setupWithInverse name matrix config inverse) device
      (Accepts matrix inverse) (Uncounted matrix inverse)) ∧
    (setup name matrix config : DeviceM α (Solver α)) device =
      (match InverseDiagonal.factorize matrix.diagonal matrix.blockSize with
      | .error refusal => (.error (.refused refusal), device)
      | .ok inverse => setupWithInverse name matrix config inverse device) ∧
    Judges (setup name matrix config) device
      ((∃ inverse, InverseDiagonal.factorize matrix.diagonal matrix.blockSize = .ok inverse) ∧
        matrix.diagonal.size = matrix.rows * matrix.blockSize * matrix.blockSize ∧
        matrix.rows ≤ matrix.columns) False := by
  have judged := fun inverse => setup_with_inverse_judges name matrix config inverse device
  have stages := setup_eq name matrix config device
  refine ⟨judged, stages, ?_⟩
  cases factored : InverseDiagonal.factorize matrix.diagonal matrix.blockSize with
  | error refusal =>
      rw [factored] at stages
      refine .of_refusal stages (InverseDiagonal.factorize_refuses factored) (.refl device) ?_ id
      rintro ⟨⟨inverse, answered⟩, _⟩
      cases answered
  | ok inverse =>
      rw [factored] at stages
      obtain ⟨range, same, _⟩ := InverseDiagonal.factorize_ok factored
      refine (judged inverse).congr stages ((accepts_factorized factored).trans ?_)
        (iff_false_intro fun uncounted => ?_)
      · exact (and_iff_right ⟨inverse, rfl⟩).symm
      · rcases uncounted.2 with empty | beyond
        · exact Nat.ne_of_gt range.1 (same.symm.trans empty)
        · exact Nat.not_lt.mpr (same ▸ beyond) (InverseDiagonal.square_lt_limit range.2)

/-- A matrix of one row, and factors that no row can be counted in. -/
theorem factors_of_nothing_fault : ∃ matrix : Matrix Float,
    Matrix.assemble 1 1 1 #[2] [] = .ok matrix ∧
      (∃ last, (setupWithInverse "row" matrix .standard (.factors 0 #[1]))
        (Device.create .narrowest) = (.error (.faulted .divisionByZero), last)) ∧
      ∃ last, (setupWithInverse "row" matrix .standard (.factors (2 ^ 32) #[]))
        (Device.create .narrowest) = (.error (.faulted .overflow), last) := by
  have range : ¬(1 = 0 ∨ maxBlockSize < 1) := by decide
  refine ⟨_, Matrix.assemble_of_placed Nat.one_pos (Nat.le_refl 1) rfl ?_,
    ⟨_, setup_failed _ _ (check_shape_of_fault range rfl) _⟩,
    ⟨_, setup_failed _ _ (check_shape_of_fault range (by decide)) _⟩⟩
  exact fun _ member => absurd member List.not_mem_nil

end Shapes
end Solver
end Relaxation
