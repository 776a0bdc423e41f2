import Relaxation.Proofs.Alongside
import Relaxation.Proofs.Frame
import Relaxation.Proofs.HaloFrame
import Relaxation.Proofs.Refusal

/-!
Scratch on loan. What the lender has left in it cannot be told from the result of a solve,
with one exception: ghost values that no neighbor fills are read as they were lent.
-/

namespace Relaxation

variable {α β γ μ : Type}

namespace Collective

theorem Related.alongside {R : β → γ → Prop} {left : Collective α β} {right : Collective α γ}
    (related : Related R left right) : Alongside R left right := by
  induction related with
  | done holds => exact .done holds
  | sum _ ih => exact .sum ih
  | exchange _ ih => exact .exchange (fun _ => ih _) (fun _ _ => ⟨rfl, rfl⟩) fun _ _ => ih _

theorem alongside_refl {R : β → β → Prop} (program : Collective α β)
    (holds : ∀ result, program.Ends result → R result result) : Alongside R program program := by
  suffices related : Related R program program from related.alongside
  induction program with
  | done result => exact .done (holds result (.done result))
  | sum value next ih =>
      exact .sum fun total => ih total fun result ends => holds result (.sum total ends)
  | exchange neighbors owned ghost next ih =>
      exact .exchange fun answer => ih answer fun result ends =>
        holds result (.exchange answer ends)

end Collective

open Collective

namespace Matrix

/-- The halo of a matrix, if there is one, fills nothing behind the extended rows. Its blocks may
have a size of their own. -/
def HaloFits (matrix : Matrix α) : Prop :=
  ∀ halo ∈ matrix.halo, matrix.rows * halo.blockSize ≤ matrix.columns * matrix.blockSize ∧
    ∀ neighbor ∈ halo.neighbors,
      matrix.rows * halo.blockSize + neighbor.stop ≤ matrix.columns * matrix.blockSize

/-- A value that some neighbor fills before each product. -/
def Refreshes (matrix : Matrix α) (index : Nat) : Prop :=
  ∃ halo rank ranks, matrix.halo = some halo ∧ halo.communicator = .member rank ranks ∧
    matrix.rows * halo.blockSize ≤ index ∧
    ∃ neighbor ∈ halo.neighbors, neighbor.Covers (index - matrix.rows * halo.blockSize)

/-- What a matrix accepts fits, unless its blocks are wider than those of the matrix. -/
theorem halo_fits_of_accepted {matrix haloed : Matrix α} {communicator : Communicator}
    {neighbors : List Neighbor} {blockSize : Nat} (narrow : blockSize ≤ matrix.blockSize)
    (attached : matrix.withHalo (.ofBlockRows communicator neighbors blockSize) = .ok haloed) :
    haloed.HaloFits := by
  obtain ⟨rfl, covers, ghosts, _⟩ := with_halo_ok attached
  rintro _ ⟨⟩
  have wide := Nat.mul_le_mul_left matrix.columns narrow
  refine ⟨(Nat.mul_le_mul_right blockSize covers).trans wide, fun neighbor listed => ?_⟩
  have stop := (Halo.stop_le_of_ghost_rows neighbor listed).trans
    (Nat.mul_le_mul_right blockSize ghosts)
  rw [Nat.sub_mul] at stop
  have front := Nat.mul_le_mul_right blockSize covers
  change matrix.rows * blockSize + neighbor.stop ≤ matrix.columns * matrix.blockSize
  omega

end Matrix

namespace Solver

variable [Arithmetic α] {matrix : Matrix α} {sweep sweep' : Sweep} {left right : Device α}
  {known : Nat → Prop}

/-- Two devices on which the same sweep stands, each with a scratch of its own. What they hold
in their scratch is the same as far as it is known. -/
structure Twins (matrix : Matrix α) (known : Nat → Prop) (sweep sweep' : Sweep)
    (left right : Device α) : Prop where
  first : Fitting matrix sweep left
  second : Fitting matrix sweep' right
  kernel : sweep.kernel = sweep'.kernel
  geometry : sweep.geometry = sweep'.geometry
  sources : left.sources sweep = right.sources sweep'
  iterate : left.contents sweep.iterate = right.contents sweep'.iterate
  previous : ∀ index, index < matrix.columns * matrix.blockSize → known index →
    (left.contents sweep.previous)[index]? = (right.contents sweep'.previous)[index]?

namespace Twins

omit [Arithmetic α] in
theorem of_alike {left' right' : Device α} (twins : Twins matrix known sweep sweep' left right)
    (alike : left'.Alike left) (alike' : right'.Alike right) :
    Twins matrix known sweep sweep' left' right' where
  first := twins.first.of_sizes alike.width (by simp only [Device.sizes, alike.buffers])
  second := twins.second.of_sizes alike'.width (by simp only [Device.sizes, alike'.buffers])
  kernel := twins.kernel
  geometry := twins.geometry
  sources := by simpa only [Device.sources, alike.contents, alike'.contents] using twins.sources
  iterate := by simpa only [alike.contents, alike'.contents] using twins.iterate
  previous := by simpa only [alike.contents, alike'.contents] using twins.previous

omit [Arithmetic α] in
theorem mono {known' : Nat → Prop} (twins : Twins matrix known sweep sweep' left right)
    (less : ∀ index, index < matrix.columns * matrix.blockSize → known' index → known index) :
    Twins matrix known' sweep sweep' left right where
  first := twins.first
  second := twins.second
  kernel := twins.kernel
  geometry := twins.geometry
  sources := twins.sources
  iterate := twins.iterate
  previous index inside here := twins.previous index inside (less index inside here)

omit [Arithmetic α] in
theorem iterate_refilled (twins : Twins matrix known sweep sweep' left right) (front : Nat)
    (filled filled' : Array α) :
    (refilled front sweep left filled).contents sweep.iterate =
      (refilled front sweep' right filled').contents sweep'.iterate := by
  unfold refilled
  rw [Device.contents_store_other _ (Ne.symm twins.first.iterate_ne),
    Device.contents_store_other _ (Ne.symm twins.second.iterate_ne)]
  exact twins.iterate

omit [Arithmetic α] in
theorem front_eq (twins : Twins matrix known sweep sweep' left right) {front : Nat}
    (within : front ≤ matrix.columns * matrix.blockSize)
    (ahead : ∀ index, index < front → known index) :
    (left.contents sweep.previous).extract 0 front =
      (right.contents sweep'.previous).extract 0 front := by
  have long := twins.first.extended
  have long' := twins.second.extended
  apply Storage.extract_front
  · rw [Array.size_extract]
    omega
  · intro index bound
    rw [Array.getElem?_extract, if_pos (by omega), Nat.zero_add]
    exact twins.previous index (by omega) (ahead index bound)

omit [Arithmetic α] in
theorem behind_eq (twins : Twins matrix known sweep sweep' left right) {front index : Nat}
    (bound : front + index < matrix.columns * matrix.blockSize) (here : known (front + index)) :
    ((left.contents sweep.previous).extract front (left.contents sweep.previous).size)[index]? =
      ((right.contents sweep'.previous).extract front
        (right.contents sweep'.previous).size)[index]? := by
  have long := twins.first.extended
  have long' := twins.second.extended
  rw [Array.getElem?_extract, Array.getElem?_extract, if_pos (by omega), if_pos (by omega)]
  exact twins.previous _ bound here

omit [Arithmetic α] in
theorem refill (twins : Twins matrix known sweep sweep' left right) {front : Nat}
    (within : front ≤ matrix.columns * matrix.blockSize)
    (ahead : ∀ index, index < front → known index) (filled filled' : Array α)
    (size : filled.size = (left.contents sweep.previous).size - front)
    (size' : filled'.size = (right.contents sweep'.previous).size - front)
    (same : ∀ index, front + index < matrix.columns * matrix.blockSize →
      filled[index]? = filled'[index]?) :
    Twins matrix (fun _ => True) sweep sweep' (refilled front sweep left filled)
      (refilled front sweep' right filled') where
  first := fitting_refilled twins.first within size
  second := fitting_refilled twins.second within size'
  kernel := twins.kernel
  geometry := twins.geometry
  sources := by
    rw [sources_refilled twins.first, sources_refilled twins.second]
    exact twins.sources
  iterate := twins.iterate_refilled front filled filled'
  previous index inside _ := by
    have long := twins.first.extended
    have long' := twins.second.extended
    rw [contents_refilled twins.first within size, contents_refilled twins.second within size',
      Array.getElem?_append, Array.getElem?_append, Array.size_extract, Array.size_extract]
    by_cases before : index < front
    · rw [if_pos (by omega), if_pos (by omega), Array.getElem?_extract, Array.getElem?_extract,
        if_pos (by omega), if_pos (by omega), Nat.zero_add]
      exact twins.previous index inside (ahead index before)
    · rw [if_neg (by omega), if_neg (by omega)]
      have split : index - (min front (left.contents sweep.previous).size - 0) =
          index - (min front (right.contents sweep'.previous).size - 0) := by
        omega
      rw [split]
      exact same _ (by omega)

section Known

variable (twins : Twins matrix (fun _ => True) sweep sweep' left right)

include twins

theorem square_eq : square matrix sweep left = square matrix sweep' right := by
  rw [Solver.square_eq twins.first twins.second.extended fun index inside =>
      twins.previous index inside trivial,
    Solver.square_eq twins.second twins.second.extended fun _ _ => rfl, twins.kernel,
    twins.geometry, twins.sources]

theorem advance_eq :
    advance matrix sweep (left.sources sweep) (left.contents sweep.iterate)
        (left.contents sweep.previous) =
      advance matrix sweep' (right.sources sweep') (right.contents sweep'.iterate)
        (right.contents sweep'.previous) := by
  rw [Solver.advance_eq twins.first twins.second.extended fun index inside =>
      twins.previous index inside trivial,
    Solver.advance_eq twins.second twins.second.extended fun _ _ => rfl, twins.kernel,
    twins.sources]

theorem advanced {left' right' : Device α} (advanced : Advanced matrix sweep left left')
    (advanced' : Advanced matrix sweep' right right') :
    Twins matrix (fun _ => True) sweep sweep' left' right' where
  first := twins.first.of_sizes advanced.width advanced.sizes
  second := twins.second.of_sizes advanced'.width advanced'.sizes
  kernel := twins.kernel
  geometry := twins.geometry
  sources := by
    rw [advanced.sources twins.first, advanced'.sources twins.second]
    exact twins.sources
  iterate := by rw [advanced.iterate, advanced'.iterate, twins.advance_eq, twins.iterate]
  previous index inside _ := by
    have long := twins.first.extended
    have long' := twins.second.extended
    rw [advanced.previous, advanced'.previous, twins.advance_eq, Storage.getElem?_overwrite,
      Storage.getElem?_overwrite, twins.previous index inside trivial]
    simp only [Nat.lt_of_lt_of_le inside long, Nat.lt_of_lt_of_le inside long']

end Known
end Twins

omit [Arithmetic α] in
theorem Twins.meets (fits : matrix.HaloFits)
    (twins : Twins matrix (fun index => ¬ matrix.Refreshes index) sweep sweep' left right) :
    Alongside (fun a b => a.1 = b.1 ∧
        a.2.contents sweep.iterate = b.2.contents sweep'.iterate ∧
        (a.1 = .ok () → Twins matrix (fun _ => True) sweep sweep' a.2 b.2))
      (matrix.refresh sweep.previous left) (matrix.refresh sweep'.previous right) := by
  have long := twins.first.extended
  have long' := twins.second.extended
  cases present : matrix.halo with
  | none =>
      rw [Matrix.refresh_alone present, Matrix.refresh_alone present]
      refine .done ⟨rfl, twins.iterate, fun _ => twins.mono fun _ _ _ => ?_⟩
      rintro ⟨halo, _, _, found, _⟩
      rw [present] at found
      cases found
  | some halo =>
      obtain ⟨within, inside⟩ := fits halo present
      generalize split : matrix.rows * halo.blockSize = front at within inside
      have ahead : ∀ index, index < front → ¬ matrix.Refreshes index := by
        rintro index before ⟨_, _, _, found, _, behind, _⟩
        rw [present] at found
        cases found
        omega
      cases communicator : halo.communicator with
      | alone =>
          rw [Matrix.refresh_lone present communicator (by omega),
            Matrix.refresh_lone present communicator (by omega), split]
          refine .done ⟨rfl, twins.iterate_refilled front _ _, fun _ => ?_⟩
          refine twins.refill within ahead _ _ (by simp) (by simp) fun index bound =>
            twins.behind_eq bound ?_
          rintro ⟨_, _, _, found, member, _⟩
          rw [present] at found
          cases found
          rw [communicator] at member
          cases member
      | member rank ranks =>
          rw [Matrix.refresh_member present communicator (by omega),
            Matrix.refresh_member present communicator (by omega), split]
          have sent := twins.front_eq within ahead
          have refilled' : ∀ filled, refilled front sweep left filled = left.store sweep.previous
              ((right.contents sweep'.previous).extract 0 front ++ filled) := fun filled => by
            rw [← sent]
            rfl
          rw [sent]
          have stops : ∀ neighbor ∈ halo.neighbors,
              neighbor.stop ≤ matrix.columns * matrix.blockSize - front := fun neighbor listed => by
            have stop := inside neighbor listed
            omega
          apply alongside_exchange stops
          · simp only [Array.size_extract]
            omega
          · simp only [Array.size_extract]
            omega
          · intro fault filled filled' _ _
            have kept := twins.iterate_refilled front filled filled'
            rw [refilled'] at kept
            exact .done ⟨rfl, kept, fun failed => nomatch failed⟩
          · intro filled filled' size size' same
            have kept := twins.iterate_refilled front filled filled'
            have current := twins.refill within ahead filled filled'
              (by simpa using size) (by simpa using size')
            rw [refilled'] at kept current
            refine .done ⟨rfl, kept, fun _ => current fun index bound => same index ?_⟩
            by_cases filling : matrix.Refreshes (front + index)
            · obtain ⟨_, _, _, found, _, _, neighbor, listed, covers⟩ := filling
              rw [present] at found
              cases found
              rw [split, Nat.add_sub_cancel_left] at covers
              exact .inl ⟨neighbor, listed, covers⟩
            · exact .inr (twins.behind_eq bound filling)

variable [SquareRoot α] {solver : Solver α} {policy : Policy α μ} {scope scope' : SolveScope α μ}

/-- What the caller of a solve sees: the outcome, up to the origin of its scratch, the last
iterate, and what the policy has made of its queries. -/
def shown (iterate : Buffer) (finished : Except (Failure α) (Outcome α) × SolveScope α μ) :
    Except (Failure α) (Outcome α) × Array α × μ :=
  (finished.1.map fun outcome => { outcome with scratch := none },
    finished.2.device.contents iterate, finished.2.memory)

omit [Arithmetic α] [SquareRoot α] in
theorem shown_eq {iterate : Buffer} {result result' : Except (Failure α) (Outcome α)}
    {last last' : SolveScope α μ}
    (results : result.map (fun outcome => { outcome with scratch := none }) =
      result'.map fun outcome => { outcome with scratch := none })
    (iterates : last.device.contents iterate = last'.device.contents iterate)
    (memory : last.memory = last'.memory) :
    shown iterate (result, last) = shown iterate (result', last') :=
  Prod.ext results (Prod.ext iterates memory)

omit [Arithmetic α] [SquareRoot α] in
theorem shown_of_seen (iterate : Buffer)
    {first second : Except (Failure α) (Outcome α) × SolveScope α μ}
    (same : seen first = seen second) : shown iterate first = shown iterate second := by
  obtain ⟨result, rest⟩ := Prod.ext_iff.mp same
  obtain ⟨buffers, rest⟩ := Prod.ext_iff.mp rest
  obtain ⟨_, memory⟩ := Prod.ext_iff.mp rest
  refine shown_eq (congrArg _ result) ?_ memory
  simp only [Device.contents, show first.2.device.buffers = second.2.device.buffers from buffers]

theorem Twins.sweeps (fits : matrix.HaloFits)
    (twins : Twins matrix (fun index => ¬ matrix.Refreshes index) sweep sweep' scope.device
      scope'.device) (memory : scope.memory = scope'.memory) :
    Alongside (fun a b => a.2.memory = b.2.memory ∧ ((∃ failure, a.1 = .error failure ∧
          b.1 = .error failure ∧
          a.2.device.contents sweep.iterate = b.2.device.contents sweep'.iterate) ∨
        ∃ residual, a.1 = .ok (residual, .direct) ∧ b.1 = .ok (residual, .direct) ∧
          Twins matrix (fun _ => True) sweep sweep' a.2.device b.2.device))
      (solver.sweepOnce matrix sweep .direct scope)
      (solver.sweepOnce matrix sweep' .direct scope') := by
  rw [sweep_once_eq solver .direct twins.first, sweep_once_eq solver .direct twins.second, meet_bind,
    meet_bind]
  unfold SolveM.onDevice
  change Alongside _ (Collective.bind (Collective.bind _ _) _) (Collective.bind (Collective.bind _ _) _)
  rw [Collective.bind_assoc, Collective.bind_assoc]
  apply alongside_bind (twins.meets fits)
  rintro ⟨outcome, left⟩ ⟨outcome', right⟩ ⟨same, kept, current⟩
  cases (show outcome = outcome' from same)
  cases outcome with
  | error failure => exact .done ⟨memory, .inl ⟨failure, rfl, rfl, kept⟩⟩
  | ok =>
      have known := current rfl
      obtain ⟨after, ran, advanced⟩ := finish_sweep_run solver { scope with device := left } known.first
      obtain ⟨after', ran', advanced'⟩ :=
        finish_sweep_run solver { scope' with device := right } known.second
      change Alongside _ (solver.finishSweep matrix sweep .direct { scope with device := left })
        (solver.finishSweep matrix sweep' .direct { scope' with device := right })
      rw [ran, ran']
      dsimp only
      rw [known.square_eq]
      apply alongside_bind (R := Eq) (alongside_refl _ fun _ _ => rfl)
      rintro total _ rfl
      exact .done ⟨memory, .inr ⟨_, rfl, rfl, known.advanced advanced advanced'⟩⟩

theorem Twins.iterates (fits : matrix.HaloFits) (origin origin' : ScratchOrigin) (remaining : Nat)
    (progress : Progress α) (history : Array α)
    (twins : Twins matrix (fun index => ¬ matrix.Refreshes index) sweep sweep' scope.device
      scope'.device) (memory : scope.memory = scope'.memory) (same : sweep.iterate = sweep'.iterate) :
    Alongside (fun a b => shown sweep.iterate a = shown sweep.iterate b)
      (solver.iterate matrix policy sweep origin remaining .direct progress history scope)
      (solver.iterate matrix policy sweep' origin' remaining .direct progress history scope') := by
  -- the induction is on what the iteration counter can still count
  induction remaining generalizing progress history scope scope' with
  | zero =>
      have held := twins.iterate
      rw [← same] at held
      exact .done (shown_eq rfl held memory)
  | succ remaining ih =>
      rw [iterate_succ, iterate_succ, meet_bind, meet_bind]
      apply alongside_bind (twins.sweeps fits memory)
      rintro ⟨result, after⟩ ⟨result', after'⟩
        ⟨memory, ⟨failure, rfl, rfl, kept⟩ | ⟨residual, rfl, rfl, twins'⟩⟩
      · rw [← same] at kept
        exact .done (shown_eq rfl kept memory)
      obtain ⟨asked, alike, told, judged⟩ := solver.judge_run matrix policy sweep origin remaining
        .direct progress history residual after
      obtain ⟨asked', alike', told', judged'⟩ := solver.judge_run matrix policy sweep' origin'
        remaining .direct progress history residual after'
      rw [show after.memory = after'.memory from memory] at told judged
      have still := twins'.of_alike alike alike'
      dsimp only
      rw [judged, judged']
      split
      · have held := still.iterate
        rw [← same] at held
        exact .done (shown_eq rfl held (told.trans told'.symm))
      · exact ih _ _ (still.mono fun _ _ _ => trivial) (told.trans told'.symm)

variable {matrix : Matrix α} {request : Request α}

omit [Arithmetic α] [SquareRoot α] in
theorem Lent.keeping {auxiliary : Option Buffer}
    (lent : Lent solver { request with auxiliary } left) :
    Lent solver { request with auxiliary := none } left :=
  ⟨lent.rhsHeld, lent.iterateHeld, lent.rhsLong, lent.iterateLong, lent.iterateApart, by simp⟩

theorem relax_alongside {auxiliary : Buffer} (fits : matrix.HaloFits)
    (installed : Installed solver matrix scope.device)
    (lent : Lent solver { request with auxiliary := some auxiliary } scope.device)
    (direct : solver.config.launch = .direct)
    (enough : matrix.columns * solver.kernel.blockSize ≤ (scope.device.contents auxiliary).size)
    (quiet : ∀ index, solver.owned ≤ index → index < matrix.columns * solver.kernel.blockSize →
      ¬ matrix.Refreshes index → (scope.device.contents auxiliary)[index]? = some 0)
    (memory : scope.memory = scope'.memory) (alike : scope'.device.Alike scope.device) :
    Alongside (fun a b => shown request.iterate a = shown request.iterate b)
      (solver.relax matrix { request with auxiliary := none } policy scope)
      (solver.relax matrix { request with auxiliary := some auxiliary } policy scope') := by
  obtain ⟨sweep, origin, after, ran, begun⟩ := relax_run policy scope installed lent.keeping
  obtain ⟨sweep', origin', after', ran', begun'⟩ := relax_run policy scope'
    (installed.of_extends (.of_alike alike)) (lent.of_extends (.of_alike alike))
  have handle : sweep.iterate = request.iterate := begun.handle
  have handle' : sweep'.iterate = request.iterate := begun'.handle
  have twins : Twins matrix (fun index => ¬ matrix.Refreshes index) sweep sweep' after after' := by
    refine ⟨begun.fitting, begun'.fitting, begun.kernel.trans begun'.kernel.symm, ?_, ?_, ?_,
      fun index inside still => ?_⟩
    · rw [begun.fitting.ready.geometry, begun'.fitting.ready.geometry, begun.rows, begun'.rows,
        Device.geometry, Device.geometry, begun.width, begun'.width, alike.width]
    · rw [begun.sources, begun'.sources]
      simp only [alike.contents]
    · rw [begun.iterate, begun'.iterate, alike.contents]
    · by_cases owned : index < solver.owned
      · rw [begun.previous index owned, begun'.previous index owned, alike.contents]
      · rw [installed.blockSize] at inside
        rw [begun.ghosts index (Nat.not_lt.mp owned), begun'.ghosts index (Nat.not_lt.mp owned)]
        dsimp only [scratchValues]
        rw [alike.contents, if_pos enough, quiet index (Nat.not_lt.mp owned) inside still,
          Array.getElem?_replicate, if_pos (lt_max_of_lt_left inside)]
  rw [ran, ran', direct, ← handle]
  exact twins.iterates fits origin origin' _ _ _ memory (handle.trans handle'.symm)

theorem relax_short {auxiliary : Buffer} (direct : solver.config.launch = .direct)
    (short : (scope.device.contents auxiliary).size < matrix.columns * solver.kernel.blockSize) :
    Alongside (fun a b => shown request.iterate a = shown request.iterate b)
      (solver.relax matrix { request with auxiliary := none } policy scope)
      (solver.relax matrix { request with auxiliary := some auxiliary } policy scope) := by
  generalize told : scope.device.report (.scratchTooSmall (scope.device.contents auxiliary).size
    (matrix.columns * solver.kernel.blockSize)) = device
  have alike : device.Alike scope.device := by
    subst told
    exact ⟨rfl, rfl⟩
  have allocates : solver.relax matrix { request with auxiliary := some auxiliary } policy scope =
      solver.relax matrix { request with auxiliary := none } policy { scope with device := device } := by
    rw [relax_eq, relax_eq, meet_bind, meet_bind]
    unfold scratch
    change (Collective.bind ((if _ then _ else _ : SolveM α μ (Buffer × ScratchOrigin)) scope) _) = _
    rw [if_neg (Nat.not_le.mpr short)]
    subst told
    rfl
  have moded : solver.withLaunch .direct = solver := by
    unfold withLaunch
    rw [← direct]
  -- both are seen as with a captured graph, which ends alike on alike devices
  have seen_graph : ∀ first : SolveScope α μ, first.Alike scope →
      seen <$> solver.relax matrix { request with auxiliary := none } policy first =
        seen <$> (solver.withLaunch .graph).relax matrix { request with auxiliary := none } policy
          scope := by
    intro first alike
    have agreed := solver.agree_relax matrix { request with auxiliary := none } policy first scope alike
    rw [moded] at agreed
    exact map_eq_of_related (agreed.mono fun _ _ => seen_eq)
  have same := (seen_graph scope ⟨⟨rfl, rfl⟩, rfl, rfl⟩).trans
    (seen_graph { scope with device := device } ⟨alike, rfl, rfl⟩).symm
  rw [allocates]
  refine ((related_of_map_eq same).mono fun a b equal => ?_).alongside
  exact shown_of_seen request.iterate equal

omit [Arithmetic α] [SquareRoot α] in
theorem validate_scratch {auxiliary : Buffer} {device : Device α}
    (apart : auxiliary ≠ request.iterate ∧ auxiliary ≠ request.rhs) :
    solver.validate matrix { request with auxiliary := none } device =
      solver.validate matrix { request with auxiliary := some auxiliary } device := by
  simp [validate, apart.1, apart.2]

theorem solve_alongside {first second : Option Buffer}
    (checked : solver.validate matrix { request with auxiliary := first } scope.device =
      solver.validate matrix { request with auxiliary := second } scope.device)
    (relaxed : solver.validate matrix { request with auxiliary := second } scope.device = .ok () →
      ∀ after : SolveScope α μ, after.device.Alike scope.device → after.memory = scope.memory →
        Alongside (fun a b => shown request.iterate a = shown request.iterate b)
          (solver.relax matrix { request with auxiliary := first } policy after)
          (solver.relax matrix { request with auxiliary := second } policy after)) :
    Alongside (fun a b => shown request.iterate a = shown request.iterate b)
      (solver.solve matrix { request with auxiliary := first } policy scope)
      (solver.solve matrix { request with auxiliary := second } policy scope) := by
  generalize told : scope.device.report
    (.solveSpan solver.name solver.kernel.name Device.label) = device
  have begins : ∀ auxiliary, solver.solve matrix { request with auxiliary } policy scope =
      (Failure.ofRefusal (solver.validate matrix { request with auxiliary } scope.device) >>=
        fun _ => solver.endsAtOnce request >>=
          solver.conclude matrix { request with auxiliary } policy : SolveM α μ (Outcome α))
        { scope with device := device } := by
    intro auxiliary
    rw [solve_eq]
    subst told
    rfl
  rw [begins, begins, checked]
  cases passed : solver.validate matrix { request with auxiliary := second } scope.device with
  | error refusal => exact .done rfl
  | ok =>
      change Alongside _ ((solver.endsAtOnce request >>= _ : SolveM α μ (Outcome α))
          { scope with device := device })
        ((solver.endsAtOnce request >>= _ : SolveM α μ (Outcome α)) { scope with device := device })
      rw [meet_bind, meet_bind]
      apply alongside_bind (R := fun a b => a = b ∧ Ends _ a)
        (alongside_refl _ fun _ ends => ⟨rfl, ends⟩)
      rintro ⟨answer, after⟩ _ ⟨rfl, ends⟩
      have unread : Device.Unread fun device : Device α => (device.width, device.buffers) :=
        fun _ => rfl
      have kept := ends_at_once_leaves unread solver request _ _ _ ends
      subst told
      have same : after.device.Alike scope.device :=
        ⟨congrArg (·.1.1) kept, congrArg (·.1.2) kept⟩
      cases answer with
      | error failure => exact .done rfl
      | ok now =>
          unfold conclude
          dsimp only
          cases now with
          | true =>
              rw [if_pos rfl, if_pos rfl]
              exact alongside_refl _ fun _ _ => rfl
          | false =>
              rw [if_neg Bool.false_ne_true, if_neg Bool.false_ne_true]
              exact relaxed passed after same (congrArg (·.2.2) kept)

section Lender

variable (solver : Solver α) (matrix : Matrix α) (request : Request α) (policy : Policy α μ)
  (scope : SolveScope α μ)

def shownWith (auxiliary : Option Buffer) :
    Collective α (Except (Failure α) (Outcome α) × Array α × μ) :=
  shown request.iterate <$> solver.solve matrix { request with auxiliary } policy scope

theorem shown_with_direct (auxiliary : Option Buffer) :
    solver.shownWith matrix request policy scope auxiliary =
      (solver.withLaunch .direct).shownWith matrix request policy scope auxiliary := by
  have same := solver.seen_solve matrix { request with auxiliary } policy scope solver.config.launch
  exact map_eq_of_related ((related_of_map_eq same).mono fun _ _ equal => shown_of_seen _ equal)

/-- In any group a rank with this scratch can take the place of the same rank without any: the
results of all ranks are then the same, in every interleaving. -/
def ScratchUnseen (auxiliary : Buffer) : Prop :=
  ∀ programs rank results,
    programs[rank]? = some (solver.shownWith matrix request policy scope none) →
      (Group.Reaches (programs.set rank
          (solver.shownWith matrix request policy scope (some auxiliary))) results ↔
        Group.Reaches programs results)

variable {solver matrix request policy scope}

theorem scratch_unseen {auxiliary : Buffer}
    (apart : auxiliary ≠ request.iterate ∧ auxiliary ≠ request.rhs)
    (relaxed : (solver.withLaunch .direct).validate matrix
        { request with auxiliary := some auxiliary } scope.device = .ok () →
      ∀ after : SolveScope α μ, after.device.Alike scope.device → after.memory = scope.memory →
        Alongside (fun a b => shown request.iterate a = shown request.iterate b)
          ((solver.withLaunch .direct).relax matrix { request with auxiliary := none } policy after)
          ((solver.withLaunch .direct).relax matrix { request with auxiliary := some auxiliary }
            policy after)) :
    solver.ScratchUnseen matrix request policy scope auxiliary := by
  intro programs rank results found
  refine Group.reaches_set_iff found ?_ results
  rw [shown_with_direct, solver.shown_with_direct]
  apply alongside_bind (solve_alongside (validate_scratch apart) relaxed)
  exact fun first second same => .done same

variable (solver matrix request policy scope)

/-- Scratch on loan that is too short makes no difference to what the caller of a solve sees, and
is left alone. Scratch that is long enough makes none when each of its ghost values that no
neighbor fills is zero. -/
theorem auxiliary_is_scratch (auxiliary : Buffer) (held : scope.device.Holds auxiliary)
    (apart : auxiliary ≠ request.iterate ∧ auxiliary ≠ request.rhs) :
    ((scope.device.contents auxiliary).size < matrix.columns * solver.kernel.blockSize →
      solver.ScratchUnseen matrix request policy scope auxiliary ∧
      ∀ result last, (solver.solve matrix { request with auxiliary := some auxiliary } policy
          scope).Ends (result, last) →
        last.device.contents auxiliary = scope.device.contents auxiliary) ∧
    (matrix.columns * solver.kernel.blockSize ≤ (scope.device.contents auxiliary).size →
      Furnished solver scope.device →
      (∀ buffer ∈ ({ request with auxiliary := some auxiliary } : Request α).buffers,
        scope.device.Holds buffer ∧ buffer ∉ [solver.diagonal, solver.inverse]) →
      matrix.Sound → matrix.HaloFits →
      (∀ index, solver.owned ≤ index → index < matrix.columns * solver.kernel.blockSize →
        ¬ matrix.Refreshes index → (scope.device.contents auxiliary)[index]? = some 0) →
      solver.ScratchUnseen matrix request policy scope auxiliary) := by
  refine ⟨fun short => ⟨?_, fun result last ends => ?_⟩,
    fun enough furnished foreign sound fits quiet => ?_⟩
  · refine scratch_unseen apart fun _ after alike _ => relax_short rfl ?_
    rw [alike.contents]
    exact short
  · have named : auxiliary ≠ ({ request with auxiliary := some auxiliary } : Request α).iterate :=
      apart.1
    refine solve_leaves named (fun _ => short) ?_ held ends
    rintro _ ⟨⟩
    exact held
  · refine scratch_unseen apart fun passed after alike _ => ?_
    obtain ⟨⟨rows, blockSize⟩, _⟩ := validate_ok_iff.mp passed
    have lent := lent_of_validate passed foreign
    have installed := (furnished.installed sound rows blockSize).with_launch .direct
    refine relax_alongside fits (installed.of_extends (.of_alike alike))
      (lent.of_extends (.of_alike alike)) rfl ?_ ?_ rfl ⟨rfl, rfl⟩
    · rw [alike.contents]
      exact enough
    · rw [alike.contents]
      exact quiet

end Lender

def ghostedRow : Matrix ℚ :=
  ⟨1, 2, 1, #[2], #[-1], #[1], #[0, 1], none⟩

def ghostedSolver : Solver ℚ :=
  ⟨"ghost", { Config.standard with maxIterations := 1 }, .scalar, 1, ⟨0⟩, ⟨1⟩, .alone, {}⟩

/-- The row's system, and three vectors to lend: one with a ghost value left over in it, one
with an owned value left over, and one that is too short. -/
def ghostedDevice : Device ℚ :=
  ⟨.narrowest, #[#[2], #[1 / 2], #[2], #[0], #[0, 5], #[7, 0], #[7]], {}, #[]⟩

/-- A single iteration, whose squares are not of interest. -/
def ghostedSolve (auxiliary : Option Buffer) :
    Collective ℚ (Except (Failure ℚ) (Outcome ℚ) × Array ℚ × Option (Best ℚ)) :=
  @shownWith ℚ (Option (Best ℚ)) _ ⟨id⟩ ghostedSolver ghostedRow ⟨⟨2⟩, ⟨3⟩, 1, none⟩ (.residual none)
    ⟨ghostedDevice, {}, none⟩ auxiliary

def ghostedLeft (auxiliary : Option Buffer) : Option (Array ℚ) :=
  match ghostedSolve auxiliary with
  | .done (.ok _, values, _) => some values
  | _ => none

theorem ghosted_left_allocated : ghostedLeft none = some #[1] := by
  decide +kernel

theorem quiet_scratch_unseen :
    ∃ outcome memory,
      Group.Reaches [ghostedSolve (some ⟨5⟩)] [some (.ok outcome, #[1], memory)] ∧
      Group.Reaches [ghostedSolve (some ⟨6⟩)] [some (.ok outcome, #[1], memory)] := by
  let root : SquareRoot ℚ := ⟨id⟩
  have left := ghosted_left_allocated
  unfold ghostedLeft at left
  split at left
  · rename_i outcome values memory ended
    cases left
    have sound : ghostedRow.Sound := by
      refine ⟨by decide, by decide, rfl, rfl, fun row inside => ?_, rfl, by decide⟩
      obtain rfl : row = 0 := Nat.lt_one_iff.mp inside
      decide
    have furnished : Furnished ghostedSolver ghostedDevice :=
      ⟨by decide, by decide, (by decide : 0 < 7), (by decide : 1 < 7), by decide, by decide⟩
    have foreign : ∀ buffer ∈ (⟨⟨2⟩, ⟨3⟩, 1, some ⟨5⟩⟩ : Request ℚ).buffers,
        ghostedDevice.Holds buffer ∧ buffer ∉ [ghostedSolver.diagonal, ghostedSolver.inverse] := by
      decide
    have quiet : ∀ index, 1 ≤ index → index < 2 → (#[7, 0] : Array ℚ)[index]? = some 0 := by
      intro index behind inside
      obtain rfl : index = 1 := Nat.le_antisymm (Nat.le_of_lt_succ inside) behind
      rfl
    have long := (auxiliary_is_scratch ghostedSolver ghostedRow ⟨⟨2⟩, ⟨3⟩, 1, none⟩
      (Policy.residual none) ⟨ghostedDevice, {}, none⟩ ⟨5⟩ (by decide : 5 < 7) (by decide)).2
      (by decide) furnished foreign sound (by rintro _ ⟨⟩) fun index behind inside _ =>
        quiet index behind inside
    have short := ((auxiliary_is_scratch ghostedSolver ghostedRow ⟨⟨2⟩, ⟨3⟩, 1, none⟩
      (Policy.residual none) ⟨ghostedDevice, {}, none⟩ ⟨6⟩ (by decide : 6 < 7) (by decide)).1
      (by decide)).1
    have alone : Group.Reaches [ghostedSolve none] [some (.ok outcome, #[1], memory)] := by
      refine ⟨_, .refl _, ?_⟩
      rw [ended]
      rfl
    exact ⟨outcome, memory, (long [ghostedSolve none] 0 _ rfl).mpr alone,
      (short [ghostedSolve none] 0 _ rfl).mpr alone⟩
  · cases left

/-- A ghost value that nobody fills is read as it was lent, where scratch that the solve
allocates has a zero. -/
theorem stale_ghost_is_read :
    ghostedLeft none = some #[1] ∧ ghostedLeft (some ⟨4⟩) = some #[7 / 2] := by
  refine ⟨ghosted_left_allocated, ?_⟩
  decide +kernel

end Solver
end Relaxation
