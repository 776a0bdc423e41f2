import Relaxation.Solver
import Relaxation.Proofs.Program

/-!
Runs that agree. Two devices with the same buffers answer every call alike, and
keep the same buffers, whatever they have counted and reported before. The same
holds of programs with collective calls, call by call.
-/

namespace Relaxation

variable {α β γ δ ζ μ : Type}

/-- Two results that are both the same failure, or both answers that `R` relates. -/
inductive SameResult {ε : Type} (R : β → γ → Prop) : Except ε β → Except ε γ → Prop where
  | ok {left : β} {right : γ} (related : R left right) : SameResult R (.ok left) (.ok right)
  | error (failure : ε) : SameResult R (.error failure) (.error failure)

theorem SameResult.refl {ε : Type} (result : Except ε β) : SameResult Eq result result := by
  cases result with
  | ok value => exact .ok rfl
  | error failure => exact .error failure

namespace Device

structure Alike (left right : Device α) : Prop where
  width : left.width = right.width
  buffers : left.buffers = right.buffers

theorem Alike.refl (device : Device α) : Alike device device :=
  ⟨rfl, rfl⟩

variable {left right : Device α}

theorem Alike.contents (alike : Alike left right) (buffer : Buffer) :
    left.contents buffer = right.contents buffer := by
  simp only [Device.contents, alike.buffers]

theorem Alike.geometry (alike : Alike left right) (rows : Nat) :
    left.geometry rows = right.geometry rows := by
  simp only [Device.geometry, alike.width]

theorem Alike.store (alike : Alike left right) (buffer : Buffer) (values : Array α) :
    Alike (left.store buffer values) (right.store buffer values) := by
  refine ⟨alike.width, ?_⟩
  simp only [Device.store, alike.buffers]

theorem Alike.count (alike : Alike left right) (first second : Counters → Counters) :
    Alike (left.count first) (right.count second) :=
  ⟨alike.width, alike.buffers⟩

theorem Alike.report_left (alike : Alike left right) (event : Event α) :
    Alike (left.report event) right :=
  ⟨alike.width, alike.buffers⟩

theorem Alike.report_right (alike : Alike left right) (event : Event α) :
    Alike left (right.report event) :=
  ⟨alike.width, alike.buffers⟩

end Device

namespace DeviceM

open Device

def AgreeAt (R : β → γ → Prop) (first : DeviceM α β) (second : DeviceM α γ)
    (left right : Device α) : Prop :=
  SameResult R (first left).1 (second right).1 ∧ Alike (first left).2 (second right).2

/-- Two calls that answer alike from every two devices with the same buffers. -/
def Agree (R : β → γ → Prop) (first : DeviceM α β) (second : DeviceM α γ) : Prop :=
  ∀ left right, Alike left right → AgreeAt R first second left right

theorem agree_pure {R : β → γ → Prop} {first : β} {second : γ} (related : R first second) :
    Agree R (pure first : DeviceM α β) (pure second) :=
  fun _ _ alike => ⟨.ok related, alike⟩

theorem agree_throw (R : β → γ → Prop) (failure : Failure α) :
    Agree R (throw failure : DeviceM α β) (throw failure) :=
  fun _ _ alike => ⟨.error failure, alike⟩

theorem agree_bind {R : β → γ → Prop} {S : δ → ζ → Prop} {first : DeviceM α β}
    {second : DeviceM α γ} {firstNext : β → DeviceM α δ} {secondNext : γ → DeviceM α ζ}
    (heads : Agree R first second)
    (tails : ∀ a b, R a b → Agree S (firstNext a) (secondNext b)) :
    Agree S (first >>= firstNext) (second >>= secondNext) := by
  intro left right alike
  obtain ⟨same, kept⟩ := heads left right alike
  unfold AgreeAt
  rcases ran : first left with ⟨result, after⟩
  rcases ran' : second right with ⟨result', after'⟩
  rw [ran, ran'] at same
  rw [ran, ran'] at kept
  cases same with
  | ok related =>
      rw [bind_of_ok ran, bind_of_ok ran']
      exact tails _ _ related _ _ kept
  | error failure =>
      rw [bind_of_error ran, bind_of_error ran']
      exact ⟨.error failure, kept⟩

theorem agree_get {R : β → γ → Prop} {first : Device α → DeviceM α β}
    {second : Device α → DeviceM α γ}
    (reads : ∀ left right, Alike left right → Agree R (first left) (second right)) :
    Agree R (get >>= first) (get >>= second) :=
  fun left right alike => reads left right alike left right alike

theorem agree_modify {first second : Device α → Device α}
    (changes : ∀ left right, Alike left right → Alike (first left) (second right)) :
    Agree Eq (modify first : DeviceM α PUnit) (modify second) :=
  fun left right alike => ⟨.ok rfl, changes left right alike⟩

theorem agree_set {first second : Device α} (alike : Alike first second) :
    Agree Eq (set first : DeviceM α PUnit) (set second) :=
  fun _ _ _ => ⟨.ok rfl, alike⟩

theorem agree_ite {R : β → γ → Prop} {p : Prop} [Decidable p] {first first' : DeviceM α β}
    {second second' : DeviceM α γ} (holds : Agree R first second) (fails : Agree R first' second') :
    Agree R (if p then first else first') (if p then second else second') := by
  by_cases hit : p
  · simpa only [hit, if_true] using holds
  · simpa only [hit, if_false] using fails

theorem agree_of_fault (result : Except Fault β) :
    Agree Eq (Failure.ofFault result : DeviceM α β) (Failure.ofFault result) := by
  cases result with
  | ok value => exact agree_pure rfl
  | error fault => exact agree_throw Eq _

theorem agree_of_storage {R : β → γ → Prop} {first : DeviceM α β} {second : DeviceM α γ}
    (runs : ∀ width buffers counters counters' journal journal',
      AgreeAt R first second ⟨width, buffers, counters, journal⟩
        ⟨width, buffers, counters', journal'⟩) : Agree R first second := by
  intro left right alike
  obtain ⟨width, buffers, counters, journal⟩ := left
  obtain ⟨width', buffers', counters', journal'⟩ := right
  obtain ⟨sameWidth, sameBuffers⟩ := alike
  cases sameWidth
  cases sameBuffers
  exact runs width buffers counters counters' journal journal'

end DeviceM

namespace Device

open DeviceM

theorem agree_count_readback : Agree Eq (countReadback : DeviceM α Unit) countReadback :=
  agree_modify fun _ _ alike => alike.count _ _

theorem agree_count_dispatch : Agree Eq (countDispatch : DeviceM α Unit) countDispatch :=
  agree_modify fun _ _ alike => alike.count _ _

theorem agree_claim (role : Role) (buffer : Buffer) (taken : List Buffer) :
    Agree Eq (claim role buffer taken : DeviceM α Unit) (claim role buffer taken) :=
  agree_ite (agree_throw Eq _) (agree_pure rfl)

theorem agree_download (buffer : Buffer) (length : Nat) :
    Agree Eq (download buffer length : DeviceM α (Array α)) (download buffer length) := by
  apply agree_bind agree_count_readback
  intro _ _ _
  apply agree_get
  intro left right alike
  rw [alike.contents buffer]
  exact agree_ite (agree_bind (agree_throw Eq _) fun _ _ _ => agree_pure rfl) (agree_pure rfl)

theorem agree_copy (source target : Buffer) (length : Nat) :
    Agree Eq (copy source target length : DeviceM α Unit) (copy source target length) := by
  apply agree_ite (agree_pure rfl)
  apply agree_get
  intro left right alike
  apply agree_get
  intro left' right' alike'
  rw [alike.contents source, alike'.contents target]
  have stored : Agree Eq
      (modify fun device => device.store target
        (Storage.overwrite (right'.contents target) 0
          ((right.contents source).extract 0 length).toList) : DeviceM α Unit)
      (modify fun device => device.store target
        (Storage.overwrite (right'.contents target) 0
          ((right.contents source).extract 0 length).toList)) :=
    agree_modify fun _ _ alike => alike.store _ _
  exact agree_ite (agree_bind (agree_throw Eq _) fun _ _ _ => stored) stored

variable [Arithmetic α]

theorem agree_alloc (length : Nat) : Agree Eq (alloc length : DeviceM α Buffer) (alloc length) :=
  agree_of_storage fun _ _ _ _ _ _ => ⟨.ok rfl, ⟨rfl, rfl⟩⟩

theorem agree_read_scalar (buffer : Buffer) :
    Agree Eq (readScalar buffer : DeviceM α α) (readScalar buffer) := by
  apply agree_bind agree_count_readback
  intro _ _ _
  apply agree_get
  intro left right alike
  rw [alike.contents buffer]
  exact agree_pure rfl

theorem agree_run_relax (sweep : Sweep) :
    Agree Eq (runRelax sweep : DeviceM α Unit) (runRelax sweep) := by
  apply agree_bind (agree_claim _ _ _)
  intro _ _ _
  apply agree_bind (agree_claim _ _ _)
  intro _ _ _
  apply agree_bind (agree_claim _ _ _)
  intro _ _ _
  apply agree_get
  intro left right alike
  have long : left.longEnough sweep = right.longEnough sweep := by
    simp only [longEnough, alike.contents]
  have sources : left.sources sweep = right.sources sweep := by
    simp only [Device.sources, alike.contents]
  have workspace : left.workspace sweep = right.workspace sweep := by
    simp only [Device.workspace, alike.contents]
  rw [long, sources, workspace]
  have launch : Agree Eq
      (do set (left.restore sweep ((Launch.fusedRelax sweep.kernel sweep.geometry sweep.rows
            (right.sources sweep)).run (right.workspace sweep)).2)
          Failure.ofFault ((Launch.fusedRelax sweep.kernel sweep.geometry sweep.rows
            (right.sources sweep)).run (right.workspace sweep)).1 : DeviceM α Unit)
      (do set (right.restore sweep ((Launch.fusedRelax sweep.kernel sweep.geometry sweep.rows
            (right.sources sweep)).run (right.workspace sweep)).2)
          Failure.ofFault ((Launch.fusedRelax sweep.kernel sweep.geometry sweep.rows
            (right.sources sweep)).run (right.workspace sweep)).1) :=
    agree_bind (agree_set (((alike.store _ _).store _ _).store _ _)) fun _ _ _ =>
      agree_of_fault _
  exact agree_ite launch (agree_bind (agree_throw Eq _) fun _ _ _ => launch)

theorem agree_run_reduce (sweep : Sweep) :
    Agree Eq (runReduce sweep : DeviceM α Unit) (runReduce sweep) := by
  apply agree_bind (agree_claim _ _ _)
  intro _ _ _
  apply agree_get
  intro left right alike
  rw [alike.contents sweep.partials, alike.contents sweep.residual]
  apply agree_bind (agree_of_fault _)
  intro total _ same
  cases same
  have stored := agree_set (alike.store sweep.residual
    ((right.contents sweep.residual).setIfInBounds 0 total))
  exact agree_ite (agree_bind (agree_throw Eq _) fun _ _ _ => stored) stored

end Device

namespace Matrix

open DeviceM

theorem agree_multiply [Arithmetic α] (matrix : Matrix α) (input output : Buffer) :
    Agree Eq (matrix.multiply input output : DeviceM α Unit) (matrix.multiply input output) := by
  apply agree_bind Device.agree_count_dispatch
  intro _ _ _
  apply agree_get
  intro left right alike
  rw [alike.contents input, alike.contents output]
  exact agree_bind (agree_set (alike.store _ _)) fun _ _ _ => agree_of_fault _

end Matrix

namespace Collective

/-- Two programs that make the same calls and, whatever they are answered, end with
results that `R` relates. -/
inductive Related (R : β → γ → Prop) : Collective α β → Collective α γ → Prop where
  | done {left : β} {right : γ} (related : R left right) : Related R (.done left) (.done right)
  | sum {value : α} {left : α → Collective α β} {right : α → Collective α γ}
      (nexts : ∀ total, Related R (left total) (right total)) :
      Related R (.sum value left) (.sum value right)
  | exchange {neighbors : List Neighbor} {owned ghost : Array α}
      {left : Exchanged α → Collective α β} {right : Exchanged α → Collective α γ}
      (nexts : ∀ answer, Related R (left answer) (right answer)) :
      Related R (.exchange neighbors owned ghost left) (.exchange neighbors owned ghost right)

theorem related_refl (program : Collective α β) : Related Eq program program := by
  induction program with
  | done result => exact .done rfl
  | sum value next ih => exact .sum ih
  | exchange neighbors owned ghost next ih => exact .exchange ih

theorem Related.mono {R S : β → γ → Prop} {left : Collective α β} {right : Collective α γ}
    (related : Related R left right) (weaker : ∀ a b, R a b → S a b) : Related S left right := by
  induction related with
  | done holds => exact .done (weaker _ _ holds)
  | sum _ ih => exact .sum ih
  | exchange _ ih => exact .exchange ih

theorem related_bind {R : β → γ → Prop} {S : δ → ζ → Prop} {left : Collective α β}
    {right : Collective α γ} {leftNext : β → Collective α δ} {rightNext : γ → Collective α ζ}
    (heads : Related R left right) (tails : ∀ a b, R a b → Related S (leftNext a) (rightNext b)) :
    Related S (left.bind leftNext) (right.bind rightNext) := by
  induction heads with
  | done related => exact tails _ _ related
  | sum _ ih => exact .sum ih
  | exchange _ ih => exact .exchange ih

theorem bind_eq_of_related {R : β → γ → Prop} {left : Collective α β} {right : Collective α γ}
    {leftNext : β → Collective α δ} {rightNext : γ → Collective α δ}
    (related : Related R left right) (same : ∀ a b, R a b → leftNext a = rightNext b) :
    left.bind leftNext = right.bind rightNext := by
  induction related with
  | done holds => exact same _ _ holds
  | sum _ ih => exact congrArg (Collective.sum _) (funext ih)
  | exchange _ ih => exact congrArg (Collective.exchange _ _ _) (funext ih)

theorem map_eq_of_related {view : β → δ} {view' : γ → δ} {left : Collective α β}
    {right : Collective α γ} (related : Related (fun a b => view a = view' b) left right) :
    view <$> left = view' <$> right :=
  bind_eq_of_related related fun _ _ same => congrArg Collective.done same

theorem related_of_map_eq {view : β → δ} {view' : γ → δ} {left : Collective α β}
    {right : Collective α γ} (same : view <$> left = view' <$> right) :
    Related (fun a b => view a = view' b) left right := by
  induction left generalizing right with
  | done result =>
      cases right with
      | done result' => exact .done (Collective.done.inj same)
      | sum | exchange => cases same
  | sum value next ih =>
      cases right with
      | sum value' next' =>
          obtain ⟨rfl, nexts⟩ := Collective.sum.inj same
          exact .sum fun total => ih total (congrFun nexts total)
      | done | exchange => cases same
  | exchange neighbors owned ghost next ih =>
      cases right with
      | exchange neighbors' owned' ghost' next' =>
          obtain ⟨rfl, rfl, rfl, nexts⟩ := Collective.exchange.inj same
          exact .exchange fun answer => ih answer (congrFun nexts answer)
      | done | sum => cases same

end Collective

/-- Programs with a state of their own that agree from every two states that
`alike` relates, and keep them related. -/
def Agree {σ : Type} (alike : σ → σ → Prop) (R : β → γ → Prop)
    (first : ExceptT (Failure α) (StateT σ (Collective α)) β)
    (second : ExceptT (Failure α) (StateT σ (Collective α)) γ) : Prop :=
  ∀ left right, alike left right →
    Collective.Related (fun a b => SameResult R a.1 b.1 ∧ alike a.2 b.2) (first left) (second right)

namespace Agree

variable {σ : Type} {alike : σ → σ → Prop} {R : β → γ → Prop} {S : δ → ζ → Prop}

theorem ofPure {first : β} {second : γ} (related : R first second) :
    Agree alike R (pure first : ExceptT (Failure α) (StateT σ (Collective α)) β) (pure second) :=
  fun _ _ same => .done ⟨.ok related, same⟩

theorem ofThrow (failure : Failure α) :
    Agree alike R (throw failure : ExceptT (Failure α) (StateT σ (Collective α)) β)
      (throw failure) :=
  fun _ _ same => .done ⟨.error failure, same⟩

theorem ofBind {first : ExceptT (Failure α) (StateT σ (Collective α)) β}
    {second : ExceptT (Failure α) (StateT σ (Collective α)) γ}
    {firstNext : β → ExceptT (Failure α) (StateT σ (Collective α)) δ}
    {secondNext : γ → ExceptT (Failure α) (StateT σ (Collective α)) ζ}
    (heads : Agree alike R first second)
    (tails : ∀ a b, R a b → Agree alike S (firstNext a) (secondNext b)) :
    Agree alike S (first >>= firstNext) (second >>= secondNext) := by
  intro left right same
  apply Collective.related_bind (heads left right same)
  rintro ⟨result, state⟩ ⟨result', state'⟩ ⟨outcome, kept⟩
  cases outcome with
  | ok related => exact tails _ _ related _ _ kept
  | error failure => exact .done ⟨.error failure, kept⟩

theorem ofIte {p : Prop} [Decidable p]
    {first first' : ExceptT (Failure α) (StateT σ (Collective α)) β}
    {second second' : ExceptT (Failure α) (StateT σ (Collective α)) γ}
    (holds : Agree alike R first second) (fails : Agree alike R first' second') :
    Agree alike R (if p then first else first') (if p then second else second') := by
  by_cases hit : p
  · simpa only [hit, if_true] using holds
  · simpa only [hit, if_false] using fails

theorem ofGet {first : σ → ExceptT (Failure α) (StateT σ (Collective α)) β}
    {second : σ → ExceptT (Failure α) (StateT σ (Collective α)) γ}
    (reads : ∀ left right, alike left right → Agree alike R (first left) (second right)) :
    Agree alike R (get >>= first) (get >>= second) :=
  fun left right same => reads left right same left right same

theorem ofModify {first second : σ → σ}
    (changes : ∀ left right, alike left right → alike (first left) (second right)) :
    Agree alike Eq (modify first : ExceptT (Failure α) (StateT σ (Collective α)) PUnit)
      (modify second) :=
  fun left right same => .done ⟨.ok rfl, changes left right same⟩

theorem ofRefusal (result : Except (Refusal α) β) :
    Agree alike Eq
      (Failure.ofRefusal result : ExceptT (Failure α) (StateT σ (Collective α)) β)
      (Failure.ofRefusal result) := by
  cases result with
  | ok value => exact ofPure rfl
  | error refusal => exact ofThrow _

theorem ofFault (result : Except Fault β) :
    Agree alike Eq
      (Failure.ofFault result : ExceptT (Failure α) (StateT σ (Collective α)) β)
      (Failure.ofFault result) := by
  cases result with
  | ok value => exact ofPure rfl
  | error fault => exact ofThrow _

theorem ofCollective (program : Collective α β) :
    Agree alike Eq (liftM program : ExceptT (Failure α) (StateT σ (Collective α)) β)
      (liftM program) := by
  intro left right same
  exact Collective.related_bind
    (Collective.related_bind (Collective.related_refl program) fun a b equal =>
      (.done ⟨equal, same⟩ :
        Collective.Related (fun a b => a.1 = b.1 ∧ alike a.2 b.2) (.done (a, left)) (.done (b, right))))
    fun a b related => .done ⟨.ok related.1, related.2⟩

end Agree

theorem Operation.agree_call {R : β → γ → Prop} {first : DeviceM α β} {second : DeviceM α γ}
    (agree : DeviceM.Agree R first second) :
    Agree Device.Alike R (Operation.call first) (Operation.call second) :=
  fun left right same => .done (agree left right same)

namespace Matrix

variable (matrix : Matrix α) (input output : Buffer)

theorem agree_refresh :
    Agree Device.Alike Eq (matrix.refresh input) (matrix.refresh input) := by
  unfold refresh
  cases matrix.halo with
  | none => exact .ofPure rfl
  | some halo =>
      apply Agree.ofGet
      intro left right same
      rw [same.contents input]
      apply (Agree.ofCollective _).ofBind
      rintro answer _ rfl
      apply (Agree.ofModify fun _ _ same => same.store _ _).ofBind
      intro _ _ _
      exact .ofFault _

theorem agree_apply_off_diagonal [Arithmetic α] :
    Agree Device.Alike Eq (matrix.applyOffDiagonal input output)
      (matrix.applyOffDiagonal input output) := by
  unfold applyOffDiagonal
  apply (Operation.agree_call (Device.agree_claim _ _ _)).ofBind
  intro _ _ _
  apply Agree.ofGet
  intro left right same
  rw [same.contents input, same.contents output]
  have product : Agree Device.Alike Eq
      (do matrix.refresh input; Operation.call (matrix.multiply input output))
      (do matrix.refresh input; Operation.call (matrix.multiply input output)) :=
    (matrix.agree_refresh input).ofBind fun _ _ _ =>
      Operation.agree_call (matrix.agree_multiply input output)
  exact .ofIte ((Agree.ofThrow (R := Eq) _).ofBind fun _ _ _ => product) product

end Matrix

namespace SolveScope

structure Alike (left right : SolveScope α μ) : Prop where
  device : left.device.Alike right.device
  statistics : left.statistics = right.statistics
  memory : left.memory = right.memory

end SolveScope

namespace SolveM

theorem agree_on_device {R : β → γ → Prop} {first : Operation α β} {second : Operation α γ}
    (agree : Agree Device.Alike R first second) :
    Agree SolveScope.Alike R (onDevice first : SolveM α μ β) (onDevice second) := by
  intro left right same
  apply Collective.related_bind (agree left.device right.device same.device)
  rintro ⟨result, device⟩ ⟨result', device'⟩ ⟨outcome, kept⟩
  exact .done ⟨outcome, kept, same.statistics, same.memory⟩

theorem agree_call {R : β → γ → Prop} {first : DeviceM α β} {second : DeviceM α γ}
    (agree : DeviceM.Agree R first second) :
    Agree SolveScope.Alike R (call first : SolveM α μ β) (call second) :=
  agree_on_device (Operation.agree_call agree)

theorem agree_report (event : Event α) :
    Agree SolveScope.Alike Eq (report event : SolveM α μ Unit) (report event) :=
  .ofModify fun _ _ same => ⟨(same.device.report_left _).report_right _, same.statistics,
    same.memory⟩

theorem agree_report_if {R : β → γ → Prop} (p : Prop) [Decidable p] (event : Event α)
    {first : SolveM α μ β} {second : SolveM α μ γ}
    (next : Agree SolveScope.Alike R first second) :
    Agree SolveScope.Alike R (if p then report event >>= fun _ => first else first)
      (if p then report event >>= fun _ => second else second) :=
  .ofIte ((agree_report event).ofBind fun _ _ _ => next) next

theorem agree_record_solve (iterations : Nat) :
    Agree SolveScope.Alike Eq (recordSolve iterations : SolveM α μ Unit)
      (recordSolve iterations) := by
  apply Agree.ofModify
  intro left right same
  refine ⟨same.device, ?_, same.memory⟩
  simp only [same.statistics]

theorem agree_query (policy : Policy α μ) (iteration : Nat) (residual : α)
    (progress : Progress α) :
    Agree SolveScope.Alike Eq (query policy iteration residual progress)
      (query policy iteration residual progress) := by
  intro left right same
  have memory : policy.test iteration residual progress left.memory =
      policy.test iteration residual progress right.memory := by rw [same.memory]
  exact .done ⟨.ok (congrArg Prod.fst memory), same.device, same.statistics,
    congrArg Prod.snd memory⟩

end SolveM
end Relaxation
