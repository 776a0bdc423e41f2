import Relaxation.Proofs.Assembly
import Relaxation.Proofs.HaloLoop
import Relaxation.Proofs.Mailbox
import Relaxation.Proofs.Transcript

/-!
What the off-diagonal operator touches. A halo is accepted by counting block rows, and its
exchange runs on single components; for a halo of the matrix's own block size the two agree, so
that only owned values are sent and only ghost values are filled.
-/

namespace Relaxation

variable {α : Type}

/-- Two vectors of one length that may differ from `first` up to `last` and nowhere else. -/
structure Storage.SameOutside (first last : Nat) (before after : Array α) : Prop where
  size : after.size = before.size
  below : ∀ index, index < first → after[index]? = before[index]?
  behind : ∀ index, last ≤ index → after[index]? = before[index]?

namespace Storage.SameOutside

variable {first last first' last' : Nat} {before middle after : Array α}

theorem refl (first last : Nat) (values : Array α) : SameOutside first last values values :=
  ⟨rfl, fun _ _ => rfl, fun _ _ => rfl⟩

theorem trans (early : SameOutside first last before middle)
    (late : SameOutside first last middle after) : SameOutside first last before after where
  size := late.size.trans early.size
  below index low := (late.below index low).trans (early.below index low)
  behind index high := (late.behind index high).trans (early.behind index high)

theorem wider (same : SameOutside first last before after) (lower : first' ≤ first)
    (higher : last ≤ last') : SameOutside first' last' before after where
  size := same.size
  below index low := same.below index (low.trans_le lower)
  behind index high := same.behind index (higher.trans high)

theorem overwrite (values : Array α) (start : Nat) (source : List α) :
    SameOutside start (start + source.length) values (Storage.overwrite values start source) where
  size := size_overwrite ..
  below _ low := getElem?_overwrite_outside _ _ _ (.inl low)
  behind _ high := getElem?_overwrite_outside _ _ _ (.inr high)

end Storage.SameOutside

open Storage (SameOutside)

theorem Neighbor.store_ok {neighbor : Neighbor} {ghost data filled : Array α}
    (stored : neighbor.store ghost data = .ok filled) : data.size = neighbor.count ∧
      filled = Storage.overwrite ghost neighbor.start data.toList := by
  unfold store Storage.copyInto at stored
  split at stored
  · cases stored
  split at stored
  · rename_i fits
    cases stored
    exact ⟨fits, rfl⟩
  · cases stored

theorem Neighbor.store_fitting {neighbor : Neighbor} {ghost data : Array α}
    (inside : neighbor.stop ≤ ghost.size) (fits : data.size = neighbor.count) :
    neighbor.store ghost data = .ok (Storage.overwrite ghost neighbor.start data.toList) := by
  unfold stop at inside
  unfold store Storage.copyInto
  rw [if_neg (Nat.not_lt.mpr inside), if_pos fits]

namespace Shared

variable {rank : Nat} {neighbors : List Neighbor} {ghost : Array α} {shared : Shared α}

/-- What a rank collects lies in places that some neighbor fills, however far it gets. -/
theorem collect_frame (rank : Nat) (neighbors : List Neighbor) (ghost : Array α)
    (shared : Shared α) :
    (shared.collect rank neighbors ghost).1.2.size = ghost.size ∧
      ∀ index, (∀ neighbor ∈ neighbors, ¬neighbor.Covers index) →
        (shared.collect rank neighbors ghost).1.2[index]? = ghost[index]? := by
  induction neighbors generalizing ghost shared with
  | nil => exact ⟨rfl, fun _ _ => rfl⟩
  | cons neighbor rest ih =>
      unfold collect
      cases shared.message? neighbor.rank rank with
      | none => exact ⟨rfl, fun _ _ => rfl⟩
      | some data =>
          cases stored : neighbor.store ghost data with
          | error fault =>
              simp only [stored]
              exact ⟨trivial, fun _ _ => trivial⟩
          | ok filled =>
              simp only [stored]
              obtain ⟨fits, rfl⟩ := Neighbor.store_ok stored
              obtain ⟨size, outside⟩ := ih (Storage.overwrite ghost neighbor.start data.toList)
                (shared.discard neighbor.rank rank)
              refine ⟨size.trans (Storage.size_overwrite ..), fun index uncovered => ?_⟩
              rw [outside index fun other listed => uncovered other (List.mem_cons_of_mem _ listed)]
              apply Storage.getElem?_overwrite_outside
              have here := uncovered neighbor List.mem_cons_self
              unfold Neighbor.Covers Neighbor.stop at here
              rw [Array.length_toList, fits]
              omega

theorem collect_fitting (inside : ∀ neighbor ∈ neighbors, neighbor.stop ≤ ghost.size)
    (fits : ∀ neighbor ∈ neighbors, ∀ data, shared.Waits neighbor.rank rank data →
      data.size = neighbor.count) :
    (shared.collect rank neighbors ghost).1.1 = .ok () ∨
      ∃ sender, (shared.collect rank neighbors ghost).1.1 =
        .error (.messageMissing rank sender) := by
  induction neighbors generalizing ghost shared with
  | nil => exact .inl rfl
  | cons neighbor rest ih =>
      unfold collect
      cases found : shared.message? neighbor.rank rank with
      | none => exact .inr ⟨neighbor.rank, rfl⟩
      | some data =>
          have waits : shared.Waits neighbor.rank rank data := by
            obtain ⟨before, after, split, _⟩ := List.lookup_eq_some_iff.mp found
            unfold Waits
            rw [split]
            simp
          have stored := Neighbor.store_fitting (inside neighbor List.mem_cons_self)
            (fits neighbor List.mem_cons_self data waits)
          simp only [stored]
          apply ih
          · intro other listed
            rw [Storage.size_overwrite]
            exact inside other (List.mem_cons_of_mem _ listed)
          · intro other listed later waiting
            exact fits other (List.mem_cons_of_mem _ listed) later (waits_discard.mp waiting).1

end Shared

theorem Neighbor.stop_expand {neighbor : Neighbor} {blockSize : Nat} :
    (neighbor.expand blockSize).stop = neighbor.stop * blockSize :=
  (Nat.add_mul ..).symm

namespace Halo

variable {communicator : Communicator} {neighbors : List Neighbor} {blockSize : Nat}

theorem stop_le_of_ghost_rows :
    ∀ neighbor ∈ (ofBlockRows communicator neighbors blockSize).neighbors,
      neighbor.stop ≤ (ofBlockRows communicator neighbors blockSize).ghostRows * blockSize := by
  intro expanded listed
  obtain ⟨neighbor, given, rfl⟩ := List.mem_map.mp listed
  have stop : neighbor.stop ∈ neighbors.map Neighbor.stop := List.mem_map_of_mem given
  have most : neighbor.stop ≤ (ofBlockRows communicator neighbors blockSize).ghostRows := by
    change _ ≤ (neighbors.map Neighbor.stop).foldl max 0
    rw [List.foldl_max]
    cases largest : (neighbors.map Neighbor.stop).max? with
    | none =>
        rw [List.max?_eq_none_iff.mp largest] at stop
        cases stop
    | some greatest => exact le_max_of_le_right ((List.max?_eq_some_iff.mp largest).2 _ stop)
  rw [Neighbor.stop_expand]
  exact Nat.mul_le_mul_right _ most

theorem sent_lt_of_max_sent_row {halo : Halo} {rows : Nat} (positive : 0 < halo.blockSize)
    (own : halo.maxSentRow.any (rows ≤ ·) = false) :
    ∀ neighbor ∈ halo.neighbors, ∀ index ∈ neighbor.sent, index < rows * halo.blockSize := by
  intro neighbor listed index sent
  have member : index ∈ halo.neighbors.flatMap Neighbor.sent :=
    List.mem_flatMap.mpr ⟨neighbor, listed, sent⟩
  unfold maxSentRow at own
  cases largest : (halo.neighbors.flatMap Neighbor.sent).max? with
  | none =>
      rw [List.max?_eq_none_iff.mp largest] at member
      cases member
  | some greatest =>
      have bound := (List.max?_eq_some_iff.mp largest).2 _ member
      have below : greatest / halo.blockSize < rows := by
        rw [largest] at own
        simpa using own
      exact bound.trans_lt ((Nat.div_lt_iff_lt_mul positive).mp below)

/-- A halo of a matrix's own block size that sends its owned values only, and fills its ghost
values only. -/
structure FitsIn (halo : Halo) (matrix : Matrix α) : Prop where
  blockSize : halo.blockSize = matrix.blockSize
  sent : ∀ neighbor ∈ halo.neighbors, ∀ index ∈ neighbor.sent,
    index < matrix.rows * matrix.blockSize
  filled : ∀ neighbor ∈ halo.neighbors,
    neighbor.stop ≤ (matrix.columns - matrix.rows) * matrix.blockSize

theorem FitsIn.room {halo : Halo} {matrix : Matrix α} (fits : halo.FitsIn matrix) {x : Array α}
    (long : matrix.columns * matrix.blockSize ≤ x.size) : ∀ neighbor ∈ halo.neighbors,
      neighbor.stop ≤ (x.extract (matrix.rows * matrix.blockSize) x.size).size := by
  intro neighbor listed
  have stop := fits.filled neighbor listed
  rw [Nat.sub_mul] at stop
  rw [Array.size_extract]
  omega

end Halo

namespace Matrix

theorem with_halo_ok {matrix haloed : Matrix α} {halo : Halo}
    (attached : matrix.withHalo halo = .ok haloed) :
    haloed = { matrix with halo := some halo } ∧ matrix.rows ≤ matrix.columns ∧
      halo.ghostRows ≤ matrix.columns - matrix.rows ∧
      halo.maxSentRow.any (matrix.rows ≤ ·) = false := by
  unfold withHalo at attached
  split at attached
  · cases attached
  split at attached
  · cases attached
  split at attached
  · cases attached
  · rename_i narrow wide foreign
    cases attached
    exact ⟨rfl, Nat.not_lt.mp narrow, Nat.not_lt.mp wide, Bool.eq_false_iff.mpr foreign⟩

theorem fits_in_of_accepted {matrix haloed : Matrix α} {communicator : Communicator}
    {neighbors : List Neighbor} (positive : 0 < matrix.blockSize)
    (attached : matrix.withHalo (.ofBlockRows communicator neighbors matrix.blockSize) =
      .ok haloed) :
    (Halo.ofBlockRows communicator neighbors matrix.blockSize).FitsIn haloed := by
  obtain ⟨rfl, _, ghosts, own⟩ := with_halo_ok attached
  refine ⟨rfl, Halo.sent_lt_of_max_sent_row positive own, fun neighbor listed => ?_⟩
  exact (Halo.stop_le_of_ghost_rows neighbor listed).trans (Nat.mul_le_mul_right _ ghosts)

variable {matrix : Matrix α} {halo : Halo} {input output : Buffer} {device after : Device α}

theorem same_outside_received (fits : halo.FitsIn matrix) (covers : matrix.rows ≤ matrix.columns)
    {x : Array α} (long : matrix.columns * matrix.blockSize ≤ x.size) (rank : Nat)
    (shared : Shared α) :
    SameOutside (matrix.rows * matrix.blockSize) (matrix.columns * matrix.blockSize) x
      (x.extract 0 (matrix.rows * matrix.blockSize) ++ (shared.collect rank halo.neighbors
        (x.extract (matrix.rows * matrix.blockSize) x.size)).1.2) := by
  have owned := Nat.mul_le_mul_right matrix.blockSize covers
  obtain ⟨size, outside⟩ := Shared.collect_frame rank halo.neighbors
    (x.extract (matrix.rows * matrix.blockSize) x.size) shared
  generalize (shared.collect rank halo.neighbors _).1.2 = ghost at size outside ⊢
  rw [Array.size_extract] at size
  refine ⟨?_, fun index low => ?_, fun index high => ?_⟩
  · rw [Array.size_append, size, Array.size_extract]
    omega
  · rw [Array.getElem?_append_left (by rw [Array.size_extract]; omega), Array.getElem?_extract,
      if_pos (by omega), Nat.zero_add]
  · have first : (x.extract 0 (matrix.rows * matrix.blockSize)).size =
        matrix.rows * matrix.blockSize := by
      rw [Array.size_extract]
      omega
    rw [Array.getElem?_append_right (by omega), first, outside]
    · rw [Array.getElem?_extract]
      by_cases inside : index < x.size
      · rw [if_pos (by omega), Nat.add_sub_cancel' (by omega)]
      · rw [if_neg (by omega), Array.getElem?_eq_none (by omega)]
    · -- no neighbor fills what lies behind the last column
      intro neighbor listed covered
      have stop := fits.filled neighbor listed
      rw [Nat.sub_mul] at stop
      have below := covered.2
      omega

theorem parcels_ok (fits : halo.FitsIn matrix) {x : Array α}
    (owned : matrix.rows * matrix.blockSize ≤ x.size) :
    (parcels (x.extract 0 (matrix.rows * matrix.blockSize)) halo.neighbors).2 = .ok () := by
  rw [parcels_packed]
  intro neighbor listed index sent
  have inside := fits.sent neighbor listed index sent
  rw [Array.size_extract]
  omega

theorem lone_of_alone (present : matrix.halo = some halo) (fits : halo.FitsIn matrix)
    (alone : halo.communicator = .alone) : matrix.Lone := by
  intro other listed
  rw [present] at listed
  cases listed
  exact ⟨alone, fits.blockSize⟩

structure Refreshed (matrix : Matrix α) (input : Buffer) (before after : Device α) : Prop where
  width : after.width = before.width
  sizes : after.sizes = before.sizes
  ghosts : SameOutside (matrix.rows * matrix.blockSize) (matrix.columns * matrix.blockSize)
    (before.contents input) (after.contents input)
  others : ∀ other, other ≠ input → after.contents other = before.contents other

theorem Refreshed.refl (matrix : Matrix α) (input : Buffer) (device : Device α) :
    Refreshed matrix input device device :=
  ⟨rfl, rfl, .refl .., fun _ _ => rfl⟩

theorem Refreshed.of_store {x : Array α}
    (same : SameOutside (matrix.rows * matrix.blockSize) (matrix.columns * matrix.blockSize)
      (device.contents input) x) : Refreshed matrix input device (device.store input x) := by
  refine ⟨rfl, Device.sizes_store same.size, ?_, fun other apart => ?_⟩
  · rw [Device.contents_store_sized same.size]
    exact same
  · exact Device.contents_store_other _ (Ne.symm apart) _

/-- What the operator leaves of two vectors: the ghost values of the one and the owned values of
the other may be new, and nothing else. -/
structure Applied (matrix : Matrix α) (input output : Buffer) (before after : Device α) : Prop where
  ghosts : SameOutside (matrix.rows * matrix.blockSize) (matrix.columns * matrix.blockSize)
    (before.contents input) (after.contents input)
  products : SameOutside 0 (matrix.rows * matrix.blockSize) (before.contents output)
    (after.contents output)
  others : ∀ other, other ∉ [input, output] → after.contents other = before.contents other

theorem Refreshed.applied (refreshed : Refreshed matrix input device after)
    (different : output ≠ input) : Applied matrix input output device after := by
  refine ⟨refreshed.ghosts, ?_, fun other apart => refreshed.others other fun here => ?_⟩
  · rw [refreshed.others output different]
    exact .refl ..
  · exact apart (here ▸ List.mem_cons_self)

variable [Arithmetic α]

theorem Applied.multiplied {before middle : Device α} (sound : matrix.Sound)
    (applied : Applied matrix input output before middle) (different : output ≠ input)
    (long : matrix.columns * matrix.blockSize ≤ (before.contents input).size)
    (enough : matrix.rows * matrix.blockSize ≤ (before.contents output).size) :
    ∃ after, matrix.multiply input output middle = (.ok (), after) ∧
      Applied matrix input output before after ∧
      after.contents input = middle.contents input := by
  rw [← applied.ghosts.size] at long
  rw [← applied.products.size] at enough
  obtain ⟨counted, alike, ran⟩ := multiply_run sound long enough
  have kept : ∀ other, other ≠ output → (counted.store output (Storage.overwrite
      (middle.contents output) 0 (matrix.couplings (middle.contents input)))).contents other =
        middle.contents other := fun other apart => by
    rw [Device.contents_store_other _ (Ne.symm apart), alike.contents]
  refine ⟨_, ran, ⟨?_, ?_, fun other apart => ?_⟩, kept input (Ne.symm different)⟩
  · rw [kept input (Ne.symm different)]
    exact applied.ghosts
  · rw [Device.contents_store_sized]
    · have written := SameOutside.overwrite (middle.contents output) 0
        (matrix.couplings (middle.contents input))
      rw [Nat.zero_add, length_couplings] at written
      exact applied.products.trans written
    · rw [Storage.size_overwrite, alike.contents]
  · rw [kept other fun here => apart (by simp [here]), applied.others other apart]

theorem apply_refused (matrix : Matrix α) {input output : Buffer} {device : Device α}
    (unusable : output = input ∨
      (device.contents output).size < matrix.rows * matrix.blockSize) :
    ∃ refusal, matrix.applyOffDiagonal input output device =
      .done (.error (.refused refusal), device) := by
  by_cases aliased : output = input
  · have refused : (Operation.call (Device.claim .operatorOutput output [input]) :
        Operation α Unit) device =
          .done (.error (.refused (.aliased .operatorOutput)), device) := by
      unfold Operation.call Device.claim
      rw [if_pos (by simp [aliased])]
      rfl
    unfold applyOffDiagonal
    rw [meet_bind, refused]
    exact ⟨_, rfl⟩
  · have claimed : (Operation.call (Device.claim .operatorOutput output [input]) :
        Operation α Unit) device = .done (.ok (), device) := by
      unfold Operation.call
      rw [Device.claim_apart (by simpa using aliased)]
    have short : (device.contents input).size < matrix.columns * matrix.blockSize ∨
        (device.contents output).size < matrix.rows * matrix.blockSize :=
      .inr (unusable.resolve_left aliased)
    refine ⟨.operatorTooShort (device.contents input).size (device.contents output).size
      matrix.rows matrix.columns, ?_⟩
    unfold applyOffDiagonal
    rw [meet_of_done claimed]
    change (if _ then _ else _ : Operation α Unit) device = _
    rw [if_pos short]
    rfl

section Halo

variable (sound : matrix.Sound) (present : matrix.halo = some halo) (fits : halo.FitsIn matrix)
  (different : output ≠ input)
  (long : matrix.columns * matrix.blockSize ≤ (device.contents input).size)
  (enough : matrix.rows * matrix.blockSize ≤ (device.contents output).size)

include sound present fits different long enough

theorem apply_alone (alone : halo.communicator = .alone) :
    ∃ after, matrix.applyOffDiagonal input output device = .done (.ok (), after) ∧
      Applied matrix input output device after ∧
      after.contents input = device.contents input := by
  have refreshed := refresh_of_lone (lone_of_alone present fits alone)
    ((Nat.mul_le_mul_right matrix.blockSize sound.covers).trans long)
  obtain ⟨after, ran, applied, same⟩ :=
    ((Refreshed.refl matrix input device).applied different).multiplied sound different long enough
  refine ⟨after, ?_, applied, same⟩
  rw [apply_off_diagonal_run matrix different long enough, meet_of_done refreshed]
  exact congrArg Collective.done ran

/-- In a group the operator sends owned values, which can all be gathered, and behind whatever
has come in it has filled ghost values only. Messages that fit can only be missing. -/
theorem apply_member {rank ranks : Nat} (member : halo.communicator = .member rank ranks) :
    ∃ next, matrix.applyOffDiagonal input output device = .exchange halo.neighbors
        ((device.contents input).extract 0 (matrix.rows * matrix.blockSize))
        ((device.contents input).extract (matrix.rows * matrix.blockSize)
          (device.contents input).size) next ∧
      (parcels ((device.contents input).extract 0 (matrix.rows * matrix.blockSize))
        halo.neighbors).2 = .ok () ∧
      ∀ (self : Nat) (shared : Shared α), ∃ result after,
        next (shared.collect self halo.neighbors ((device.contents input).extract
          (matrix.rows * matrix.blockSize) (device.contents input).size)).1 =
            .done (result, after) ∧
        Applied matrix input output device after ∧
        ((∀ neighbor ∈ halo.neighbors, ∀ data, shared.Waits neighbor.rank self data →
            data.size = neighbor.count) →
          result = .ok () ∨ ∃ sender, result = .error (.faulted (.messageMissing self sender))) := by
  have covers := sound.covers
  have owned : matrix.rows * matrix.blockSize ≤ (device.contents input).size :=
    (Nat.mul_le_mul_right matrix.blockSize covers).trans long
  have met := refresh_member present member (fits.blockSize ▸ owned)
  rw [fits.blockSize] at met
  rw [apply_off_diagonal_run matrix different long enough, meet_bind, met]
  refine ⟨_, rfl, parcels_ok fits owned, fun self shared => ?_⟩
  have same := same_outside_received fits covers long self shared
  have refreshed := (Refreshed.of_store same).applied different
  have fitting : (∀ neighbor ∈ halo.neighbors, ∀ data, shared.Waits neighbor.rank self data →
      data.size = neighbor.count) → _ := Shared.collect_fitting (fits.room long)
  generalize (shared.collect self halo.neighbors _).1 = answer at refreshed fitting ⊢
  obtain ⟨outcome, ghost⟩ := answer
  cases outcome with
  | ok =>
      obtain ⟨after, ran, applied, _⟩ := refreshed.multiplied sound different long enough
      exact ⟨.ok (), after, congrArg Collective.done ran, applied, fun _ => .inl rfl⟩
  | error fault =>
      refine ⟨.error (.faulted fault), _, rfl, refreshed, fun sizes => .inr ?_⟩
      obtain ended | ⟨sender, ended⟩ := fitting sizes
      · cases ended
      · cases ended
        exact ⟨sender, rfl⟩

end Halo

/-- A halo of block rows of a matrix's own size that the matrix accepts exchanges owned values for
ghost values. Whoever answers, the operator gathers from owned values, fills ghost values and
leaves all others of its input, and unless a message is missing or does not fit it goes through.
Refused, it leaves everything. -/
theorem accepted_halo_exchanges_ghosts {rows columns blockSize : Nat} {diagonal : Array α}
    {entries : List (Entry α)} {matrix haloed : Matrix α}
    (assembled : assemble rows columns blockSize diagonal entries = .ok matrix)
    (communicator : Communicator) (neighbors : List Neighbor)
    (attached : matrix.withHalo (.ofBlockRows communicator neighbors blockSize) = .ok haloed)
    {input : Buffer} {device : Device α}
    (long : columns * blockSize ≤ (device.contents input).size) (output : Buffer) :
    (output = input ∨ (device.contents output).size < rows * blockSize →
      ∃ refusal, haloed.applyOffDiagonal input output device =
        .done (.error (.refused refusal), device)) ∧
    (output ≠ input → rows * blockSize ≤ (device.contents output).size →
      match communicator with
      | .alone => ∃ after, haloed.applyOffDiagonal input output device = .done (.ok (), after) ∧
          Applied haloed input output device after ∧
          after.contents input = device.contents input
      | .member _ _ =>
        let sent := (Halo.ofBlockRows communicator neighbors blockSize).neighbors
        let ghost := (device.contents input).extract (rows * blockSize) (device.contents input).size
        (∀ neighbor ∈ sent, ∀ index ∈ neighbor.sent, index < rows * blockSize) ∧
        ∃ next, haloed.applyOffDiagonal input output device = .exchange sent
            ((device.contents input).extract 0 (rows * blockSize)) ghost next ∧
          (parcels ((device.contents input).extract 0 (rows * blockSize)) sent).2 = .ok () ∧
          ∀ (self : Nat) (shared : Shared α), ∃ result after,
            next (shared.collect self sent ghost).1 = .done (result, after) ∧
            Applied haloed input output device after ∧
            ((∀ neighbor ∈ sent, ∀ data, shared.Waits neighbor.rank self data →
                data.size = neighbor.count) →
              result = .ok () ∨
                ∃ sender, result = .error (.faulted (.messageMissing self sender)))) := by
  obtain ⟨positive, _, _, _, rfl⟩ := assemble_ok assembled
  have fits := @fits_in_of_accepted _ (ofEntries rows columns blockSize diagonal entries) _ _ _
    positive attached
  obtain ⟨rfl, _, _⟩ := with_halo_ok attached
  have sound := (sound_of_assemble assembled).with_halo
    (some (.ofBlockRows communicator neighbors blockSize))
  refine ⟨fun unusable => apply_refused _ unusable, fun different enough => ?_⟩
  cases communicator with
  | alone => exact apply_alone sound rfl fits different long enough rfl
  | member rank ranks =>
      exact ⟨fits.sent, apply_member sound rfl fits different long enough rfl⟩

/-- A rank that is its own neighbor: its row is sent, and comes in as its ghost row. -/
def ownNeighbor : Neighbor :=
  ⟨0, [0], 0, 1⟩

def loopedRow : Matrix ℚ :=
  ⟨1, 2, 1, #[1], #[], #[], #[0, 0], some (.ofBlockRows (.member 0 1) [ownNeighbor] 1)⟩

def loopedDevice : Device ℚ :=
  ⟨.narrowest, #[#[5, 9], #[0]], {}, #[]⟩

theorem own_row_survives :
    assemble 1 2 1 #[1] [] = .ok { loopedRow with halo := none } ∧
    ({ loopedRow with halo := none } : Matrix ℚ).withHalo
      (.ofBlockRows (.member 0 1) [ownNeighbor] 1) = .ok loopedRow ∧
    ∃ next, loopedRow.applyOffDiagonal ⟨0⟩ ⟨1⟩ loopedDevice =
        .exchange [ownNeighbor] #[5] #[9] next ∧
      ∀ (self : Nat) (shared : Shared ℚ), ∃ result after,
        next (shared.collect self [ownNeighbor] #[9]).1 = .done (result, after) ∧
          (after.contents ⟨0⟩)[0]? = some 5 := by
  have assembled : assemble 1 2 1 #[(1 : ℚ)] [] = .ok { loopedRow with halo := none } := by cbv
  have attached : ({ loopedRow with halo := none } : Matrix ℚ).withHalo
      (.ofBlockRows (.member 0 1) [ownNeighbor] 1) = .ok loopedRow := by cbv
  have long : 2 * 1 ≤ (loopedDevice.contents ⟨0⟩).size := by decide
  obtain ⟨_, exchanges⟩ := accepted_halo_exchanges_ghosts assembled (.member 0 1) [ownNeighbor]
    attached long ⟨1⟩
  obtain ⟨_, next, ran, _, answered⟩ := exchanges (by decide) (by decide)
  refine ⟨assembled, attached, next, ran, fun self shared => ?_⟩
  obtain ⟨result, after, ended, applied, _⟩ := answered self shared
  exact ⟨result, after, ended, applied.ghosts.below 0 (by decide)⟩

/-- Rows of two components under a halo of single ones. The message has the length of its range,
and yet the second owned value is not what it was. -/
theorem narrow_halo_overwrites_owned :
    ∃ (matrix haloed : Matrix ℚ) (last : Device ℚ),
      assemble 1 2 2 #[1, 0, 0, 1] [] = .ok matrix ∧
      matrix.withHalo (.ofBlockRows (.member 0 1) [ownNeighbor] 1) = .ok haloed ∧
      parcels #[5] (Halo.ofBlockRows (.member 0 1) [ownNeighbor] 1).neighbors =
        ([(0, #[(5 : ℚ)])], .ok ()) ∧
      (haloed.applyOffDiagonal ⟨0⟩ ⟨1⟩ ⟨.narrowest, #[#[5, 7, 5, 5], #[0, 0]], {}, #[]⟩).runAlone =
        (.ok (), last) ∧
      last.contents ⟨0⟩ = #[5, 5, 5, 5] := by
  refine ⟨_, _, _, by cbv, by cbv, by decide +kernel, rfl, ?_⟩
  decide +kernel

end Matrix

end Relaxation
