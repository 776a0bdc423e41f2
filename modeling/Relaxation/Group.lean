import Relaxation.Collective

/-!
A group of ranks in one process. Each rank is a thread over shared slots and a
shared mailbox; one barrier separates the phases of every collective call. A
step of the group is one access to the shared state, or one thread passing the
barrier, and any thread that can may take the next step. `run` is one such
order: every thread goes as far as the next barrier, then all pass it.
-/

namespace Relaxation

/-- What the ranks of a group share: one slot per rank, and the messages that
were posted and not yet collected, each with its sender and receiver. -/
structure Shared (α : Type) where
  slots : List α
  mailbox : List ((Nat × Nat) × Array α)

namespace Shared

variable {α : Type} [Arithmetic α]

def fresh (ranks : Nat) : Shared α where
  slots := List.replicate ranks 0
  mailbox := []

def put (shared : Shared α) (rank : Nat) (value : α) : Shared α :=
  { shared with slots := shared.slots.set rank value }

/-- Sum of the slots in rank order, so every rank computes the same bits. -/
def total (shared : Shared α) : α :=
  Arithmetic.total shared.slots

/-- Posts a message. It replaces one that still waits under the same key. -/
def deliver (shared : Shared α) (sender receiver : Nat) (data : Array α) : Shared α :=
  { shared with
    mailbox := ((sender, receiver), data) ::
      shared.mailbox.filter fun message => message.1 != (sender, receiver) }

def message? (shared : Shared α) (sender receiver : Nat) : Option (Array α) :=
  shared.mailbox.lookup (sender, receiver)

def discard (shared : Shared α) (sender receiver : Nat) : Shared α :=
  { shared with
    mailbox := shared.mailbox.filter fun message => message.1 != (sender, receiver) }

/-- Takes one message per neighbor, in order, into the ghost values. The first
missing or misfitting message ends it. -/
def collect (rank : Nat) : List Neighbor → Array α → Shared α → Exchanged α × Shared α
  | [], ghost, shared => ((.ok (), ghost), shared)
  | neighbor :: rest, ghost, shared =>
    match shared.message? neighbor.rank rank with
    | none => ((.error (.messageMissing rank neighbor.rank), ghost), shared)
    | some data =>
      let shared := shared.discard neighbor.rank rank
      match neighbor.store ghost data with
      | .error fault => ((.error fault, ghost), shared)
      | .ok ghost => collect rank rest ghost shared

end Shared

inductive Thread (α β : Type) where
  | done (result : β)
  | put (value : α) (next : Thread α β)
  | total (next : α → Thread α β)
  | post (parcels : List (Nat × Array α)) (next : Thread α β)
  | collect (neighbors : List Neighbor) (ghost : Array α) (next : Exchanged α → Thread α β)
  | wait (next : Thread α β)

/-- Parcels for the neighbors in order, up to the first that cannot be gathered. -/
def parcels {α : Type} (owned : Array α) (neighbors : List Neighbor) :
    List (Nat × Array α) × Except Fault Unit :=
  neighbors |> Fault.mapUntil fun neighbor => do
    pure (neighbor.rank, ← neighbor.gather owned)

/-- Both collective calls write, meet the others at the barrier, read, and meet
them again before anything read may be overwritten. A fault leaves the call at
once, without the barriers still ahead. -/
def Collective.thread {α β : Type} : Collective α β → Thread α β
  | .done result => .done result
  | .sum value next =>
    .put value <| .wait <| .total fun total => .wait (next total).thread
  | .exchange neighbors owned ghost next =>
    match parcels owned neighbors with
    | (packed, .error fault) => .post packed (next (.error fault, ghost)).thread
    | (packed, .ok ()) =>
      .post packed <| .wait <| .collect neighbors ghost fun answer =>
        match answer.1 with
        | .error _ => (next answer).thread
        | .ok () => .wait (next answer).thread

namespace Thread

variable {α β : Type} [Arithmetic α]

def access (rank : Nat) : Thread α β → Shared α → Option (Thread α β × Shared α)
  | .done _, _ => none
  | .wait _, _ => none
  | .put value next, shared => some (next, shared.put rank value)
  | .total next, shared => some (next shared.total, shared)
  | .post packed next, shared =>
    some (next, packed.foldl (fun shared parcel => shared.deliver rank parcel.1 parcel.2) shared)
  | .collect neighbors ghost next, shared =>
    let (answer, shared) := shared.collect rank neighbors ghost
    some (next answer, shared)

def waiting : Thread α β → Bool
  | .wait _ => true
  | _ => false

def pass? : Thread α β → Option (Thread α β)
  | .wait next => some next
  | _ => none

def result? : Thread α β → Option β
  | .done result => some result
  | _ => none

def advance (rank : Nat) : Thread α β → Shared α → Thread α β × Shared α
  | .done result, shared => (.done result, shared)
  | .wait next, shared => (.wait next, shared)
  | .put value next, shared => next.advance rank (shared.put rank value)
  | .total next, shared => (next shared.total).advance rank shared
  | .post packed next, shared =>
    next.advance rank <|
      packed.foldl (fun shared parcel => shared.deliver rank parcel.1 parcel.2) shared
  | .collect neighbors ghost next, shared =>
    let (answer, shared) := shared.collect rank neighbors ghost
    (next answer).advance rank shared

def runAlone : Thread α β → Shared α → β
  | .done result, _ => result
  | .wait next, shared => next.runAlone shared
  | .put value next, shared => next.runAlone (shared.put 0 value)
  | .total next, shared => (next shared.total).runAlone shared
  | .post packed next, shared =>
    next.runAlone <|
      packed.foldl (fun shared parcel => shared.deliver 0 parcel.1 parcel.2) shared
  | .collect neighbors ghost next, shared =>
    let (answer, shared) := shared.collect 0 neighbors ghost
    (next answer).runAlone shared

end Thread

namespace Group

variable {α β : Type} [Arithmetic α]

structure Member (α β : Type) where
  thread : Thread α β
  passed : Nat

def Member.arrived (member : Member α β) : Nat :=
  if member.thread.waiting then member.passed + 1 else member.passed

structure State (α β : Type) where
  shared : Shared α
  members : List (Member α β)

def start (programs : List (Collective α β)) : State α β where
  shared := Shared.fresh programs.length
  members := programs.map fun program => ⟨program.thread, 0⟩

/-- One atomic step of one rank. A barrier lets a rank pass once every rank has
reached it. -/
inductive Step : State α β → State α β → Prop where
  | access {state : State α β} {rank : Nat} {member : Member α β}
      {thread : Thread α β} {shared : Shared α}
      (found : state.members[rank]? = some member)
      (moved : member.thread.access rank state.shared = some (thread, shared)) :
      Step state ⟨shared, state.members.set rank { member with thread := thread }⟩
  | pass {state : State α β} {rank : Nat} {member : Member α β} {thread : Thread α β}
      (found : state.members[rank]? = some member)
      (moved : member.thread.pass? = some thread)
      (reached : ∀ other ∈ state.members, member.passed < other.arrived) :
      Step state ⟨state.shared, state.members.set rank ⟨thread, member.passed + 1⟩⟩

inductive Steps : State α β → State α β → Prop where
  | refl (state : State α β) : Steps state state
  | tail {first middle last : State α β} (before : Steps first middle)
      (step : Step middle last) : Steps first last

def advanceAll (rank : Nat) :
    List (Thread α β) → Shared α → List (Thread α β) × Shared α
  | [], shared => ([], shared)
  | thread :: rest, shared =>
    let (thread, shared) := thread.advance rank shared
    let (rest, shared) := advanceAll (rank + 1) rest shared
    (thread :: rest, shared)

/-- Rank 0 leads: at each of its barriers the others catch up, and all pass
together. A rank that waits for one that has ended has no result. -/
def runWith : Thread α β → List (Thread α β) → Shared α → List (Option β)
  | .done result, others, shared =>
    some result :: (advanceAll 1 others shared).1.map Thread.result?
  | .wait next, others, shared =>
    let (others, shared) := advanceAll 1 others shared
    match others.mapM Thread.pass? with
    | some others => runWith next others shared
    | none => none :: others.map Thread.result?
  | .put value next, others, shared => runWith next others (shared.put 0 value)
  | .total next, others, shared => runWith (next shared.total) others shared
  | .post packed next, others, shared =>
    runWith next others <|
      packed.foldl (fun shared parcel => shared.deliver 0 parcel.1 parcel.2) shared
  | .collect neighbors ghost next, others, shared =>
    let (answer, shared) := shared.collect 0 neighbors ghost
    runWith (next answer) others shared

def run (programs : List (Collective α β)) : List (Option β) :=
  match programs.map Collective.thread with
  | [] => []
  | lead :: others => runWith lead others (Shared.fresh programs.length)

end Group

def Collective.runAlone {α β : Type} [Arithmetic α] (program : Collective α β) : β :=
  program.thread.runAlone (Shared.fresh 1)

end Relaxation
