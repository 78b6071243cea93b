import WalStore.Gate

/-!
# Quorums of acknowledgements

A commit that needs several replicas starts a round for its position and waits until enough of
them have acknowledged it. Acknowledgements are kept in a size gate by replica, so one replica
counts once.

**Rounds.** Starting a round sets the target and then forgets the acknowledgements of the round
before. No acknowledgement is recorded between these two steps, but a waiting call may look. An
acknowledgement that is older than the target is ignored.
-/

namespace WalStore

/-- A round of acknowledgements. -/
structure Quorum where
  /-- The position that acknowledgements have to reach. -/
  target : Lsn
  acks : Gate ReplicaId Lsn

namespace Quorum

def empty : Quorum := ⟨.zero, .empty⟩

instance : Inhabited Quorum := ⟨empty⟩

/-- How many replicas have acknowledged. -/
def acked (q : Quorum) : Nat := q.acks.size

/-- Something happens to the gate. -/
def onAcks {β : Type} (change : Gate ReplicaId Lsn → Monitor.Change (Gate ReplicaId Lsn) β)
    (q : Quorum) : Monitor.Change Quorum β :=
  let c := change q.acks
  ⟨{ q with acks := c.state }, c.answer, c.notify⟩

/-- A call that looks at the gate. -/
def withAcks (q : Quorum)
    (look : Monitor.Look (Gate ReplicaId Lsn) SizeWaiting (Except Error Bool)) :
    Monitor.Look Quorum SizeWaiting (Except Error Bool) :=
  ⟨{ q with acks := look.state }, look.fate, look.notify⟩

/-! ## Rounds -/

/-- Asks for another position. The acknowledgements stay. -/
def setTarget (target : Lsn) (q : Quorum) : Monitor.Change Quorum Unit :=
  ⟨{ q with target }, (), false⟩

/-- Forgets the acknowledgements, for a new round. -/
def forgetAcks : Quorum → Monitor.Change Quorum Unit := onAcks Gate.clear

/-- Both steps of starting a round. -/
def startRound (target : Lsn) (q : Quorum) : Monitor.Change Quorum Unit :=
  forgetAcks (setTarget target q).state

/-- Records an acknowledgement, unless it is too old. Answers whether it was recorded. -/
def record (replica : ReplicaId) (lsn : Lsn) (q : Quorum) : Monitor.Change Quorum Bool :=
  if lsn < q.target then ⟨q, false, false⟩
  else
    let c := onAcks (Gate.put replica lsn) q
    ⟨c.state, true, c.notify⟩

/-! ## Waiting -/

/-- A call waits until so many replicas have acknowledged. -/
def discipline : Monitor.Discipline Quorum SizeWait SizeWaiting (Except Error Bool) where
  arrive := fun sight r q => q.withAcks (q.acks.arrive sight r)
  again := fun sight w q => q.withAcks (q.acks.again sight w)

/-- Ends every wait under way and refuses new ones. -/
def shutDown (cause : String) : Quorum → Monitor.Change Quorum Unit := onAcks (Gate.abandon cause)

/-- Waits are accepted again. -/
def reset : Quorum → Monitor.Change Quorum Unit := onAcks Gate.reset

end Quorum
end WalStore
