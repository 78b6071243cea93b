import WalStore.SortedMap
import WalStore.Ident

/-!
# The wait graph

An edge from one owner to another says that the first is queued behind the second; a cycle is a
deadlock. Of the owners on a cycle the youngest, which has the largest id, gives way.

**Search.** `cycleThrough` goes depth first from an owner, smaller ids first, and visits no
owner twice: an owner left behind has no way back to the start that was not tried. The depth
never exceeds the number of owners with edges, which bounds the recursion.
-/

namespace WalStore

/-- The owners each owner is blocked behind. Owners without edges are not kept. -/
structure WaitGraph where
  edges : SortedMap TxnId (SortedSet TxnId)
  deriving DecidableEq

namespace WaitGraph

def empty : WaitGraph := ⟨∅⟩

instance : EmptyCollection WaitGraph := ⟨empty⟩

instance : Inhabited WaitGraph := ⟨empty⟩

/-- The owners that `waiter` is blocked behind. -/
def blockers (g : WaitGraph) (waiter : TxnId) : SortedSet TxnId := g.edges.getD waiter ∅

/-! ## Changes -/

/-- Replaces the edges of `waiter`. -/
def setWaits (g : WaitGraph) (waiter : TxnId) (blockers : SortedSet TxnId) : WaitGraph :=
  if blockers.isEmpty then ⟨g.edges.erase waiter⟩ else ⟨g.edges.insert waiter blockers⟩

/-- Drops the edges of `waiter`. -/
def clearWaits (g : WaitGraph) (waiter : TxnId) : WaitGraph := ⟨g.edges.erase waiter⟩

/-- Drops every edge from and to `owner`. -/
def remove (g : WaitGraph) (owner : TxnId) : WaitGraph :=
  ⟨(g.edges.erase owner).filterMapValues fun blockers =>
    let rest := blockers.erase owner
    if rest.isEmpty then none else some rest⟩

/-- The number of pairs of an owner and one it waits for. -/
def edgeCount (g : WaitGraph) : Nat := g.edges.total (·.size)

/-! ## Cycles -/

/-- Looks through the neighbours of an owner for a way to `target`, going `deeper` into those
not seen yet. Answers the way and all owners seen. -/
def wayThrough (target : TxnId)
    (deeper : TxnId → SortedSet TxnId → Option (List TxnId) × SortedSet TxnId) :
    List TxnId → SortedSet TxnId → Option (List TxnId) × SortedSet TxnId
  | [], seen => (none, seen)
  | next :: rest, seen =>
    if next = target then (some [], seen)
    else if next ∈ seen then wayThrough target deeper rest seen
    else
      match deeper next (seen.insert next) with
      | (some way, seen) => (some (next :: way), seen)
      | (none, seen) => wayThrough target deeper rest seen

/-- Looks for a way from `node` to `target` over at most `depth` edges. -/
def wayFrom (g : WaitGraph) (target : TxnId) :
    Nat → TxnId → SortedSet TxnId → Option (List TxnId) × SortedSet TxnId
  | 0, _, seen => (none, seen)
  | depth + 1, node, seen =>
    wayThrough target (wayFrom g target depth) (g.blockers node).toList seen

/-- A cycle through `start`, from there on. -/
def cycleThrough (g : WaitGraph) (start : TxnId) : Option (List TxnId) :=
  (wayFrom g start (g.edges.size + 1) start ∅).1.map (start :: ·)

/-- The owner on a cycle that gives way. -/
def victim? (cycle : List TxnId) : Option TxnId := cycle.max?

end WaitGraph
end WalStore
