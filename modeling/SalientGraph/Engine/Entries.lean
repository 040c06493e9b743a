import SalientGraph.Engine.Catalog

/-!
# Creating, reading and deleting entries

The operations on single nodes and edges, each in a transaction of its own.
-/

namespace SalientGraph
namespace Engine

variable (e : Engine)

/-- Creates or replaces a node. -/
def createNode (tenant : Tenant) (node : OpenNode) : Action OpenNode :=
  Action.transact .readWrite (TxAction.step (e.putNode tenant node))

/-- Creates or replaces an edge. -/
def createEdge (tenant : Tenant) (edge : OpenEdge) : Action OpenEdge :=
  Action.transact .readWrite (TxAction.step (e.putEdge tenant edge))

def getNode (tenant : Tenant) (id : String) : Action OpenNode :=
  Action.transact .readOnly (TxAction.step (e.requireNode tenant id))

def getEdge (tenant : Tenant) (key : EdgeKey) : Action OpenEdge :=
  Action.transact .readOnly do
    match ← TxAction.step (e.edge? tenant key) with
    | some edge => return edge
    | none => throw (.notFound ("edge " ++ key.text))

/-- Removes a node with its edges, and tells whether it was there. -/
def removeNode (tenant : Tenant) (id : String) : Action Bool :=
  Action.transact .readWrite (TxAction.step (deleteNode tenant id))

/-- Removes an edge, and tells whether it was there. -/
def removeEdge (tenant : Tenant) (key : EdgeKey) : Action Bool :=
  Action.transact .readWrite (TxAction.step (TxAction.deleteEdge tenant key))

end Engine
end SalientGraph
