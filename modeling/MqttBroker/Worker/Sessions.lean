import MqttBroker.MyhashmapContents
import MqttBroker.Worker.Runs

/-! What a step does to the clients that are stored. -/
namespace MqttBroker.World
open Worker

variable {w : World} {addr : Nat} {f : Client → Client} {node : Node Client} {client : Client}

/-- A node after the client at an address is written. -/
def written (addr : Nat) (f : Client → Client) (node : Node Client) : Node Client :=
  if node.data.addr = addr then { node with data := f node.data } else node

theorem nodes_setClient :
    (w.setClient addr f).clientStore.nodes = w.clientStore.nodes.map (written addr f) :=
  Myhashmap.nodes_mapped _

@[simp] theorem written_key : (written addr f node).key = node.key := by
  unfold written
  split <;> rfl

theorem written_here (here : node.data.addr = addr) : (written addr f node).data = f node.data := by
  rw [written, if_pos here]

theorem written_other (other : node.data.addr ≠ addr) : written addr f node = node := if_neg other

theorem written_addr (keeps : ∀ client, (f client).addr = client.addr) :
    (written addr f node).data.addr = node.data.addr := by
  unfold written
  split
  · exact keeps _
  · rfl

/-- The object behind a pointer is the data of a node. -/
theorem clientAt_node (held : w.clientAt addr = some client) :
    ∃ node ∈ w.clientStore.nodes, node.data = client ∧ node.data.addr = addr := by
  obtain ⟨node, member, rfl⟩ := List.mem_map.mp (List.mem_of_find?_eq_some held)
  exact ⟨node, member, rfl, by simpa using List.find?_some held⟩

end MqttBroker.World
