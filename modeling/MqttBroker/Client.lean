import MqttBroker.Subscription

/-! `Client`, a session: its subscriptions, its will and the socket it is
attached to. -/
namespace MqttBroker

/-- `Client::Will` -/
structure Will where
  presenceFlag : Bool := false
  retain : Bool := false
  topic : Myvector UInt8 := {}
  msg : Myvector UInt8 := {}
  qos : UInt8 := 0

/-- The assignment of a will. A member whose copy fails keeps its value. -/
def Will.assign (target will : Will) (heap : Heap) : Will × Heap :=
  let topic := target.topic.assign will.topic heap
  let msg := target.msg.assign will.msg topic.2
  ({ will with topic := topic.1, msg := msg.1 }, msg.2)

/-- `sock` is `none` for -1. The address tells one `Client` object from
another: pointers to it, and nothing else, are compared by it. -/
structure Client where
  addr : Nat
  subscriptions : Subscription
  hasQuedMsgs : Bool := false
  sock : Option (Fin 64) := none
  cleanSession : Bool := true
  will : Will := {}

namespace Client

/-- `Client::Client()` for an object at `addr`. -/
def new (addr : Nat) (heap : Heap) : Client × Heap :=
  let subscriptions := Subscription.new heap
  ({ addr := addr, subscriptions := subscriptions.1 }, subscriptions.2)

def delSubs (client : Client) (heap : Heap) : Client × Heap :=
  let subscriptions := Subscription.new heap
  ({ client with subscriptions := subscriptions.1 }, subscriptions.2)

/-- `fuel` bounds the iterations of the walk, as in `Subscription.addSub`. -/
def subscribe (client : Client) (fuel : Nat) (topic : Key) (qos : UInt8) (heap : Heap) :
    Outcome (UInt8 × Client × Heap) := do
  let result ← client.subscriptions.addSub fuel topic qos heap
  .ok (result.1, { client with subscriptions := result.2.1 }, result.2.2)

def isSubscribed (client : Client) (topic : Key) : Outcome UInt8 :=
  client.subscriptions.isSubedTo topic

def unsubscribe (client : Client) (topic : Key) : Outcome Client := do
  let subscriptions ← client.subscriptions.deleteSub topic
  .ok { client with subscriptions := subscriptions }

end Client
end MqttBroker
