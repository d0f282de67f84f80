import Mathlib.Algebra.GroupWithZero.Nat

/-! The messages of the queues `pending_socks` and `socks_for_fds`. -/
namespace MqttBroker

/-- `message::operation` -/
inductive Operation
  | write | read | delread | delall
  deriving DecidableEq

/-- There are sockets. -/
instance sockets : NeZero 64 := ⟨by decide⟩

structure Message where
  socket : Fin 64
  op : Operation
  deriving DecidableEq

end MqttBroker
