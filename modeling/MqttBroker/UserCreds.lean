import MqttBroker.Myhashmap

/-! `user_creds`: the users and the check of a password. -/
namespace MqttBroker

/-- `user_creds::Password` -/
structure Password where
  protection : Bool := false
  salt : List UInt8
  hash : List UInt8

namespace UserCreds

/-- `add_user` without a password; `salt` and `hash` are what the new object
happens to hold. -/
def addUser (data : Myhashmap Password) (username : Key) (salt hash : List UInt8) (heap : Heap) :
    Outcome (Bool × Myhashmap Password × Heap) :=
  if heap.alloc.1 then data.add username { salt := salt, hash := hash } heap.alloc.2
  else .ok (false, data, heap.alloc.2)

/-- `add_user` with a password. The digest stands for the SHA-256 calls, `none`
for one that fails. -/
def addUserProtected (data : Myhashmap Password) (digest : List UInt8 → Option (List UInt8))
    (username : Key) (pass salt : List UInt8) (heap : Heap) :
    Outcome (Bool × Myhashmap Password × Heap) :=
  if heap.alloc.1 then
    match digest (pass ++ salt) with
    | none => .ok (false, data, heap.alloc.2)
    | some hash => data.add username ⟨true, salt, hash⟩ heap.alloc.2
  else .ok (false, data, heap.alloc.2)

/-- `change_password`. A user that is not stored has no pointer to read. -/
def changePassword (data : Myhashmap Password) (digest : List UInt8 → Option (List UInt8))
    (username : Key) (pass salt : List UInt8) : Outcome (Bool × Myhashmap Password) := do
  match ← data.get username with
  | none => .error .nullDeref
  | some passToChange =>
    if pass.length = 0 then
      .ok (true, data.rewritten username { passToChange with protection := false })
    else
      match digest (pass ++ salt) with
      | none => .ok (false, data.rewritten username ⟨true, salt, passToChange.hash⟩)
      | some hash => .ok (true, data.rewritten username ⟨true, salt, hash⟩)

def deleteUser (data : Myhashmap Password) (username : Key) : Outcome (Myhashmap Password) :=
  data.erase username

/-- `check_password`. A user that is not stored has no pointer to read. -/
def checkPassword (data : Myhashmap Password) (digest : List UInt8 → Option (List UInt8))
    (username : Key) (pass : List UInt8) (heap : Heap) : Outcome (Bool × Heap) := do
  match ← data.get username with
  | none => .error .nullDeref
  | some correctPass =>
    if pass.length = 0 then .ok (!correctPass.protection, heap)
    else if heap.alloc.1 then
      match digest (pass ++ correctPass.salt) with
      | none => .ok (false, heap.alloc.2)
      | some hash => .ok (decide (hash = correctPass.hash), heap.alloc.2)
    else .ok (false, heap.alloc.2)

end UserCreds
end MqttBroker
