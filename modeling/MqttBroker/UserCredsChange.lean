import MqttBroker.UserCredsHistory

/-! `change_password` against all later checks. The entry is changed in place
before the SHA-256 calls, so a call that fails has already taken the salt away
from the stored hash, and an unprotected user keeps the hash of his last
password. -/
namespace MqttBroker.UserCredsChange
open Myhashmap UserCreds UserCredsHistory

/-- The digest of the four SHA-256 calls, `none` where one of them fails. -/
def shaCalls (sha256 : List UInt8 → List UInt8) (succeeds : Fin 4 → Bool) (message : List UInt8) :
    Option (List UInt8) :=
  if ∀ i, succeeds i then some (sha256 message) else none

variable (sha256 : List UInt8 → List UInt8)

/-- A change that is refused changes no check, and one that is accepted lets in
exactly the new password and changes no check of another user. -/
def Atomic (data : Myhashmap Password) (username : Key) (pass : List UInt8)
    (returned : Bool × Myhashmap Password) : Prop :=
  if returned.1 then
    (∀ other, answer sha256 returned.2 username other = .ok true ↔ other = pass) ∧
      ∀ user, user ≠ username → ∀ other,
        answer sha256 returned.2 user other = answer sha256 data user other
  else ∀ user other, answer sha256 returned.2 user other = answer sha256 data user other

/-- No password has the stored hash under a salt. -/
def Hashless (hash salt : List UInt8) : Prop := ∀ last, last ≠ [] → sha256 (last ++ salt) ≠ hash

/-- What a change must meet: it leaves no hash of an old password behind, and a
call of it fails only for a protected user, whose hash the new salt serves as
well as the old one. -/
def Unharmed (old : Password) (succeeds : Fin 4 → Bool) (pass salt : List UInt8) : Prop :=
  if pass = [] then Hashless sha256 old.hash old.salt
  else (∀ i, succeeds i) ∨ old.protection = true ∧
    (salt = old.salt ∨ Hashless sha256 old.hash old.salt ∧ Hashless sha256 old.hash salt)

section Laws
variable {sha256} {data : Myhashmap Password} {username : Key} {old added : Password}
  {pass salt : List UInt8}

/-- A table with an entry has buckets. -/
theorem buckets_of_entry (stored : entry data username = some old) : 0 < data.capacity := by
  apply Nat.pos_of_ne_zero
  intro bare
  have empty : data.buckets = [] := List.eq_nil_of_length_eq_zero bare
  simp [entry, bucket, empty, find] at stored

/-- Every check of a user whose entry is written anew is one of the new entry,
and no other check changes. -/
theorem answer_rewritten (stored : entry data username = some old) (user : Key)
    (other : List UInt8) :
    answer sha256 (data.rewritten username added) user other =
      if user = username then answer sha256 (data.rewritten username added) username other
      else answer sha256 data user other := by
  have buckets := buckets_of_entry stored
  have buckets' : 0 < (data.rewritten username added).capacity := rewritten_capacity.symm ▸ buckets
  by_cases same : user = username
  · rw [if_pos same, same]
  · rw [if_neg same, answer_eq buckets', answer_eq buckets, entry_rewritten buckets, if_neg same]

theorem accepted_rewritten (stored : entry data username = some old) (other : List UInt8) :
    answer sha256 (data.rewritten username added) username other = .ok true ↔
      Accepts sha256 added other := by
  have buckets := buckets_of_entry stored
  rw [answer_true (rewritten_capacity.symm ▸ buckets), entry_rewritten buckets, if_pos rfl, stored]
  simp

/-- The checks are as before exactly when the new entry accepts what the old one
accepts. -/
theorem same_answers_iff (stored : entry data username = some old) :
    (∀ user other, answer sha256 (data.rewritten username added) user other =
        answer sha256 data user other) ↔
      ∀ other, Accepts sha256 added other ↔ Accepts sha256 old other := by
  have buckets := buckets_of_entry stored
  have before (other : List UInt8) :
      answer sha256 data username other = .ok true ↔ Accepts sha256 old other := by
    rw [answer_true buckets, stored]
    simp
  constructor
  · intro same other
    rw [← accepted_rewritten stored, same, before]
  · intro same user other
    rw [answer_rewritten stored]
    split
    · rename_i here
      subst here
      rw [answer_eq (rewritten_capacity.symm ▸ buckets), answer_eq buckets, stored,
        entry_rewritten buckets, if_pos rfl, stored]
      simp [same other]
    · rfl

theorem atomic_accepted (stored : entry data username = some old) :
    Atomic sha256 data username pass (true, data.rewritten username added) ↔
      ∀ other, Accepts sha256 added other ↔ pass = other := by
  simp only [Atomic, if_true, accepted_rewritten stored]
  constructor
  · intro held other
    rw [held.1 other, eq_comm]
  · intro held
    refine ⟨fun other => by rw [held other, eq_comm], fun user different other => ?_⟩
    rw [answer_rewritten stored, if_neg different]

theorem atomic_refused (stored : entry data username = some old) :
    Atomic sha256 data username pass (false, data.rewritten username added) ↔
      ∀ other, Accepts sha256 added other ↔ Accepts sha256 old other := by
  rw [← same_answers_iff stored, Atomic, if_neg Bool.false_ne_true]

/-- The new salt serves a hash as well as the old one: they are the same, or no
password has the hash under either. -/
theorem same_salt_iff (injective : Function.Injective sha256) (hash first second : List UInt8) :
    (∀ last, last ≠ [] → (sha256 (last ++ second) = hash ↔ sha256 (last ++ first) = hash)) ↔
      second = first ∨ Hashless sha256 hash first ∧ Hashless sha256 hash second := by
  constructor
  · intro same
    by_cases known : second = first
    · exact .inl known
    have apart (last : List UInt8) (long : last ≠ []) (hit : sha256 (last ++ first) = hash) : False := by
      have both := injective (((same last long).mpr hit).trans hit.symm)
      exact known (List.append_cancel_left both)
    refine .inr ⟨fun last long hit => apart last long hit, fun last long hit => ?_⟩
    exact apart last long ((same last long).mp hit)
  · rintro (rfl | ⟨none, none'⟩) last long
    · exact Iff.rfl
    · exact iff_of_false (none' last long) (none last long)

theorem accepts_resalted (injective : Function.Injective sha256) :
    (∀ other, Accepts sha256 ⟨true, salt, old.hash⟩ other ↔ Accepts sha256 old other) ↔
      old.protection = true ∧
        (salt = old.salt ∨ Hashless sha256 old.hash old.salt ∧ Hashless sha256 old.hash salt) := by
  rw [← same_salt_iff injective]
  constructor
  · intro same
    refine ⟨?_, fun last long => ?_⟩
    · have empty := same []
      simpa [Accepts] using empty
    · have one := same last
      simpa [Accepts, long] using one
  · rintro ⟨guarded, same⟩ other
    by_cases empty : other = []
    · simp [Accepts, empty, guarded]
    · simpa [Accepts, empty] using same other empty

theorem accepts_unguarded_iff :
    (∀ other, Accepts sha256 { old with protection := false } other ↔ [] = other) ↔
      Hashless sha256 old.hash old.salt :=
  accepts_unprotected

end Laws

/-- A change of password is atomic exactly when it meets its condition. -/
theorem change_atomic_iff {sha256 : List UInt8 → List UInt8} (injective : Function.Injective sha256)
    {data : Myhashmap Password} {username : Key} {old : Password}
    (stored : entry data username = some old) (succeeds : Fin 4 → Bool) (pass salt : List UInt8) :
    (∃ returned, changePassword data (shaCalls sha256 succeeds) username pass salt = .ok returned ∧
        Atomic sha256 data username pass returned) ↔
      Unharmed sha256 old succeeds pass salt := by
  obtain ⟨node, found, rfl⟩ := Option.map_eq_some_iff.mp stored
  simp only [changePassword, get_eq (buckets_of_entry stored), found, bind, Except.bind,
    Option.map_some, List.length_eq_zero_iff, Unharmed]
  by_cases empty : pass = []
  · subst empty
    simp only [if_true, Except.ok.injEq, exists_eq_left', atomic_accepted stored]
    exact accepts_unguarded_iff
  · simp only [empty, if_false]
    by_cases all : ∀ i, succeeds i
    · simp only [shaCalls, all, implies_true, if_true, Except.ok.injEq, exists_eq_left',
        atomic_accepted stored, true_or, iff_true]
      exact (accepts_protected injective).mpr empty
    · simp only [shaCalls, all, if_false, Except.ok.injEq, exists_eq_left', atomic_refused stored,
        false_or]
      exact accepts_resalted injective

/-- A table with the user "u", whose password is "p". -/
def oneUser : Myhashmap Password :=
  { buckets := [[⟨[117], ⟨true, salt, digest⟩⟩]], size := 0, count := 1 }

/-- The last of the four calls fails. -/
def lastFails (i : Fin 4) : Bool := i ≠ 3

theorem change_atomic_iff_one_user :
    (∃ returned, changePassword oneUser (shaCalls digestOf lastFails) [117] [113] salt = .ok returned ∧
        Atomic digestOf oneUser [117] [113] returned) ↔
      Unharmed digestOf ⟨true, salt, digest⟩ lastFails [113] salt :=
  change_atomic_iff digestOf_injective rfl lastFails [113] salt

/-- The change to "q" fails after another salt was drawn, and "p" is no longer
let in. -/
theorem refused_change_locks_out :
    ∃ data, changePassword oneUser (shaCalls digestOf lastFails) [117] [113] (1 :: salt.tail) =
        .ok (false, data) ∧
      answer digestOf oneUser [117] [112] = .ok true ∧ answer digestOf data [117] [112] = .ok false :=
  ⟨_, rfl, rfl, rfl⟩

end MqttBroker.UserCredsChange
