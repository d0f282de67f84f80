import MqttBroker.Logic.Histories
import MqttBroker.MyhashmapContents
import MqttBroker.UserCreds

/-! The credential table over a history of calls, against the passwords last
set. Every allocation and every SHA-256 call succeeds. -/
namespace MqttBroker.UserCredsHistory
open Myhashmap UserCreds

/-- A call with the bytes it finds: those of a new object, and of the salt that
is drawn. -/
inductive Call
  | addUser (username : Key) (salt hash : List UInt8)
  | addUserProtected (username : Key) (pass salt : List UInt8)
  | changePassword (username : Key) (pass salt : List UInt8)
  | deleteUser (username : Key)

variable (sha256 : List UInt8 → List UInt8)

/-- The table after one call. -/
def call (data : Myhashmap Password) : Call → Outcome (Myhashmap Password)
  | .addUser username salt hash => do
    let result ← addUser data username salt hash []
    .ok result.2.1
  | .addUserProtected username pass salt => do
    let result ← addUserProtected data (some ∘ sha256) username pass salt []
    .ok result.2.1
  | .changePassword username pass salt => do
    let result ← changePassword data (some ∘ sha256) username pass salt
    .ok result.2
  | .deleteUser username => deleteUser data username

/-- The table a history leads to, from `user_creds(cap)`. -/
def run (cap : Nat) (calls : List Call) : Outcome (Myhashmap Password) :=
  Logic.after (call sha256) (ofCapacity cap []).1 calls

/-- The answer of `check_password`. -/
def answer (data : Myhashmap Password) (username : Key) (pass : List UInt8) : Outcome Bool :=
  (checkPassword data (some ∘ sha256) username pass []).map Prod.fst

abbrev Passwords := Key → Option (List UInt8)

/-- The passwords last set; the empty one is that of an unprotected user. -/
def Passwords.call (passwords : Passwords) : Call → Passwords
  | .addUser username _ _ => Function.update passwords username (some [])
  | .addUserProtected username pass _ => Function.update passwords username (some pass)
  | .changePassword username pass _ =>
    if (passwords username).isSome then Function.update passwords username (some pass) else passwords
  | .deleteUser username => Function.update passwords username none

def passwordsOf (calls : List Call) : Passwords := calls.foldl Passwords.call fun _ => none

/-- An entry of the table lets a password in. -/
def Accepts (entry : Password) (pass : List UInt8) : Prop :=
  if pass = [] then entry.protection = false else sha256 (pass ++ entry.salt) = entry.hash

/-- Exactly the password last set is let in. -/
def Checked (data : Myhashmap Password) (passwords : Passwords) : Prop :=
  ∀ username pass, answer sha256 data username pass = .ok true ↔ passwords username = some pass

/-- The entry that stands for a user. -/
def entry (data : Myhashmap Password) (username : Key) : Option Password :=
  (find username (data.bucket username)).map Node.data

/-- What a call must meet, in the table it finds. -/
def Meets (data : Myhashmap Password) (passwords : Passwords) : Call → Prop
  | .addUser username salt hash => ¬ data.Crowded username ∧
      if (entry data username).isSome then passwords username = some []
      else ∀ pass, pass ≠ [] → sha256 (pass ++ salt) ≠ hash
  | .addUserProtected username pass _ => ¬ data.Crowded username ∧
      if (entry data username).isSome then passwords username = some pass else pass ≠ []
  | .changePassword username pass _ =>
    (passwords username).isSome ∧ (pass = [] → passwords username = some [])
  | .deleteUser username => data.bucket username ≠ [] ∧
      ∀ rest shadowed, unlink username (data.bucket username) = some rest →
        find username rest = some shadowed → ∀ pass, ¬ Accepts sha256 shadowed.data pass

section Laws
variable {sha256} {data data' : Myhashmap Password} {passwords : Passwords} {username : Key}
  {pass salt hash : List UInt8} {added : Password}

open Classical in
theorem answer_eq (buckets : 0 < data.capacity) (username : Key) (pass : List UInt8) :
    answer sha256 data username pass =
      match entry data username with
      | none => .error .nullDeref
      | some stored => .ok (decide (Accepts sha256 stored pass)) := by
  simp only [answer, checkPassword, entry, get_eq buckets]
  cases find username (data.bucket username) with
  | none => rfl
  | some node =>
    simp only [bind, Except.bind, Option.map_some, List.length_eq_zero_iff, Accepts]
    by_cases empty : pass = []
    · subst empty
      simp [Except.map]
    · simp [empty, Except.map]

theorem answer_true (buckets : 0 < data.capacity) :
    answer sha256 data username pass = .ok true ↔
      ∃ stored, entry data username = some stored ∧ Accepts sha256 stored pass := by
  rw [answer_eq buckets]
  cases entry data username <;> simp

theorem checked_iff (buckets : 0 < data.capacity) :
    Checked sha256 data passwords ↔ ∀ username pass,
      (∃ stored, entry data username = some stored ∧ Accepts sha256 stored pass) ↔
        passwords username = some pass :=
  forall₂_congr fun _ _ => iff_congr (answer_true buckets) Iff.rfl

/-- A call that changes the entry of one user is judged by that user. -/
theorem checked_update (checked : Checked sha256 data passwords) (buckets : 0 < data.capacity)
    (buckets' : 0 < data'.capacity)
    (others : ∀ other, other ≠ username → entry data' other = entry data other)
    (set : Option (List UInt8)) :
    Checked sha256 data' (Function.update passwords username set) ↔ ∀ pass,
      (∃ stored, entry data' username = some stored ∧ Accepts sha256 stored pass) ↔
        set = some pass := by
  rw [checked_iff buckets] at checked
  rw [checked_iff buckets']
  constructor
  · intro held pass
    simpa using held username pass
  · intro held other pass
    by_cases same : other = username
    · subst same
      simpa using held pass
    · rw [others other same, Function.update_of_ne same]
      exact checked other pass

/-! ### Additions -/

theorem entry_appended (buckets : 0 < data.capacity) (other : Key) :
    entry (data.appended username added) other =
      (entry data other).or (if other = username then some added else none) := by
  rw [entry, find_appended buckets, Option.map_or, entry]
  congr 1
  split <;> rfl

/-- A user who is stored keeps the entry that stands for him. -/
theorem checked_appended (checked : Checked sha256 data passwords) (buckets : 0 < data.capacity) :
    Checked sha256 (data.appended username added)
        (Function.update passwords username (some pass)) ↔
      if (entry data username).isSome then passwords username = some pass
      else ∀ other, Accepts sha256 added other ↔ pass = other := by
  have capacity : 0 < (data.appended username added).capacity :=
    appended_capacity.symm ▸ buckets
  rw [checked_update checked buckets capacity fun other different => by
    rw [entry_appended buckets, if_neg different, Option.or_none]]
  rw [entry_appended buckets, if_pos rfl]
  have before := (checked_iff buckets).mp checked username
  cases stored : entry data username with
  | none => simp
  | some first =>
    simp only [stored, Option.some.injEq, exists_eq_left'] at before
    simp only [Option.some_or, Option.some.injEq, exists_eq_left', before, Option.isSome_some, if_true]
    constructor
    · exact fun held => (held pass).mpr rfl
    · intro held other
      rw [held, Option.some.injEq]

theorem accepts_unprotected :
    (∀ other, Accepts sha256 { salt := salt, hash := hash } other ↔ [] = other) ↔
      ∀ pass, pass ≠ [] → sha256 (pass ++ salt) ≠ hash := by
  refine forall_congr' fun other => ?_
  by_cases empty : other = []
  · simp [Accepts, empty]
  · simp [Accepts, empty, Ne.symm empty]

/-- With a digest that is injective a protected entry lets in one password,
unless that is empty. -/
theorem accepts_protected (injective : Function.Injective sha256) :
    (∀ other, Accepts sha256 ⟨true, salt, sha256 (pass ++ salt)⟩ other ↔ pass = other) ↔
      pass ≠ [] := by
  constructor
  · rintro exact rfl
    simpa [Accepts] using exact []
  · intro long other
    by_cases empty : other = []
    · simp [Accepts, empty, long]
    · simp only [Accepts, if_neg empty]
      rw [injective.eq_iff, List.append_left_inj, eq_comm]

/-! ### Changes and removals -/

theorem entry_rewritten (buckets : 0 < data.capacity) (other : Key) :
    entry (data.rewritten username added) other =
      if other = username then (entry data username).map fun _ => added else entry data other := by
  rw [entry, find_rewritten buckets]
  split
  · rw [Option.map_map, entry, Option.map_map]
    rfl
  · rfl

/-- The entry that stands for a user gets a new password. -/
theorem checked_rewritten (checked : Checked sha256 data passwords) (buckets : 0 < data.capacity)
    (stored : (entry data username).isSome) (set : Option (List UInt8)) :
    Checked sha256 (data.rewritten username added) (Function.update passwords username set) ↔
      ∀ other, Accepts sha256 added other ↔ set = some other := by
  have capacity : 0 < (data.rewritten username added).capacity :=
    rewritten_capacity.symm ▸ buckets
  rw [checked_update checked buckets capacity fun other different => by
    rw [entry_rewritten buckets, if_neg different]]
  obtain ⟨first, stored⟩ := Option.isSome_iff_exists.mp stored
  simp [entry_rewritten buckets, stored]

/-- An entry without protection still has the digest of its last password. -/
theorem accepts_unguarded {first : Password} {last : List UInt8}
    (accepts : ∀ other, Accepts sha256 first other ↔ last = other) :
    (∀ other, Accepts sha256 { first with protection := false } other ↔ [] = other) ↔ last = [] := by
  constructor
  · intro held
    by_contra long
    have leftover : Accepts sha256 { first with protection := false } last := by
      have before := (accepts last).mpr rfl
      simpa [Accepts, long] using before
    exact long ((held last).mp leftover).symm
  · rintro rfl other
    by_cases empty : other = []
    · simp [Accepts, empty]
    · have before := accepts other
      simpa [Accepts, empty] using before

theorem entry_removed (buckets : 0 < data.capacity) {rest : List (Node Password)}
    (unlinked : unlink username (data.bucket username) = some rest) (other : Key) :
    entry (data.removed username rest) other =
      if other = username then (find username rest).map Node.data else entry data other := by
  rw [entry, removed, bucket_set buckets]
  by_cases same : other = username
  · subst same
    simp
  · rw [if_neg same, entry]
    split
    · rename_i shared
      rw [find_unlink_other same unlinked, bucket, bucket, shared]
    · rfl

theorem checked_removed (checked : Checked sha256 data passwords) (buckets : 0 < data.capacity)
    {rest : List (Node Password)}
    (unlinked : unlink username (data.bucket username) = some rest) :
    Checked sha256 (data.removed username rest) (Function.update passwords username none) ↔
      ∀ shadowed, find username rest = some shadowed →
        ∀ pass, ¬ Accepts sha256 shadowed.data pass := by
  have capacity : 0 < (data.removed username rest).capacity := removed_capacity.symm ▸ buckets
  rw [checked_update checked buckets capacity fun other different => by
    rw [entry_removed buckets unlinked, if_neg different]]
  rw [entry_removed buckets unlinked, if_pos rfl]
  cases find username rest <;> simp

/-! ### One call -/

theorem call_addUser : call sha256 data (.addUser username salt hash) =
    (data.add username { salt := salt, hash := hash } []).map fun result => result.2.1 := by
  simp only [call, addUser, Heap.alloc_nil, if_true]
  rfl

theorem call_addUserProtected : call sha256 data (.addUserProtected username pass salt) =
    (data.add username ⟨true, salt, sha256 (pass ++ salt)⟩ []).map fun result => result.2.1 := by
  simp only [call, addUserProtected, Heap.alloc_nil, if_true, Function.comp]
  rfl

theorem call_changePassword (buckets : 0 < data.capacity) :
    call sha256 data (.changePassword username pass salt) =
      match entry data username with
      | none => .error .nullDeref
      | some stored => .ok (data.rewritten username (if pass = [] then
          { stored with protection := false } else ⟨true, salt, sha256 (pass ++ salt)⟩)) := by
  simp only [call, changePassword, entry, get_eq buckets]
  cases find username (data.bucket username) with
  | none => rfl
  | some node =>
    by_cases empty : pass = [] <;> simp [bind, Except.bind, empty]

theorem call_deleteUser_empty (buckets : 0 < data.capacity) (absent : data.bucket username = []) :
    call sha256 data (.deleteUser username) = .error .nullDeref := by
  simp [call, deleteUser, erase, index_eq buckets, chain_eq buckets, bind, Except.bind, absent]

theorem call_deleteUser (buckets : 0 < data.capacity) (chained : data.bucket username ≠ []) :
    call sha256 data (.deleteUser username) =
      .ok (((unlink username (data.bucket username)).map (data.removed username)).getD data) := by
  simp only [call, deleteUser, erase, index_eq buckets, chain_eq buckets, bind, Except.bind, chained,
    if_false]
  cases unlink username (data.bucket username) <;> rfl

/-- A table with buckets, whose vector of them has size zero. -/
def Formed (data : Myhashmap Password) : Prop := 0 < data.capacity ∧ data.size = 0

theorem formed_add (formed : Formed data) {result : Bool × Myhashmap Password × Heap}
    (ran : data.add username added [] = .ok result) : Formed result.2.1 := by
  obtain ⟨result', ran', ends⟩ := add_ends formed.1 formed.2 username added []
  obtain rfl : result = result' := Except.ok.inj (ran.symm.trans ran')
  cases ends with
  | refused => exact formed
  | appended => exact ⟨appended_capacity.symm ▸ formed.1, formed.2⟩
  | emptied _ crowded => exact ⟨emptied_capacity formed.1 crowded, rfl⟩

theorem formed_call {op : Call} (formed : Formed data) (called : call sha256 data op = .ok data') :
    Formed data' := by
  obtain ⟨buckets, unsized⟩ := formed
  have of_add {username : Key} {added : Password}
      (called : (data.add username added []).map (fun result => result.2.1) = .ok data') :
      Formed data' := by
    cases ran : data.add username added [] with
    | error fault =>
      rw [ran] at called
      cases called
    | ok result =>
      rw [ran] at called
      cases called
      exact formed_add ⟨buckets, unsized⟩ ran
  cases op with
  | addUser => exact of_add (call_addUser.symm.trans called)
  | addUserProtected => exact of_add (call_addUserProtected.symm.trans called)
  | changePassword =>
    rw [call_changePassword buckets] at called
    split at called
    · cases called
    · cases called
      exact ⟨rewritten_capacity.symm ▸ buckets, unsized⟩
  | deleteUser =>
    rename_i username
    by_cases absent : data.bucket username = []
    · rw [call_deleteUser_empty buckets absent] at called
      cases called
    · rw [call_deleteUser buckets absent] at called
      cases called
      cases unlink username (data.bucket username) with
      | none => exact ⟨buckets, unsized⟩
      | some rest => exact ⟨removed_capacity.symm ▸ buckets, unsized⟩

/-- An addition that grows the table loses every user, the new one included. -/
theorem add_checked_iff (formed : Formed data) (checked : Checked sha256 data passwords) :
    (∃ data', (data.add username added []).map (fun result => result.2.1) = .ok data' ∧
        Checked sha256 data' (Function.update passwords username (some pass))) ↔
      ¬ data.Crowded username ∧
        if (entry data username).isSome then passwords username = some pass
        else ∀ other, Accepts sha256 added other ↔ pass = other := by
  obtain ⟨buckets, unsized⟩ := formed
  by_cases crowded : data.Crowded username
  · simp only [add_crowded buckets unsized crowded, Except.map, Except.ok.injEq, exists_eq_left',
      crowded, not_true_eq_false, false_and, iff_false]
    intro held
    have capacity := emptied_capacity buckets crowded
    have lost := (checked_iff capacity).mp held username pass
    have absent := emptied_get buckets crowded username
    rw [get_eq capacity, Except.ok.injEq] at absent
    have nothing : entry data.emptied username = none := absent
    simp [nothing] at lost
  · simp only [add_roomy buckets crowded, Except.map, Except.ok.injEq, exists_eq_left',
      checked_appended checked buckets, crowded, not_false_iff, true_and]

/-- The entry that stands for a user lets in exactly the password last set. -/
theorem Checked.stored (checked : Checked sha256 data passwords) (buckets : 0 < data.capacity)
    {last : List UInt8} (known : passwords username = some last) :
    ∃ stored, entry data username = some stored ∧
      ∀ other, Accepts sha256 stored other ↔ last = other := by
  have before := (checked_iff buckets).mp checked username
  obtain ⟨stored, held, -⟩ := (before last).mpr known
  refine ⟨stored, held, fun other => ?_⟩
  have one := before other
  simpa [held, known] using one

theorem call_checked_iff (injective : Function.Injective sha256) (formed : Formed data)
    (checked : Checked sha256 data passwords) (op : Call) :
    (∃ data', call sha256 data op = .ok data' ∧ Checked sha256 data' (passwords.call op)) ↔
      Meets sha256 data passwords op := by
  obtain ⟨buckets, unsized⟩ := formed
  cases op with
  | addUser username salt hash =>
    rw [call_addUser, Passwords.call, add_checked_iff ⟨buckets, unsized⟩ checked, Meets,
      accepts_unprotected]
  | addUserProtected username pass salt =>
    rw [call_addUserProtected, Passwords.call, add_checked_iff ⟨buckets, unsized⟩ checked, Meets,
      accepts_protected injective]
  | changePassword username pass salt =>
    rw [call_changePassword buckets]
    cases known : passwords username with
    | none =>
      simp only [Meets, known, Option.isSome_none, Bool.false_eq_true, false_and, iff_false]
      rintro ⟨data', called, held⟩
      split at called
      · cases called
      · rename_i stored at_stored
        cases called
        simp only [Passwords.call, known, Option.isSome_none, Bool.false_eq_true, if_false] at held
        rw [← Function.update_eq_self username passwords, known] at held
        have refused := (checked_rewritten checked buckets (by simp [at_stored]) none).mp held pass
        by_cases empty : pass = [] <;> simp [Accepts, empty] at refused
    | some last =>
      obtain ⟨stored, at_stored, accepts⟩ := checked.stored buckets known
      simp only [at_stored, Except.ok.injEq, exists_eq_left', Passwords.call, known,
        Option.isSome_some, if_true, Meets, true_and, Option.some.injEq,
        checked_rewritten checked buckets (by simp [at_stored] : (entry data username).isSome)]
      by_cases empty : pass = []
      · simp only [empty, if_true, accepts_unguarded accepts, true_imp_iff]
      · simp only [empty, if_false, accepts_protected injective, false_imp_iff, iff_true]
        exact empty
  | deleteUser username =>
    simp only [Meets, Passwords.call]
    by_cases absent : data.bucket username = []
    · simp [call_deleteUser_empty buckets absent, absent]
    rw [call_deleteUser buckets absent]
    cases unlinked : unlink username (data.bucket username) with
    | some rest =>
      simp only [Option.map_some, Option.getD_some, Except.ok.injEq, exists_eq_left',
        checked_removed checked buckets unlinked, ne_eq, absent, not_false_iff, true_and,
        Option.some.injEq]
      exact ⟨fun held _ shadowed same => same ▸ held shadowed, fun held shadowed =>
        held rest shadowed rfl⟩
    | none =>
      have unknown : passwords username = none := by
        by_contra known
        obtain ⟨last, known⟩ := Option.ne_none_iff_exists'.mp known
        obtain ⟨stored, held, -⟩ := checked.stored buckets known
        obtain ⟨node, found, -⟩ := Option.map_eq_some_iff.mp held
        obtain ⟨rest, removed⟩ := unlink_found found
        rw [unlinked] at removed
        cases removed
      have same : Function.update passwords username none = passwords := by
        rw [← unknown, Function.update_eq_self]
      simp [same, absent, checked]

theorem formed_ofCapacity {cap : Nat} (positive : 1 ≤ cap) : Formed (ofCapacity cap []).1 :=
  ⟨(sound_ofCapacity positive).buckets, rfl⟩

theorem run_formed {cap : Nat} (positive : 1 ≤ cap) {calls : List Call}
    (ran : run sha256 cap calls = .ok data) : Formed data := by
  induction calls using List.reverseRecOn generalizing data with
  | nil =>
    cases ran
    exact formed_ofCapacity positive
  | append_singleton before op ih =>
    rw [run, Logic.after_append] at ran
    cases earlier : Logic.after (call sha256) (ofCapacity cap []).1 before with
    | error fault =>
      rw [earlier] at ran
      cases ran
    | ok data =>
      rw [earlier] at ran
      exact formed_call (ih earlier) ran

theorem checked_ofCapacity {cap : Nat} (positive : 1 ≤ cap) :
    Checked sha256 (ofCapacity cap []).1 fun _ => none := by
  rw [checked_iff (formed_ofCapacity positive).1]
  intro username pass
  have nothing : entry (ofCapacity cap [] : Myhashmap Password × Heap).1 username = none := by
    have sound := sound_ofCapacity (α := Password) positive
    have absent : (ofCapacity cap [] : Myhashmap Password × Heap).1.get username = .ok none := by
      refine sound.get_none.mpr fun node member => ?_
      rw [nodes_ofCapacity] at member
      cases member
    rw [get_eq sound.buckets] at absent
    exact Except.ok.inj absent
  simp [nothing]

theorem passwordsOf_append (before : List Call) (op : Call) :
    passwordsOf (before ++ [op]) = (passwordsOf before).call op := by
  simp [passwordsOf]

end Laws

/-- The check lets in exactly the password last set, in every state of a
history, if and only if every call of the history meets its condition; and it
reads a missing entry for every user without one. -/
theorem password_checked_iff {sha256 : List UInt8 → List UInt8}
    (injective : Function.Injective sha256) {cap : Nat} (positive : 1 ≤ cap) (calls : List Call) :
    ((∀ before, before <+: calls → ∃ data, run sha256 cap before = .ok data ∧
          Checked sha256 data (passwordsOf before)) ↔
        ∀ before op data, before ++ [op] <+: calls → run sha256 cap before = .ok data →
          Meets sha256 data (passwordsOf before) op) ∧
      ∀ data, run sha256 cap calls = .ok data → ∀ username pass,
        answer sha256 data username pass = .error .nullDeref ↔ entry data username = none := by
  constructor
  · refine Logic.always_good_iff (checked_ofCapacity positive) (fun before data op ran checked => ?_)
      calls
    rw [passwordsOf_append]
    exact call_checked_iff injective (run_formed positive ran) checked op
  · intro data ran username pass
    rw [answer_eq (run_formed positive ran).1]
    cases entry data username <;> simp

/-- The salt of the runs below. -/
def salt : List UInt8 := List.replicate 16 0

/-- SHA-256 of the password "p" with that salt. -/
def digest : List UInt8 :=
  [0x2A, 0xD2, 0xB0, 0x4E, 0x65, 0x57, 0x68, 0xF3, 0xFC, 0xB9, 0x60,
    0x5F, 0xFF, 0x8A, 0xD6, 0xA1, 0x75, 0x8B, 0x8F, 0xB6, 0x40, 0x72, 0xC6,
    0x0F, 0x4B, 0xB5, 0x82, 0xB9, 0x2B, 0x0A, 0x93, 0x69]

/-- SHA-256 on one message, and something injective on the others. -/
def digestOf (message : List UInt8) : List UInt8 :=
  if message = 112 :: salt then digest else List.replicate 33 0 ++ message

theorem digestOf_injective : Function.Injective digestOf := by
  have long (message : List UInt8) : digest ≠ List.replicate 33 0 ++ message := fun same => by
    have sized := congrArg List.length same
    simp [digest] at sized
  intro first second same
  unfold digestOf at same
  split at same <;> split at same
  · exact ‹first = _›.trans ‹second = _›.symm
  · exact absurd same (long _)
  · exact absurd same.symm (long _)
  · exact List.append_cancel_left same

/-- A user is added, gets the password "p" and loses it again. -/
def unguarded : List Call :=
  [.addUser [117] salt salt, .changePassword [117] [112] salt, .changePassword [117] [] salt]

theorem password_checked_iff_unguarded :
    ((∀ before, before <+: unguarded → ∃ data, run digestOf 1 before = .ok data ∧
          Checked digestOf data (passwordsOf before)) ↔
        ∀ before op data, before ++ [op] <+: unguarded → run digestOf 1 before = .ok data →
          Meets digestOf data (passwordsOf before) op) ∧
      ∀ data, run digestOf 1 unguarded = .ok data → ∀ username pass,
        answer digestOf data username pass = .error .nullDeref ↔ entry data username = none :=
  password_checked_iff digestOf_injective (Nat.le_refl 1) unguarded

/-- The old password is still let in, and an unknown user is a missing entry
that is read. -/
theorem old_password_accepted :
    ∃ data, run digestOf 1 unguarded = .ok data ∧ passwordsOf unguarded [117] = some [] ∧
      answer digestOf data [117] [112] = .ok true ∧
      passwordsOf unguarded [118] = none ∧
      answer digestOf data [118] [112] = .error .nullDeref :=
  ⟨{ buckets := [[⟨[117], ⟨false, salt, digest⟩⟩]], size := 0, count := 1 }, rfl, by decide, rfl,
    by decide, rfl⟩

end MqttBroker.UserCredsHistory
