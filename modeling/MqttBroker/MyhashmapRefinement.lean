import Mathlib.Data.List.Induction
import Mathlib.Logic.Function.Basic
import MqttBroker.Myhashmap

/-! `myhashmap` against a finite map from keys to values, over histories of
insertions of distinct keys, updates and lookups. The two agree exactly until
an insertion grows the table: growth keeps the counter and drops the nodes. -/
namespace MqttBroker.MyhashmapRefinement
open Myhashmap

inductive Op (α : Type)
  | add (key : Key) (data : α)
  | update (key : Key) (data : α)
  | get (key : Key)

abbrev Entries (α : Type) := Key → Option α

/-- The table after one call, every allocation succeeding. -/
def call (m : Myhashmap α) : Op α → Outcome (Myhashmap α)
  | .add key data => do
    let result ← m.add key data []
    .ok result.2.1
  | .update key data => do
    let result ← m.update key data
    .ok result.2
  | .get _ => .ok m

def Entries.call (entries : Entries α) : Op α → Entries α
  | .add key data => Function.update entries key (some data)
  | .update key data => if (entries key).isSome then Function.update entries key (some data) else entries
  | .get _ => entries

/-- The table a history leads to, from `myhashmap(capacity)`. -/
def run (capacity : Nat) (ops : List (Op α)) : Outcome (Myhashmap α) :=
  ops.foldlM call (ofCapacity capacity []).1

def entriesOf (ops : List (Op α)) : Entries α := ops.foldl Entries.call fun _ => none

def Op.addedKey : Op α → Option Key
  | .add key _ => some key
  | _ => none

/-- The keys added are pairwise distinct. -/
def Distinct (ops : List (Op α)) : Prop := (ops.filterMap Op.addedKey).Nodup

/-- The table is the map: lookups agree for every key, and the counter is the
number of nodes in the buckets. -/
def Agrees (m : Myhashmap α) (entries : Entries α) : Prop :=
  (∀ key, m.get key = .ok (entries key)) ∧ m.count = m.nodes.length

/-- Some insertion of the history grows the table. -/
def GrowsAt (capacity : Nat) (before : List (Op α)) (key : Key) : Prop :=
  ∃ m, run capacity before = .ok m ∧ m.Crowded key

/-- What the calls keep: a table with buckets, in which the walk along the
chain of a key finds the key's entry. -/
structure Represents (m : Myhashmap α) (entries : Entries α) : Prop where
  buckets : 0 < m.capacity
  unsized : m.size = 0
  found : ∀ key, (find key (m.bucket key)).map Node.data = entries key
  counted : m.count = m.nodes.length

section Represents
variable {m : Myhashmap α} {entries : Entries α}

theorem Represents.agrees (rep : Represents m entries) : Agrees m entries :=
  ⟨fun key => by rw [get_eq rep.buckets, rep.found], rep.counted⟩

theorem represents_add (rep : Represents m entries) {key : Key} {data : α}
    (fresh : entries key = none) (roomy : ¬ m.Crowded key) :
    ∃ m', call m (.add key data) = .ok m' ∧ Represents m' (entries.call (.add key data)) := by
  refine ⟨m.appended key data, by simp [call, add_roomy rep.buckets roomy, bind, Except.bind], ?_⟩
  have grown := congrArg Multiset.card (nodes_appended rep.buckets key data)
  refine ⟨by rw [appended_capacity]; exact rep.buckets, rep.unsized, fun other => ?_, ?_⟩
  · rw [find_appended rep.buckets, Entries.call]
    by_cases same : other = key
    · subst same
      have absent := rep.found other
      rw [fresh, Option.map_eq_none_iff] at absent
      simp [absent]
    · rw [if_neg same, Option.or_none, Function.update_of_ne same, rep.found]
  · rw [Multiset.card_cons, Multiset.coe_card, Multiset.coe_card] at grown
    rw [appended_count, rep.counted, grown]

theorem represents_update (rep : Represents m entries) (key : Key) (data : α) :
    ∃ m', call m (.update key data) = .ok m' ∧ Represents m' (entries.call (.update key data)) := by
  have held := rep.found key
  simp only [call, update_eq rep.buckets, bind, Except.bind, Entries.call, ← held, Option.isSome_map]
  by_cases present : (find key (m.bucket key)).isSome
  · rw [if_pos present, if_pos present]
    refine ⟨_, rfl, by rw [rewritten_capacity]; exact rep.buckets, rep.unsized, fun other => ?_, ?_⟩
    · rw [find_rewritten rep.buckets]
      by_cases same : other = key
      · subst same
        obtain ⟨node, found⟩ := Option.isSome_iff_exists.mp present
        simp [found]
      · rw [if_neg same, Function.update_of_ne same, rep.found]
    · exact rep.counted.trans (length_nodes_rewritten rep.buckets).symm
  · rw [if_neg present, if_neg present]
    exact ⟨m, rfl, rep⟩

end Represents

theorem run_append (capacity : Nat) (before : List (Op α)) (op : Op α) :
    run capacity (before ++ [op]) = (run capacity before).bind (call · op) := by
  simp only [run, List.foldlM_append, List.foldlM_cons, List.foldlM_nil, bind_pure]
  rfl

theorem entries_append (before : List (Op α)) (op : Op α) :
    entriesOf (before ++ [op]) = (entriesOf before).call op := by
  simp [entriesOf]

/-- Only keys the history added have an entry. -/
theorem entries_added (ops : List (Op α)) (key : Key) (known : (entriesOf ops key).isSome) :
    key ∈ ops.filterMap Op.addedKey := by
  induction ops using List.reverseRecOn with
  | nil => cases known
  | append_singleton before op ih =>
    rw [entries_append] at known
    rw [List.filterMap_append, List.mem_append]
    cases op with
    | add added data =>
      by_cases same : key = added
      · exact .inr (by simp [same, Op.addedKey])
      · rw [Entries.call, Function.update_of_ne same] at known
        exact .inl (ih known)
    | update changed data =>
      left
      simp only [Entries.call] at known
      split at known
      · rename_i present
        by_cases same : key = changed
        · exact ih (same ▸ present)
        · rw [Function.update_of_ne same] at known
          exact ih known
      · exact ih known
    | get _ => exact .inl (ih known)

/-- As long as no insertion grows the table, every state of the history
represents its entries. -/
theorem run_represents {capacity : Nat} (positive : 1 ≤ capacity) (ops : List (Op α))
    (distinct : Distinct ops)
    (roomy : ∀ before key data, before ++ [.add key data] <+: ops → ¬ GrowsAt capacity before key) :
    ∃ m, run capacity ops = .ok m ∧ Represents m (entriesOf ops) := by
  induction ops using List.reverseRecOn with
  | nil =>
    refine ⟨_, rfl, by simp [ofCapacity, Myhashmap.capacity]; omega, rfl, fun key => ?_, ?_⟩
    · simp only [ofCapacity, Heap.alloc_nil, if_true, bucket, entriesOf, List.foldl_nil]
      rw [List.getD_eq_getElem?_getD, List.getElem?_replicate]
      split <;> rfl
    · simp [ofCapacity, nodes]
  | append_singleton before op ih =>
    have shorter : Distinct before :=
      (List.sublist_append_left before [op]).filterMap Op.addedKey |>.nodup distinct
    obtain ⟨m, ran, rep⟩ := ih shorter fun earlier key data pre =>
      roomy earlier key data (pre.trans (List.prefix_append before [op]))
    rw [run_append, entries_append, ran]
    cases op with
    | add key data =>
      have fresh : entriesOf before key = none := by
        cases known : entriesOf before key with
        | none => rfl
        | some _ =>
          have earlier := entries_added before key (by rw [known]; rfl)
          rw [Distinct, List.filterMap_append, List.nodup_append] at distinct
          exact absurd rfl (distinct.2.2 key earlier key (by simp [Op.addedKey]))
      exact represents_add rep fresh fun crowded =>
        roomy before key data (List.prefix_refl _) ⟨m, ran, crowded⟩
    | update key data => exact represents_update rep key data
    | get key => exact ⟨m, rfl, rep⟩

/-- Grown or not, the table of a history has buckets, and their vector has
size zero. -/
theorem run_shape {capacity : Nat} (positive : 1 ≤ capacity) (ops : List (Op α)) (m : Myhashmap α)
    (ran : run capacity ops = .ok m) : 0 < m.capacity ∧ m.size = 0 := by
  induction ops using List.reverseRecOn generalizing m with
  | nil =>
    cases ran
    exact ⟨by simp [ofCapacity, Myhashmap.capacity]; omega, rfl⟩
  | append_singleton before op ih =>
    rw [run_append] at ran
    cases earlier : run capacity before with
    | error fault => rw [earlier] at ran; cases ran
    | ok m₀ =>
      obtain ⟨buckets, unsized⟩ := ih m₀ earlier
      rw [earlier] at ran
      cases op with
      | add key data =>
        obtain ⟨result, added, ends⟩ := add_ends buckets unsized key data []
        simp only [Except.bind, call, added, bind] at ran
        cases ran
        cases ends with
        | refused => exact ⟨buckets, unsized⟩
        | appended => exact ⟨by rw [appended_capacity]; exact buckets, unsized⟩
        | emptied _ crowded => exact ⟨emptied_capacity buckets crowded, rfl⟩
      | update key data =>
        simp only [Except.bind, call, update_eq buckets, bind] at ran
        cases ran
        split
        · exact ⟨by rw [rewritten_capacity]; exact buckets, unsized⟩
        · exact ⟨buckets, unsized⟩
      | get key =>
        cases ran
        exact ⟨buckets, unsized⟩

/-- The table is the map in every state of a history exactly when no insertion
of the history grows the table. -/
theorem agrees_iff_never_grows {capacity : Nat} (positive : 1 ≤ capacity) (ops : List (Op α))
    (distinct : Distinct ops) :
    (∀ before, before <+: ops → ∃ m, run capacity before = .ok m ∧ Agrees m (entriesOf before)) ↔
      ∀ before key data, before ++ [.add key data] <+: ops → ¬ GrowsAt capacity before key := by
  constructor
  · -- right after growth not even the new key is found
    rintro agrees before key data pre ⟨m, ran, crowded⟩
    obtain ⟨buckets, unsized⟩ := run_shape positive before m ran
    have grown : run capacity (before ++ [.add key data]) = .ok m.emptied := by
      rw [run_append, ran]
      simp [Except.bind, call, add_crowded buckets unsized crowded, bind]
    obtain ⟨m', ran', agreed⟩ := agrees _ pre
    obtain rfl : m.emptied = m' := by rw [grown] at ran'; exact Except.ok.inj ran'
    have lost := emptied_get buckets crowded key
    rw [agreed.1 key, entries_append, Entries.call, Function.update_self] at lost
    cases lost
  · intro roomy before pre
    obtain ⟨m, ran, rep⟩ := run_represents positive before (pre.sublist.filterMap Op.addedKey |>.nodup distinct)
      fun earlier key data pre' => roomy earlier key data (pre'.trans pre)
    exact ⟨m, ran, rep.agrees⟩

/-- Five one-letter keys, as five sessions or topics on one level would be. -/
def fiveKeys : List (Op UInt16) :=
  [.add [97] 1, .add [98] 2, .add [99] 3, .add [100] 4, .add [101] 5]

theorem agrees_iff_never_grows_five_keys :
    (∀ before, before <+: fiveKeys → ∃ m, run 1 before = .ok m ∧ Agrees m (entriesOf before)) ↔
      ∀ before key data, before ++ [.add key data] <+: fiveKeys → ¬ GrowsAt 1 before key :=
  agrees_iff_never_grows (by decide) fiveKeys (by unfold Distinct; decide)

/-- The fifth key grows a table of one bucket, and all five keys are gone. -/
theorem fifth_key_loses_all :
    ∃ m, run 1 fiveKeys = .ok m ∧ m.count = 5 ∧ m.nodes.length = 0 ∧
      entriesOf fiveKeys [97] = some 1 ∧ m.get [97] = .ok none ∧
      entriesOf fiveKeys [101] = some 5 ∧ m.get [101] = .ok none :=
  ⟨{ buckets := [[], []], size := 0, count := 5 }, rfl, rfl, rfl, by decide, by decide, by decide,
    by decide⟩

end MqttBroker.MyhashmapRefinement
