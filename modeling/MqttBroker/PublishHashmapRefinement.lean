import Mathlib.Data.Fintype.Card
import Mathlib.Data.Multiset.Fintype
import MqttBroker.PublishHashmapContents

/-! The message table against a finite map from packet ids to entries. The
table keeps up with the map as long as every insertion finds a free slot and
id 0 is only looked up where no free slot, which carries id 0, is in its way. -/
namespace MqttBroker.PublishHashmapRefinement
open PublishHashmap

/-- One call of the table's interface. -/
inductive Op
  | add (pubpackId : UInt16) (data : List UInt8) (qos count : UInt8)
  | get (pubpackId : UInt16)
  | erase (pubpackId : UInt16)

/-- What a table stands for: the entry of every live id. -/
abbrev Entries := UInt16 → Option NodePubmap

/-- The table after one call, every allocation succeeding. -/
def call (m : PublishHashmap) : Op → PublishHashmap
  | .add id data qos count => (m.add id data qos count []).2.1
  | .get _ => m
  | .erase id => m.erase id

def Entries.call (entries : Entries) : Op → Entries
  | .add id data qos count => Function.update entries id (some ⟨count, qos, id, data⟩)
  | .get _ => entries
  | .erase id => Function.update entries id none

/-- The node `get` points to, by value. -/
def lookup (m : PublishHashmap) (x : UInt16) : Option NodePubmap := (m.get x).map (slotAt m.slots)

/-- The caller's side: only an id that is not live is added. -/
def Allowed (entries : Entries) : Op → Prop
  | .add id _ _ _ => entries id = none
  | _ => True

instance (entries : Entries) : (op : Op) → Decidable (Allowed entries op)
  | .add id _ _ _ => inferInstanceAs (Decidable (entries id = none))
  | .get _ | .erase _ => isTrue trivial

/-- Where the table itself is ready for the call. An insertion needs a count
and some bytes and a free slot among the two of its id. Id 0, which also marks
a free slot, can be looked up when no free slot comes before the end of its
search. -/
def Ready (m : PublishHashmap) : Op → Prop
  | .add id data _ count => data ≠ [] ∧ count ≠ 0 ∧ Room m id
  | .get id | .erase id =>
    id = 0 → (slotAt m.slots 0).Live ∧ ((slotAt m.slots 0).pubpackId = 0 ∨ (slotAt m.slots 1).Live)

/-- The histories of a table of `2 ^ power` slots in which every call meets
`ok`, with the map they stand for. -/
inductive History (ok : PublishHashmap → Entries → Op → Prop) (power : Nat) :
    PublishHashmap → Entries → Prop
  | empty : History ok power (ofPower power) fun _ => none
  | step {m : PublishHashmap} {entries : Entries} (op : Op) : History ok power m entries →
      ok m entries op → History ok power (call m op) (entries.call op)

/-- The table is the map: every lookup answers with the map's entry, and the
counter is the number of taken slots. -/
def Agrees (m : PublishHashmap) (entries : Entries) : Prop :=
  (∀ x, lookup m x = entries x) ∧ m.size = (taken m.slots).card

/-- The relation kept by the calls of `ready_history_agrees`. -/
structure Represents (m : PublishHashmap) (entries : Entries) : Prop where
  placed : Placed m.powerOfCap m.slots
  holds : ∀ node, node ∈ taken m.slots ↔ entries node.pubpackId = some node
  keyed : ∀ x node, entries x = some node → node.pubpackId = x
  single : ((taken m.slots).map NodePubmap.pubpackId).Nodup
  sized : m.size = (taken m.slots).card

section Represents
variable {m : PublishHashmap} {entries : Entries} {x : UInt16} {i : Nat}

/-- Ids are 16-bit, so there are never more entries than ids. -/
theorem Represents.small (rep : Represents m entries) : m.size ≤ 2 ^ 16 := by
  rw [rep.sized, ← Multiset.card_map NodePubmap.pubpackId]
  have injective : Function.Injective UInt16.toNat := fun _ _ same => UInt16.toNat_inj.mp same
  have nodup := rep.single.map injective
  rw [← Multiset.card_map UInt16.toNat]
  have below : (((taken m.slots).map NodePubmap.pubpackId).map UInt16.toNat) ⊆
      Multiset.range (2 ^ 16) := by
    intro n member
    obtain ⟨id, -, rfl⟩ := Multiset.mem_map.mp member
    exact Multiset.mem_range.mpr id.toNat_lt
  exact (Multiset.card_le_card ((Multiset.le_iff_subset nodup).mpr below)).trans_eq
    (Multiset.card_range _)

theorem Represents.bounded (rep : Represents m entries) (full : m.size = m.capacity) :
    m.powerOfCap < 32 := by
  have small := rep.small
  rw [full, capacity, rep.placed.width] at small
  exact lt_of_le_of_lt ((Nat.pow_le_pow_iff_right (by decide)).mp small) (by decide)

theorem Represents.found (rep : Represents m entries) (found : m.get x = some i)
    (live : (slotAt m.slots i).Live) : entries x = some (slotAt m.slots i) := by
  have held := (rep.holds _).mp (mem_taken.mpr ⟨i, rfl, live⟩)
  rwa [get_id rep.placed found] at held

theorem Represents.absent (rep : Represents m entries) (none : m.get x = none) :
    entries x = .none := by
  cases held : entries x with
  | none => rfl
  | some node =>
    have key := rep.keyed x node held
    obtain ⟨i, same, live⟩ := mem_taken.mp ((rep.holds node).mpr (by rw [key, held]))
    have seen := get_isSome rep.placed (same ▸ live)
    rw [same, key, none] at seen
    cases seen

/-- A lookup the table is ready for stops at a taken slot or nowhere. -/
theorem ready_get_live (rep : Represents m entries) (ready : Ready m (.get x))
    (found : m.get x = some i) : (slotAt m.slots i).Live := by
  by_cases zero : x = 0
  · subst zero
    obtain ⟨home, next⟩ := ready rfl
    have start : knuthHash m.powerOfCap 0 = 0 := by simp [knuthHash]
    rw [get_eq rep.placed, start] at found
    split at found
    · exact Option.some.inj found ▸ home
    · rename_i other
      have second : nextSlot m.slots.length 0 = 1 := by
        have two := rep.placed.two
        simp only [nextSlot]
        rw [if_neg (by omega)]
      rw [second] at found
      split at found
      · exact Option.some.inj found ▸ next.resolve_left other
      · cases found
  · exact get_live rep.placed found zero

theorem Represents.lookup (rep : Represents m entries) (ready : Ready m (.get x)) :
    lookup m x = entries x := by
  unfold PublishHashmapRefinement.lookup
  cases found : m.get x with
  | none => exact (rep.absent found).symm
  | some i => exact (rep.found found (ready_get_live rep ready found)).symm

/-- A new entry comes beside the others, or is refused. -/
theorem Represents.added (rep : Represents m entries) {m' : PublishHashmap} {node : NodePubmap} {ok : Bool}
    (added : Added m node ok m') (placed : Placed m'.powerOfCap m'.slots)
    (fresh : entries node.pubpackId = none) :
    Represents m' (if ok then Function.update entries node.pubpackId (some node) else entries) := by
  have small := rep.small
  cases added with
  | refused holds sized =>
    rw [if_neg Bool.false_ne_true]
    refine ⟨placed, fun other => ?_, rep.keyed, ?_, ?_⟩
    · rw [holds, rep.holds]
    · rw [holds]
      exact rep.single
    · rw [holds, sized, rep.sized]
  | stored _ holds sized =>
    rw [if_pos rfl]
    refine ⟨placed, fun other => ?_, fun y entry held => ?_, ?_, ?_⟩
    · simp only [holds, Multiset.mem_cons, rep.holds]
      by_cases same : other.pubpackId = node.pubpackId
      · rw [same, Function.update_self, fresh]
        simp [eq_comm]
      · rw [Function.update_of_ne same]
        constructor
        · rintro (rfl | held)
          · exact absurd rfl same
          · exact held
        · exact .inr
    · by_cases same : y = node.pubpackId
      · subst same
        rw [Function.update_self] at held
        cases held
        rfl
      · rw [Function.update_of_ne same] at held
        exact rep.keyed y entry held
    · simp only [holds, Multiset.map_cons, Multiset.nodup_cons]
      refine ⟨fun member => ?_, rep.single⟩
      obtain ⟨other, held, key⟩ := Multiset.mem_map.mp member
      rw [rep.holds, key, fresh] at held
      cases held
    · simp only [holds, sized, Multiset.card_cons, ← rep.sized]
      exact Nat.mod_eq_of_lt (by omega)

theorem represents_add (rep : Represents m entries) {data : List UInt8} {qos count : UInt8}
    (fresh : entries x = none) (ready : Ready m (.add x data qos count)) :
    Represents (call m (.add x data qos count)) (entries.call (.add x data qos count)) := by
  obtain ⟨nonempty, counted, room⟩ := ready
  obtain ⟨placed, added⟩ := add_spec rep.placed rep.bounded room data qos counted []
  have ok : (m.add x data qos count []).1 = true := by
    have stored : ∀ m : PublishHashmap, (m.place x data qos count []).1 = true := by
      intro m
      simp [place, nonempty]
    unfold PublishHashmap.add
    split
    · simp [rehash, stored]
    · exact stored m
  rw [ok] at added
  exact rep.added added placed fresh

theorem represents_erase (rep : Represents m entries) (ready : Ready m (.erase x)) :
    Represents (call m (.erase x)) (entries.call (.erase x)) := by
  cases found : m.get x with
  | none =>
    have unchanged : entries.call (.erase x) = entries :=
      Function.update_eq_self_iff.mpr (rep.absent found).symm
    rw [unchanged, PublishHashmapRefinement.call, erase_none found]
    exact rep
  | some i =>
    have live := ready_get_live rep ready found
    have key := get_id rep.placed found
    obtain ⟨placed, whole⟩ := erase_spec rep.placed found live
    have single := rep.single
    have sized := rep.sized
    have small := rep.small
    rw [whole, Multiset.map_cons, Multiset.nodup_cons, key] at single
    rw [whole, Multiset.card_cons] at sized
    have others : ∀ node ∈ taken (m.erase x).slots, node.pubpackId ≠ x :=
      fun node member same => single.1 (Multiset.mem_map.mpr ⟨node, member, same⟩)
    refine ⟨placed, fun node => ?_, fun y node held => ?_, single.2, ?_⟩
    · have held := rep.holds node
      rw [whole, Multiset.mem_cons] at held
      simp only [PublishHashmapRefinement.call, Entries.call]
      by_cases same : node.pubpackId = x
      · rw [same, Function.update_self]
        simp only [reduceCtorEq, iff_false]
        exact fun member => others node member same
      · rw [Function.update_of_ne same, ← held]
        exact (or_iff_right fun eq => same (by rw [eq, key])).symm
    · simp only [Entries.call] at held
      by_cases same : y = x
      · subst same
        rw [Function.update_self] at held
        cases held
      · rw [Function.update_of_ne same] at held
        exact rep.keyed y node held
    · simp only [PublishHashmapRefinement.call, erase_some found] at sized ⊢
      omega

/-- The count of an entry is rewritten. -/
theorem Represents.recount (rep : Represents m entries) (found : m.get x = some i)
    (live : (slotAt m.slots i).Live) {count : UInt8} (counted : count ≠ 0) :
    Represents { m with slots := m.slots.set i { slotAt m.slots i with count := count } }
      (Function.update entries x (some { slotAt m.slots i with count := count })) := by
  have key := get_id rep.placed found
  have inside := get_lt rep.placed found
  have live' : ({ slotAt m.slots i with count := count } : NodePubmap).Live := counted
  obtain ⟨rest, whole, written⟩ := taken_rewrite live live'
  have single := rep.single
  rw [whole, Multiset.map_cons, Multiset.nodup_cons, key] at single
  have others : ∀ node ∈ rest, node.pubpackId ≠ x :=
    fun node member same => single.1 (Multiset.mem_map.mpr ⟨node, member, same⟩)
  refine ⟨?_, fun node => ?_, fun y node held => ?_, ?_, ?_⟩
  · exact rep.placed.set inside (fun _ => rep.placed.near i live) (absurd live')
  · have held := rep.holds node
    rw [whole, Multiset.mem_cons] at held
    rw [written, Multiset.mem_cons]
    by_cases same : node.pubpackId = x
    · rw [same, Function.update_self, Option.some.injEq, eq_comm]
      exact or_iff_left fun member => others node member same
    · rw [Function.update_of_ne same, ← held]
      refine or_congr_left ⟨fun eq => absurd ?_ same, fun eq => absurd ?_ same⟩
      · rw [eq, key]
      · rw [eq, key]
  · by_cases same : y = x
    · subst same
      rw [Function.update_self] at held
      cases held
      exact key
    · rw [Function.update_of_ne same] at held
      exact rep.keyed y node held
  · rw [written, Multiset.map_cons, Multiset.nodup_cons, key]
    exact single
  · rw [written, Multiset.card_cons, rep.sized, whole, Multiset.card_cons]

end Represents

/-- Every history of calls the table is ready for keeps it the same map. -/
theorem history_represents {power : Nat} {m : PublishHashmap} {entries : Entries}
    (positive : 1 ≤ power) (small : power < 32)
    (history : History (fun m entries op => Allowed entries op ∧ Ready m op) power m entries) :
    Represents m entries := by
  induction history with
  | empty =>
    have none : taken (ofPower power).slots = 0 := taken_replicate _
    exact ⟨placed_replicate positive small.le, fun node => by rw [none]; simp,
      fun _ _ held => (by cases held), (by rw [none]; exact Multiset.nodup_zero),
      (by rw [none]; rfl)⟩
  | step op _ ok ih =>
    cases op with
    | add id data qos count => exact represents_add ih ok.1 ok.2
    | get id => exact ih
    | erase id => exact represents_erase ih ok.2

/-- In every such history each lookup the table is ready for answers with the
entry of the id, no other insertion changes it, and the counter is exact. -/
theorem ready_history_agrees {power : Nat} {m : PublishHashmap} {entries : Entries}
    (positive : 1 ≤ power) (small : power < 32)
    (history : History (fun m entries op => Allowed entries op ∧ Ready m op) power m entries) :
    (∀ x, Ready m (.get x) → lookup m x = entries x) ∧
      m.size = (taken m.slots).card ∧
      ∀ x data qos count, Allowed entries (.add x data qos count) →
        Ready m (.add x data qos count) → ∀ y, y ≠ x → Ready m (.get y) →
        Ready (call m (.add x data qos count)) (.get y) →
        lookup (call m (.add x data qos count)) y = lookup m y := by
  have rep := history_represents positive small history
  refine ⟨fun x => rep.lookup, rep.sized, ?_⟩
  intro x data qos count fresh ready y other before after
  rw [rep.lookup before, (represents_add rep fresh ready).lookup after]
  exact Function.update_of_ne other _ _

/-- Two entries that share their home are both found. -/
theorem two_colliding_ids_agree :
    lookup (call (call (ofPower 5) (.add 1 [0x32] 1 1)) (.add 22 [0x34] 2 1)) 1 =
      some ⟨1, 1, 1, [0x32]⟩ := by
  have first : Ready (ofPower 5) (.add 1 [0x32] 1 1) :=
    ⟨by decide, by decide, fun full => absurd full (by decide +kernel), by decide +kernel⟩
  have second : Ready (call (ofPower 5) (.add 1 [0x32] 1 1)) (.add 22 [0x34] 2 1) :=
    ⟨by decide, by decide, fun full => absurd full (by decide +kernel), by decide +kernel⟩
  exact (@ready_history_agrees 5 _ _ (by decide) (by decide)
    (.step (.add 22 [0x34] 2 1) (.step (.add 1 [0x32] 1 1) .empty ⟨by decide, first⟩)
      ⟨by decide, second⟩)).1 1 (fun zero => by cases zero)

/-- Ids 1, 22 and 56 share their home in the broker's table of 32 slots: the
third insertion writes over the second entry, and the counter counts it. -/
theorem third_colliding_id_overwrites :
    ∃ m entries, History (fun _ entries op => Allowed entries op) 5 m entries ∧
      entries 22 = some ⟨1, 1, 22, [0x32]⟩ ∧ lookup m 22 = none ∧ ¬ Agrees m entries := by
  have lost : lookup (call (call (call (ofPower 5) (.add 1 [0x32] 1 1)) (.add 22 [0x32] 1 1))
      (.add 56 [0x32] 1 1)) 22 = none := by decide +kernel
  refine ⟨_, _, .step (.add 56 [0x32] 1 1) (.step (.add 22 [0x32] 1 1)
    (.step (.add 1 [0x32] 1 1) .empty ?_) ?_) ?_, ?_, lost, fun agrees => ?_⟩
  case refine_5 =>
    have held := agrees.1 22
    rw [lost] at held
    cases held
  all_goals decide

end MqttBroker.PublishHashmapRefinement
