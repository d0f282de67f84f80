import MqttBroker.PublishHashmap

/-! The slots a probe loop of the message table looks at. The loop is meant to
go once around the table; it looks at one slot and ends, or, from the last
slot, at slot 0 over and over until the home index has wrapped. -/
namespace MqttBroker.PublishHashmap

/-- The slots `probeLoop` looks at, in order. -/
def examinedLoop (hit : NodePubmap → Bool) (slots : List NodePubmap) : Nat → Nat → Nat → List Nat
  | 0, _, _ => []
  | fuel + 1, curId, id =>
    if curId = id then []
    else
      let curId := if curId = slots.length then 0 else curId
      curId :: if hit (slotAt slots curId) then [] else examinedLoop hit slots fuel curId ((id + 1) % 2 ^ 32)

/-- The slots a search looks at: its home, and those of the loop if the home is
no hit. -/
def searched (hit : NodePubmap → Bool) (slots : List NodePubmap) (id : Nat) : List Nat :=
  id :: if hit (slotAt slots id) then [] else examinedLoop hit slots (2 ^ 32 + 1) (id + 1) id

/-- `get`, and the search for a place in `add` and in `rehash`. -/
inductive Search
  | get
  | place

/-- What the loop of a search stops at. -/
def Search.hit (x : UInt16) : Search → NodePubmap → Bool
  | .get => (·.pubpackId = x)
  | .place => (·.count = 0)

/-- What a search is relied on for: no slot that it could have found is missed. -/
def Search.Finds (m : PublishHashmap) (x : UInt16) : Search → Prop
  | .get => m.get x = none → ∀ i < m.capacity, (slotAt m.slots i).pubpackId ≠ x
  | .place => (∃ i < m.capacity, ¬ (slotAt m.slots i).Live) →
      ¬ (slotAt m.slots (freeSlot m.powerOfCap m.slots x)).Live

/-- A search comes to no slot twice, and without a hit to every slot. -/
structure ScansOnce (m : PublishHashmap) (x : UInt16) (search : Search) : Prop where
  distinct : (searched (search.hit x) m.slots (knuthHash m.powerOfCap x)).Nodup
  bounded : (searched (search.hit x) m.slots (knuthHash m.powerOfCap x)).length ≤ m.capacity
  whole : (∀ i ∈ searched (search.hit x) m.slots (knuthHash m.powerOfCap x),
      search.hit x (slotAt m.slots i) = false) →
    ∀ i < m.capacity, i ∈ searched (search.hit x) m.slots (knuthHash m.powerOfCap x)
  finds : search.Finds m x

/-- The search has a hit at its home or at the slot after it, or there are no
other slots and the second of them comes after the home. -/
def Near (m : PublishHashmap) (x : UInt16) (search : Search) : Prop :=
  search.hit x (slotAt m.slots (knuthHash m.powerOfCap x)) = true ∨
    search.hit x (slotAt m.slots (nextSlot m.capacity (knuthHash m.powerOfCap x))) = true ∨
    m.capacity = 2 ∧ knuthHash m.powerOfCap x = 0

variable {hit : NodePubmap → Bool} {slots : List NodePubmap} {m : PublishHashmap} {x : UInt16} {id : Nat}
  {search : Search}

theorem searched_hit (found : hit (slotAt slots id) = true) : searched hit slots id = [id] := by
  rw [searched, if_pos found]

/-- Before the last slot the loop looks at the next one only. -/
theorem searched_next (missed : hit (slotAt slots id) = false) (inside : id + 1 < slots.length)
    (small : slots.length < 2 ^ 32) : searched hit slots id = [id, id + 1] := by
  have word : (id + 1) % 2 ^ 32 = id + 1 := Nat.mod_eq_of_lt (by omega)
  rw [searched, if_neg (by simp [missed]), examinedLoop, if_neg (by omega)]
  simp only [if_neg (Nat.ne_of_lt inside), word]
  cases found : hit (slotAt slots (id + 1)) with
  | true => rfl
  | false => simp [examinedLoop]

/-- From the last slot it looks at slot 0, and if that is no hit, once more. -/
theorem searched_wraps (missed : hit (slotAt slots id) = false) (last : id + 1 = slots.length)
    (small : slots.length < 2 ^ 32) :
    if hit (slotAt slots 0) = true then searched hit slots id = [id, 0]
    else ∃ more, searched hit slots id = id :: 0 :: 0 :: more := by
  have word : (id + 1) % 2 ^ 32 = id + 1 := Nat.mod_eq_of_lt (by omega)
  have first : examinedLoop hit slots (2 ^ 32 + 1) (id + 1) id =
      0 :: if hit (slotAt slots 0) then [] else examinedLoop hit slots (2 ^ 32) 0 (id + 1) := by
    rw [examinedLoop, if_neg (by omega), if_pos last, word]
  have again : ∀ fuel, 0 < fuel → ∃ more, examinedLoop hit slots fuel 0 (id + 1) = 0 :: more := by
    intro fuel some
    cases fuel with
    | zero => cases some
    | succ fuel =>
      rw [examinedLoop, if_neg (by omega), if_neg (by omega)]
      exact ⟨_, rfl⟩
  obtain ⟨more, second⟩ := again (2 ^ 32) (by omega)
  rw [searched, missed, first, second]
  cases hit (slotAt slots 0) with
  | true => rfl
  | false => exact ⟨more, rfl⟩

section Table
variable (shaped : Shaped m.powerOfCap m.slots) (within : m.powerOfCap < 32)
include shaped

/-- What a search relies on holds if it has a hit or has come to every slot. -/
theorem finds_near (near : Near m x search) : search.Finds m x := by
  have both : m.capacity = 2 ∧ knuthHash m.powerOfCap x = 0 →
      ∀ i < m.capacity, i = knuthHash m.powerOfCap x ∨ i = nextSlot m.capacity (knuthHash m.powerOfCap x) := by
    rintro ⟨pair, first⟩ i inside
    rw [first, nextSlot, pair, if_neg (by decide)]
    omega
  obtain ⟨stop, ends⟩ := probe_spec (search.hit x) m.slots _ (shaped.hash_lt x) shaped.two shaped.within
  rw [Near, capacity] at near
  cases search with
  | get =>
    intro absent i inside same
    simp only [PublishHashmap.get, ne_eq, ite_not] at absent
    split at absent
    · cases absent
    · rename_i missed
      simp only [Search.hit] at stop ends
      rw [ite_eq_left_iff] at absent
      have met : (probe (·.pubpackId = x) m.slots (knuthHash m.powerOfCap x)).1 =
          (probe (·.pubpackId = x) m.slots (knuthHash m.powerOfCap x)).2 := by
        by_contra other
        cases absent other
      have missed_next : (slotAt m.slots (nextSlot m.slots.length (knuthHash m.powerOfCap x))).pubpackId ≠ x := by
        simpa using ends.mp met
      rcases near with found | found | pair
      · exact missed (by simpa [Search.hit] using found)
      · exact missed_next (by simpa [Search.hit] using found)
      · rcases both pair i inside with rfl | rfl
        · exact missed same
        · exact missed_next same
  | place =>
    rintro ⟨i, inside, free⟩
    simp only [freeSlot]
    split
    · rename_i taken
      simp only [Search.hit] at stop
      rw [stop]
      rcases near with found | found | pair
      · exact absurd (by simpa [Search.hit] using found) taken
      · exact fun live => live (by simpa [Search.hit] using found)
      · rcases both pair i inside with rfl | rfl
        · exact absurd taken free
        · exact free
    · rename_i vacant
      exact fun live => vacant live

include within in
/-- A probe loop scans the table once exactly if it has hardly anything to
scan. -/
theorem scans_once_iff : ScansOnce m x search ↔ Near m x search := by
  have home := shaped.hash_lt x
  have two := shaped.two
  have small : m.slots.length < 2 ^ 32 := by
    rw [shaped.width]
    exact Nat.pow_lt_pow_right (by decide) within
  constructor
  · intro scans
    by_contra far
    obtain ⟨missed, missed_next, more⟩ : search.hit x (slotAt m.slots (knuthHash m.powerOfCap x)) = false ∧
        search.hit x (slotAt m.slots (nextSlot m.capacity (knuthHash m.powerOfCap x))) = false ∧
        ¬ (m.capacity = 2 ∧ knuthHash m.powerOfCap x = 0) := by
      simpa [Near, not_or] using far
    rw [nextSlot, capacity] at missed_next
    by_cases last : knuthHash m.powerOfCap x + 1 = m.slots.length
    · -- slot 0 is looked at twice
      have wraps := searched_wraps missed last small
      rw [if_pos last] at missed_next
      rw [if_neg (by simp [missed_next])] at wraps
      obtain ⟨rest, wraps⟩ := wraps
      have distinct := scans.distinct
      rw [wraps] at distinct
      simp at distinct
    · -- a third slot is not looked at
      have next := searched_next missed (by omega) small
      rw [if_neg last] at missed_next
      have whole := scans.whole
      rw [next] at whole
      have all : ∀ i < m.capacity, i ∈ [knuthHash m.powerOfCap x, knuthHash m.powerOfCap x + 1] :=
        whole (by simp [missed, missed_next])
      have first := all 0 (by rw [capacity]; omega)
      have third := fun below => all 2 below
      simp only [List.mem_cons, List.not_mem_nil, or_false, capacity] at first third more
      omega
  · intro near
    have finds := finds_near shaped near
    by_cases found : search.hit x (slotAt m.slots (knuthHash m.powerOfCap x)) = true
    · have one := searched_hit found
      refine ⟨by simp [one], ?_, fun none => ?_, finds⟩
      · rw [one, capacity, List.length_singleton]
        omega
      · rw [none _ (by simp [one])] at found
        cases found
    · rw [Bool.not_eq_true] at found
      have pair : searched (search.hit x) m.slots (knuthHash m.powerOfCap x) =
          [knuthHash m.powerOfCap x, nextSlot m.capacity (knuthHash m.powerOfCap x)] := by
        rw [nextSlot, capacity]
        split
        · rename_i last
          have wraps := searched_wraps found last small
          rcases near with here | next | ⟨pair, first⟩
          · rw [found] at here
            cases here
          · rw [nextSlot, capacity, if_pos last] at next
            rwa [if_pos next] at wraps
          · rw [capacity] at pair
            omega
        · exact searched_next found (by omega) small
      refine ⟨?_, ?_, fun none i inside => ?_, finds⟩
      · rw [pair, List.nodup_cons, nextSlot, capacity]
        refine ⟨?_, List.nodup_singleton _⟩
        rw [List.mem_singleton]
        split <;> omega
      · rw [pair]
        exact two
      · rw [pair] at none ⊢
        rcases near with here | next | ⟨two, first⟩
        · rw [found] at here
          cases here
        · rw [none _ (by simp)] at next
          cases next
        · rw [first, nextSlot, two, if_neg (by decide)]
          simp only [List.mem_cons, List.not_mem_nil, or_false]
          omega

end Table

/-- The table of the broker with two messages of one home. -/
def sharedHome : PublishHashmap :=
  let first := ((ofPower 5).add 1 [0x30] 0 1 []).2.1
  (first.add 22 [0x31] 0 1 []).2.1

/-- The second of them is found by the loop. -/
theorem scans_once_shared : searched (Search.hit 22 .get) sharedHome.slots (knuthHash 5 22) = [19, 20] ∧
    ScansOnce sharedHome 22 .get := by
  refine ⟨by decide +kernel, (scans_once_iff ⟨?_, ?_, ?_⟩ (by decide)).mpr (.inr (.inl ?_))⟩ <;> decide +kernel

/-- Id 1 is not in the empty table, and 30 of its 32 slots are not looked at. -/
theorem two_slots_examined :
    searched (Search.hit 1 .get) (ofPower 5).slots (knuthHash 5 1) = [19, 20] ∧ ¬ ScansOnce (ofPower 5) 1 .get := by
  have looked : searched (Search.hit 1 .get) (ofPower 5).slots (knuthHash 5 1) = [19, 20] := by decide +kernel
  refine ⟨looked, fun scans => ?_⟩
  have whole := scans.whole
  change (∀ i ∈ searched (Search.hit 1 .get) (ofPower 5).slots (knuthHash 5 1), _) →
    ∀ i < _, i ∈ searched (Search.hit 1 .get) (ofPower 5).slots (knuthHash 5 1) at whole
  rw [looked] at whole
  have missing := whole (by decide +kernel) 0 (by decide)
  revert missing
  decide

end MqttBroker.PublishHashmap
