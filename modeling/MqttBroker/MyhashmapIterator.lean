import MqttBroker.MyhashmapContents

/-! The iterators of `myhashmap`. A pointer to a node is the bucket and the
place in its chain; an iteration from `begin()` to `end()` comes to every node
of the buckets once, in their order, and looks at no other bucket. -/
namespace MqttBroker.Myhashmap

/-- `myhashmap<T>::Iterator`, with `m_ptr` and `cur_id`. -/
structure Iterator where
  ptr : Option (Nat × Nat)
  curId : Nat

/-- The node behind a pointer. -/
def nodeAt (m : Myhashmap α) (ptr : Nat × Nat) : Outcome (Node α) := do
  let chain ← m.chain ptr.1
  match chain[ptr.2]? with
  | some node => .ok node
  | none => .error .nullDeref

/-- `map[id].get()` -/
def headOf (m : Myhashmap α) (id : Nat) : Outcome (Option (Nat × Nat)) := do
  let chain ← m.chain id
  .ok (if chain = [] then none else some (id, 0))

/-- `ptr->next.get()` -/
def nextOf (m : Myhashmap α) (ptr : Nat × Nat) : Outcome (Option (Nat × Nat)) := do
  let chain ← m.chain ptr.1
  .ok (if ptr.2 + 1 < chain.length then some (ptr.1, ptr.2 + 1) else none)

/-- The loops of `begin` and `operator++` over the empty buckets from `cur_id`
on, as at most `fuel` tests. -/
def skipEmpty (m : Myhashmap α) : Nat → Nat → Outcome Nat
  | 0, _ => .error .endless
  | fuel + 1, curId =>
    if curId < m.capacity then do
      match ← m.headOf curId with
      | none => skipEmpty m fuel (curId + 1)
      | some _ => .ok curId
    else .ok curId

/-- `end()` -/
def iteratorEnd (m : Myhashmap α) : Iterator := ⟨none, m.capacity⟩

/-- `begin()` -/
def iteratorBegin (m : Myhashmap α) : Outcome Iterator := do
  let id ← m.skipEmpty (m.capacity + 1) 0
  if id < m.capacity then
    let head ← m.headOf id
    .ok ⟨head, id⟩
  else .ok m.iteratorEnd

/-- `operator++` -/
def increment (m : Myhashmap α) (it : Iterator) : Outcome Iterator := do
  let next ← (match it.ptr with
    | none => .ok none
    | some ptr => m.nextOf ptr)
  match next with
  | some ptr => .ok { it with ptr := some ptr }
  | none =>
    let curId ← m.skipEmpty (m.capacity + 1) (it.curId + 1)
    if curId = m.capacity then .ok ⟨none, curId⟩
    else
      let head ← m.headOf curId
      .ok ⟨head, curId⟩

/-- `for (; it != end(); ++it)` with `*it` in its body, as at most `turns`
tests; the pointers it comes to. Iterators are compared by their pointers. -/
def visits (m : Myhashmap α) : Nat → Iterator → Outcome (List (Nat × Nat))
  | 0, _ => .error .endless
  | turns + 1, it =>
    match it.ptr with
    | none => .ok []
    | some ptr => do
      let _ ← m.nodeAt ptr
      let next ← m.increment it
      let rest ← visits m turns next
      .ok (ptr :: rest)

def iterate (m : Myhashmap α) : Outcome (List (Nat × Nat)) := do
  let first ← m.iteratorBegin
  m.visits (m.nodes.length + 1) first

/-! ### The pointers there are -/

/-- The pointers to the nodes of these chains, the first of which is bucket
`id`. -/
def places : Nat → List (List (Node α)) → List (Nat × Nat)
  | _, [] => []
  | id, chain :: rest => (List.range chain.length).map (id, ·) ++ places (id + 1) rest

/-- Buckets in their order, and a chain from its head. -/
def Earlier (ptr other : Nat × Nat) : Prop := ptr.1 < other.1 ∨ ptr.1 = other.1 ∧ ptr.2 < other.2

variable {m : Myhashmap α} {id j : Nat} {chain : List (Node α)} {chains : List (List (Node α))}

theorem mem_places {ptr : Nat × Nat} : ptr ∈ places id chains ↔
    ∃ (i : Nat) (chain : List (Node α)), chains[i]? = some chain ∧ ptr.1 = id + i ∧ ptr.2 < chain.length := by
  induction chains generalizing id with
  | nil => simp [places]
  | cons head rest ih =>
    rw [places, List.mem_append, ih, List.mem_map]
    constructor
    · rintro (⟨j, inside, rfl⟩ | ⟨i, chain, at_i, same, inside⟩)
      · exact ⟨0, head, rfl, rfl, List.mem_range.mp inside⟩
      · exact ⟨i + 1, chain, at_i, by omega, inside⟩
    · rintro ⟨i, chain, at_i, same, inside⟩
      cases i with
      | zero =>
        obtain rfl : head = chain := by simpa using at_i
        exact .inl ⟨ptr.2, List.mem_range.mpr inside, by ext <;> simp [same]⟩
      | succ i => exact .inr ⟨i, chain, by simpa using at_i, by omega, inside⟩

theorem places_ordered : (places id chains).Pairwise Earlier := by
  induction chains generalizing id with
  | nil => exact .nil
  | cons head rest ih =>
    rw [places, List.pairwise_append]
    refine ⟨?_, ih, ?_⟩
    · rw [List.pairwise_map]
      refine List.pairwise_lt_range.imp fun before => ?_
      exact .inr ⟨rfl, before⟩
    · intro ptr inside other member
      obtain ⟨j, -, rfl⟩ := List.mem_map.mp inside
      obtain ⟨i, -, -, same, -⟩ := mem_places.mp member
      exact .inl (by dsimp only; omega)

theorem length_places : (places id chains).length = chains.flatten.length := by
  induction chains generalizing id with
  | nil => rfl
  | cons head rest ih => simp [places, ih]

theorem nodeAt_eq (at_id : m.buckets[id]? = some chain) (inside : j < chain.length) :
    m.nodeAt (id, j) = .ok chain[j] := by
  simp [nodeAt, Myhashmap.chain, at_id, bind, Except.bind, inside]

/-- The nodes behind the pointers from a bucket on are those of its chain and
the later ones. -/
theorem nodes_places (suffix : ∀ i, chains[i]? = m.buckets[id + i]?) :
    (places id chains).map m.nodeAt = chains.flatten.map Except.ok := by
  induction chains generalizing id with
  | nil => rfl
  | cons head rest ih =>
    have at_id : m.buckets[id]? = some head := (suffix 0).symm
    have later := ih fun i => by rw [Nat.add_right_comm, Nat.add_assoc]; simpa using suffix (i + 1)
    rw [places, List.map_append, later, List.flatten_cons, List.map_append, List.map_map]
    congr 1
    refine List.ext_getElem (by simp) fun j inside _ => ?_
    simp only [List.length_map, List.length_range] at inside
    simp [nodeAt_eq at_id inside]

/-! ### The pointers an iteration comes to -/

theorem headOf_eq (at_id : m.buckets[id]? = some chain) :
    m.headOf id = .ok (if chain = [] then none else some (id, 0)) := by
  simp [headOf, Myhashmap.chain, at_id, bind, Except.bind]

theorem places_drop (at_id : m.buckets[id]? = some chain) : places id (m.buckets.drop id) =
    (List.range chain.length).map (id, ·) ++ places (id + 1) (m.buckets.drop (id + 1)) := by
  obtain ⟨inside, rfl⟩ := List.getElem?_eq_some_iff.mp at_id
  rw [List.drop_eq_getElem_cons inside, places]

/-- The loop over the empty buckets stops at the next one that is not, or
behind the last, and has passed no node. -/
theorem skipEmpty_spec {fuel curId : Nat} (within : curId ≤ m.capacity) (enough : m.capacity < curId + fuel) :
    ∃ id, m.skipEmpty fuel curId = .ok id ∧ id ≤ m.capacity ∧
      places curId (m.buckets.drop curId) = places id (m.buckets.drop id) ∧
      (id < m.capacity → ∃ chain, m.buckets[id]? = some chain ∧ chain ≠ []) := by
  induction fuel generalizing curId with
  | zero => omega
  | succ fuel ih =>
    unfold skipEmpty
    by_cases inside : curId < m.capacity
    · have at_cur : m.buckets[curId]? = some m.buckets[curId] := List.getElem?_eq_getElem inside
      rw [if_pos inside, headOf_eq at_cur]
      by_cases empty : m.buckets[curId] = []
      · obtain ⟨id, ran, bound, same, found⟩ := ih inside (by omega)
        refine ⟨id, ?_, bound, ?_, found⟩
        · rw [if_pos empty]
          exact ran
        · rw [places_drop at_cur, empty, same]
          rfl
      · refine ⟨curId, ?_, within, rfl, fun _ => ⟨_, at_cur, empty⟩⟩
        rw [if_neg empty]
        rfl
    · rw [if_neg inside]
      exact ⟨curId, rfl, within, rfl, fun below => absurd below inside⟩

/-- An iterator, and the pointers that are still to come. -/
inductive At (m : Myhashmap α) : Iterator → List (Nat × Nat) → Prop
  | behind : At m m.iteratorEnd []
  | inside {id j : Nat} {chain : List (Node α)} : m.buckets[id]? = some chain → j < chain.length →
      At m ⟨some (id, j), id⟩
        ((List.range' j (chain.length - j)).map (id, ·) ++ places (id + 1) (m.buckets.drop (id + 1)))

theorem places_behind : places m.capacity (m.buckets.drop m.capacity) = [] := by
  rw [capacity, List.drop_length]
  rfl

/-- At the head of a chain the whole chain is still to come. -/
theorem at_head (at_id : m.buckets[id]? = some chain) (nonempty : chain ≠ []) :
    m.headOf id = .ok (some (id, 0)) ∧ At m ⟨some (id, 0), id⟩ (places id (m.buckets.drop id)) := by
  rw [headOf_eq at_id, if_neg nonempty, places_drop at_id, List.range_eq_range']
  exact ⟨rfl, .inside at_id (List.length_pos_iff.mpr nonempty)⟩

theorem begin_at : ∃ it, m.iteratorBegin = .ok it ∧ At m it (places 0 m.buckets) := by
  obtain ⟨id, ran, bound, same, found⟩ :=
    skipEmpty_spec (Nat.zero_le m.capacity) (Nat.lt_add_left 0 (Nat.lt_succ_self m.capacity))
  rw [List.drop_zero] at same
  simp only [iteratorBegin, ran, bind, Except.bind, same]
  by_cases inside : id < m.capacity
  · obtain ⟨chain, at_id, nonempty⟩ := found inside
    obtain ⟨head, here⟩ := at_head at_id nonempty
    rw [if_pos inside, head]
    exact ⟨_, rfl, here⟩
  · obtain rfl : id = m.capacity := by omega
    rw [if_neg inside, places_behind]
    exact ⟨_, rfl, .behind⟩

/-- One turn of the loop: the pointer is that of a node, and `++` goes on to
the next. -/
theorem increment_at {ptr : Nat × Nat} {curId : Nat} {remaining : List (Nat × Nat)}
    (here : At m ⟨some ptr, curId⟩ remaining) :
    ∃ node it rest, m.nodeAt ptr = .ok node ∧ m.increment ⟨some ptr, curId⟩ = .ok it ∧
      remaining = ptr :: rest ∧ At m it rest := by
  cases here with
  | @inside _ j chain at_id below =>
    have next : m.nextOf (curId, j) = .ok (if j + 1 < chain.length then some (curId, j + 1) else none) := by
      simp [nextOf, Myhashmap.chain, at_id, bind, Except.bind]
    have split : chain.length - j = (chain.length - (j + 1)) + 1 := by omega
    simp only [increment, next, bind, Except.bind]
    rw [split, List.range'_succ, List.map_cons, List.cons_append]
    by_cases more : j + 1 < chain.length
    · rw [if_pos more]
      exact ⟨_, _, _, nodeAt_eq at_id below, rfl, rfl, .inside at_id more⟩
    · have last : chain.length - (j + 1) = 0 := by omega
      have within : curId + 1 ≤ m.capacity := (List.getElem?_eq_some_iff.mp at_id).1
      obtain ⟨id, ran, bound, same, found⟩ :=
        skipEmpty_spec within (Nat.lt_add_left (curId + 1) (Nat.lt_succ_self m.capacity))
      rw [if_neg more, last]
      simp only [ran, same]
      by_cases behind : id = m.capacity
      · subst behind
        rw [if_pos rfl, places_behind]
        exact ⟨_, _, _, nodeAt_eq at_id below, rfl, rfl, .behind⟩
      · obtain ⟨chain', at_next, nonempty⟩ := found (by omega)
        obtain ⟨head, here⟩ := at_head at_next nonempty
        rw [if_neg behind, head]
        exact ⟨_, _, _, nodeAt_eq at_id below, rfl, rfl, here⟩

theorem visits_at {turns : Nat} {it : Iterator} {remaining : List (Nat × Nat)} (here : At m it remaining)
    (enough : remaining.length < turns) : m.visits turns it = .ok remaining := by
  induction turns generalizing it remaining with
  | zero => omega
  | succ turns ih =>
    obtain ⟨ptr, curId⟩ := it
    cases ptr with
    | none =>
      cases here
      rfl
    | some ptr =>
      obtain ⟨node, it, rest, read, stepped, rfl, next⟩ := increment_at here
      have after := ih next (by rw [List.length_cons] at enough; omega)
      simp only [visits, read, stepped, after, bind, Except.bind]

/-- An iteration ends, and has come to each node of the buckets once, bucket
by bucket and along each chain. -/
theorem iteration_visits_each_once (m : Myhashmap α) :
    ∃ visited, m.iterate = .ok visited ∧ visited.map m.nodeAt = m.nodes.map .ok ∧
      (∀ ptr, ptr ∈ visited ↔ ∃ node, m.nodeAt ptr = .ok node) ∧
      visited.Pairwise Earlier ∧ visited.Nodup := by
  obtain ⟨first, begun, here⟩ := begin_at (m := m)
  have ordered : (places 0 m.buckets).Pairwise Earlier := places_ordered
  refine ⟨places 0 m.buckets, ?_, ?_, fun ptr => ?_, ordered, ?_⟩
  · simp only [iterate, begun, bind, Except.bind]
    refine visits_at here ?_
    rw [length_places, nodes]
    exact Nat.lt_succ_self _
  · exact nodes_places fun i => by rw [Nat.zero_add]
  · rw [mem_places]
    constructor
    · rintro ⟨i, chain, at_i, same, inside⟩
      rw [Nat.zero_add] at same
      exact ⟨_, nodeAt_eq (same ▸ at_i) inside⟩
    · rintro ⟨node, read⟩
      rw [nodeAt, Myhashmap.chain] at read
      cases at_id : m.buckets[ptr.1]? with
      | none =>
        rw [at_id] at read
        cases read
      | some chain =>
        refine ⟨ptr.1, chain, at_id, (Nat.zero_add _).symm, ?_⟩
        rw [← not_le]
        intro outside
        simp [at_id, bind, Except.bind, List.getElem?_eq_none outside] at read
  · refine ordered.imp fun before same => ?_
    subst same
    rcases before with before | ⟨-, before⟩ <;> exact absurd before (Nat.lt_irrefl _)

end MqttBroker.Myhashmap
