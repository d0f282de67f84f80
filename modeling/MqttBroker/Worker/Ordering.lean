import MqttBroker.Logic.Traces
import MqttBroker.Worker.Genuine

/-! The order in which a subscriber gets the messages of a publisher. Items are
sent from the lowest index on, so it is the order of their making as long as
none is made in front of one that waits, and that of the messages as long as
each is sent for its own items. -/
namespace MqttBroker.Ordering
open Logic Worker World Genuine

/-- What the order of two messages is asked for. -/
structure Flow where
  publisher : Key
  topic : Key
  qos : Option UInt8
  subscriber : Key

/-- Compared without a cast, so that the runs below are checked fast. -/
instance : DecidableEq Flow := fun a b =>
  decidable_of_iff (a.publisher = b.publisher ∧ a.topic = b.topic ∧ a.qos = b.qos ∧
    a.subscriber = b.subscriber) (by cases a; cases b; simp)

/-- The flow of an item of `publish_by_topic`; a will has no publisher. -/
def flow (item : PackidStateItem) : Option Flow := do
  let sender ← item.origin.publisher
  let subscriber ← item.origin.subscriber
  pure ⟨sender.clientid, item.origin.topic, item.origin.frame.head?.bind publishQos, subscriber⟩

/-- Two items before their first writes, for messages of one flow. -/
def SameFlow (a b : PackidStateItem) : Prop :=
  a.state = .sendpublish ∧ b.state = .sendpublish ∧ (flow a).isSome ∧ flow a = flow b

instance (a b : PackidStateItem) : Decidable (SameFlow a b) := inferInstanceAs (Decidable (_ ∧ _))

/-- An item in use comes behind all that wait with a message of its flow. -/
def Behind : Event → Prop
  | .enqueued socks sock j b => b.state = .sendpublish → (flow b).isSome → b.packetId ≠ 0 ∧
      ∀ s, ∀ entry ∈ (socks s).packidState.elems.zipIdx, entry.1.packetId ≠ 0 →
        SameFlow entry.1 b → s = sock ∧ entry.2 < j
  | _ => True

instance : DecidablePred Behind := fun e => by
  rcases e with ⟨⟩ <;> dsimp only [Behind] <;> infer_instance

/-- These bytes are the message the item was made for. -/
def Carries (bytes : List UInt8) (item : PackidStateItem) : Prop :=
  unflagged bytes = unflagged item.origin.frame

/-- The first write of a message is preceded by those of the messages of its
flow that were published before it. -/
def InOrder (trace : List Event) : Prop :=
  ∀ late sock sockst bytes b earlier, trace = late ++ .wrote sock sockst bytes (some b) :: earlier →
    ∀ socks s i a, .enqueued socks s i a ∈ trace → SameFlow a b → a.origin.stamp < b.origin.stamp →
      Carries bytes b ∧ ∃ sockst' bytes', .wrote s sockst' bytes' (some a) ∈ earlier ∧ Carries bytes' a

variable {w w' : World} {owed owed' : List Admitted} {trace events : List Event} {n : Nat}
  {item : PackidStateItem} {sock : Fin 64} {i : Nat}

/-- No stamp of an item that was made is above a bound. -/
def Stamped (trace : List Event) (n : Nat) : Prop :=
  ∀ socks sock i a, .enqueued socks sock i a ∈ trace → a.state = .sendpublish → a.origin.stamp ≤ n

/-- A message is written for an item that was made, after those of its flow;
the stamps of the items grow. -/
def Law (earlier : List Event) : Event → Prop
  | .wrote sock _ _ (some b) => b.state = .sendpublish →
      (∃ socks j, .enqueued socks sock j b ∈ earlier) ∧
        ∀ socks s i a, .enqueued socks s i a ∈ earlier → SameFlow a b →
          a.origin.stamp < b.origin.stamp → Written earlier s a
  | .enqueued _ _ _ a => a.state = .sendpublish → (flow a).isSome → Stamped earlier a.origin.stamp
  | _ => True

structure Ordered (w : World) (owed : List Admitted) : Prop where
  short : owed.length ≤ 1
  stamps : Stamped w.trace w.trace.length
  owed : ∀ m ∈ owed, ∀ stamp, m.stamp = some stamp → stamp ≤ w.trace.length ∧ Stamped w.trace stamp
  made : ∀ sock (i : Nat) a, (w.items sock)[i]? = some a → a.packetId ≠ 0 → a.state = .sendpublish →
    ∃ socks, .enqueued socks sock i a ∈ w.trace
  unsent : ∀ socks sock i a, .enqueued socks sock i a ∈ w.trace → a.state = .sendpublish →
    (flow a).isSome → Written w.trace sock a ∨ (w.items sock)[i]? = some a
  ordered : ∀ s t (i k : Nat) a b, (w.items s)[i]? = some a → (w.items t)[k]? = some b →
    a.packetId ≠ 0 → b.packetId ≠ 0 → SameFlow a b → a.origin.stamp < b.origin.stamp → s = t ∧ i < k
  lawful : Lawful Law w.trace

theorem plain_other {e : Event} (other : ¬ e.OfMessage) : Plain e := by
  cases e with
  | wrote _ _ _ item =>
    cases item with
    | none => trivial
    | some => exact absurd trivial other
  | enqueued => exact absurd trivial other
  | _ => trivial

theorem plain_law {e : Event} (plain : Plain e) (earlier : List Event) : Law earlier e := by
  cases e with
  | wrote _ _ _ item =>
    cases item with
    | none => trivial
    | some => exact absurd plain id
  | enqueued => exact absurd plain id
  | _ => trivial

theorem enqueued_plain (plain : ∀ e ∈ events, Plain e) {socks : Fin 64 → SockCid}
    (enqueued : .enqueued socks sock i item ∈ events ++ trace) :
    .enqueued socks sock i item ∈ trace :=
  (List.mem_append.mp enqueued).resolve_left fun member => plain _ member

theorem Stamped.plain (stamped : Stamped trace n) (plain : ∀ e ∈ events, Plain e) :
    Stamped (events ++ trace) n :=
  fun socks sock i a enqueued => stamped socks sock i a (enqueued_plain plain enqueued)

theorem Stamped.mono (stamped : Stamped trace n) {m : Nat} (above : n ≤ m) : Stamped trace m :=
  fun socks sock i a enqueued fresh => (stamped socks sock i a enqueued fresh).trans above

theorem Stamped.cons {socks : Fin 64 → SockCid} (stamped : Stamped trace n)
    (below : item.state = .sendpublish → item.origin.stamp ≤ n) :
    Stamped (.enqueued socks sock i item :: trace) n := by
  intro socks' sock' i' a enqueued fresh
  rcases List.mem_cons.mp enqueued with same | enqueued
  · cases same
    exact below fresh
  · exact stamped socks' sock' i' a enqueued fresh

theorem written_grown (written : Written trace sock item) : Written (events ++ trace) sock item := by
  obtain ⟨sockst, bytes, wrote⟩ := written
  exact ⟨sockst, bytes, List.mem_append_right _ wrote⟩

/-- What a step does to the messages in hand. -/
theorem owed_act (act : MessageAct w owed w' owed') (short : owed.length ≤ 1) :
    owed' = owed ∨ owed'.length ≤ 1 ∧ ∃ events, w'.trace = events ++ w.trace ∧
      (∀ e ∈ events, Plain e) ∧ ∀ m ∈ owed', ∀ stamp, m.stamp = some stamp →
        stamp = w.trace.length + 1 ∧ 1 ≤ events.length := by
  cases act with
  | accept =>
    refine .inr ⟨le_rfl, [_], rfl, List.forall_mem_singleton.mpr trivial, ?_⟩
    simp [awaiting]
  | enter m qos heap distributes stamp =>
    refine .inr ⟨le_rfl, [_, _], rfl, by simp [Plain], ?_⟩
    intro m' member stamp' stamped
    obtain rfl := List.mem_singleton.mp member
    rw [stamp] at stamped
    exact ⟨(Option.some.inj stamped).symm, by simp⟩
  | refuse =>
    refine .inr ⟨by simp, [_, _], rfl, by simp [Plain], ?_⟩
    simp
  | retire => exact .inr ⟨by simp, [_], rfl, List.forall_mem_singleton.mpr trivial, by simp⟩
  | _ => exact .inl rfl

/-- The stamp of an item that is made is none below the stamps so far. -/
theorem made_stamp (ordered : Ordered w owed) (made : Made w owed sock item)
    (fresh : item.state = .sendpublish) :
    item.origin.stamp ≤ w.trace.length ∧
      (∀ m ∈ owed, ∀ stamp, m.stamp = some stamp → item.origin.stamp ≤ stamp) ∧
      ((flow item).isSome → Stamped w.trace item.origin.stamp) := by
  cases made with
  | @fannedOut m node stamp qos stamped member =>
    obtain ⟨below, above⟩ := ordered.owed m member stamp stamped
    refine ⟨below, fun m' member' stamp' stamped' => ?_, fun _ => above⟩
    obtain ⟨only, rfl⟩ := List.length_eq_one_iff.mp
      (le_antisymm ordered.short (List.length_pos_of_mem member))
    obtain rfl := List.mem_singleton.mp member
    obtain rfl := List.mem_singleton.mp member'
    rw [stamped] at stamped'
    exact (Option.some.inj stamped').le
  | delivered => exact ⟨Nat.zero_le _, fun _ _ _ _ => Nat.zero_le _, fun flows => absurd flows (by simp [flow])⟩
  | incoming kind =>
    rcases kind with ⟨state, -⟩ | ⟨state, -⟩ <;> exact absurd (state.symm.trans fresh) nofun

theorem stamps_kept (act : MessageAct w owed w' owed') (ordered : Ordered w owed) :
    Stamped w'.trace w'.trace.length := by
  obtain ⟨events, grown⟩ := messageAct_trace act
  have longer : w.trace.length ≤ w'.trace.length := by simp [grown]
  refine Stamped.mono ?_ longer
  rcases log_act act with ⟨events, grown, plain⟩ | ⟨bytes, -, grown⟩ | ⟨late, made, -, plain, grown⟩ <;>
    rw [grown]
  · exact ordered.stamps.plain plain
  · intro socks sock i a enqueued
    exact ordered.stamps socks sock i a ((List.mem_cons.mp enqueued).resolve_left nofun)
  · exact (ordered.stamps.cons fun fresh => (made_stamp ordered made fresh).1).plain plain

theorem owed_kept (act : MessageAct w owed w' owed') (ordered : Ordered w owed) :
    owed'.length ≤ 1 ∧ ∀ m ∈ owed', ∀ stamp, m.stamp = some stamp →
      stamp ≤ w'.trace.length ∧ Stamped w'.trace stamp := by
  rcases owed_act act ordered.short with rfl | ⟨short, events, grown, plain, stamped⟩
  · refine ⟨ordered.short, fun m member stamp stamped => ?_⟩
    obtain ⟨below, above⟩ := ordered.owed m member stamp stamped
    obtain ⟨events, longer⟩ := messageAct_trace act
    refine ⟨below.trans (by simp [longer]), ?_⟩
    rcases log_act act with ⟨events, grown, plain⟩ | ⟨bytes, -, grown⟩ |
      ⟨late, made, -, plain, grown⟩ <;> rw [grown]
    · exact above.plain plain
    · intro socks sock i a enqueued
      exact above socks sock i a ((List.mem_cons.mp enqueued).resolve_left nofun)
    · refine (above.cons fun fresh => ?_).plain plain
      exact (made_stamp ordered made fresh).2.1 m member stamp stamped
  · refine ⟨short, fun m member stamp same => ?_⟩
    obtain ⟨rfl, some_event⟩ := stamped m member stamp same
    rw [grown]
    refine ⟨?_, (ordered.stamps.mono (Nat.le_succ _)).plain plain⟩
    rw [List.length_append]
    omega

theorem made_kept (act : MessageAct w owed w' owed') (ordered : Ordered w owed) {a : PackidStateItem}
    (at_i : (w'.items sock)[i]? = some a) (used : a.packetId ≠ 0) (fresh : a.state = .sendpublish) :
    ∃ socks, .enqueued socks sock i a ∈ w'.trace := by
  have step := slot_act act sock i
  rw [at_i] at step
  generalize before : (w.items sock)[i]? = old at step
  cases step with
  | kept =>
    obtain ⟨socks, enqueued⟩ := ordered.made sock i a before used fresh
    exact ⟨socks, logged_grown (messageAct_trace act) enqueued⟩
  | changed step => exact absurd fresh (step.not_fresh used)
  | placed _ _ _ grown =>
    obtain ⟨late, grown⟩ := grown
    exact ⟨w.socks, by simp [grown]⟩

theorem unsent_kept (act : MessageAct w owed w' owed') (meets : ∀ e ∈ w'.trace, Behind e)
    (ordered : Ordered w owed) {socks : Fin 64 → SockCid} {a : PackidStateItem}
    (enqueued : .enqueued socks sock i a ∈ w'.trace) (fresh : a.state = .sendpublish)
    (flows : (flow a).isSome) : Written w'.trace sock a ∨ (w'.items sock)[i]? = some a := by
  have used : a.packetId ≠ 0 := (meets _ enqueued fresh flows).1
  have earlier (enqueued : .enqueued socks sock i a ∈ w.trace) :
      Written w'.trace sock a ∨ (w'.items sock)[i]? = some a := by
    obtain ⟨events, grown⟩ := messageAct_trace act
    rw [grown]
    rcases ordered.unsent socks sock i a enqueued fresh flows with written | at_i
    · exact .inl (written_grown written)
    · have step := slot_act act sock i
      rw [at_i] at step
      generalize (w'.items sock)[i]? = new at step ⊢
      cases step with
      | kept => exact .inr rfl
      | changed step => exact .inl (written_grown (step.written fresh))
      | placed free => exact absurd (free a rfl) used
  rcases log_act act with ⟨events, grown, plain⟩ | ⟨bytes, -, grown⟩ |
    ⟨late, -, at_i, plain, grown⟩ <;> rw [grown] at enqueued
  · exact earlier (enqueued_plain plain enqueued)
  · exact earlier ((List.mem_cons.mp enqueued).resolve_left nofun)
  · rcases List.mem_cons.mp (enqueued_plain plain enqueued) with same | enqueued
    · cases same
      exact .inr at_i
    · exact earlier enqueued

theorem ordered_kept (act : MessageAct w owed w' owed') (meets : ∀ e ∈ w'.trace, Behind e)
    (ordered : Ordered w owed) {s t : Fin 64} {i k : Nat} {a b : PackidStateItem}
    (at_i : (w'.items s)[i]? = some a) (at_k : (w'.items t)[k]? = some b) (used_a : a.packetId ≠ 0)
    (used_b : b.packetId ≠ 0) (same : SameFlow a b) (before : a.origin.stamp < b.origin.stamp) :
    s = t ∧ i < k := by
  obtain ⟨fresh_a, fresh_b, flows, flow_eq⟩ := same
  have flows_b : (flow b).isSome := flow_eq ▸ flows
  have step_a := slot_act act s i
  have step_b := slot_act act t k
  rw [at_i] at step_a
  rw [at_k] at step_b
  generalize was_a : (w.items s)[i]? = old_a at step_a
  generalize was_b : (w.items t)[k]? = old_b at step_b
  cases step_b with
  | changed step => exact absurd fresh_b (step.not_fresh used_b)
  | kept =>
    cases step_a with
    | changed step => exact absurd fresh_a (step.not_fresh used_a)
    | kept => exact ordered.ordered s t i k a b was_a was_b used_a used_b ⟨fresh_a, fresh_b, flows, flow_eq⟩ before
    | placed _ _ made =>
      obtain ⟨socks, enqueued⟩ := ordered.made t k b was_b used_b fresh_b
      have above := (made_stamp ordered made fresh_a).2.2 flows socks t k b enqueued fresh_b
      omega
  | placed _ _ _ grown_b =>
    obtain ⟨late_b, grown_b⟩ := grown_b
    cases step_a with
    | changed step => exact absurd fresh_a (step.not_fresh used_a)
    | kept =>
      have behind := (meets (.enqueued w.socks t k b) (by simp [grown_b]) fresh_b flows_b).2 s (a, i)
        (List.mk_mem_zipIdx_iff_getElem?.mpr was_a)
      exact behind used_a ⟨fresh_a, fresh_b, flows, flow_eq⟩
    | placed _ _ _ grown_a =>
      obtain ⟨late_a, grown_a⟩ := grown_a
      rw [grown_a, List.append_cons, List.append_cons late_b] at grown_b
      have ends := List.append_inj_right' (List.append_cancel_right grown_b) rfl
      cases ends
      omega

theorem lawful_kept (act : MessageAct w owed w' owed') (meets : ∀ e ∈ w'.trace, Behind e)
    (ordered : Ordered w owed) : Lawful Law w'.trace := by
  rcases log_act act with ⟨events, grown, plain⟩ | ⟨bytes, step, grown⟩ |
    ⟨late, made, -, plain, grown⟩ <;> rw [grown]
  · exact ordered.lawful.append fun e member => plain_law (plain e member)
  · refine lawful_cons.mpr ⟨fun fresh => ?_, ordered.lawful⟩
    cases step with
    | reply _ _ _ uncounted => exact absurd (.inl fresh) uncounted
    | send _ _ at_i _ _ _ first =>
      obtain ⟨used, first⟩ := first fresh
      refine ⟨(ordered.made _ _ _ at_i used fresh).imp fun _ enqueued => ⟨_, enqueued⟩, ?_⟩
      intro socks s k a enqueued same before
      have fresh_a := same.1
      have flows := same.2.2.1
      have meets_a := meets (.enqueued socks s k a) (by rw [grown]; exact List.mem_cons_of_mem _ enqueued)
      have used_a := (meets_a fresh_a flows).1
      rcases ordered.unsent socks s k a enqueued fresh_a flows with written | at_k
      · exact written
      · -- an unsent item would be in front of the one that is sent
        obtain ⟨rfl, front⟩ := ordered.ordered _ _ _ _ _ _ at_k at_i used_a used same before
        refine absurd ⟨used_a, ?_⟩ (first k front a at_k)
        simp [fresh_a]
  · refine Lawful.append (lawful_cons.mpr ⟨fun fresh flows => ?_, ordered.lawful⟩)
      fun e member => plain_law (plain e member)
    exact (made_stamp ordered made fresh).2.2 flows

theorem kept (act : MessageAct w owed w' owed') (meets : ∀ e ∈ w'.trace, Behind e)
    (ordered : Ordered w owed) : Ordered w' owed' where
  short := (owed_kept act ordered).1
  stamps := stamps_kept act ordered
  owed := (owed_kept act ordered).2
  made _ _ _ := made_kept act ordered
  unsent _ _ _ _ := unsent_kept act meets ordered
  ordered _ _ _ _ _ _ := ordered_kept act meets ordered
  lawful := lawful_kept act meets ordered

theorem frame (same : MessagesKept w w') (ordered : Ordered w owed) : Ordered w' owed := by
  obtain ⟨events, grown, others⟩ := same.trace
  have plain : ∀ e ∈ events, Plain e := fun e member => plain_other (others e member)
  have longer : w.trace.length ≤ w'.trace.length := by simp [grown]
  constructor
  · exact ordered.short
  · rw [grown]
    exact (ordered.stamps.plain plain).mono (by simp)
  · intro m member stamp stamped
    obtain ⟨below, above⟩ := ordered.owed m member stamp stamped
    rw [grown]
    exact ⟨below.trans (by simp), above.plain plain⟩
  · intro sock i a at_i used fresh
    rw [same.items] at at_i
    obtain ⟨socks, enqueued⟩ := ordered.made sock i a at_i used fresh
    exact ⟨socks, logged_grown ⟨events, grown⟩ enqueued⟩
  · intro socks sock i a enqueued fresh flows
    rw [grown] at enqueued ⊢
    rw [same.items]
    exact (ordered.unsent socks sock i a (enqueued_plain plain enqueued) fresh flows).imp_left
      written_grown
  · rw [same.items]
    exact ordered.ordered
  · rw [grown]
    exact ordered.lawful.append fun e member => plain_law (plain e member)

/-- The items of a flow are first sent in the order of their making. -/
theorem items_in_order (reachable : Reachable w) (meets : ∀ e ∈ w.trace, Behind e)
    {late earlier : List Event} {sock : Fin 64} {sockst : SockCid} {bytes : List UInt8} {b : PackidStateItem}
    (split : w.trace = late ++ .wrote sock sockst bytes (some b) :: earlier) {socks : Fin 64 → SockCid}
    {s : Fin 64} {i : Nat} {a : PackidStateItem} (enqueued : .enqueued socks s i a ∈ w.trace)
    (same : SameFlow a b) (before : a.origin.stamp < b.origin.stamp) : Written earlier s a := by
  have ordered : Ordered w [] := reachable.messages Behind Ordered
    (fun _ => ⟨by simp, fun _ _ _ _ enqueued => absurd enqueued List.not_mem_nil, by simp,
      fun _ _ _ at_i => absurd at_i (by simp [items, initial]),
      fun _ _ _ _ enqueued => absurd enqueued List.not_mem_nil,
      fun _ _ _ _ _ _ at_i => absurd at_i (by simp [items, initial]), lawful_nil⟩)
    frame kept meets
  obtain ⟨⟨socks', j, made⟩, sent⟩ := ordered.lawful late _ earlier split same.2.1
  rw [split] at enqueued
  rcases List.mem_append.mp enqueued with after | enqueued
  · -- an item made after the write has no smaller stamp
    obtain ⟨later, mid, rfl⟩ := List.append_of_mem after
    rw [List.append_assoc, List.cons_append] at split
    have above := ordered.lawful later _ _ split same.1 same.2.2.1 socks' sock j b
      (List.mem_append_right _ (List.mem_cons_of_mem _ made)) same.2.1
    omega
  · rcases List.mem_cons.mp enqueued with wrong | enqueued
    · cases wrong
    · exact sent socks s i a enqueued same before

/-- An item with a flow is one for a subscriber. -/
theorem delivers_of_flow (flows : (flow item).isSome) (fresh : item.state = .sendpublish) : Delivers item := by
  refine ⟨?_, .inl fresh⟩
  obtain ⟨found, known⟩ := Option.isSome_iff_exists.mp flows
  obtain ⟨sender, -, known⟩ := Option.bind_eq_some_iff.mp known
  obtain ⟨subscriber, named, -⟩ := Option.bind_eq_some_iff.mp known
  exact Option.isSome_of_eq_some named

/-- In a run in which no item is made in front of one that waits with a message
of its flow, and messages come under ids that are not in use for others, the
messages of a flow are first written in the order they were published in. -/
theorem messages_in_order (reachable : Reachable w) (meets : ∀ e ∈ w.trace, Behind e ∧ e.Apart) :
    InOrder w.trace := by
  have genuine := sent_genuine reachable fun e member => (meets e member).2
  intro late sock sockst bytes b earlier split socks s i a enqueued same before
  have wrote : .wrote sock sockst bytes (some b) ∈ w.trace := split ▸ List.mem_append_right late List.mem_cons_self
  obtain ⟨sockst', bytes', first⟩ :=
    items_in_order reachable (fun e member => (meets e member).1) split enqueued same before
  have wrote' : .wrote s sockst' bytes' (some a) ∈ w.trace :=
    split ▸ List.mem_append_right late (List.mem_cons_of_mem _ first)
  obtain ⟨fresh_a, fresh_b, flows, flow_eq⟩ := same
  exact ⟨(genuine _ wrote (delivers_of_flow (flow_eq ▸ flows) fresh_b)).2.1, sockst', bytes', first,
    (genuine _ wrote' (delivers_of_flow flows fresh_a)).2.1⟩

/-! ### Messages in order, and out of order -/

/-- The item whose message is written for the first time. -/
def firstWrite : Event → Option PackidStateItem
  | .wrote _ _ _ (some item) => if item.state = .sendpublish then some item else none
  | _ => none

theorem firstWrite_of_written (written : Written trace sock item) (fresh : item.state = .sendpublish) :
    item ∈ trace.filterMap firstWrite := by
  obtain ⟨sockst, bytes, wrote⟩ := written
  exact List.mem_filterMap.mpr ⟨_, wrote, if_pos fresh⟩

theorem written_of_firstWrite (first : item ∈ trace.filterMap firstWrite) :
    ∃ sock sockst bytes, .wrote sock sockst bytes (some item) ∈ trace := by
  obtain ⟨e, member, first⟩ := List.mem_filterMap.mp first
  cases e with
  | wrote sock sockst bytes written =>
    cases written with
    | none => cases first
    | some written =>
      simp only [firstWrite, Option.ite_none_right_eq_some, Option.some.injEq] at first
      exact ⟨sock, sockst, bytes, first.2 ▸ member⟩
  | _ => cases first

/-- A subscriber and two messages for it, with the packet ids 1 and 2. -/
def twoMessages : List (Message × Env) :=
  [accepting 1, reading 1 (connectPacket [97] 2), accepting 2, reading 2 (connectPacket [98] 2),
    subscribing 2 [116] 1, reading 1 (publishPacket 0x32 [116] [1, 0, 7]),
    reading 1 (publishPacket 0x32 [116] [2, 0, 8])]

theorem sent_as_published : ∃ w, (initial .clean).run (twoMessages ++ [writing 2, writing 2]) =
    .ok w ∧ (w.trace.filterMap firstWrite).map (·.packetId) = [2, 1] ∧ InOrder w.trace := by
  obtain ⟨w, ran, reachable, shown⟩ := reached_run .clean
    (twoMessages ++ [writing 2, writing 2]) (fun w =>
      decide ((w.trace.filterMap firstWrite).map (·.packetId) = [2, 1]) &&
        w.trace.all fun e => decide (Behind e ∧ e.Apart)) (by decide +kernel)
  rw [Bool.and_eq_true] at shown
  exact ⟨w, ran, of_decide_eq_true shown.1, messages_in_order reachable (by simpa using shown.2)⟩

/-- The first message is sent and acknowledged, and a third one comes. -/
def thirdMessage : List (Message × Env) :=
  twoMessages ++ [writing 2, reading 2 (some [0x40, 2, 1, 0]),
    reading 1 (publishPacket 0x32 [116] [3, 0, 9]), writing 2]

/-- It takes the place of the first, and is sent before the second. -/
theorem third_before_second : ∃ w, (initial .clean).run thirdMessage = .ok w ∧ Reachable w ∧
    (w.trace.filterMap firstWrite).map (·.packetId) = [3, 1] ∧ ¬ InOrder w.trace := by
  obtain ⟨w, ran, reachable, shown⟩ := reached_run .clean thirdMessage (fun w =>
    decide ((w.trace.filterMap firstWrite).map (·.packetId) = [3, 1]) && w.trace.any fun
      | .enqueued _ _ _ a => decide (a.packetId = 2) &&
          (w.trace.filterMap firstWrite).any fun b =>
            decide (SameFlow a b ∧ a.origin.stamp < b.origin.stamp)
      | _ => false) (by decide +kernel)
  rw [Bool.and_eq_true] at shown
  have sent := of_decide_eq_true shown.1
  refine ⟨w, ran, reachable, sent, fun inOrder => ?_⟩
  obtain ⟨e, enqueued, shown⟩ := List.any_eq_true.mp shown.2
  cases e with
  | enqueued socks s i a =>
    rw [Bool.and_eq_true] at shown
    have second : a.packetId = 2 := of_decide_eq_true shown.1
    obtain ⟨b, first, shown⟩ := List.any_eq_true.mp shown.2
    obtain ⟨same, before⟩ := of_decide_eq_true shown
    obtain ⟨sock, sockst, bytes, wrote⟩ := written_of_firstWrite first
    obtain ⟨late, earlier, split⟩ := List.append_of_mem wrote
    obtain ⟨-, sockst', bytes', written, -⟩ :=
      inOrder late sock sockst bytes b earlier split socks s i a enqueued same before
    rw [List.append_cons] at split
    have written : Written w.trace s a := split ▸ written_grown ⟨sockst', bytes', written⟩
    have among := List.mem_map_of_mem (f := (·.packetId)) (firstWrite_of_written written same.1)
    rw [sent, second] at among
    exact absurd among (by decide)
  | _ => exact absurd shown Bool.false_ne_true

end MqttBroker.Ordering
