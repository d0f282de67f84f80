import MqttBroker.PublishHashmapReachability
import MqttBroker.Worker.Items

/-! Whether the count of a stored message ever wraps. What an event of the
worker counts is bounded by what it is asked for: by the filters that find a
retained message, and by the clients that a message is offered to. -/
namespace MqttBroker.Counting
open Worker World PublishHashmap PublishHashmapReachability

/-- A count goes up from 255 or down from 0. -/
def Wraps : Event → Prop
  | .counting node => node.count = 255
  | .uncounting node => node.count = 0
  | _ => False

/-- The packet id that a message comes to the table under, or that a PUBACK or
PUBREC is matched with. -/
def identifier : Event → Option UInt16
  | .adding _ _ packetId _ _ _ => some packetId
  | .acked _ _ packetId item =>
    if item.state ∈ [.sendpublish, .getpuback, .getpubrec] then some packetId else none
  | _ => none

/-- How often a message has to be counted: once for a filter that finds it
retained, and once for each client with a socket and a subscription. -/
def asked (x : UInt16) : Event → Nat
  | .sought _ _ (some node) true => if node.pubpackId = x then 1 else 0
  | .offering packetId topic clients => if packetId = x then hearers topic clients else 0
  | _ => 0

def raised (x : UInt16) : Event → Nat
  | .counting node => if node.pubpackId = x then 1 else 0
  | _ => 0

def total (f : Event → Nat) (events : List Event) : Nat := (events.map f).sum

/-- A message that comes to the table, with its first count. -/
def brought : Event → Option (UInt16 × Nat)
  | .adding _ _ packetId _ _ _ => some (packetId, 1)
  | .retain _ _ _ packetId => some (packetId, 2)
  | _ => none

/-- The events of a turn use no packet id 0, and a message that is stored before
it, or that it brings, can be counted as often as the turn asks for. -/
structure Affords (w : World) (events : List Event) : Prop where
  numbered : ∀ e ∈ events, identifier e ≠ some 0
  stored : ∀ node ∈ w.publishMsgStore.slots, node.Live →
    node.count.toNat + total (asked node.pubpackId) events ≤ 255
  brought : ∀ e ∈ events, ∀ entry ∈ brought e, entry.2 + total (asked entry.1) events ≤ 255

instance (w : World) (events : List Event) : Decidable (Affords w events) :=
  decidable_of_iff ((∀ e ∈ events, identifier e ≠ some 0) ∧
      (∀ node ∈ w.publishMsgStore.slots, node.Live →
        node.count.toNat + total (asked node.pubpackId) events ≤ 255) ∧
      ∀ e ∈ events, ∀ entry ∈ brought e, entry.2 + total (asked entry.1) events ≤ 255)
    ⟨fun ⟨numbered, stored, brought⟩ => ⟨numbered, stored, brought⟩,
      fun affords => ⟨affords.numbered, affords.stored, affords.brought⟩⟩

/-- What a turn reports. -/
def reported (w w' : World) : List Event := w'.trace.take (w'.trace.length - w.trace.length)

/-- A turn that the counts have room for. -/
def RoomyTurn (w w' : World) : Prop := Turn w w' ∧ Affords w (reported w w')

/-! ### Sums over events -/

section Sums
variable {f : Event → Nat} {events late : List Event} {e : Event} {x : UInt16}

@[simp] theorem total_nil : total f [] = 0 := rfl

@[simp] theorem total_cons : total f (e :: events) = f e + total f events := rfl

@[simp] theorem total_append : total f (late ++ events) = total f late + total f events := by
  simp only [total, List.map_append, List.sum_append]

theorem total_zero (none : ∀ e ∈ events, f e = 0) : total f events = 0 := by
  induction events with
  | nil => rfl
  | cons e events ih =>
    obtain ⟨here, later⟩ := List.forall_mem_cons.mp none
    rw [total_cons, here, ih later]

/-- A message is counted no more often than anything is. -/
theorem raised_le (x : UInt16) (events : List Event) : total (raised x) events ≤ events.countP Event.raises := by
  induction events with
  | nil => exact le_rfl
  | cons e events ih =>
    rw [total_cons, List.countP_cons, Nat.add_comm]
    refine Nat.add_le_add ih ?_
    cases e with
    | counting node =>
      simp only [raised, Event.raises, if_true]
      split <;> omega
    | _ => exact Nat.zero_le _

end Sums

/-- An event that counts nothing up, and nothing down from 0. -/
def Level : Event → Prop
  | .counting _ => False
  | .uncounting node => node.count ≠ 0
  | _ => True

theorem Level.calm {e : Event} (level : Level e) : ¬ Wraps e := by
  cases e with
  | counting => exact absurd level id
  | uncounting => exact level
  | _ => exact id

theorem Level.raised {e : Event} (level : Level e) (x : UInt16) : raised x e = 0 := by
  cases e <;> first | rfl | exact absurd level id

/-! ### The table -/

/-- A slot, when a turn that asks for `F` has reported `E`: what is still to come
fits into its count. -/
def Fitting (F E : List Event) (node : NodePubmap) : Prop :=
  (node.count = 0 → node.pubpackId = 0) ∧
    (node.count ≠ 0 → node.count.toNat + total (asked node.pubpackId) F ≤ 255 + total (raised node.pubpackId) E)

structure Table (F E : List Event) (m : PublishHashmap) : Prop where
  findable : Findable m
  slots : AllSlots (Fitting F E) m.slots

section Table
variable {F E events : List Event} {m : PublishHashmap} {x : UInt16} {i : Nat}

theorem fitting_free : Fitting F E {} := ⟨fun _ => rfl, fun live => absurd rfl live⟩

theorem Table.mono (table : Table F E m) (more : ∀ x, total (raised x) E ≤ total (raised x) events) :
    Table F events m := by
  refine ⟨table.findable, fun node member => ?_⟩
  obtain ⟨vacant, fits⟩ := table.slots node member
  exact ⟨vacant, fun live => (fits live).trans (Nat.add_le_add_left (more _) _)⟩

/-- A nonzero id is found in a slot that is taken, and leaves room. -/
theorem Table.found (table : Table F E m) (found : m.get x = some i) (used : x ≠ 0) :
    (slotAt m.slots i).pubpackId = x ∧ (slotAt m.slots i).count ≠ 0 ∧
      (slotAt m.slots i).count.toNat + total (asked x) F ≤ 255 + total (raised x) E := by
  have id := table.findable.shaped.get_id found
  obtain ⟨vacant, fits⟩ := table.slots.slotAt fitting_free i
  rw [id] at vacant fits
  have live : (slotAt m.slots i).count ≠ 0 := fun free => used (vacant free)
  exact ⟨id, live, fits live⟩

theorem Table.add (table : Table F E m) {count : UInt8} (counted : count ≠ 0)
    (room : count.toNat + total (asked x) F ≤ 255) (data : List UInt8) (qos : UInt8) (heap : Heap) :
    Table F E (m.add x data qos count heap).2.1 := by
  refine ⟨table.findable.add x data qos count heap, table.slots.add fitting_free (fun _ => id) ?_ heap⟩
  exact ⟨fun none => absurd none counted, fun _ => room.trans (Nat.le_add_right _ _)⟩

/-- A count goes up as long as more is asked for than has been counted. -/
theorem Table.up (table : Table F E m) (found : m.get x = some i) (used : x ≠ 0)
    (due : total (raised x) E < total (asked x) F) :
    (slotAt m.slots i).count ≠ 255 ∧
      Table F (.counting (slotAt m.slots i) :: E)
        { m with slots := m.slots.set i { slotAt m.slots i with count := (slotAt m.slots i).count + 1 } } := by
  obtain ⟨id, -, room⟩ := table.found found used
  have below : (slotAt m.slots i).count.toNat < 255 := by omega
  have notFull : (slotAt m.slots i).count ≠ 255 := by
    intro full
    rw [full] at below
    exact absurd below (by decide)
  have grown : Table F (.counting (slotAt m.slots i) :: E) m :=
    table.mono fun _ => (Nat.le_add_left _ _).trans_eq total_cons.symm
  refine ⟨notFull, table.findable.recount found _, grown.slots.set ?_ i⟩
  have up := Logic.toNat_up notFull
  refine ⟨fun none => ?_, fun _ => ?_⟩
  · rw [show (slotAt m.slots i).count + 1 = 0 from none] at up
    exact absurd up (Nat.succ_ne_zero _).symm
  · dsimp only
    rw [up, id, total_cons, Counting.raised, if_pos id]
    omega

/-- A count goes down, and at 0 its slot is freed. -/
theorem Table.down (table : Table F E m) (found : m.get x = some i) (used : x ≠ 0) {lowered : PublishHashmap}
    (same : lowered =
      { m with slots := m.slots.set i { slotAt m.slots i with count := (slotAt m.slots i).count - 1 } }) :
    Table F E (if (slotAt m.slots i).count - 1 = 0 then lowered.erase x else lowered) := by
  obtain ⟨id, live, room⟩ := table.found found used
  have findable : Findable lowered := same ▸ table.findable.recount found _
  by_cases last : (slotAt m.slots i).count - 1 = 0
  · rw [if_pos last]
    have still : lowered.get x = some i := by
      rw [same]
      exact (get_set m i { slotAt m.slots i with count := (slotAt m.slots i).count - 1 } rfl x).trans found
    refine ⟨findable.erase x, ?_⟩
    rw [erase_some still, same]
    dsimp only
    rw [List.set_set]
    exact table.slots.set fitting_free i
  · rw [if_neg last]
    refine ⟨findable, ?_⟩
    rw [same]
    refine table.slots.set ⟨fun none => absurd none last, fun _ => ?_⟩ i
    dsimp only
    rw [Logic.toNat_down live, id]
    omega

end Table

/-! ### One step -/

/-- In the middle of a turn from `w₀` that asks for `F` and has reported `E`. -/
structure Tidy (w₀ : World) (F E : List Event) (w : World) (owed : List Admitted) : Prop where
  grown : w.trace = E ++ w₀.trace
  table : Table F E w.publishMsgStore
  retained : w.retainedSubMsg.Yields (· ≠ 0)
  calm : ∀ e ∈ E, ¬ Wraps e
  met : ∀ x, total (raised x) E ≤ total (asked x) E
  /-- So it was when the loop over the clients began. -/
  begun : ∀ late x topic clients earlier, E = late ++ .offering x topic clients :: earlier →
    ∀ y, total (raised y) earlier ≤ total (asked y) earlier
  /-- A message in the hands of `publish_by_topic` came to it in this turn. -/
  named : ∀ m ∈ owed, ∀ stamp, m.stamp = some stamp → m.packetId ≠ 0 ∧ w₀.trace.length < stamp

section Steps
variable {w₀ w w' : World} {F E events : List Event} {owed owed' : List Admitted} {x : UInt16} {i : Nat}

theorem raised_level (level : ∀ e ∈ events, Level e) (x : UInt16) :
    total (raised x) (events ++ E) = total (raised x) E := by
  rw [total_append, total_zero fun e member => (level e member).raised x, Nat.zero_add]

/-- Events that count nothing up ask for more, if anything. -/
theorem met_level (level : ∀ e ∈ events, Level e)
    (met : ∀ x, total (raised x) E ≤ total (asked x) E) (x : UInt16) :
    total (raised x) (events ++ E) ≤ total (asked x) (events ++ E) := by
  rw [raised_level level, total_append]
  exact (met x).trans (Nat.le_add_left _ _)

theorem Tidy.level (tidy : Tidy w₀ F E w owed) (events : List Event)
    (grown : w'.trace = events ++ w.trace) (level : ∀ e ∈ events, Level e)
    (table : Table F E w'.publishMsgStore) (retained : w'.retainedSubMsg.Yields (· ≠ 0))
    (named : ∀ m ∈ owed', ∀ stamp, m.stamp = some stamp → m.packetId ≠ 0 ∧ w₀.trace.length < stamp) :
    Tidy w₀ F (events ++ E) w' owed' where
  grown := by rw [grown, tidy.grown, List.append_assoc]
  table := table.mono fun x => (raised_level level x).ge
  retained := retained
  calm := List.forall_mem_append.mpr ⟨fun e member => (level e member).calm, tidy.calm⟩
  met := met_level level tidy.met
  begun := by
    intro late x topic clients earlier split
    rcases List.append_eq_append_iff.mp split with ⟨middle, rfl, rest⟩ | ⟨middle, rfl, rest⟩
    · exact tidy.begun middle x topic clients earlier rest
    · cases middle with
      | nil => exact tidy.begun [] x topic clients earlier rest.symm
      | cons e middle =>
        obtain ⟨rfl, rfl⟩ := List.cons.inj rest
        refine met_level (fun e member => level e ?_) tidy.met
        exact List.mem_append_right _ (List.mem_cons_of_mem _ member)
  named := named

/-- A step that leaves the tables alone. -/
theorem Tidy.report (tidy : Tidy w₀ F E w owed) (events : List Event)
    (grown : w'.trace = events ++ w.trace) (level : ∀ e ∈ events, Level e)
    (store : w'.publishMsgStore = w.publishMsgStore) (retained : w'.retainedSubMsg = w.retainedSubMsg) :
    Tidy w₀ F (events ++ E) w' owed :=
  tidy.level events grown level (store ▸ tidy.table) (retained ▸ tidy.retained) tidy.named

theorem Tidy.log (tidy : Tidy w₀ F E w owed) {e : Event} (level : Level e) :
    Tidy w₀ F (e :: E) (w.log e) owed :=
  tidy.report [e] rfl (List.forall_mem_singleton.mpr level) rfl rfl

/-- A message comes to the table. -/
theorem Tidy.stored (tidy : Tidy w₀ F E w owed) (count : UInt8) (counted : count ≠ 0)
    (room : count.toNat + total (asked x) F ≤ 255) (frame : List UInt8) (qos : UInt8) (heap : Heap) :
    Tidy w₀ F (.adding w.socks w.publishMsgStore x frame qos
      (w.publishMsgStore.add x frame qos count heap).1 :: E) (w.stored x frame qos count heap) owed :=
  tidy.level [_] rfl (List.forall_mem_singleton.mpr trivial) (tidy.table.add counted room frame qos heap)
    tidy.retained tidy.named

/-- A message is counted down. -/
theorem Tidy.down (tidy : Tidy w₀ F E w owed) (found : w.publishMsgStore.get x = some i) (used : x ≠ 0)
    (named : ∀ m ∈ owed', ∀ stamp, m.stamp = some stamp → m.packetId ≠ 0 ∧ w₀.trace.length < stamp) :
    Tidy w₀ F (.uncounting (w.nodeAt i) :: E) (w.countDown i x) owed' :=
  tidy.level [_] rfl (List.forall_mem_singleton.mpr (tidy.table.found found used).2.1)
    (tidy.table.down found used rfl) tidy.retained named

theorem Tidy.forget (tidy : Tidy w₀ F E w owed) (used : x ≠ 0) :
    Tidy w₀ F (w.forgotten x ++ E) (w.forget x) owed := by
  unfold World.forgotten World.forget
  cases found : w.publishMsgStore.get x with
  | none => exact tidy
  | some i => exact tidy.down found used tidy.named

/-- A message is counted up for what the turn asks for. -/
theorem Tidy.up (tidy : Tidy w₀ F E w owed) (found : w.publishMsgStore.get x = some i) (used : x ≠ 0)
    (late : List Event) (grown : w'.trace = late ++ .counting (w.nodeAt i) :: w.trace)
    (level : ∀ e ∈ late, Level e) (only : ∀ x topic clients, .offering x topic clients ∉ late)
    (store : w'.publishMsgStore = (w.countUp i).publishMsgStore)
    (retained : w'.retainedSubMsg = w.retainedSubMsg)
    (more : total (raised x) E < total (asked x) (late ++ E))
    (within : total (asked x) (late ++ E) ≤ total (asked x) F) :
    Tidy w₀ F (late ++ .counting (w.nodeAt i) :: E) w' owed := by
  obtain ⟨notFull, table⟩ := tidy.table.up found used (more.trans_le within)
  have id : (w.nodeAt i).pubpackId = x := (tidy.table.found found used).1
  have still (y : UInt16) : total (asked y) (late ++ .counting (w.nodeAt i) :: E) =
      total (asked y) (late ++ E) := by
    simp only [total_append, total_cons, asked, Nat.zero_add]
  refine ⟨?_, ?_, retained ▸ tidy.retained, ?_, fun y => ?_, ?_, tidy.named⟩
  · rw [grown, tidy.grown, List.append_assoc]
    rfl
  · rw [store]
    exact table.mono fun y => (raised_level level y).ge
  · refine List.forall_mem_append.mpr ⟨fun e member => (level e member).calm, ?_⟩
    exact List.forall_mem_cons.mpr ⟨notFull, tidy.calm⟩
  · rw [raised_level level, still, total_cons, Counting.raised, id]
    by_cases same : x = y
    · subst same
      rw [if_pos rfl]
      omega
    · rw [if_neg same, Nat.zero_add, total_append]
      exact (tidy.met y).trans (Nat.le_add_left _ _)
  · intro before y topic clients earlier split
    rcases List.append_eq_append_iff.mp split with ⟨middle, rfl, rest⟩ | ⟨middle, rfl, rest⟩
    · cases middle with
      | nil => cases rest
      | cons e middle =>
        obtain ⟨-, split⟩ := List.cons.inj rest
        exact tidy.begun middle y topic clients earlier split
    · cases middle with
      | nil => cases rest
      | cons e middle =>
        obtain ⟨rfl, -⟩ := List.cons.inj rest
        exact absurd (List.mem_append_right _ List.mem_cons_self) (only y topic clients)

/-- A message that is offered is due one more count. -/
theorem Tidy.due (tidy : Tidy w₀ F E w owed) {m : Admitted} {stamp : Nat} {node : Node Client}
    (member : m ∈ owed) (stamped : m.stamp = some stamp) (offered : Offered w.trace m stamp node) :
    total (raised m.packetId) E < total (asked m.packetId) E := by
  obtain ⟨late, clients, earlier, grown, since, fewer, -⟩ := offered
  have recent := (tidy.named m member stamp stamped).2
  rw [tidy.grown] at grown
  rcases List.append_eq_append_iff.mp grown with ⟨middle, rfl, rest⟩ | ⟨middle, rfl, rest⟩
  · -- the offer would be older than the turn
    have shorter := congrArg List.length rest
    rw [List.length_append, List.length_cons] at shorter
    omega
  · cases middle with
    | nil =>
      have shorter := congrArg List.length rest
      rw [List.nil_append, List.length_cons] at shorter
      omega
    | cons e middle =>
      obtain ⟨rfl, rfl⟩ := List.cons.inj rest
      have before := tidy.begun late _ _ _ middle rfl m.packetId
      have counted := raised_le m.packetId late
      simp only [total_append, total_cons, raised, asked, if_true, Nat.zero_add]
      omega

theorem Tidy.added {sock : Fin 64} {item : PackidStateItem} {w₁ : World} (tidy : Tidy w₀ F E w owed)
    (added : ItemAdded w sock item w₁) :
    ∃ e, Level e ∧ w₁.trace = e :: w.trace ∧ w₁.publishMsgStore = w.publishMsgStore ∧
      Tidy w₀ F (e :: E) w₁ owed := by
  have store : w₁.publishMsgStore = w.publishMsgStore := (itemAdded_frame added).1
  have retained : w₁.retainedSubMsg = w.retainedSubMsg := by cases added <;> rfl
  have reported {e : Event} (level : Level e) (grown : w₁.trace = e :: w.trace) : Tidy w₀ F (e :: E) w₁ owed :=
    tidy.report [e] grown (List.forall_mem_singleton.mpr level) store retained
  rcases trace_added added with ⟨i, grown⟩ | grown
  · exact ⟨_, by trivial, grown, store, reported (by trivial) grown⟩
  · exact ⟨_, by trivial, grown, store, reported (by trivial) grown⟩

/-- A step with messages, in a turn that reports `F` in the end. -/
theorem tidy_act (act : MessageAct w owed w' owed') (affords : Affords w₀ F)
    (numbered : ∀ e ∈ w₀.trace, identifier e ≠ some 0) (part : ∃ late, F ++ w₀.trace = late ++ w'.trace)
    (tidy : Tidy w₀ F E w owed) : ∃ E', Tidy w₀ F E' w' owed' := by
  have sofar : ∀ e ∈ w'.trace, identifier e ≠ some 0 := by
    obtain ⟨late, part⟩ := part
    have all := List.forall_mem_append.mpr ⟨affords.numbered, numbered⟩
    rw [part] at all
    exact (List.forall_mem_append.mp all).2
  have reports (events : List Event) (grown : w'.trace = events ++ w.trace) :
      ∃ late, F = late ++ (events ++ E) := by
    obtain ⟨late, part⟩ := part
    rw [grown, tidy.grown, ← List.append_assoc events, ← List.append_assoc late] at part
    exact ⟨late, List.append_cancel_right part⟩
  have room (events : List Event) (grown : w'.trace = events ++ w.trace) {e : Event} (member : e ∈ events) :
      ∀ entry ∈ brought e, entry.2 + total (asked entry.1) F ≤ 255 := by
    obtain ⟨late, split⟩ := reports events grown
    refine affords.brought e ?_
    rw [split]
    exact List.mem_append_right _ (List.mem_append_left _ member)
  have within (events : List Event) (grown : w'.trace = events ++ w.trace) (x : UInt16) :
      total (asked x) (events ++ E) ≤ total (asked x) F := by
    obtain ⟨late, split⟩ := reports events grown
    rw [split]
    simp only [total_append]
    exact Nat.le_add_left _ _
  have alive {sock : Fin 64} {item : PackidStateItem} (counted : item.state.Counted) (live : Live w sock item)
      (longer : ∃ events, w'.trace = events ++ w.trace) : item.packetId ≠ 0 := by
    rcases live with used | ⟨conn, acked⟩
    · exact used
    · intro none
      refine sofar _ (logged_grown longer acked) ?_
      have among : item.state ∈ [.sendpublish, .getpuback, .getpubrec] := by
        rcases counted with state | state | state <;> simp [state]
      rw [identifier, if_pos among, none]
  cases act with
  | start sock => exact ⟨_, tidy.report [.started sock (w.items sock)] rfl (by simp [Level]) rfl rfl⟩
  | unheard | unknown | send | matched | resend => exact ⟨_, tidy.log trivial⟩
  | reply sock bytes f at_i =>
    exact ⟨_, tidy.report [.wrote sock (w.socks sock) bytes (some _)] rfl (by simp [Level]) rfl rfl⟩
  | answer sock f at_i =>
    exact ⟨_, tidy.report [.acked sock (w.socks sock) _ _] rfl (by simp [Level]) rfl rfl⟩
  | await => exact ⟨_, tidy.report [] rfl (List.forall_mem_nil _) rfl rfl⟩
  | accept sock qos packetId topic frame =>
    have reported := tidy.log (e := .publishing sock (w.socks sock) qos packetId topic frame) trivial
    refine ⟨_, reported.level [] rfl (List.forall_mem_nil _) reported.table reported.retained ?_⟩
    intro m member stamp stamped
    obtain rfl := List.mem_singleton.mp member
    cases stamped
  | incoming _ _ _ _ new =>
    obtain ⟨e, -, -, -, tidy⟩ := tidy.added new
    exact ⟨_, tidy⟩
  | enter m qos heap distributes stamped =>
    have one := room [_, _] rfl List.mem_cons_self (m.packetId, 1) rfl
    have told := tidy.log (e := .distributing m.publisher m.topic m.frame qos m.packetId) trivial
    have given := told.stored 1 (by decide) one m.frame qos heap
    refine ⟨_, given.level [] rfl (List.forall_mem_nil _) given.table given.retained ?_⟩
    intro m' member stamp stamped'
    obtain rfl := List.mem_singleton.mp member
    obtain rfl := Option.some.inj (stamped.symm.trans stamped')
    refine ⟨fun none => sofar _ List.mem_cons_self (congrArg some none), ?_⟩
    rw [tidy.grown, List.length_append]
    omega
  | refuse packetId topic frame qos heap =>
    rename_i publisher _ _
    have one := room [_, _] rfl List.mem_cons_self (packetId, 1) rfl
    have told := tidy.log (e := .distributing publisher topic frame qos packetId) trivial
    have given := told.stored 1 (by decide) one frame qos heap
    exact ⟨_, given.level [] rfl (List.forall_mem_nil _) given.table given.retained (List.forall_mem_nil _)⟩
  | readd packetId y frame qos heap =>
    have one := room [_] rfl List.mem_cons_self (packetId, 1) rfl
    exact ⟨_, tidy.stored 1 (by decide) one frame qos heap⟩
  | retainRefused packetId topic frame qos heap =>
    have two := room [_, _] rfl (List.mem_cons_of_mem _ List.mem_cons_self) (packetId, 2) rfl
    have told := tidy.log (e := .retain topic frame qos packetId) trivial
    exact ⟨_, told.stored 2 (by decide) two frame qos heap⟩
  | retainNew packetId frame qos heap taken fresh kept unstamped source =>
    rename_i topic ok _ _ _
    have two := room [_, _, _, _] rfl
      (List.mem_cons_of_mem _ (List.mem_cons_of_mem _ (List.mem_cons_of_mem _ List.mem_cons_self)))
      (packetId, 2) rfl
    have used : packetId ≠ 0 := fun none =>
      sofar _ (List.mem_cons_of_mem _ (List.mem_cons_of_mem _ List.mem_cons_self)) (congrArg some none)
    have told := tidy.log (e := .retain topic frame qos packetId) trivial
    have given := told.stored 2 (by decide) two frame qos heap
    exact ⟨_, given.level [.keeping w.retainedSubMsg topic ok, .retaining packetId] rfl (by simp [Level])
      given.table (tidy.retained.add used kept) given.named⟩
  | retainReplace packetId frame qos heap taken before unstamped source =>
    rename_i topic old
    have two : 2 + total (asked packetId) F ≤ 255 := by
      refine room _ (forget_grown [_, _, _] rfl) (e := .retain topic frame qos packetId) ?_ (packetId, 2) rfl
      exact List.mem_append_right _ (List.mem_cons_of_mem _ (List.mem_cons_of_mem _ List.mem_cons_self))
    have used : packetId ≠ 0 := fun none =>
      sofar _ (logged_grown ⟨_, forget_trace old⟩ (List.mem_cons_of_mem _ List.mem_cons_self))
        (congrArg some none)
    have told := tidy.log (e := .retain topic frame qos packetId) trivial
    have given := (told.stored 2 (by decide) two frame qos heap).log (e := .retaining packetId) trivial
    have gone := given.forget (tidy.retained.get before)
    exact ⟨_, gone.level [] rfl (List.forall_mem_nil _) gone.table (tidy.retained.rewritten used) gone.named⟩
  | enqueue m qos stamped member _ _ _ _ new found offered =>
    have used := (tidy.named m member _ stamped).1
    have due := tidy.due member stamped offered
    obtain ⟨e, level, grown, store, tidy⟩ := tidy.added new
    have more : total (raised m.packetId) (e :: E) < total (asked m.packetId) (e :: E) := by
      rw [total_cons, total_cons, level.raised]
      omega
    refine ⟨_, tidy.up (store ▸ found) used [] rfl (List.forall_mem_nil _) (by simp) rfl rfl more ?_⟩
    have whole := within [.counting _, e] (congrArg _ grown) m.packetId
    rw [List.cons_append, total_cons] at whole
    exact (Nat.le_add_left _ _).trans whole
  | deliver sock qos got found new =>
    rename_i topic packetId i
    have used : packetId ≠ 0 := tidy.retained.get got
    have id : (w.nodeAt i).pubpackId = packetId := (tidy.table.found found used).1
    obtain ⟨e, level, grown, store, tidy⟩ := tidy.added new
    have more : total (raised packetId) (e :: E) <
        total (asked packetId) ([.sought sock topic (some (w.nodeAt i)) true] ++ e :: E) := by
      have met := tidy.met packetId
      rw [total_append, total_cons (e := .sought ..), asked, if_pos id]
      omega
    refine ⟨_, tidy.up (store ▸ found) used [.sought sock topic (some (w.nodeAt i)) true] rfl (by simp [Level])
      (by simp) rfl rfl more ?_⟩
    have whole := within [.sought sock topic (some (w.nodeAt i)) true, .counting _, e]
      (congrArg (_ :: _ :: ·) grown) packetId
    simp only [List.cons_append, List.nil_append, total_cons, asked] at whole ⊢
    omega
  | retire m stamped found =>
    have used := (tidy.named m (List.mem_singleton_self m) _ (Option.some_get stamped).symm).1
    exact ⟨_, tidy.down found used (List.forall_mem_nil _)⟩
  | release sock packetId f at_i counted live same releases =>
    rename_i i item
    have used : packetId ≠ 0 := by
      have used := alive counted live ⟨_, forget_trace packetId⟩
      rcases same with rfl | ⟨j, found, rfl⟩
      · exact used
      · rwa [show (w.nodeAt j).pubpackId = item.packetId from (tidy.table.found found used).1]
    have changed : Tidy w₀ F E (w.setItem sock i f) owed :=
      tidy.report [] rfl (List.forall_mem_nil _) rfl rfl
    exact ⟨_, changed.forget used⟩
  | abandon sock at_i counted live found wrote =>
    rename_i i j item
    have used := alive counted live ⟨_, forget_grown [.unsent item] rfl⟩
    have id : (w.nodeAt j).pubpackId = item.packetId := (tidy.table.found found used).1
    have changed : Tidy w₀ F (.unsent item :: E)
        ((w.log (.unsent item)).setItem sock i ({ · with packetId := 0 })) owed :=
      tidy.report [.unsent item] rfl (by simp [Level]) rfl rfl
    exact ⟨_, changed.forget (id ▸ used)⟩

end Steps

/-! ### Turns and runs -/

section Runs
variable {w w' : World} {owed : List Admitted}

/-- At the head of the event loop. -/
structure Settled (w : World) : Prop where
  findable : Findable w.publishMsgStore
  vacant : AllSlots (fun node => node.count = 0 → node.pubpackId = 0) w.publishMsgStore.slots
  retained : w.retainedSubMsg.Yields (· ≠ 0)
  numbered : ∀ e ∈ w.trace, identifier e ≠ some 0
  calm : ∀ e ∈ w.trace, ¬ Wraps e

theorem settled_initial (boot : Boot) : Settled (initial boot) where
  findable := reached_findable (by decide) (by decide) (.refl : Reached 5 _)
  vacant := .replicate (fun _ => rfl) _
  retained := .ofCapacity Nat.one_pos
  numbered := List.forall_mem_nil _
  calm := List.forall_mem_nil _

theorem Settled.starts (settled : Settled w) {F : List Event} (affords : Affords w F) : Tidy w F [] w [] where
  grown := rfl
  table := by
    refine ⟨settled.findable, fun node member => ⟨settled.vacant node member, fun live => ?_⟩⟩
    exact (affords.stored node member live).trans (Nat.le_add_right _ _)
  retained := settled.retained
  calm := List.forall_mem_nil _
  met := fun _ => le_rfl
  begun := by
    intro late x topic clients earlier split
    simp at split
  named := List.forall_mem_nil _

theorem level_other {e : Event} (other : ¬ e.OfMessage) : Level e := by
  cases e <;> first | exact trivial | exact absurd trivial other

theorem reported_spec (turn : Turn w w') : w'.trace = reported w w' ++ w.trace := by
  obtain ⟨events, grown⟩ := acts_trace turn.acts
  have long : w'.trace.length - w.trace.length = events.length := by
    rw [grown, List.length_append, Nat.add_sub_cancel]
  rw [reported, long]
  rw [show w'.trace = events ++ w.trace from grown, List.take_left]

/-- No count wraps in a turn that the counts have room for. -/
theorem settled_turn (settled : Settled w) (roomy : RoomyTurn w w') : Settled w' := by
  obtain ⟨turn, affords⟩ := roomy
  have spec := reported_spec turn
  have ends : ∃ E, Tidy w (reported w w') E w' [] := by
    refine Acts.messages (fun _ => True)
      (fun w₁ owed => (∃ late, reported w w' ++ w.trace = late ++ w₁.trace) →
        ∃ E, Tidy w (reported w w') E w₁ owed)
      ?_ ?_ turn.acts (fun _ _ => trivial) ?_ ⟨[], spec.symm⟩
    · intro w₁ w₂ owed same inv part
      obtain ⟨events, grown, other⟩ := same.trace
      obtain ⟨late, part⟩ := part
      obtain ⟨E, tidy⟩ := inv ⟨late ++ events, by rw [part, grown, List.append_assoc]⟩
      exact ⟨_, tidy.report events grown (fun e member => level_other (other e member)) same.store same.retained⟩
    · intro w₁ owed w₂ owed' act _ inv part
      obtain ⟨events, grown⟩ := messageAct_trace act
      have before : ∃ late, reported w w' ++ w.trace = late ++ w₁.trace := by
        obtain ⟨late, part⟩ := part
        exact ⟨late ++ events, by rw [part, grown, List.append_assoc]⟩
      obtain ⟨E, tidy⟩ := inv before
      exact tidy_act act affords settled.numbered part tidy
    · exact fun _ => ⟨[], settled.starts affords⟩
  obtain ⟨E, tidy⟩ := ends
  refine ⟨tidy.table.findable, fun node member => (tidy.table.slots node member).1, tidy.retained, ?_, ?_⟩
  · rw [spec]
    exact List.forall_mem_append.mpr ⟨affords.numbered, settled.numbered⟩
  · rw [tidy.grown]
    exact List.forall_mem_append.mpr ⟨tidy.calm, settled.calm⟩

/-- In a run whose turns the counts have room for, no count wraps. -/
theorem counts_never_wrap {boot : Boot}
    (run : Relation.ReflTransGen RoomyTurn (initial boot) w) : ∀ e ∈ w.trace, ¬ Wraps e := by
  have settled : Settled w :=
    Logic.reached_invariant (fun _ _ => settled_turn) (settled_initial boot) run
  exact settled.calm

end Runs

/-! ### Concrete runs -/

/-- The state after some messages, if every turn has room. -/
def roomyRun (w : World) : List (Message × Env) → Option World
  | [] => some w
  | (msg, env) :: rest =>
    match handle msg { w with env := env } with
    | .ok (_, w') => if Affords w (reported w w') then roomyRun w' rest else none
    | .error _ => none

theorem roomyRun_turns {w w' : World} {msgs : List (Message × Env)} (ran : roomyRun w msgs = some w') :
    Relation.ReflTransGen RoomyTurn w w' := by
  induction msgs generalizing w with
  | nil =>
    cases ran
    exact .refl
  | cons entry rest ih =>
    unfold roomyRun at ran
    split at ran
    · rename_i handled
      split at ran
      · exact .head ⟨⟨_, _, handled⟩, ‹_›⟩ (ih ran)
      · cases ran
    · cases ran

/-- A client gets and acknowledges a message that it has published itself. -/
def ownMessage : List (Message × Env) :=
  [accepting 1, reading 1 (connectPacket [97] 2), subscribing 1 [116] 1,
    reading 1 (some (publishPacket 0x32 [116] [0, 5, 1])), writing 1, writing 1,
    reading 1 (some [0x40, 2, 0, 5])]

def raises (count : UInt8) : Event → Bool
  | .counting node => node.count = count
  | _ => false

def lowers (count : UInt8) : Event → Bool
  | .uncounting node => node.count = count
  | _ => false

theorem own_message_counted : ∃ w, Relation.ReflTransGen RoomyTurn (initial .clean) w ∧
    w.trace.any (raises 1) ∧ w.trace.any (lowers 2) ∧ w.trace.any (lowers 1) ∧ ∀ e ∈ w.trace, ¬ Wraps e := by
  have shown : (roomyRun (initial .clean) ownMessage).any (fun w =>
      w.trace.any (raises 1) && w.trace.any (lowers 2) && w.trace.any (lowers 1)) = true := by
    decide +kernel
  obtain ⟨w, ran, shown⟩ := (Option.any_eq_true _ _).mp shown
  simp only [Bool.and_eq_true] at shown
  have run := roomyRun_turns ran
  exact ⟨w, run, shown.1.1, shown.1.2, shown.2, counts_never_wrap run⟩

/-- A client that subscribes to the topic, under a client id of its own. -/
def joining (sock : Fin 64) : List (Message × Env) :=
  [accepting sock, reading sock (connectPacket [98, sock.val.toUInt8] 2), subscribing sock [116] 1]

/-- Sixteen subscribers do not answer, while the publisher uses the packet id of
a message again as soon as that is acknowledged. -/
def unanswered : List (Message × Env) :=
  [accepting 1, reading 1 (connectPacket [97] 2)] ++
    ((List.range 16).map fun i => joining (Fin.ofNat 64 (i + 2))).flatten ++
    (List.replicate 17 [reading 1 (some (publishPacket 0x32 [116] [0, 5, 1])), writing 1]).flatten

/-- The client acknowledges its message, and then packet id 0. -/
def zeroAcknowledged : List (Message × Env) := ownMessage ++ [reading 1 (some [0x40, 2, 0, 0])]

/-- Deliveries that wait take a count past 255, and a PUBACK with packet id 0
finds the item and the slot that are free. -/
theorem counts_wrap : (∃ w, Reachable w ∧ ∃ e ∈ w.trace, raises 255 e ∧ Wraps e) ∧
    ∃ w, Reachable w ∧ ∃ e ∈ w.trace, lowers 0 e ∧ Wraps e := by
  have wraps (e : Event) (shown : raises 255 e ∨ lowers 0 e) : Wraps e := by
    cases e <;> simp_all [raises, lowers, Wraps]
  obtain ⟨w, -, reachable, shown⟩ := reached_run .clean unanswered
    (fun w => w.trace.any (raises 255)) (by decide +kernel)
  obtain ⟨e, member, shown⟩ := List.any_eq_true.mp shown
  refine ⟨⟨w, reachable, e, member, shown, wraps e (.inl shown)⟩, ?_⟩
  obtain ⟨w, -, reachable, shown⟩ := reached_run .clean zeroAcknowledged
    (fun w => w.trace.any (lowers 0)) (by decide +kernel)
  obtain ⟨e, member, shown⟩ := List.any_eq_true.mp shown
  exact ⟨w, reachable, e, member, shown, wraps e (.inr shown)⟩

end MqttBroker.Counting
