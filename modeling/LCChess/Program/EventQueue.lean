import LCChess.Library.BoundedFifo
import LCChess.Library.Run
import LCChess.Input.Keyboard
import LCChess.Program.State

/-!
# The event queue

`event_queue.c` keeps the pending events in an array: `pushEvent` writes behind the last event
and `popEvent` takes the *last* one, so that the queue is a stack. Events come out in the order
of their arrival exactly as long as no `popEvent` finds more than one of them. The main loop
pushes what one notification carries and then pops until the queue is empty: it handles the
events of every notification in the reverse order.

## Main definitions

* `EventQueue`, `createEventQueue`, `pushEvent`, `popEvent`: the queue of `event_queue.c`
* `EventQueue.stored`: the pending events, first pushed first
* `EventCall`, `EventQueue.pops`, `fifoPops`: what the pops of a sequence of calls return
* `stamp`: the calls, with every event marked by the number of its push
* `Notification`, `arrived`, `mainIteration`: one notification in `proj_main_loop`

## Main results

* `pops_in_order_iff`: the pops are those of a FIFO iff each finds at most one event
* `handled_eq_reverse`: one notification is handled in reverse order
* `events_in_order`: when events are handled in the order of their arrival
-/

namespace LCChess

open Transition

/-- `EventQueue` of `event_queue.h`. -/
structure EventQueue (α : Type*) where
  size : ℕ
  capacity : ℕ
  array : ℕ → α

section Queue

variable {α : Type*}

/-- `createEventQueue`; `malloced` is what the allocated array holds. -/
def createEventQueue (capacity : UInt32) (malloced : ℕ → α) : EventQueue α where
  size := 0
  capacity := capacity.toNat
  array := malloced

/-- `eventQueueIsFull`. -/
def eventQueueIsFull (q : EventQueue α) : Bool := q.size == q.capacity

/-- `eventQueueIsEmpty`. -/
def eventQueueIsEmpty (q : EventQueue α) : Bool := q.size == 0

/-- `pushEvent`: a full queue is left as it is. -/
def pushEvent (q : EventQueue α) (event : α) : EventQueue α :=
  if eventQueueIsFull q then q
  else
    { q with
      array := Function.update q.array q.size event
      size := (q.size + 1) % 2 ^ 32 }

/-- `popEvent`; `none` is `NO_EVENT`. -/
def popEvent (q : EventQueue α) : Option α × EventQueue α :=
  if eventQueueIsEmpty q then (none, q)
  else (some (q.array (q.size - 1)), { q with size := q.size - 1 })

/-- The calls on an event queue. -/
inductive EventCall (α : Type*)
  | push (event : α)
  | pop

/-- The calls, with the number of the call written to every pushed event. -/
def stamp : ℕ → List (EventCall α) → List (EventCall (ℕ × α))
  | _, [] => []
  | n, .push event :: calls => .push (n, event) :: stamp (n + 1) calls
  | n, .pop :: calls => .pop :: stamp (n + 1) calls

namespace EventQueue

/-- The representation invariant. -/
structure WellFormed (q : EventQueue α) : Prop where
  size_le : q.size ≤ q.capacity
  capacity_lt : q.capacity < 2 ^ 32

/-- The pending events, first pushed first. -/
def stored (q : EventQueue α) : List α := (List.range q.size).map q.array

/-- The queue after a call. -/
def after (q : EventQueue α) : EventCall α → EventQueue α
  | .push event => pushEvent q event
  | .pop => (popEvent q).2

/-- What a call returns. -/
def returned (q : EventQueue α) : EventCall α → List (Option α)
  | .push _ => []
  | .pop => [(popEvent q).1]

/-- What the pops of a sequence of calls return. -/
def pops (q : EventQueue α) (calls : List (EventCall α)) : List (Option α) :=
  outputs returned after q calls

/-- A pop finds at most one event. -/
def AtMostOne (q : EventQueue α) : EventCall α → Prop
  | .push _ => True
  | .pop => q.size ≤ 1

@[simp] theorem length_stored (q : EventQueue α) : q.stored.length = q.size := by simp [stored]

theorem wellFormed_create (capacity : UInt32) (malloced : ℕ → α) :
    (createEventQueue capacity malloced).WellFormed where
  size_le := Nat.zero_le _
  capacity_lt := capacity.toNat_lt

/-- Pushing appends, unless the queue is full. -/
theorem WellFormed.stored_push {q : EventQueue α} (h : q.WellFormed) (event : α) :
    (pushEvent q event).stored =
      if q.stored.length < q.capacity then q.stored ++ [event] else q.stored := by
  have hle := h.size_le
  have hlt := h.capacity_lt
  unfold pushEvent
  -- a full queue is left as it is; else the counter does not wrap
  by_cases hfull : q.size = q.capacity
  · have hnot : ¬ q.stored.length < q.capacity := by rw [length_stored]; omega
    rw [if_pos (by simpa [eventQueueIsFull] using hfull), if_neg hnot]
  · have hroom : q.stored.length < q.capacity := by rw [length_stored]; omega
    have hsize : (q.size + 1) % 2 ^ 32 = q.size + 1 := Nat.mod_eq_of_lt (by omega)
    rw [if_neg (by simpa [eventQueueIsFull] using hfull), if_pos hroom]
    simp only [stored, hsize, List.range_succ, List.map_append, List.map_singleton,
      Function.update_self]
    congr 1
    refine List.map_congr_left fun i hi => Function.update_of_ne ?_ _ _
    exact Nat.ne_of_lt (List.mem_range.mp hi)

theorem WellFormed.push {q : EventQueue α} (h : q.WellFormed) (event : α) :
    (pushEvent q event).WellFormed ∧ (pushEvent q event).capacity = q.capacity := by
  have hle := h.size_le
  have hlt := h.capacity_lt
  unfold pushEvent
  split_ifs with hfull
  · exact ⟨h, rfl⟩
  · have hne : q.size ≠ q.capacity := by simpa [eventQueueIsFull] using hfull
    have hsize : (q.size + 1) % 2 ^ 32 = q.size + 1 := Nat.mod_eq_of_lt (by omega)
    exact ⟨⟨by simp only [hsize]; omega, hlt⟩, rfl⟩

/-- Popping takes the event that was pushed last. -/
theorem popEvent_eq (q : EventQueue α) :
    (popEvent q).1 = q.stored.getLast? ∧ (popEvent q).2.stored = q.stored.dropLast := by
  unfold popEvent
  cases hsize : q.size with
  | zero =>
    have hstored : q.stored = [] := by simp [stored, hsize]
    rw [if_pos (by simp [eventQueueIsEmpty, hsize]), hstored]
    exact ⟨rfl, rfl⟩
  | succ n =>
    have hstored : q.stored = (List.range n).map q.array ++ [q.array n] := by
      simp [stored, hsize, List.range_succ]
    rw [if_neg (by simp [eventQueueIsEmpty, hsize]), hstored]
    constructor
    · simp
    · simp [stored]

theorem WellFormed.pop {q : EventQueue α} (h : q.WellFormed) :
    (popEvent q).2.WellFormed ∧ (popEvent q).2.capacity = q.capacity := by
  have hle := h.size_le
  unfold popEvent
  split_ifs
  · exact ⟨h, rfl⟩
  · exact ⟨⟨by simp only; omega, h.capacity_lt⟩, rfl⟩

end EventQueue

section Fifo

variable {c : ℕ}

/-- A bounded FIFO after a call. -/
def fifoAfter (q : BoundedFifo α c) : EventCall α → BoundedFifo α c
  | .push event => q.push event
  | .pop => q.pop

/-- What a call on a bounded FIFO returns. -/
def fifoReturned (q : BoundedFifo α c) : EventCall α → List (Option α)
  | .push _ => []
  | .pop => [q.toList.head?]

/-- What the pops of a sequence of calls return from a bounded FIFO. -/
def fifoPops (q : BoundedFifo α c) (calls : List (EventCall α)) : List (Option α) :=
  outputs fifoReturned fifoAfter q calls

/-- An event queue holds the events of a FIFO, stamped before the number `n`. -/
structure Represents (n : ℕ) (q : EventQueue (ℕ × α)) (fifo : BoundedFifo (ℕ × α) c) : Prop where
  wellFormed : q.WellFormed
  capacity_eq : q.capacity = c
  stored_eq : q.stored = fifo.toList
  stamps_lt : ∀ e ∈ q.stored, e.1 < n
  nodup : q.stored.Nodup

namespace Represents

variable {n : ℕ} {q : EventQueue (ℕ × α)} {fifo : BoundedFifo (ℕ × α) c}

theorem create (capacity : UInt32) (malloced : ℕ → ℕ × α) :
    Represents 0 (createEventQueue capacity malloced)
      (BoundedFifo.empty (ℕ × α) capacity.toNat) where
  wellFormed := EventQueue.wellFormed_create capacity malloced
  capacity_eq := rfl
  stored_eq := rfl
  stamps_lt := fun _ he => absurd he List.not_mem_nil
  nodup := List.nodup_nil

theorem push (h : Represents n q fifo) (event : α) :
    Represents (n + 1) (pushEvent q (n, event)) (fifo.push (n, event)) := by
  obtain ⟨hwf, hcap⟩ := h.wellFormed.push (n, event)
  have hstored := h.wellFormed.stored_push (n, event)
  -- the stamp `n` has not been used yet
  have hfresh : (n, event) ∉ q.stored := fun hmem => absurd (h.stamps_lt _ hmem) (Nat.lt_irrefl n)
  refine ⟨hwf, hcap.trans h.capacity_eq, ?_, ?_, ?_⟩
  · rw [hstored, BoundedFifo.toList_push, h.stored_eq, h.capacity_eq]
  · intro e he
    rw [hstored] at he
    split_ifs at he
    · rcases List.mem_append.mp he with he | he
      · exact Nat.lt_succ_of_lt (h.stamps_lt e he)
      · rw [List.mem_singleton.mp he]
        exact Nat.lt_succ_self n
    · exact Nat.lt_succ_of_lt (h.stamps_lt e he)
  · rw [hstored]
    split_ifs
    · exact List.nodup_append.mpr ⟨h.nodup, List.pairwise_singleton _ _, fun e he f hf hef => by
        rw [List.mem_singleton] at hf
        exact hfresh (hf ▸ hef ▸ he)⟩
    · exact h.nodup

/-- A pop that finds at most one event returns what the FIFO returns. -/
theorem pop (h : Represents n q fifo) (hsize : q.size ≤ 1) :
    Represents (n + 1) (popEvent q).2 fifo.pop ∧ (popEvent q).1 = fifo.toList.head? := by
  obtain ⟨hlast, hrest⟩ := EventQueue.popEvent_eq q
  obtain ⟨hwf, hcap⟩ := h.wellFormed.pop
  have hlen : q.stored.length ≤ 1 := by rwa [EventQueue.length_stored]
  -- of one event at most, the last one is the first one
  have hone : q.stored.dropLast = q.stored.tail ∧ q.stored.getLast? = q.stored.head? := by
    rcases hq : q.stored with _ | ⟨e, _ | ⟨f, rest⟩⟩
    · exact ⟨rfl, rfl⟩
    · exact ⟨rfl, rfl⟩
    · rw [hq] at hlen
      simp at hlen
  have hsub : ∀ e ∈ (popEvent q).2.stored, e ∈ q.stored := by
    rw [hrest]
    exact fun e he => (List.dropLast_sublist _).subset he
  refine ⟨⟨hwf, hcap.trans h.capacity_eq, ?_, ?_, ?_⟩, ?_⟩
  · rw [hrest, hone.1, h.stored_eq, BoundedFifo.toList_pop]
  · exact fun e he => Nat.lt_succ_of_lt (h.stamps_lt e (hsub e he))
  · rw [hrest]
    exact h.nodup.sublist (List.dropLast_sublist _)
  · rw [hlast, hone.2, h.stored_eq]

/-- A pop that finds two events or more returns another one than the FIFO. -/
theorem pop_ne (h : Represents n q fifo) (hsize : ¬ q.size ≤ 1) :
    (popEvent q).1 ≠ fifo.toList.head? := by
  rw [(EventQueue.popEvent_eq q).1, ← h.stored_eq]
  have hnodup := h.nodup
  have hlen := q.length_stored
  rcases hq : q.stored with _ | ⟨e, rest⟩
  · rw [hq] at hlen
    simp only [List.length_nil] at hlen
    omega
  · rw [hq] at hlen hnodup
    have hne : rest ≠ [] := by
      rintro rfl
      simp only [List.length_singleton] at hlen
      omega
    rw [List.getLast?_cons_of_ne_nil hne, List.head?_cons, List.getLast?_eq_some_getLast hne]
    intro heq
    -- the last event would be the first one again
    exact (List.nodup_cons.mp hnodup).1 (Option.some.inj heq ▸ List.getLast_mem hne)

/-- From related queues: the pops agree iff every one of them finds at most one event. -/
theorem pops_eq_iff (h : Represents n q fifo) (calls : List (EventCall α)) :
    q.pops (stamp n calls) = fifoPops fifo (stamp n calls) ↔
      Along EventQueue.AtMostOne EventQueue.after q (stamp n calls) := by
  -- on the calls: a pop that finds two events is the first difference
  induction calls generalizing n q fifo with
  | nil => exact ⟨fun _ => trivial, fun _ => rfl⟩
  | cons call calls ih =>
    cases call with
    | push event => exact (ih (h.push event)).trans (and_iff_right trivial).symm
    | pop =>
      by_cases hsize : q.size ≤ 1
      · obtain ⟨hrest, hfirst⟩ := h.pop hsize
        refine Iff.trans ?_ ((ih hrest).trans (and_iff_right hsize).symm)
        constructor
        · exact fun heq => (List.cons.inj heq).2
        · exact fun heq => congrArg₂ List.cons hfirst heq
      · constructor
        · exact fun heq => absurd (List.cons.inj heq).1 (h.pop_ne hsize)
        · exact fun hok => absurd hok.1 hsize

end Represents

end Fifo

/-- The pops of a sequence of calls on a fresh queue are those of the bounded FIFO iff each of
them finds at most one event. -/
theorem pops_in_order_iff (capacity : UInt32) (malloced : ℕ → ℕ × α)
    (calls : List (EventCall α)) :
    (createEventQueue capacity malloced).pops (stamp 0 calls) =
        fifoPops (BoundedFifo.empty (ℕ × α) capacity.toNat) (stamp 0 calls) ↔
      Along EventQueue.AtMostOne EventQueue.after (createEventQueue capacity malloced)
        (stamp 0 calls) :=
  (Represents.create capacity malloced).pops_eq_iff calls

end Queue

/-! ## One notification of the main loop -/

/-- A hardware notification: the interrupts it carries, each with what its handler reads. The
handler of the serial port pushes no event. -/
structure Notification where
  timer : Bool
  mouse : Option Reading
  keyboard : Option KeyReading

/-- The globals of the main loop that an iteration carries to the next one. -/
structure EventLoop where
  mouse : MouseState
  eventQueue : EventQueue Event

/-- The main loop before its first notification. -/
def EventLoop.start (malloced : ℕ → Event) : EventLoop where
  mouse := MouseState.initial
  eventQueue := createEventQueue 100 malloced

/-- The events a notification pushes, in the order in which they are pushed. -/
def arrived (mouse : MouseState) (n : Notification) : List Event :=
  (if n.timer then [.newFrame] else []) ++
    ((n.mouse.bind fun r => (mouseInterrupt r mouse).1).toList.map .mouse ++
      ((n.keyboard.bind keyboardIntHandler).filter (· ≠ twoBytes)).toList.map .keyboard)

/-- `while (!eventQueueIsEmpty(eventQueue)) popEvent(eventQueue)`: the events, in the order in
which they are handled. A queue of `n` events is empty after `n` rounds. -/
def drain {α : Type*} : ℕ → EventQueue α → List α × EventQueue α
  | 0, q => ([], q)
  | n + 1, q =>
    if eventQueueIsEmpty q then ([], q)
    else
      let (event, q) := popEvent q
      let (events, q) := drain n q
      (event.toList ++ events, q)

/-- One iteration of `proj_main_loop`: the events it handles, in order. -/
def mainIteration (s : EventLoop) (n : Notification) : List Event × EventLoop :=
  let eventQueue := (arrived s.mouse n).foldl pushEvent s.eventQueue
  let (handled, eventQueue) := drain eventQueue.size eventQueue
  (handled, ⟨(n.mouse.map fun r => (mouseInterrupt r s.mouse).2).getD s.mouse, eventQueue⟩)

/-- For every iteration, the events its notification pushed and the events it handled. -/
def iterations (s : EventLoop) (ns : List Notification) : List (List Event × List Event) :=
  outputs (fun s n => [(arrived s.mouse n, (mainIteration s n).1)])
    (fun s n => (mainIteration s n).2) s ns

theorem stored_pushes {α : Type*} {q : EventQueue α} (h : q.WellFormed) {events : List α}
    (hroom : q.size + events.length ≤ q.capacity) :
    (events.foldl pushEvent q).stored = q.stored ++ events ∧
      (events.foldl pushEvent q).WellFormed ∧
      (events.foldl pushEvent q).capacity = q.capacity := by
  induction events generalizing q with
  | nil => exact ⟨(List.append_nil _).symm, h, rfl⟩
  | cons event events ih =>
    obtain ⟨hwf, hcap⟩ := h.push event
    have hstored := h.stored_push event
    rw [List.length_cons] at hroom
    rw [if_pos (by rw [EventQueue.length_stored]; omega)] at hstored
    have hsize : (pushEvent q event).size = q.size + 1 := by
      rw [← EventQueue.length_stored, hstored]
      simp
    obtain ⟨hs, hw, hc⟩ := ih hwf (by omega)
    exact ⟨by simpa [hstored] using hs, hw, hc.trans hcap⟩

/-- Draining handles the event that was pushed last first. -/
theorem drain_eq {α : Type*} {q : EventQueue α} (h : q.WellFormed) {n : ℕ} (hn : q.size = n) :
    (drain n q).1 = q.stored.reverse ∧ (drain n q).2.size = 0 ∧
      (drain n q).2.capacity = q.capacity := by
  induction n generalizing q with
  | zero => exact ⟨by simp [EventQueue.stored, hn, drain], hn, rfl⟩
  | succ n ih =>
    obtain ⟨hlast, hrest⟩ := EventQueue.popEvent_eq q
    obtain ⟨hwf, hcap⟩ := h.pop
    have hempty : eventQueueIsEmpty q = false := by simp [eventQueueIsEmpty, hn]
    have hsize : (popEvent q).2.size = n := by
      rw [← EventQueue.length_stored, hrest, List.length_dropLast, EventQueue.length_stored, hn]
      rfl
    obtain ⟨hevents, hzero, hcapacity⟩ := ih hwf hsize
    have hne : q.stored ≠ [] := by
      rw [← List.length_pos_iff, EventQueue.length_stored]
      omega
    simp only [drain, hempty, Bool.false_eq_true, if_false]
    refine ⟨?_, hzero, hcapacity.trans hcap⟩
    rw [hevents, hrest, hlast, List.getLast?_eq_some_getLast hne]
    conv_rhs => rw [← List.dropLast_append_getLast hne]
    simp

theorem length_arrived_le (mouse : MouseState) (n : Notification) :
    (arrived mouse n).length ≤ 3 := by
  unfold arrived
  generalize (n.mouse.bind fun r => (mouseInterrupt r mouse).1) = packet
  generalize (n.keyboard.bind keyboardIntHandler).filter (· ≠ twoBytes) = scanCode
  cases n.timer <;> cases packet <;> cases scanCode <;> simp

/-- A notification pushes at most one event of each kind. -/
theorem nodup_arrived (mouse : MouseState) (n : Notification) : (arrived mouse n).Nodup := by
  unfold arrived
  generalize (n.mouse.bind fun r => (mouseInterrupt r mouse).1) = packet
  generalize (n.keyboard.bind keyboardIntHandler).filter (· ≠ twoBytes) = scanCode
  cases n.timer <;> cases packet <;> cases scanCode <;> simp

/-- One notification is handled in the reverse order, and none of its events is dropped. -/
theorem handled_eq_reverse {s : EventLoop} (hempty : s.eventQueue.size = 0)
    (hcap : s.eventQueue.capacity = 100) (n : Notification) :
    (mainIteration s n).1 = (arrived s.mouse n).reverse ∧
      (mainIteration s n).2.eventQueue.size = 0 ∧
      (mainIteration s n).2.eventQueue.capacity = 100 := by
  -- an empty queue of a hundred takes the three events at most of one notification
  have hwf : s.eventQueue.WellFormed := ⟨by omega, by rw [hcap]; decide⟩
  have hlen := length_arrived_le s.mouse n
  obtain ⟨hstored, hwf', hcap'⟩ := stored_pushes hwf
    (show s.eventQueue.size + (arrived s.mouse n).length ≤ s.eventQueue.capacity by omega)
  obtain ⟨hhandled, hsize, hcapacity⟩ := drain_eq hwf' rfl
  have hnil : s.eventQueue.stored = [] := by
    rw [← List.length_eq_zero_iff, EventQueue.length_stored, hempty]
  rw [hstored, hnil, List.nil_append] at hhandled
  exact ⟨hhandled, hsize, by rw [hcap', hcap] at hcapacity; exact hcapacity⟩

/-- A list without repetitions is its own reverse only when it is short. -/
theorem reverse_eq_self_iff {α : Type*} {l : List α} (h : l.Nodup) :
    l.reverse = l ↔ l.length ≤ 1 := by
  rcases l with _ | ⟨a, _ | ⟨b, rest⟩⟩
  · simp
  · simp
  · refine iff_of_false (fun heq => ?_) (by simp)
    have hlast : (b :: rest).getLast (by simp) = a := by
      have := congrArg List.head? heq
      rw [List.head?_reverse, List.head?_cons, List.getLast?_cons_cons,
        List.getLast?_eq_some_getLast (by simp)] at this
      exact Option.some.inj this
    exact (List.nodup_cons.mp h).1 (hlast ▸ List.getLast_mem _)

theorem handled_in_order_iff {s : EventLoop} (hempty : s.eventQueue.size = 0)
    (hcap : s.eventQueue.capacity = 100) (ns : List Notification) :
    (∀ it ∈ iterations s ns, it.2 = it.1) ↔ ∀ it ∈ iterations s ns, it.1.length ≤ 1 := by
  refine forall₂_congr fun it hit => ?_
  obtain ⟨s', n, rfl, hempty', hcap'⟩ : ∃ s' n,
      it = (arrived s'.mouse n, (mainIteration s' n).1) ∧ s'.eventQueue.size = 0 ∧
        s'.eventQueue.capacity = 100 := by
    -- every iteration begins with an empty queue again
    induction ns generalizing s with
    | nil => exact absurd hit List.not_mem_nil
    | cons n ns ih =>
      obtain ⟨-, hempty', hcap'⟩ := handled_eq_reverse hempty hcap n
      rcases List.mem_append.mp hit with hit | hit
      · exact ⟨s, n, List.mem_singleton.mp hit, hempty, hcap⟩
      · exact ih hempty' hcap' hit
  rw [(handled_eq_reverse hempty' hcap' n).1]
  exact reverse_eq_self_iff (nodup_arrived s'.mouse n)

/-- **Events are handled in the order of their arrival** exactly as far as no two of them wait
together: the pops of a sequence of calls are those of a bounded FIFO iff each of them finds at
most one event, and the main loop handles the events of all notifications in order iff every
notification pushes at most one. -/
theorem events_in_order (α : Type*) :
    (∀ (capacity : UInt32) (malloced : ℕ → ℕ × α) (calls : List (EventCall α)),
      (createEventQueue capacity malloced).pops (stamp 0 calls) =
          fifoPops (BoundedFifo.empty (ℕ × α) capacity.toNat) (stamp 0 calls) ↔
        Along EventQueue.AtMostOne EventQueue.after (createEventQueue capacity malloced)
          (stamp 0 calls)) ∧
    ∀ (malloced : ℕ → Event) (ns : List Notification),
      (∀ it ∈ iterations (EventLoop.start malloced) ns, it.2 = it.1) ↔
        ∀ it ∈ iterations (EventLoop.start malloced) ns, it.1.length ≤ 1 := by
  constructor
  · intro capacity malloced calls
    exact pops_in_order_iff capacity malloced calls
  · intro malloced ns
    exact handled_in_order_iff rfl rfl ns

/-- Two events wait together: the second one comes out first, and a frame and a key of one
notification are handled as a key and a frame. -/
theorem events_out_of_order :
    (createEventQueue 100 fun _ => (0, false)).pops
        (stamp 0 [.push true, .push false, .pop, .pop]) ≠
      fifoPops (BoundedFifo.empty (ℕ × Bool) 100)
        (stamp 0 [.push true, .push false, .pop, .pop]) ∧
    iterations (EventLoop.start fun _ => .newFrame) [⟨true, none, some ⟨some 1, some 0x1e⟩⟩] =
      [([.newFrame, .keyboard 0x1e], [.keyboard 0x1e, .newFrame])] := by
  constructor
  · decide
  · rfl

end LCChess
