import Rumprun.Xen.WaitWakeups
import Rumprun.Xen.XenbusIds

/-! # Every request has an id of its own, and gets its own reply

The slots of `req_info[]` that are in use are those of the requests that are alive. A request goes from
its writer to the store, to the ring and to its queue, and is in one of these at a time. Who waits on
`req_wq` is woken where the full table gets a free slot, and later slots find nobody asleep. -/

namespace Rumprun.Xen
open Core Scheduler StepRuns Function SlotTable ReqTable List

/-- The part of a request that stays the same as long as it lives. -/
structure Ticket where
  id : Nat
  serial : Nat
  queue : EventQueue
  deriving DecidableEq

def LiveRequest.ticket (r : LiveRequest) : Ticket :=
  { id := r.id, serial := r.serial, queue := r.queue }

def BufUse.ticket : BufUse → Option Ticket
  | .live r => some r.ticket
  | _ => none

def EventQueue.Fits : EventQueue → EventBuf → Prop
  | .stack t, buf => buf = .stack t
  | .device _, buf => ∃ a, buf = .device a

/-! ## The table -/

structure Slots (table : ReqTable) (tickets : EventBuf → Option Ticket) : Prop where
  filled : ∀ b ticket, tickets b = some ticket → ticket.id < nrReqs ∧
    table.replyQueue ticket.id = some ticket.queue ∧ table.forQueue ticket.id = b
  used : ∀ id, table.replyQueue id ≠ none → ∃ ticket, tickets (table.forQueue id) = some ticket ∧
    ticket.id = id
  counted : table.nrLiveReqs = (SlotTable.inUse table.replyQueue nrReqs).card
  probe : table.probe < nrReqs

namespace Slots
variable {table : ReqTable} {tickets : EventBuf → Option Ticket} {b b' : EventBuf}
  {ticket ticket' : Ticket}
variable (slots : Slots table tickets)
include slots

theorem distinct (is : tickets b = some ticket) (is' : tickets b' = some ticket')
    (same : ticket.id = ticket'.id) : b = b' := by
  rw [← (slots.filled b ticket is).2.2, ← (slots.filled b' ticket' is').2.2, same]

theorem le : table.nrLiveReqs ≤ nrReqs := by
  rw [slots.counted]
  exact_mod_cast card_inUse_le table.replyQueue nrReqs

theorem take (ticket : Ticket) (new : tickets b = none) (free : table.replyQueue ticket.id = none)
    (within : ticket.id < nrReqs) :
    Slots (table.taken ticket.id ticket.queue b) (update tickets b (some ticket)) := by
  have taken {id : Nat} (used : table.replyQueue id ≠ none) : id ≠ ticket.id := by
    rintro rfl
    exact used free
  constructor
  · intro c other is
    rcases of_fill is with ⟨rfl, rfl⟩ | ⟨-, is⟩
    · exact ⟨within, update_self .., update_self ..⟩
    · obtain ⟨less, queue, at_⟩ := slots.filled c other is
      have ne := taken (show table.replyQueue other.id ≠ none by rw [queue]; simp)
      exact ⟨less, (update_of_ne ne ..).trans queue, (update_of_ne ne ..).trans at_⟩
  · intro id used
    by_cases same : id = ticket.id
    · subst same
      refine ⟨ticket, ?_, rfl⟩
      simp [ReqTable.taken]
    · have before : table.replyQueue id ≠ none :=
        fun empty => used ((update_of_ne same ..).trans empty)
      obtain ⟨other, is, number⟩ := slots.used id before
      have ne : table.forQueue id ≠ b := by
        intro here
        rw [here, new] at is
        cases is
      refine ⟨other, ?_, number⟩
      simp only [ReqTable.taken]
      rw [update_of_ne same, update_of_ne ne]
      exact is
  · simp only [ReqTable.taken]
    rw [card_inUse_fill within free, slots.counted]
    exact (Nat.cast_succ _).symm
  · exact Nat.mod_lt _ (by decide)

theorem release (is : tickets b = some ticket) :
    Slots (table.released ticket.id) (update tickets b none) := by
  obtain ⟨within, queue, at_⟩ := slots.filled b ticket is
  constructor
  · intro c other is'
    obtain ⟨ne, is'⟩ := of_empty is'
    obtain ⟨less, queue', at_'⟩ := slots.filled c other is'
    have apart : other.id ≠ ticket.id := fun same => ne (slots.distinct is' is same)
    exact ⟨less, (update_of_ne apart ..).trans queue', at_'⟩
  · intro id used
    have ne : id ≠ ticket.id := by
      rintro rfl
      exact used (update_self ..)
    have before : table.replyQueue id ≠ none :=
      fun empty => used ((update_of_ne ne ..).trans empty)
    obtain ⟨other, is', number⟩ := slots.used id before
    have apart : table.forQueue id ≠ b := by
      intro here
      rw [here, is] at is'
      cases is'
      exact ne number.symm
    exact ⟨other, (update_of_ne apart ..).trans is', number⟩
  · have card := card_inUse_empty within (show table.replyQueue ticket.id ≠ none by
      rw [queue]; simp)
    simp only [released]
    rw [slots.counted, ← card]
    omega
  · exact slots.probe

theorem search (room : table.nrLiveReqs < nrReqs) :
    ∃ id, search table.replyQueue nrReqs table.probe nrReqs table.probe = some id ∧
      id < nrReqs ∧ table.replyQueue id = none := by
  rw [slots.counted] at room
  exact search_finds slots.probe (by exact_mod_cast room)

end Slots

theorem nodup_snoc {α β : Type} {f : α → β} {l : List α} {x : α} (nodup : (l.map f).Nodup)
    (fresh : ∀ y ∈ l, f y ≠ f x) : ((l ++ [x]).map f).Nodup := by
  rw [map_append]
  refine nodup_append_comm.mpr (List.Nodup.cons ?_ nodup)
  intro mem
  obtain ⟨y, was, same⟩ := mem_map.mp mem
  exact fresh y was same

/-! ## The numbers of the requests -/

structure Numbers (tickets : EventBuf → Option Ticket) (serials : Nat) (xbId : Addr → Nat × Nat)
    (received : List Receipt) (answered : List StoreReply) : Prop where
  live : ∀ b ticket, tickets b = some ticket → ticket.serial < serials ∧
    ∀ e ∈ received, e.serial ≠ ticket.serial
  once : ∀ b b' ticket ticket', tickets b = some ticket → tickets b' = some ticket' →
    ticket.serial = ticket'.serial → b = b'
  devices : ∀ a ticket, tickets (.device a) = some ticket → xbId a = (ticket.id, ticket.serial)
  queues : ∀ b ticket, tickets b = some ticket → ticket.queue.Fits b
  got : ∀ e ∈ received, e.reply.reqId = e.id ∧ e.reply.serial = e.serial ∧ e.reply ∈ answered ∧
    e.serial < serials
  nodup : (received.map Receipt.serial).Nodup

namespace Numbers
variable {tickets : EventBuf → Option Ticket} {serials : Nat} {xbId : Addr → Nat × Nat}
  {received : List Receipt} {answered : List StoreReply} {b : EventBuf} {ticket : Ticket}
variable (numbers : Numbers tickets serials xbId received answered)
include numbers

theorem answer (reply : StoreReply) : Numbers tickets serials xbId received (answered ++ [reply]) :=
  { numbers with
    got := by
      intro e mem
      obtain ⟨id, serial, was, less⟩ := numbers.got e mem
      exact ⟨id, serial, mem_append_left _ was, less⟩ }

theorem take (ticket : Ticket) (number : ticket.serial = serials) (fits : ticket.queue.Fits b) :
    Numbers (update tickets b (some ticket)) (serials + 1)
      (setXbId xbId b (ticket.id, ticket.serial)) received answered := by
  constructor
  · intro c other is
    rcases of_fill is with ⟨rfl, rfl⟩ | ⟨-, is⟩
    · refine ⟨by omega, ?_⟩
      intro e mem
      have less := (numbers.got e mem).2.2.2
      omega
    · obtain ⟨less, apart⟩ := numbers.live c other is
      exact ⟨by omega, apart⟩
  · intro c c' other other' is is' same
    rcases of_fill is with ⟨rfl, rfl⟩ | ⟨-, old⟩
    · rcases of_fill is' with ⟨rfl, rfl⟩ | ⟨-, old'⟩
      · rfl
      · have less := (numbers.live c' other' old').1
        omega
    · rcases of_fill is' with ⟨rfl, rfl⟩ | ⟨-, old'⟩
      · have less := (numbers.live c other old).1
        omega
      · exact numbers.once c c' other other' old old' same
  · intro a other is
    rcases of_fill is with ⟨rfl, rfl⟩ | ⟨ne, is⟩
    · exact update_self ..
    · have before := numbers.devices a other is
      cases b with
      | stack t => exact before
      | device a' =>
        have apart : a ≠ a' := fun same => ne (congrArg _ same)
        exact (update_of_ne apart ..).trans before
  · intro c other is
    rcases of_fill is with ⟨rfl, rfl⟩ | ⟨-, is⟩
    · exact fits
    · exact numbers.queues c other is
  · intro e mem
    obtain ⟨id, serial, was, less⟩ := numbers.got e mem
    exact ⟨id, serial, was, by omega⟩
  · exact numbers.nodup

theorem receive (is : tickets b = some ticket) {rep : StoreReply} (id : rep.reqId = ticket.id)
    (serial : rep.serial = ticket.serial) (was : rep ∈ answered) :
    Numbers (update tickets b none) serials xbId
      (received ++ [{ id := ticket.id, serial := ticket.serial, reply := rep }]) answered := by
  obtain ⟨less, fresh⟩ := numbers.live b ticket is
  constructor
  · intro c other is'
    obtain ⟨ne, is'⟩ := of_empty is'
    obtain ⟨less', apart⟩ := numbers.live c other is'
    refine ⟨less', ?_⟩
    intro e mem
    rcases mem_append.mp mem with old | new
    · exact apart e old
    · rw [mem_singleton.mp new]
      exact fun same => ne (numbers.once c b other ticket is' is same.symm)
  · intro c c' other other' is' is''
    exact numbers.once c c' other other' (of_empty is').2 (of_empty is'').2
  · intro a other is'
    exact numbers.devices a other (of_empty is').2
  · intro c other is'
    exact numbers.queues c other (of_empty is').2
  · intro e mem
    rcases mem_append.mp mem with old | new
    · exact numbers.got e old
    · rw [mem_singleton.mp new]
      exact ⟨id, serial, was, less⟩
  · apply nodup_snoc numbers.nodup
    intro e mem
    exact fresh e mem

end Numbers

/-! ## Where the requests are -/

/-- Of all that is on its way to the requesters. -/
structure Messages (uses : EventBuf → BufUse) (unanswered : List (Nat × Nat)) (ring : List StoreReply)
    (events : EventQueue → List EventBuf) (reply : EventBuf → Option StoreReply)
    (answered : List StoreReply) : Prop where
  asked : ∀ m ∈ unanswered, ∃ b q,
    uses b = .live { id := m.1, serial := m.2, queue := q, place := .unanswered }
  asked_nodup : (unanswered.map Prod.fst).Nodup
  sent : ∀ rep ∈ ring, rep ∈ answered ∧ ∃ b q,
    uses b = .live { id := rep.reqId, serial := rep.serial, queue := q, place := .ring rep }
  sent_nodup : (ring.map StoreReply.reqId).Nodup
  queued : ∀ q, ∀ b ∈ events q, ∃ rep, rep ∈ answered ∧ reply b = some rep ∧
    uses b = .live { id := rep.reqId, serial := rep.serial, queue := q, place := .queued rep }
  queued_nodup : ∀ q, (events q).Nodup

/-- The request is not on its way. -/
def BufUse.Apart : BufUse → Prop
  | .live r => ∃ t, r.place = .writing t
  | _ => True

def Distinct (uses : EventBuf → BufUse) : Prop :=
  ∀ b b' r r', uses b = .live r → uses b' = .live r' → r.id = r'.id → b = b'

namespace Messages
variable {uses : EventBuf → BufUse} {unanswered : List (Nat × Nat)} {ring : List StoreReply}
  {events : EventQueue → List EventBuf} {reply : EventBuf → Option StoreReply}
  {answered : List StoreReply} {b : EventBuf} {queue : EventQueue} {rest : List EventBuf}
variable (messages : Messages uses unanswered ring events reply answered)
include messages

theorem shrink {unanswered' : List (Nat × Nat)} {ring' : List StoreReply}
    {events' : EventQueue → List EventBuf} {answered' : List StoreReply}
    (asked : unanswered'.Sublist unanswered) (sent : ring'.Sublist ring)
    (queued : ∀ q, (events' q).Sublist (events q)) (more : answered ⊆ answered') :
    Messages uses unanswered' ring' events' reply answered' where
  asked := fun m mem => messages.asked m (asked.subset mem)
  asked_nodup := messages.asked_nodup.sublist (asked.map _)
  sent := fun rep mem => (messages.sent rep (sent.subset mem)).imp_left (@more rep)
  sent_nodup := messages.sent_nodup.sublist (sent.map _)
  queued := by
    intro q c mem
    obtain ⟨rep, was, is⟩ := messages.queued q c ((queued q).subset mem)
    exact ⟨rep, more was, is⟩
  queued_nodup := fun q => (messages.queued_nodup q).sublist (queued q)

theorem unqueued {r : LiveRequest} (is : uses b = .live r) (away : ∀ rep, r.place ≠ .queued rep)
    (q : EventQueue) : b ∉ events q := by
  intro mem
  obtain ⟨rep, -, -, is'⟩ := messages.queued q b mem
  rw [is] at is'
  cases is'
  exact away rep rfl

/-- Nothing of the request at `b` is on its way. -/
theorem replace (taken : ∀ r, uses b = .live r →
      (r.place = .unanswered → (r.id, r.serial) ∉ unanswered) ∧
      (∀ rep, r.place = .ring rep → rep ∉ ring) ∧ ∀ q, b ∉ events q)
    (use : BufUse) (value : Option StoreReply) :
    Messages (update uses b use) unanswered ring events (update reply b value) answered :=
  { messages with
    asked := by
      intro m mem
      obtain ⟨c, q, is⟩ := messages.asked m mem
      have ne : c ≠ b := by
        rintro rfl
        exact (taken _ is).1 rfl mem
      exact ⟨c, q, (update_of_ne ne ..).trans is⟩
    sent := by
      intro rep mem
      obtain ⟨was, c, q, is⟩ := messages.sent rep mem
      have ne : c ≠ b := by
        rintro rfl
        exact (taken _ is).2.1 rep rfl mem
      exact ⟨was, c, q, (update_of_ne ne ..).trans is⟩
    queued := by
      intro q c mem
      obtain ⟨rep, was, at_, is⟩ := messages.queued q c mem
      have ne : c ≠ b := by
        rintro rfl
        exact (taken _ is).2.2 q mem
      exact ⟨rep, was, (update_of_ne ne ..).trans at_, (update_of_ne ne ..).trans is⟩ }

theorem revise (apart : (uses b).Apart) (use : BufUse) :
    Messages (update uses b use) unanswered ring events reply answered := by
  have moved := messages.replace (b := b) ?_ use (reply b)
  · rwa [update_eq_self] at moved
  · intro r is
    rw [is] at apart
    obtain ⟨t, writing⟩ := apart
    refine ⟨by simp [writing], by simp [writing], messages.unqueued is (by simp [writing])⟩

theorem write (distinct : Distinct uses) {t : Tid} {id serial : Nat}
    (is : uses b = .live { id := id, serial := serial, queue := queue, place := .writing t }) :
    Messages
      (update uses b
        (.live { id := id, serial := serial, queue := queue, place := .unanswered }))
      (unanswered ++ [(id, serial)]) ring events reply answered := by
  have apart : (uses b).Apart := by
    rw [is]
    exact ⟨t, rfl⟩
  have moved := messages.revise apart
    (.live { id := id, serial := serial, queue := queue, place := .unanswered })
  refine { moved with asked := ?_, asked_nodup := nodup_snoc messages.asked_nodup ?_ }
  · intro m mem
    rcases mem_append.mp mem with old | new
    · exact moved.asked m old
    · rw [mem_singleton.mp new]
      exact ⟨b, queue, update_self ..⟩
  · -- Another request with this id would be this one, which was not sent yet.
    intro m was same
    obtain ⟨c, q, is'⟩ := messages.asked m was
    obtain rfl := distinct c b _ _ is' is same
    rw [is] at is'
    cases is'

theorem answer (distinct : Distinct uses) {m : Nat × Nat}
    (is : uses b = .live { id := m.1, serial := m.2, queue := queue, place := .unanswered })
    (rep : StoreReply) (id : rep.reqId = m.1) (serial : rep.serial = m.2) :
    Messages
      (update uses b (.live { id := m.1, serial := m.2, queue := queue, place := .ring rep }))
      (unanswered.erase m) (ring ++ [rep]) events reply (answered ++ [rep]) := by
  have erased : Messages uses (unanswered.erase m) ring events reply (answered ++ [rep]) :=
    messages.shrink erase_sublist (.refl ring) (fun _ => .refl _) (subset_append_left _ _)
  have moved := erased.replace (b := b) ?_
    (.live { id := m.1, serial := m.2, queue := queue, place := .ring rep }) (reply b)
  · rw [update_eq_self] at moved
    refine { moved with sent := ?_, sent_nodup := nodup_snoc messages.sent_nodup ?_ }
    · intro rep' mem'
      rcases mem_append.mp mem' with old | new
      · exact moved.sent rep' old
      · rw [mem_singleton.mp new, id, serial]
        exact ⟨mem_append_right _ (mem_singleton.mpr rfl), b, queue, update_self ..⟩
    · intro rep' was same
      obtain ⟨-, c, q, is'⟩ := messages.sent rep' was
      obtain rfl := distinct c b _ _ is' is (same.trans id)
      simp [is] at is'
  · intro r is'
    have unqueued := messages.unqueued is (by simp)
    rw [is] at is'
    cases is'
    refine ⟨?_, by simp, unqueued⟩
    exact fun _ mem => (messages.asked_nodup.of_map.mem_erase_iff.mp mem).1 rfl

omit messages in
theorem deliver {rep : StoreReply} {rest : List StoreReply}
    (messages : Messages uses unanswered (rep :: rest) events reply answered)
    (is : uses b = .live { id := rep.reqId, serial := rep.serial, queue := queue, place := .ring rep })
    :
    Messages
      (update uses b
        (.live { id := rep.reqId, serial := rep.serial, queue := queue, place := .queued rep }))
      unanswered rest (update events queue (events queue ++ [b]))
      (update reply b (some rep)) answered := by
  have unqueued := messages.unqueued is (by simp)
  have tail := messages.shrink (.refl _) (sublist_cons_self rep rest) (fun _ => .refl _)
    (List.Subset.refl _)
  have moved := tail.replace (b := b) ?_
    (.live { id := rep.reqId, serial := rep.serial, queue := queue, place := .queued rep }) (some rep)
  · refine { moved with queued := ?_, queued_nodup := ?_ }
    · intro q c mem
      by_cases same : q = queue
      · rw [same, update_self] at mem
        rw [same]
        rcases mem_append.mp mem with before | new
        · exact moved.queued queue c before
        · rw [mem_singleton.mp new]
          exact ⟨rep, (messages.sent rep mem_cons_self).1, update_self .., update_self ..⟩
      · rw [update_of_ne same] at mem
        exact moved.queued q c mem
    · refine (forall_update_iff events fun _ l => l.Nodup).mpr ⟨?_, fun q _ => messages.queued_nodup q⟩
      exact nodup_append_comm.mpr (List.Nodup.cons (unqueued queue) (messages.queued_nodup queue))
  · intro r is'
    rw [is] at is'
    cases is'
    refine ⟨by simp, ?_, unqueued⟩
    rintro _ ⟨⟩ mem
    exact (nodup_cons.mp messages.sent_nodup).1 (mem_map_of_mem mem)

theorem popped (first : events queue = b :: rest) :
    Messages uses unanswered ring (update events queue rest) reply answered :=
  messages.shrink (.refl _) (.refl _)
    ((forall_update_iff events fun q l => l.Sublist (events q)).mpr
      ⟨by rw [first]; exact sublist_cons_self b rest, fun _ _ => .refl _⟩) (List.Subset.refl _)

theorem receive (first : events queue = b :: rest) :
    Messages (update uses b .free) unanswered ring (update events queue rest) reply answered := by
  obtain ⟨rep, -, -, is⟩ := messages.queued queue b (by simp [first])
  have nodup := messages.queued_nodup queue
  rw [first, nodup_cons] at nodup
  have moved := (messages.popped first).replace (b := b) ?_ .free (reply b)
  · rwa [update_eq_self] at moved
  · intro r is'
    rw [is] at is'
    cases is'
    refine ⟨by simp, by simp, ?_⟩
    intro q mem
    by_cases same : q = queue
    · rw [same, update_self] at mem
      exact nodup.1 mem
    · rw [update_of_ne same] at mem
      obtain ⟨rep', -, -, is'⟩ := messages.queued q b mem
      rw [is, BufUse.live.injEq, LiveRequest.mk.injEq] at is'
      exact same is'.2.2.1.symm

end Messages

/-- A reply of the store is in the ring, in a queue, or received. -/
def Kept (answered ring : List StoreReply) (events : EventQueue → List EventBuf)
    (reply : EventBuf → Option StoreReply) (received : List Receipt) : Prop :=
  ∀ rep ∈ answered, rep ∈ ring ∨ (∃ q, ∃ b ∈ events q, reply b = some rep) ∨
    ∃ e ∈ received, e.reply = rep

namespace Kept
variable {answered ring : List StoreReply} {events : EventQueue → List EventBuf}
  {reply : EventBuf → Option StoreReply} {received : List Receipt} {b : EventBuf}
  {queue : EventQueue} {rep : StoreReply}

theorem answer (kept : Kept answered ring events reply received) (rep : StoreReply) :
    Kept (answered ++ [rep]) (ring ++ [rep]) events reply received := by
  intro other mem
  rcases mem_append.mp mem with old | new
  · exact (kept other old).imp_left (mem_append_left _)
  · exact .inl (mem_append_right _ new)

theorem deliver {rest : List StoreReply} (kept : Kept answered (rep :: rest) events reply received)
    (apart : ∀ q, b ∉ events q) :
    Kept answered rest (update events queue (events queue ++ [b])) (update reply b (some rep))
      received := by
  intro other mem
  rcases kept other mem with sent | ⟨q, c, queued, value⟩ | got
  · rcases mem_cons.mp sent with rfl | later
    · exact .inr (.inl ⟨queue, b, by simp, update_self ..⟩)
    · exact .inl later
  · have ne : c ≠ b := fun same => apart q (same ▸ queued)
    refine .inr (.inl ⟨q, c, ?_, (update_of_ne ne ..).trans value⟩)
    by_cases same : q = queue
    · subst same
      simp [queued]
    · rwa [update_of_ne same]
  · exact .inr (.inr got)

theorem receive {rest : List EventBuf} (kept : Kept answered ring events reply received)
    (first : events queue = b :: rest) (value : reply b = some rep) (id serial : Nat) :
    Kept answered ring (update events queue rest) reply
      (received ++ [{ id := id, serial := serial, reply := rep }]) := by
  intro other mem
  rcases kept other mem with sent | ⟨q, c, queued, is⟩ | ⟨e, was, same⟩
  · exact .inl sent
  · by_cases here : q = queue
    · subst here
      rcases mem_cons.mp (first ▸ queued) with rfl | later
      · have same : rep = other := Option.some.inj (value.symm.trans is)
        exact .inr (.inr ⟨_, mem_append_right _ (mem_singleton.mpr rfl), same⟩)
      · exact .inr (.inl ⟨q, c, by simpa using later, is⟩)
    · exact .inr (.inl ⟨q, c, by rwa [update_of_ne here], is⟩)
  · exact .inr (.inr ⟨e, mem_append_left _ was, same⟩)

end Kept

/-! ## Where the threads are -/

/-- A thread in `xenbus_msg_reply` has what is on its own stack. -/
def PairFits (uses : EventBuf → BufUse) (t : Tid) (queue : EventQueue) (buf : EventBuf) : Prop :=
  queue = .stack t ∧ buf = .stack t ∨
    ∃ d a, queue = .device d ∧ buf = .device a ∧ uses (.stack t) = .free

def StageFits (uses : EventBuf → BufUse) (t : Tid) : RequestStage → Prop
  | .outside => uses (.stack t) = .free
  | .allocating queue buf => uses buf = .allocating t ∧ PairFits uses t queue buf
  | .writing queue buf id serial =>
    uses buf = .live { id := id, serial := serial, queue := queue, place := .writing t } ∧
      PairFits uses t queue buf
  | .awaiting id serial => ∃ place, (∀ u, place ≠ .writing u) ∧
      uses (.stack t) = .live { id := id, serial := serial, queue := .stack t, place := place }

section Stages
variable {uses : EventBuf → BufUse} {t : Tid} {queue : EventQueue} {b buf : EventBuf}
  {stage : RequestStage}

theorem PairFits.fits (pair : PairFits uses t queue buf) : queue.Fits buf := by
  rcases pair with ⟨rfl, rfl⟩ | ⟨d, a, rfl, rfl, -⟩
  · rfl
  · exact ⟨a, rfl⟩

theorem PairFits.revise {use : BufUse} (pair : PairFits uses t queue buf) (ne : b ≠ .stack t) :
    PairFits (update uses b use) t queue buf := by
  rcases pair with own | ⟨d, a, first, second, free⟩
  · exact .inl own
  · exact .inr ⟨d, a, first, second, (update_of_ne ne.symm ..).trans free⟩

theorem StageFits.other {use : BufUse} (fits : StageFits uses t stage) (notOwn : b ≠ .stack t)
    (notAllocating : uses b ≠ .allocating t) (notWriting : ∀ r, uses b = .live r → r.place ≠ .writing t) :
    StageFits (update uses b use) t stage := by
  cases stage with
  | outside => exact (update_of_ne notOwn.symm ..).trans fits
  | allocating queue buf =>
    have ne : buf ≠ b := by
      rintro rfl
      exact notAllocating fits.1
    exact ⟨(update_of_ne ne ..).trans fits.1, fits.2.revise notOwn⟩
  | writing queue buf id serial =>
    have ne : buf ≠ b := by
      rintro rfl
      exact notWriting _ fits.1 rfl
    exact ⟨(update_of_ne ne ..).trans fits.1, fits.2.revise notOwn⟩
  | awaiting id serial =>
    obtain ⟨place, away, is⟩ := fits
    exact ⟨place, away, (update_of_ne notOwn.symm ..).trans is⟩

theorem StageFits.moved {r : LiveRequest} {place : RequestPlace} (fits : StageFits uses t stage)
    (is : uses b = .live r) (was : ∀ u, r.place ≠ .writing u) (away : ∀ u, place ≠ .writing u) :
    StageFits (update uses b (.live { r with place := place })) t stage := by
  by_cases own : b = .stack t
  · cases stage with
    | outside =>
      rw [StageFits, ← own, is] at fits
      cases fits
    | allocating queue buf =>
      obtain ⟨here, pair⟩ := fits
      rcases pair with ⟨-, same⟩ | ⟨d, a, -, -, free⟩
      · rw [same, ← own, is] at here
        cases here
      · rw [← own, is] at free
        cases free
    | writing queue buf id serial =>
      obtain ⟨here, pair⟩ := fits
      rcases pair with ⟨-, same⟩ | ⟨d, a, -, -, free⟩
      · rw [same, ← own, is] at here
        cases here
        exact absurd rfl (was t)
      · rw [← own, is] at free
        cases free
    | awaiting id serial =>
      obtain ⟨before, -, is'⟩ := fits
      rw [← own, is] at is'
      cases is'
      refine ⟨place, away, ?_⟩
      rw [own, update_self]
  · apply fits.other own
    · rw [is]
      simp
    · intro r' is'
      rw [is] at is'
      cases is'
      exact was t

end Stages

/-! ## The queue of those who wait for an id -/

namespace EventSys
variable {σ : Type} {ready : σ → Bool} {take : σ → σ} {s next : EventSys σ}

theorem removeWaitQueue_data (removed : s.miniosRemoveWaitQueue = .ok next) : next.data = s.data := by
  unfold miniosRemoveWaitQueue at removed
  split at removed
  · obtain ⟨queue, -, removed⟩ := bind_eq_ok removed
    cases removed
    rfl
  · cases removed
    rfl

theorem go_data (same : ∀ data, take data = data) (ran : s.go ready take = .ok next) :
    next.data = s.data := by
  unfold go at ran
  split at ran
  · cases ran
    rfl
  · obtain ⟨sys, -, ran⟩ := bind_eq_ok ran
    cases ran
    exact (addWaitQueue_frame s).2.1
  · obtain ⟨sys, -, ran⟩ := bind_eq_ok ran
    cases ran
    rfl
  · cases ran
    rfl
  · obtain ⟨m, removed, ran⟩ := bind_eq_ok ran
    cases ran
    have kept := removeWaitQueue_data removed
    exact kept
  · obtain ⟨m, removed, ran⟩ := bind_eq_ok ran
    cases ran
    have kept := removeWaitQueue_data removed
    exact kept
  · split at ran
    · cases ran
      exact same s.data
    · cases ran
      rfl
  · cases ran

theorem sched_data {event : Event} (ran : s.sched event = .ok next) : next.data = s.data := by
  obtain ⟨sys, -, ran⟩ := bind_eq_ok ran
  split at ran
  · cases ran
    rfl
  · cases ran
    rfl

theorem handler_spec (inv : EventInv ready s) (outside : s.Outside) (f : σ → σ) :
    ∃ after, s.step ready take (.handler f) = .ok after ∧ EventInv ready after ∧
      after.data = f s.data ∧ after.current = s.current := by
  have spared : s.Spares ready (.handler f) := by
    intro window
    rw [outside.2] at window
    cases window
  obtain ⟨after, stepped, inv'⟩ :
      ∃ after, s.step ready take (.handler f) = .ok after ∧ EventInv ready after := inv.handler spared
  obtain ⟨sys, looped, -, -, current, -⟩ := wakeLoop_spec s.queue inv.inv inv.remain
  have is : s.step ready take (.handler f) = .ok { s with data := f s.data, sys := sys } :=
    step_handler f looped
  rw [stepped] at is
  cases is
  exact ⟨_, stepped, inv', rfl, current⟩

end EventSys

/-! ## The whole system -/

namespace IdSys
variable {s : IdSys} {b : EventBuf} {use : BufUse} {queue : EventQueue} {r : LiveRequest}
  {serial n a : Nat}

def tickets (s : IdSys) : EventBuf → Option Ticket := fun b => (s.uses b).ticket

structure IdInv (s : IdSys) : Prop where
  waits : EventInv ReqTable.ready s.ev
  slots : Slots s.table s.tickets
  numbers : Numbers s.tickets s.serials s.xbId s.received s.answered
  messages : Messages s.uses s.unanswered s.ring s.events s.reply s.answered
  kept : Kept s.answered s.ring s.events s.reply s.received
  stages : ∀ t, StageFits s.uses t (s.stage t)

theorem idInv_init {sys : System} (inv : SysInv sys) : (init sys).IdInv where
  waits := EventInv.init inv _
  slots := by
    constructor
    · simp [tickets, init, BufUse.ticket]
    · simp [table, init, EventSys.init]
    · simp [table, init, EventSys.init, inUse]
    · simp [table, init, EventSys.init, nrReqs]
  numbers := by constructor <;> simp [tickets, init, BufUse.ticket]
  messages := by constructor <;> simp [init]
  kept := nofun
  stages := fun _ => rfl

theorem tickets_update : (fun c => (update s.uses b use c).ticket) = update s.tickets b use.ticket := by
  funext c
  by_cases same : c = b
  · rw [same, update_self, update_self]
  · rw [update_of_ne same, update_of_ne same]
    rfl

theorem tickets_same (same : use.ticket = (s.uses b).ticket) :
    (fun c => (update s.uses b use c).ticket) = s.tickets := by
  rw [tickets_update, same]
  exact update_eq_self b s.tickets

section
variable (inv : s.IdInv)
include inv

theorem IdInv.distinct : Distinct s.uses := by
  intro b b' r r' is is' same
  have here : s.tickets b = some r.ticket := by rw [tickets, is]; rfl
  have there : s.tickets b' = some r'.ticket := by rw [tickets, is']; rfl
  exact inv.slots.distinct here there same

theorem IdInv.stages_update {stage : RequestStage}
    (here : StageFits (update s.uses b use) s.current stage)
    (others : ∀ t, t ≠ s.current → b ≠ .stack t ∧ s.uses b ≠ .allocating t ∧
      ∀ r, s.uses b = .live r → r.place ≠ .writing t) (t : Tid) :
    StageFits (update s.uses b use) t (update s.stage s.current stage t) := by
  by_cases same : t = s.current
  · rw [same, update_self]
    exact here
  · rw [update_of_ne same]
    obtain ⟨notOwn, notAllocating, notWriting⟩ := others t same
    exact (inv.stages t).other notOwn notAllocating notWriting

theorem IdInv.evStep {event : WaitEvent ReqTable} (allowed : s.ev.Admits ready event)
    (spared : s.ev.Spares ready event)
    (data : ∀ ev, s.ev.step ready id event = .ok ev → ev.data = s.ev.data) :
    ∃ next, s.evStep event = .ok next ∧ next.IdInv := by
  obtain ⟨ev, stepped, waits⟩ :
      ∃ ev, s.ev.step ready id event = .ok ev ∧ EventInv ready ev :=
    inv.waits.step allowed spared
  refine ⟨{ s with ev := ev }, by rw [IdSys.evStep, stepped]; rfl, ?_⟩
  have slots := inv.slots
  rw [table, ← data ev stepped] at slots
  exact ⟨waits, slots, inv.numbers, inv.messages, inv.kept, inv.stages⟩

theorem IdInv.withUse (same : use.ticket = (s.uses b).ticket) {unanswered : List (Nat × Nat)}
    {ring : List StoreReply} {events : EventQueue → List EventBuf}
    {reply : EventBuf → Option StoreReply} {answered : List StoreReply} {stage : Tid → RequestStage}
    (numbers : Numbers s.tickets s.serials s.xbId s.received answered)
    (messages : Messages (update s.uses b use) unanswered ring events reply answered)
    (kept : Kept answered ring events reply s.received)
    (stages : ∀ t, StageFits (update s.uses b use) t (stage t)) :
    IdInv { s with
      uses := update s.uses b use, unanswered := unanswered, ring := ring, events := events
      reply := reply, answered := answered, stage := stage } := by
  have tickets := tickets_same same
  have slots := inv.slots
  rw [← tickets] at slots numbers
  exact ⟨inv.waits, slots, numbers, messages, kept, stages⟩

theorem IdInv.request (stage : s.stage s.current = .outside) (free : s.uses b = .free)
    (pair : queue = .stack s.current ∧ b = .stack s.current ∨ ∃ d a, queue = .device d ∧ b = .device a)
    : IdInv ((s.setUse b (.allocating s.current)).goto (.allocating queue b)) := by
  have own : s.uses (.stack s.current) = .free := by
    have fits := inv.stages s.current
    rw [stage] at fits
    exact fits
  refine inv.withUse (by rw [free]; rfl) inv.numbers (inv.messages.revise (by rw [free]; trivial) _)
    inv.kept (inv.stages_update ⟨update_self .., ?_⟩ ?_)
  · rcases pair with same | ⟨d, a, rfl, rfl⟩
    · exact .inl same
    · exact .inr ⟨d, a, rfl, rfl, (update_of_ne (by simp) ..).trans own⟩
  · intro t ne
    rw [free]
    refine ⟨?_, by simp, by simp⟩
    rcases pair with ⟨-, rfl⟩ | ⟨d, a, -, rfl⟩
    · intro same
      cases same
      exact ne rfl
    · simp

omit inv in
theorem ne_stack_of_pair (pair : PairFits s.uses s.current queue b) {t : Tid} (ne : t ≠ s.current) :
    b ≠ .stack t := by
  rcases pair with ⟨-, rfl⟩ | ⟨d, a, -, rfl, -⟩
  · intro same
    cases same
    exact ne rfl
  · simp

theorem IdInv.allocate (outside : s.ev.Outside) (stage : s.stage s.current = .allocating queue b) :
    ∃ next, s.xenbusIdAllocate queue b = .ok next ∧ next.IdInv := by
  have fits := inv.stages s.current
  rw [stage] at fits
  obtain ⟨allocating, pair⟩ := fits
  by_cases room : s.table.nrLiveReqs < nrReqs
  · obtain ⟨id, found, within, empty⟩ := inv.slots.search room
    rw [xenbusIdAllocate, if_pos room, found]
    refine ⟨_, rfl, ?_⟩
    have fresh : s.tickets b = none := by
      rw [tickets, allocating]
      rfl
    have less : ready (s.ev.data.taken id queue b) = true → ready s.ev.data = true :=
      fun _ => decide_eq_true room
    have newTickets : (fun c => (update s.uses b
        (.live { id := id, serial := s.serials, queue := queue, place := .writing s.current }) c).ticket) =
          update s.tickets b (some { id := id, serial := s.serials, queue := queue }) :=
      tickets_update
    constructor
    · exact inv.waits.change less
    · have slots := inv.slots.take { id := id, serial := s.serials, queue := queue }
        fresh empty within
      rw [← newTickets] at slots
      exact slots
    · have numbers := inv.numbers.take { id := id, serial := s.serials, queue := queue }
        rfl pair.fits
      rw [← newTickets] at numbers
      exact numbers
    · exact inv.messages.revise (by rw [allocating]; trivial) _
    · exact inv.kept
    · refine inv.stages_update ⟨update_self .., ?_⟩ ?_
      · rcases pair with same | ⟨d, a, rfl, rfl, free⟩
        · exact .inl same
        · exact .inr ⟨d, a, rfl, rfl, (update_of_ne (by simp) ..).trans free⟩
      · intro t ne
        rw [allocating]
        refine ⟨ne_stack_of_pair pair ne, ?_, by simp⟩
        intro same
        cases same
        exact ne rfl
  · rw [xenbusIdAllocate, if_neg room]
    refine inv.evStep outside trivial ?_
    intro ev stepped
    cases stepped
    rfl

omit inv in
theorem moveTo_live (is : s.uses b = .live r) (place : RequestPlace) :
    s.moveTo b place = s.setUse b (.live { r with place := place }) := by
  rw [moveTo, is]

theorem IdInv.write {id : Nat} (stage : s.stage s.current = .writing queue b id serial) :
    (s.xenbusXbWrite b id serial).IdInv := by
  have fits := inv.stages s.current
  rw [stage] at fits
  obtain ⟨is, pair⟩ := fits
  unfold xenbusXbWrite
  rw [moveTo_live is]
  refine inv.withUse (by rw [is]; rfl) inv.numbers (inv.messages.write inv.distinct is)
    inv.kept (inv.stages_update ?_ ?_)
  · rcases pair with ⟨rfl, rfl⟩ | ⟨d, a, rfl, rfl, free⟩
    · exact ⟨.unanswered, by simp, update_self ..⟩
    · exact (update_of_ne (by simp) ..).trans free
  · intro t ne
    rw [is]
    refine ⟨ne_stack_of_pair pair ne, by simp, ?_⟩
    intro r same writing
    cases same
    cases writing
    exact ne rfl

omit inv in
theorem xenbusIdRelease_spec (waits : EventInv ready s.ev) (le : s.table.nrLiveReqs ≤ nrReqs)
    (outside : s.ev.Outside) (used : s.table.replyQueue n ≠ none) :
    ∃ ev, s.xenbusIdRelease n = .ok { s with ev := ev } ∧ EventInv ready ev ∧
      ev.data = s.table.released n ∧ ev.current = s.current := by
  have taken : (s.table.replyQueue n).isSome = true := Option.isSome_iff_ne_none.mpr used
  rw [xenbusIdRelease, miniosAssert, if_pos taken, ok_bind]
  by_cases full : s.table.nrLiveReqs - 1 = nrReqs - 1
  · rw [if_pos full]
    obtain ⟨ev, stepped, waits, data, current⟩ :
        ∃ ev, s.ev.step ready id (.handler (released n)) = .ok ev ∧
          EventInv ready ev ∧ ev.data = (s.ev.data).released n ∧ ev.current = s.ev.current :=
      EventSys.handler_spec waits outside _
    exact ⟨ev, by rw [IdSys.evStep, stepped]; rfl, waits, data, current⟩
  · rw [if_neg full]
    refine ⟨{ s.ev with data := s.ev.data.released n }, rfl, waits.change ?_, rfl, rfl⟩
    intro after
    have less : s.table.nrLiveReqs - 1 < nrReqs := of_decide_eq_true after
    exact decide_eq_true (show s.table.nrLiveReqs < nrReqs by omega)

theorem IdInv.receive (outside : s.ev.Outside) {rest : List EventBuf} {rep : StoreReply}
    (stage : RequestStage) (first : s.events queue = b :: rest)
    (is : s.uses b = .live { id := rep.reqId, serial := rep.serial, queue := queue, place := .queued rep })
    (was : rep ∈ s.answered) (value : s.reply b = some rep)
    (here : StageFits (update s.uses b .free) s.current stage)
    (others : ∀ t, t ≠ s.current → b ≠ .stack t) :
    ∃ ev, { s with events := update s.events queue rest }.xenbusIdRelease rep.reqId =
        .ok { s with events := update s.events queue rest, ev := ev } ∧
      ev.current = s.current ∧
      IdInv { s with
        ev := ev
        events := update s.events queue rest
        uses := update s.uses b .free
        stage := update s.stage s.current stage
        received := s.received ++ [{ id := rep.reqId, serial := rep.serial, reply := rep }] } := by
  have ticket : s.tickets b = some { id := rep.reqId, serial := rep.serial, queue := queue } := by
    rw [tickets, is]
    rfl
  obtain ⟨-, filled, -⟩ := inv.slots.filled b _ ticket
  have used : s.table.replyQueue rep.reqId ≠ none := by
    rw [filled]
    exact Option.some_ne_none queue
  obtain ⟨ev, released, waits, data, current⟩ := xenbusIdRelease_spec
    (s := { s with events := update s.events queue rest }) inv.waits inv.slots.le outside used
  have freed : (fun c => (update s.uses b .free c).ticket) = update s.tickets b none := tickets_update
  refine ⟨ev, released, current, waits, ?_, ?_, inv.messages.receive first,
    inv.kept.receive first value _ _, ?_⟩
  · have slots := inv.slots.release ticket
    rw [← freed] at slots
    have data' : ev.data = s.table.released rep.reqId := data
    show Slots ev.data fun c => _
    rw [data']
    exact slots
  · have numbers := inv.numbers.receive ticket rfl rfl was
    rw [← freed] at numbers
    exact numbers
  · apply inv.stages_update here
    intro t ne
    rw [is]
    refine ⟨others t ne, by simp, ?_⟩
    intro r same
    cases same
    simp

theorem IdInv.awaitEvent (outside : s.ev.Outside) (stage : s.stage s.current = .awaiting n serial) :
    ∃ next, s.awaitEvent n serial = .ok next ∧ next.IdInv := by
  have fits := inv.stages s.current
  rw [stage] at fits
  obtain ⟨place, -, own⟩ := fits
  unfold IdSys.awaitEvent
  cases first : s.events (.stack s.current) with
  | nil => exact ⟨s, rfl, inv⟩
  | cons event rest =>
    obtain ⟨rep, was, at_, is⟩ := inv.messages.queued (.stack s.current) event (by simp [first])
    have ticket : s.tickets event =
        some { id := rep.reqId, serial := rep.serial, queue := .stack s.current } := by
      rw [tickets, is]
      rfl
    obtain rfl : event = .stack s.current := inv.numbers.queues event _ ticket
    obtain ⟨-, -, slot⟩ := inv.slots.filled _ _ ticket
    rw [own] at is
    cases is
    have slot' : s.table.forQueue rep.reqId = .stack s.current := slot
    obtain ⟨ev, released, current, after⟩ :=
      inv.receive outside .outside first own was at_ (update_self ..)
        (by intro t ne same; cases same; exact ne rfl)
    refine ⟨_, ?_, after⟩
    simp only [miniosAssert, decide_true, if_true, ok_bind, slot', at_, released]
    simp only [setUse, goto, IdSys.current, show ev.current = s.ev.current from current]
    rfl

theorem IdInv.processResponse (outside : s.ev.Outside) (stage : s.stage s.current = .outside)
    (d : Nat) : ∃ next, s.processResponse d = .ok next ∧ next.IdInv := by
  have own := inv.stages s.current
  rw [stage] at own
  unfold IdSys.processResponse
  cases first : s.events (.device d) with
  | nil => exact ⟨s, rfl, inv⟩
  | cons event rest =>
    obtain ⟨rep, was, at_, is⟩ := inv.messages.queued (.device d) event (by simp [first])
    have ticket : s.tickets event = some { id := rep.reqId, serial := rep.serial, queue := .device d } := by
      rw [tickets, is]
      rfl
    obtain ⟨a, rfl⟩ : ∃ a, event = .device a := inv.numbers.queues event _ ticket
    have number : s.xbId a = (rep.reqId, rep.serial) := inv.numbers.devices a _ ticket
    obtain ⟨ev, released, current, after⟩ :=
      inv.receive outside .outside first is was at_ ((update_of_ne (by simp) ..).trans own)
        (by simp)
    have same : update s.stage s.current .outside = s.stage := by
      rw [← stage]
      exact update_eq_self _ _
    rw [same] at after
    refine ⟨_, ?_, after⟩
    simp only [at_, number, released, ok_bind]
    rfl

theorem IdInv.forQueue (is : s.uses b = .live r) :
    s.table.forQueue r.id = b ∧ s.table.replyQueue r.id = some r.queue := by
  have ticket : s.tickets b = some r.ticket := by
    rw [tickets, is]
    rfl
  obtain ⟨-, queue, slot⟩ := inv.slots.filled b _ ticket
  exact ⟨slot, queue⟩

theorem IdInv.answer (body : List UInt8) (asked : n ∈ s.unanswered.map Prod.fst) :
    (s.answer n body).IdInv := by
  unfold IdSys.answer
  cases found : s.unanswered.find? fun m => decide (m.1 = n) with
  | none =>
    obtain ⟨m, mem, same⟩ := mem_map.mp asked
    exact absurd (decide_eq_true same) (find?_eq_none.mp found m mem)
  | some m =>
    have same : m.1 = n := by simpa using find?_some found
    subst same
    obtain ⟨b, queue, is⟩ := inv.messages.asked m (mem_of_find?_eq_some found)
    obtain ⟨slot, -⟩ := inv.forQueue is
    have messages := inv.messages.answer inv.distinct is
      { reqId := m.1, serial := m.2, body := body } rfl rfl
    dsimp only
    rw [show s.table.forQueue m.1 = b from slot, moveTo_live is]
    apply inv.withUse (by rw [is]; rfl) (inv.numbers.answer _) messages (inv.kept.answer _)
    intro t
    exact (inv.stages t).moved is (by simp) (by simp)

theorem IdInv.deliver : ∃ next, s.deliver = .ok next ∧ next.IdInv := by
  unfold IdSys.deliver
  cases ring : s.ring with
  | nil => exact ⟨s, rfl, inv⟩
  | cons rep rest =>
    obtain ⟨-, b, queue, is⟩ := inv.messages.sent rep (by simp [ring])
    obtain ⟨slot, taken⟩ := inv.forQueue is
    have messages := inv.messages
    have kept := inv.kept
    rw [ring] at messages kept
    simp only [show s.table.replyQueue rep.reqId = some queue from taken,
      show s.table.forQueue rep.reqId = b from slot]
    rw [moveTo_live is]
    refine ⟨_, rfl, inv.withUse (by rw [is]; rfl) inv.numbers (messages.deliver is)
      (kept.deliver (messages.unqueued is (by simp))) ?_⟩
    intro t
    exact (inv.stages t).moved is (by simp) (by simp)

theorem IdInv.go (outside : s.ev.Outside) : ∃ next, s.go = .ok next ∧ next.IdInv := by
  unfold IdSys.go
  cases stage : s.stage s.current with
  | outside => exact ⟨s, rfl, inv⟩
  | allocating queue buf => exact inv.allocate outside stage
  | writing queue buf id serial => exact ⟨_, rfl, inv.write stage⟩
  | awaiting id serial => exact inv.awaitEvent outside stage

theorem IdInv.sched {event : Event} (allowed : s.ev.Admits ready (.sched event)) :
    ∃ next, s.evStep (.sched event) = .ok next ∧ next.IdInv :=
  inv.evStep allowed trivial fun _ stepped => EventSys.sched_data stepped

theorem IdInv.step {event : IdEvent} (allowed : s.Admits event) :
    ∃ next, s.step event = .ok next ∧ next.IdInv := by
  cases event with
  | msgReply =>
    obtain ⟨-, stage⟩ := allowed
    have own := inv.stages s.current
    rw [stage] at own
    have asks := inv.request stage own (.inl ⟨rfl, rfl⟩)
    -- The thread has no request, so nothing is in the queue on its stack.
    have empty : s.events (.stack s.current) = [] := by
      refine eq_nil_iff_forall_not_mem.mpr fun b mem => ?_
      obtain ⟨rep, -, -, is⟩ := inv.messages.queued _ b mem
      have fits := inv.numbers.queues b _ (show s.tickets b = some _ by rw [tickets, is]; rfl)
      rw [show b = .stack s.current from fits, own] at is
      cases is
    have same : update s.events (.stack s.current) [] = s.events := by
      rw [← empty]
      exact update_eq_self _ _
    exact ⟨_, rfl, by rw [same]; exact asks⟩
  | deviceRequest d a =>
    obtain ⟨-, stage, free⟩ := allowed
    exact ⟨_, rfl, inv.request stage free (.inr ⟨d, a, rfl, rfl⟩)⟩
  | go => exact inv.go allowed.1
  | processResponse d => exact inv.processResponse allowed.1 allowed.2 d
  | answer n body => exact ⟨_, rfl, inv.answer body allowed⟩
  | deliver => exact inv.deliver
  | waitEvent =>
    exact inv.evStep allowed trivial fun _ stepped => EventSys.go_data (fun _ => rfl) stepped
  | sched event =>
    cases event with
    | call op => exact inv.sched allowed.1
    | advance | turn | interrupt | memalloc | memfree => exact inv.sched allowed

end

/-! ## Every run -/

/-- What is said of every state: the ids of the requests that are alive are distinct, and in use in
`req_info[]`, and no other ones are; `nr_live_reqs` is their number; whoever got a reply got the one
to its own request, once; a reply that was made is in the ring, in the queue of its request, or
received; and nobody is blocked on `req_wq` while an id is free. -/
structure IdsRight (s : IdSys) : Prop where
  distinct : ∀ b b' r r', s.uses b = .live r → s.uses b' = .live r' → r.id = r'.id → b = b'
  slots : ∀ id, s.table.replyQueue id ≠ none ↔ ∃ b r, s.uses b = .live r ∧ r.id = id
  counted : s.table.nrLiveReqs = (SlotTable.inUse s.table.replyQueue nrReqs).card
  le : s.table.nrLiveReqs ≤ nrReqs
  received : ∀ e ∈ s.received, e.reply.reqId = e.id ∧ e.reply.serial = e.serial ∧ e.reply ∈ s.answered
  once : (s.received.map Receipt.serial).Nodup
  kept : ∀ rep ∈ s.answered, rep ∈ s.ring ∨
    (∃ b r, s.uses b = .live r ∧ r.id = rep.reqId ∧ r.serial = rep.serial ∧ b ∈ s.events r.queue ∧
      s.reply b = some rep) ∨ ∃ e ∈ s.received, e.reply = rep
  waits : ∀ t, s.ev.Blocked t → s.table.nrLiveReqs = nrReqs

theorem live_of_ticket {ticket : Ticket} (is : s.tickets b = some ticket) :
    ∃ r, s.uses b = .live r ∧ r.id = ticket.id := by
  cases use : s.uses b with
  | free | allocating => simp [tickets, use, BufUse.ticket] at is
  | live r =>
    refine ⟨r, rfl, ?_⟩
    rw [tickets, use] at is
    rw [← Option.some.inj is]
    rfl

theorem IdInv.right (inv : s.IdInv) : s.IdsRight where
  distinct := inv.distinct
  slots := by
    intro id
    constructor
    · intro used
      obtain ⟨ticket, is, number⟩ := inv.slots.used id used
      obtain ⟨r, live, same⟩ := live_of_ticket is
      exact ⟨_, r, live, same.trans number⟩
    · rintro ⟨b, r, is, rfl⟩
      rw [(inv.forQueue is).2]
      exact Option.some_ne_none r.queue
  counted := inv.slots.counted
  le := inv.slots.le
  received := by
    intro e mem
    obtain ⟨id, serial, was, -⟩ := inv.numbers.got e mem
    exact ⟨id, serial, was⟩
  once := inv.numbers.nodup
  kept := by
    intro rep mem
    refine (inv.kept rep mem).imp_right (Or.imp_left ?_)
    rintro ⟨q, b, queued, value⟩
    obtain ⟨other, -, at_, is⟩ := inv.messages.queued q b queued
    obtain rfl : other = rep := Option.some.inj (at_.symm.trans value)
    exact ⟨b, _, is, rfl, rfl, queued, value⟩
  waits := by
    intro t blocked
    have full : ¬ s.table.nrLiveReqs < nrReqs := of_decide_eq_false (inv.waits.blocked blocked)
    have le := inv.slots.le
    omega

theorem IdInv.go_allocates (inv : s.IdInv) (outside : s.ev.Outside)
    (stage : s.stage s.current = .allocating queue b) (room : s.table.nrLiveReqs < nrReqs) :
    ∃ id next, s.step .go = .ok next ∧ next.IdInv ∧ next.ev.Outside ∧
      next.stage next.current = .writing queue b id s.serials ∧
      next.table.nrLiveReqs = s.table.nrLiveReqs + 1 ∧ ∀ c, c ≠ b → next.uses c = s.uses c := by
  obtain ⟨id, found, -, -⟩ := inv.slots.search room
  obtain ⟨next, ran, after⟩ := inv.allocate outside stage
  refine ⟨id, next, by rw [IdSys.step, IdSys.go, stage]; exact ran, after, ?_⟩
  rw [xenbusIdAllocate, if_pos room, found] at ran
  cases ran
  exact ⟨outside, update_self .., rfl, fun c other => update_of_ne other ..⟩

theorem IdInv.go_writes (inv : s.IdInv) {id : Nat}
    (stage : s.stage s.current = .writing queue (.device a) id serial) :
    ∃ next, s.step .go = .ok next ∧ next.IdInv ∧ next.ev = s.ev ∧
      next.stage next.current = .outside ∧ ∀ c, c ≠ .device a → next.uses c = s.uses c := by
  have after := inv.write stage
  have fits := inv.stages s.current
  rw [stage] at fits
  have ran : s.step .go = .ok (s.xenbusXbWrite (.device a) id serial) := by
    rw [IdSys.step, IdSys.go, stage]
  rw [xenbusXbWrite, moveTo_live fits.1] at after ran
  exact ⟨_, ran, after, rfl, update_self .., fun c other => update_of_ne other ..⟩

/-- The file 0 has made `n` requests, with records from 0 on. -/
structure Filling (n : Nat) (s : IdSys) : Prop where
  inv : s.IdInv
  outside : s.ev.Outside
  stage : s.stage s.current = .outside
  count : s.table.nrLiveReqs = n
  free : ∀ a, n ≤ a → s.uses (.device a) = .free

theorem Filling.turn (filling : s.Filling n) (room : n < nrReqs) :
    ∃ next, Leads Admits step [.deviceRequest 0 n, .go, .go] s next ∧ next.Filling (n + 1) := by
  obtain ⟨inv, outside, stage, count, free⟩ := filling
  have asked := inv.request stage (free n le_rfl) (.inr ⟨0, n, rfl, rfl⟩)
  have less : s.table.nrLiveReqs < nrReqs := by
    rw [count]
    exact_mod_cast room
  obtain ⟨id, m, allocates, inv', outside', writing, more, others⟩ :=
    asked.go_allocates outside (update_self ..) less
  obtain ⟨next, writes, after, same, stage', others'⟩ := inv'.go_writes writing
  refine ⟨next, .cons ⟨outside, stage, free n le_rfl⟩ rfl (.cons ⟨outside, ?_⟩ allocates
    (.cons ⟨outside', by simp [writing]⟩ writes .nil)), after, same ▸ outside', stage', ?_, ?_⟩
  · simp [goto, current]
  · rw [table, same]
    exact more.trans (congrArg (· + 1) count)
  · intro a larger
    have ne : EventBuf.device a ≠ .device n := by
      rintro ⟨⟩
      omega
    rw [others' _ ne, others _ ne]
    exact (update_of_ne ne ..).trans (free a (by omega))

/-- A request of a file and one of the main thread, which the store answers the other way round. -/
def twoRequestsRun : List IdEvent :=
  [.deviceRequest 0 5, .go, .go, .msgReply, .go, .go, .answer 1 [1], .answer 0 [0], .deliver, .go,
    .deliver, .processResponse 0]

def fullTableRun : List IdEvent :=
  (List.range nrReqs).flatMap fun a => [.deviceRequest 0 a, .go, .go]

theorem fullTableRun_fills (main stack tlsarea : Nat) :
    ∃ final, Leads Admits step fullTableRun (init (System.mainOnly main stack tlsarea)) final ∧
      final.Filling nrReqs := by
  refine leads_rounds Filling (fun n s room filling => filling.turn room)
    ⟨idInv_init (System.mainOnly_inv main stack tlsarea), ⟨?_, rfl⟩, rfl, rfl, fun _ _ => rfl⟩
    nrReqs le_rfl
  simp [init, EventSys.init, EventSys.current, System.mainOnly]

end IdSys
end Rumprun.Xen
