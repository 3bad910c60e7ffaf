/-
**The connections of the hub beside each other.**

Every connection has an endpoint, which registers its client with the hub, answers its requests one
after the other, and takes it off the hub at the end.  Broadcasts run beside them.  The hub changes
its maps under a lock, but a broadcast takes the subscribers of its channel without it, and sends
the message to one after the other, waiting after each; so does the replay of missed messages.

The labels of a step say which task runs, and what the world does: which request comes, whether a
message gets through, and in which order a set of subscribers is gone through.  A client is
subscribed to a channel just if the channel has it as a subscriber, whatever the order of the steps.

Main definitions:

* `HubTask`, `HubTasks.resume` — the endpoints and the broadcasts, and their steps;
* `HubTasks.system` — the hub as a system of tasks;
* `BroadcastAt.AttemptsOnce` — a broadcast goes to every subscriber once;
* `BroadcastAt.Sends` — where it is after some resumptions.

Main results:

* `HubTasks.step_inv`, `HubTasks.exec_inv` — every step and every run keeps the maps consistent;
* `HubTasks.exec_sending` — a broadcast ends with one resumption for each client that remains, and
  one more;
* `HubTasks.maps_consistent` — the maps are consistent, and broadcasts go to every subscriber once.
-/

import Brokerage.TaskPool
import Brokerage.HubMaps

set_option relaxedAutoImplicit false
set_option autoImplicit false

/-! ### Endpoints and broadcasts -/

/-- What a client asks of the hub. -/
inductive HubRequest
  | subscribe (channel : String)
  | unsubscribe (channel : String)
  | resume (lastSeq : ℤ)
  deriving DecidableEq

/-- Where an endpoint is. -/
inductive EndpointAt
  /-- It waits for the lock, to register its client. -/
  | connecting
  /-- It waits for a message of the client. -/
  | receiving
  /-- It has told the client that a message is wrong, or the socket raised. -/
  | rejecting (delivered : Bool)
  /-- It waits for the lock, to do what the client asked for. -/
  | locking (request : HubRequest)
  /-- It confirms a subscription, or the end of one. -/
  | replying
  /-- It tells the client to start anew, and holds the lock. -/
  | resyncing
  /-- It replays messages: those of the buffer that are still to be looked at. -/
  | replaying (lastSeq : ℤ) (remaining : List (ℕ × WSMessage))
  /-- It waits for the lock, to take its client off the hub. -/
  | disconnecting
  | closed

/-- Where a broadcast is. -/
inductive BroadcastAt
  /-- It waits for the lock, to number its message. -/
  | numbering (message : WSMessage)
  /-- It sends its message: to some clients it was sent, and some remain. -/
  | sending (message : WSMessage) (attempted remaining : List String) (sentCount : ℕ)
  /-- It returned the number of clients that got the message. -/
  | done (attempted : List String) (sentCount : ℕ)

/-- The endpoint of a client, or a broadcast on a channel. -/
inductive HubTask
  | endpoint (client : String) (pc : EndpointAt)
  | broadcasting (channel : String) (pc : BroadcastAt)

/-- What starts a task: a connection, with the identifier drawn for its client, or a broadcast. -/
inductive HubEntry
  | accept (client : String)
  | broadcast (channel : String) (message : WSMessage)

/-- What a task is resumed with. -/
inductive HubAnswer
  /-- It gets the lock, and goes on to the first message that it sends; a broadcast goes through
  the subscribers in an order. -/
  | acquire (order : List String) (now : ℚ) (delivered : Bool)
  /-- The client asks for something. -/
  | received (request : HubRequest)
  /-- The client sends something wrong. -/
  | rejected (error : String) (now : ℚ) (delivered : Bool)
  /-- The socket raises instead of receiving. -/
  | hangUp
  /-- The message was sent; the next one, if there is one, gets through or does not. -/
  | goOn (delivered : Bool)

/-- What the tasks share: the hub, whether its lock is held, and the identifiers drawn so far. -/
structure HubShared where
  hub : WebSocketHub
  locked : Bool
  used : List String

/-- Sending a message to a client, if it gets through. -/
def WebSocketHub.attempt (h : WebSocketHub) (message : WSMessage) (client : String)
    (delivered : Bool) : WebSocketHub :=
  if delivered = true then h.sendToClient message client else h

/-- Sending a message to one client after the other, each with whether it gets through. -/
def WebSocketHub.attemptAll (h : WebSocketHub) (message : WSMessage)
    (attempts : List (String × Bool)) : WebSocketHub :=
  attempts.foldl (fun h attempt => h.attempt message attempt.1 attempt.2) h

/-- The next message of a replay, and what remains of the buffer after it. -/
def nextReplay (channels : List String) (lastSeq : ℤ) :
    List (ℕ × WSMessage) → Option ((ℕ × WSMessage) × List (ℕ × WSMessage))
  | [] => none
  | (seq, message) :: remaining =>
      if (seq : ℤ) ≤ lastSeq then nextReplay channels lastSeq remaining
      else if WebSocketHub.onChannels channels message then some ((seq, message), remaining)
      else nextReplay channels lastSeq remaining

namespace HubTasks

/-- A broadcast goes to the next client. -/
def sendNext (h : WebSocketHub) (message : WSMessage) (attempted : List String) (sentCount : ℕ)
    (delivered : Bool) : List String → WebSocketHub × BroadcastAt
  | [] => (h, .done attempted sentCount)
  | client :: remaining =>
      (h.attempt message client delivered,
        .sending message (attempted ++ [client]) remaining
          (if delivered = true ∧ client ∈ h.connections then sentCount + 1 else sentCount))

/-- A replay goes to the next message. -/
def replayNext (h : WebSocketHub) (client : String) (lastSeq : ℤ)
    (remaining : List (ℕ × WSMessage)) (delivered : Bool) : WebSocketHub × EndpointAt :=
  match nextReplay (h.channels client) lastSeq remaining with
  | none => (h, .receiving)
  | some ((_, message), remaining) =>
      (h.attempt message client delivered, .replaying lastSeq remaining)

/-- An endpoint does under the lock what its client asked for, and goes on to its first message; the
lock stays held just while the client is told to start anew. -/
def handle (h : WebSocketHub) (client : String) (now : ℚ) (delivered : Bool) :
    HubRequest → WebSocketHub × Bool × EndpointAt
  | .subscribe channel =>
      ((h.addSubscription client channel).attempt (WSMessage.createSubscribedMessage channel now)
        client delivered, false, .replying)
  | .unsubscribe channel =>
      ((h.removeSubscription client channel).attempt
        (WSMessage.createUnsubscribedMessage channel now) client delivered, false, .replying)
  | .resume lastSeq =>
      match h.resumeAnswer client lastSeq with
      | .upToDate => (h, false, .receiving)
      | .resync oldestSeq =>
          (h.attempt (WSMessage.createResyncRequiredMessage "buffer_overflow" oldestSeq now) client
            delivered, true, .resyncing)
      | .replay _ =>
          let (h, pc) := replayNext h client lastSeq h.buffer delivered
          (h, false, pc)

/-- A task starts; identifiers are unique. -/
def enter (s : HubShared) : HubEntry → Option (HubShared × HubTask)
  | .accept client =>
      if client ∈ s.used then none
      else some ({ s with used := client :: s.used }, .endpoint client .connecting)
  | .broadcast channel message => some (s, .broadcasting channel (.numbering message))

/-- The steps of an endpoint. -/
def resumeEndpoint (s : HubShared) (client : String) :
    EndpointAt → HubAnswer → Option (HubShared × EndpointAt)
  | .connecting, .acquire _ _ _ =>
      if s.locked then none else some ({ s with hub := s.hub.connect client }, .receiving)
  | .receiving, .received request =>
      -- the check outside of the lock
      some (s, if client ∈ s.hub.connections then .locking request else .receiving)
  | .receiving, .rejected error now delivered =>
      -- these replies go to the socket itself, which the hub has as well
      some ({ s with
          hub := s.hub.attempt (WSMessage.createErrorMessage error now) client delivered },
        .rejecting delivered)
  | .receiving, .hangUp => some (s, .disconnecting)
  | .rejecting true, .goOn _ => some (s, .receiving)
  | .rejecting false, .goOn _ => some (s, .disconnecting)
  | .locking request, .acquire _ now delivered =>
      if s.locked then none
      else
        let (hub, locked, pc) := handle s.hub client now delivered request
        some ({ s with hub := hub, locked := locked }, pc)
  | .replying, .goOn _ => some (s, .receiving)
  | .resyncing, .goOn _ => some ({ s with locked := false }, .receiving)
  | .replaying lastSeq remaining, .goOn delivered =>
      let (hub, pc) := replayNext s.hub client lastSeq remaining delivered
      some ({ s with hub := hub }, pc)
  | .disconnecting, .acquire _ _ _ =>
      if s.locked then none else some ({ s with hub := s.hub.disconnect client }, .closed)
  | _, _ => none

/-- The hub after a message was numbered and kept. -/
def takeNumber (h : WebSocketHub) (message : WSMessage) : WebSocketHub :=
  { h with seq := h.seq + 1, buffer := h.push (h.numbered message) }

/-- The steps of a broadcast. -/
def resumeBroadcast (s : HubShared) (channel : String) :
    BroadcastAt → HubAnswer → Option (HubShared × BroadcastAt)
  | .numbering message, .acquire order _ delivered =>
      if s.locked ∨ ¬ order.Perm (s.hub.subscribers channel) then none
      else
        let (hub, pc) := sendNext (takeNumber s.hub message) (s.hub.numbered message) [] 0 delivered
          order
        some ({ s with hub := hub }, pc)
  | .sending message attempted remaining sentCount, .goOn delivered =>
      let (hub, pc) := sendNext s.hub message attempted sentCount delivered remaining
      some ({ s with hub := hub }, pc)
  | _, _ => none

/-- A step of a task. -/
def resume (s : HubShared) : HubTask → HubAnswer → Option (HubShared × HubTask)
  | .endpoint client pc, a =>
      (resumeEndpoint s client pc a).map fun r => (r.1, .endpoint client r.2)
  | .broadcasting channel pc, a =>
      (resumeBroadcast s channel pc a).map fun r => (r.1, .broadcasting channel r.2)

/-- The hub with its endpoints and broadcasts. -/
def system : TaskSystem HubShared HubTask HubEntry HubAnswer Empty where
  enter := enter
  resume := resume
  restart := fun _ k => k.elim

/-- A hub that nobody has connected to. -/
def start (bufferSize : ℕ) : TaskPool HubShared HubTask where
  shared := ⟨WebSocketHub.init bufferSize, false, []⟩
  tasks := []

/-! ### A call that nobody interrupts -/

/-- A broadcast that goes on alone attempts all that remain, in their order, and is done after one
more resumption than they are, whether the messages get through or not. -/
theorem exec_sending {p : TaskPool HubShared HubTask} {i : ℕ} {channel : String}
    {message : WSMessage} {attempted remaining : List String} {sentCount : ℕ}
    (hi : p.tasks[i]? = some (.broadcasting channel
      (.sending message attempted remaining sentCount))) {outcomes : List Bool}
    (hlength : outcomes.length = remaining.length + 1) :
    ∃ q sentCount', Transition.exec system.step p
        (outcomes.map fun delivered => .resume i (.goOn delivered)) = some q ∧
      q.shared.hub = p.shared.hub.attemptAll message (remaining.zip outcomes) ∧
      q.tasks[i]? = some (.broadcasting channel (.done (attempted ++ remaining) sentCount')) := by
  induction remaining generalizing p attempted sentCount outcomes with
  | nil =>
      obtain ⟨delivered, rfl⟩ := List.length_eq_one_iff.1 hlength
      have hstep : system.step p (.resume i (.goOn delivered)) =
          some ⟨p.shared, p.tasks.set i (.broadcasting channel (.done attempted sentCount))⟩ :=
        TaskSystem.step_resume.2 ⟨_, _, _, hi, rfl, rfl⟩
      refine ⟨_, sentCount, Transition.exec_cons_of_eq hstep _, rfl, ?_⟩
      rw [List.getElem?_set_self (List.getElem?_eq_some_iff.1 hi).1, List.append_nil]
  | cons client remaining ih =>
      cases outcomes with
      | nil => cases hlength
      | cons delivered outcomes =>
          obtain ⟨q, hstep, hhub, hq⟩ : ∃ q,
              system.step p (.resume i (.goOn delivered)) = some q ∧
              q.shared.hub = p.shared.hub.attempt message client delivered ∧
              ∃ sentCount', q.tasks[i]? = some (.broadcasting channel
                (.sending message (attempted ++ [client]) remaining sentCount')) :=
            ⟨_, TaskSystem.step_resume.2 ⟨_, _, _, hi, rfl, rfl⟩, rfl, _,
              List.getElem?_set_self (List.getElem?_eq_some_iff.1 hi).1⟩
          obtain ⟨sentCount', hq⟩ := hq
          obtain ⟨r, sentCount'', hrun, hr, hdone⟩ := ih hq (Nat.succ.inj hlength)
          refine ⟨r, sentCount'', ?_, ?_, ?_⟩
          · rw [List.map_cons, Transition.exec_cons_of_eq hstep, hrun]
          · rw [hr, hhub]
            rfl
          · rw [hdone, List.append_assoc]
            rfl

/-- A broadcast gets the lock when it is free, whatever the order of the subscribers, and goes to the
first of them. -/
theorem step_numbering {p : TaskPool HubShared HubTask} {i : ℕ} {channel : String}
    {message : WSMessage} {order : List String} (hlocked : p.shared.locked = false)
    (hi : p.tasks[i]? = some (.broadcasting channel (.numbering message)))
    (horder : order.Perm (p.shared.hub.subscribers channel)) (now : ℚ) (delivered : Bool) :
    ∃ q, system.step p (.resume i (.acquire order now delivered)) = some q ∧
      q.shared.hub = (sendNext (takeNumber p.shared.hub message) (p.shared.hub.numbered message) []
        0 delivered order).1 ∧
      q.tasks[i]? = some (.broadcasting channel (sendNext (takeNumber p.shared.hub message)
        (p.shared.hub.numbered message) [] 0 delivered order).2) := by
  have hnot : ¬ (p.shared.locked = true ∨
      ¬ order.Perm (p.shared.hub.subscribers channel)) := by
    rw [hlocked]
    rintro (h | h)
    · cases h
    · exact h horder
  have hresume : system.resume p.shared (.broadcasting channel (.numbering message))
      (.acquire order now delivered) =
      some ({ p.shared with
          hub := (sendNext (takeNumber p.shared.hub message) (p.shared.hub.numbered message) [] 0
            delivered order).1 },
        .broadcasting channel (sendNext (takeNumber p.shared.hub message)
          (p.shared.hub.numbered message) [] 0 delivered order).2) := by
    dsimp only [system, resume, resumeBroadcast]
    rw [if_neg hnot]
    rfl
  exact ⟨_, TaskSystem.step_resume.2 ⟨_, _, _, hi, hresume, rfl⟩, rfl,
    List.getElem?_set_self (List.getElem?_eq_some_iff.1 hi).1⟩

theorem attemptAll_delivered (h : WebSocketHub) (message : WSMessage) (clients : List String)
    {n : ℕ} (hn : clients.length ≤ n) :
    h.attemptAll message (clients.zip (List.replicate n true)) =
      clients.foldl (fun h client => h.sendToClient message client) h := by
  induction clients generalizing h n with
  | nil => rfl
  | cons client clients ih =>
      obtain ⟨n, rfl⟩ : ∃ m, n = m + 1 := ⟨n - 1, by rw [List.length_cons] at hn; omega⟩
      exact ih _ (Nat.le_of_succ_le_succ hn)

/-- A broadcast that nobody interrupts is a broadcast of the hub. -/
theorem exec_broadcast {p : TaskPool HubShared HubTask} {i : ℕ} {channel : String}
    {message : WSMessage} (hlocked : p.shared.locked = false)
    (hi : p.tasks[i]? = some (.broadcasting channel (.numbering message))) :
    ∃ ls q sentCount, Transition.exec system.step p ls = some q ∧
      q.shared.hub = p.shared.hub.broadcast channel message ∧
      q.tasks[i]? = some (.broadcasting channel
        (.done (p.shared.hub.subscribers channel) sentCount)) := by
  obtain ⟨q, hstep, hhub, hq⟩ := step_numbering hlocked hi (List.Perm.refl _) 0 true
  rw [WebSocketHub.broadcast]
  cases hsubscribers : p.shared.hub.subscribers channel with
  | nil =>
      rw [hsubscribers] at hstep hhub hq
      exact ⟨_, q, 0, Transition.exec_cons_of_eq hstep [], hhub, hq⟩
  | cons client remaining =>
      rw [hsubscribers] at hstep hhub hq
      obtain ⟨r, sentCount, hrun, hr, hdone⟩ :=
        exec_sending hq (List.length_replicate (a := true) (n := remaining.length + 1))
      refine ⟨_, r, sentCount, (Transition.exec_cons_of_eq hstep _).trans hrun, ?_, hdone⟩
      rw [hr, hhub, attemptAll_delivered _ _ _ (Nat.le_succ _)]
      rfl

/-! ### What a step does to the maps -/

end HubTasks

theorem WebSocketHub.attempt_eq (h : WebSocketHub) (message : WSMessage) (client : String)
    (delivered : Bool) : ∃ sent, h.attempt message client delivered = { h with sent := sent } := by
  rw [attempt, sendToClient]
  split
  · split
    · exact ⟨_, rfl⟩
    · exact ⟨h.sent, rfl⟩
  · exact ⟨h.sent, rfl⟩

namespace HubTasks

/-- Sending changes only what was sent. -/
theorem sendNext_eq (h : WebSocketHub) (message : WSMessage) (attempted : List String)
    (sentCount : ℕ) (delivered : Bool) (remaining : List String) :
    ∃ sent, (sendNext h message attempted sentCount delivered remaining).1 =
      { h with sent := sent } := by
  cases remaining with
  | nil => exact ⟨h.sent, rfl⟩
  | cons client remaining => exact h.attempt_eq message client delivered

theorem replayNext_eq (h : WebSocketHub) (client : String) (lastSeq : ℤ)
    (remaining : List (ℕ × WSMessage)) (delivered : Bool) :
    ∃ sent, (replayNext h client lastSeq remaining delivered).1 = { h with sent := sent } := by
  rw [replayNext]
  split
  · exact ⟨h.sent, rfl⟩
  · exact h.attempt_eq _ client delivered

end HubTasks

/-- The client of an endpoint is registered with the hub. -/
def EndpointAt.connected : EndpointAt → Bool
  | .connecting => false
  | .closed => false
  | _ => true

namespace HubTasks

theorem replayNext_connected (h : WebSocketHub) (client : String) (lastSeq : ℤ)
    (remaining : List (ℕ × WSMessage)) (delivered : Bool) :
    (replayNext h client lastSeq remaining delivered).2.connected = true := by
  rw [replayNext]
  split
  · rfl
  · rfl

/-- What a client asks for keeps the maps consistent, and everyone connected. -/
theorem handle_spec {h h' : WebSocketHub} (hh : h.Consistent) {client : String}
    (hclient : client ∈ h.connections) {now : ℚ} {delivered locked : Bool} {request : HubRequest}
    {pc : EndpointAt} (heq : handle h client now delivered request = (h', locked, pc)) :
    h'.Consistent ∧ h'.connections = h.connections ∧ pc.connected = true := by
  cases request with
  | subscribe channel =>
      obtain ⟨sent, hsent⟩ := (h.addSubscription client channel).attempt_eq
        (WSMessage.createSubscribedMessage channel now) client delivered
      rw [handle, hsent, Prod.mk.injEq, Prod.mk.injEq] at heq
      obtain ⟨rfl, rfl, rfl⟩ := heq
      exact ⟨(hh.addSubscription hclient channel).of_eq rfl rfl rfl, rfl, rfl⟩
  | unsubscribe channel =>
      obtain ⟨sent, hsent⟩ := (h.removeSubscription client channel).attempt_eq
        (WSMessage.createUnsubscribedMessage channel now) client delivered
      rw [handle, hsent, Prod.mk.injEq, Prod.mk.injEq] at heq
      obtain ⟨rfl, rfl, rfl⟩ := heq
      exact ⟨(hh.removeSubscription client channel).of_eq rfl rfl rfl, rfl, rfl⟩
  | resume lastSeq =>
      rw [handle] at heq
      split at heq
      · rw [Prod.mk.injEq, Prod.mk.injEq] at heq
        obtain ⟨rfl, rfl, rfl⟩ := heq
        exact ⟨hh, rfl, rfl⟩
      · next oldestSeq _ =>
          obtain ⟨sent, hsent⟩ := h.attempt_eq
            (WSMessage.createResyncRequiredMessage "buffer_overflow" oldestSeq now) client delivered
          rw [hsent, Prod.mk.injEq, Prod.mk.injEq] at heq
          obtain ⟨rfl, rfl, rfl⟩ := heq
          exact ⟨hh.of_eq rfl rfl rfl, rfl, rfl⟩
      · obtain ⟨sent, hsent⟩ := replayNext_eq h client lastSeq h.buffer delivered
        have hconnected := replayNext_connected h client lastSeq h.buffer delivered
        rw [Prod.mk.injEq, Prod.mk.injEq] at heq
        obtain ⟨rfl, rfl, rfl⟩ := heq
        rw [hsent]
        exact ⟨hh.of_eq rfl rfl rfl, rfl, hconnected⟩

/-! ### The invariant -/

/-- The maps are consistent, and whoever is connected has drawn an identifier. -/
structure SharedInv (s : HubShared) : Prop where
  consistent : s.hub.Consistent
  used : ∀ client ∈ s.hub.connections, client ∈ s.used

/-- The client of an endpoint has its identifier, and is connected while it should be. -/
def TaskInv (s : HubShared) : HubTask → Prop
  | .endpoint client pc =>
      client ∈ s.used ∧ (client ∈ s.hub.connections ↔ pc.connected = true)
  | .broadcasting _ _ => True

/-- No two endpoints have one client. -/
def Apart : HubTask → HubTask → Prop
  | .endpoint client _, .endpoint client' _ => client ≠ client'
  | _, _ => True

theorem apart_symm (t u : HubTask) (h : Apart t u) : Apart u t := by
  cases t with
  | endpoint client pc =>
      cases u with
      | endpoint client' pc' => exact Ne.symm h
      | broadcasting channel pc' => trivial
  | broadcasting channel pc =>
      cases u with
      | endpoint client' pc' => trivial
      | broadcasting channel' pc' => trivial

/-- A step keeps the shared part, the identifiers, and all clients but its own as they are. -/
structure StepKeeps (s s' : HubShared) (t t' : HubTask) : Prop where
  shared : SharedInv s'
  task : TaskInv s' t'
  used : s'.used = s.used
  others : ∀ u, Apart t u → (Apart t' u ∧ (TaskInv s u → TaskInv s' u))

/-- A step that changes nothing but what was sent, and at most keeps or passes the lock. -/
theorem stepKeeps_of_maps {s s' : HubShared} {client : String} {pc pc' : EndpointAt}
    (hs : SharedInv s) (ht : TaskInv s (.endpoint client pc)) (hh : s'.hub.Consistent)
    (hconnections : s'.hub.connections = s.hub.connections) (hused : s'.used = s.used)
    (hconnected : pc'.connected = pc.connected) :
    StepKeeps s s' (.endpoint client pc) (.endpoint client pc') where
  shared := ⟨hh, by rw [hconnections, hused]; exact hs.used⟩
  task := by
    rw [TaskInv, hconnections, hused, hconnected]
    exact ht
  used := hused
  others u hu := by
    cases u with
    | endpoint other pc'' =>
        refine ⟨hu, fun hinv => ?_⟩
        rw [TaskInv, hconnections, hused]
        exact hinv
    | broadcasting channel pc'' => exact ⟨trivial, fun _ => trivial⟩

/-- An endpoint that changes whether its client is connected. -/
theorem stepKeeps_of_connected {s : HubShared} {hub : WebSocketHub} {client : String}
    {pc pc' : EndpointAt} (hs : SharedInv s) (ht : TaskInv s (.endpoint client pc))
    (hh : hub.Consistent) (hself : client ∈ hub.connections ↔ pc'.connected = true)
    (hothers : ∀ other, other ≠ client → (other ∈ hub.connections ↔ other ∈ s.hub.connections)) :
    StepKeeps s { s with hub := hub } (.endpoint client pc) (.endpoint client pc') where
  shared := by
    refine ⟨hh, fun other hother => ?_⟩
    by_cases heq : other = client
    · exact heq ▸ ht.1
    · exact hs.used other ((hothers other heq).1 hother)
  task := ⟨ht.1, hself⟩
  used := rfl
  others u hu := by
    cases u with
    | endpoint other pc'' =>
        refine ⟨hu, fun hinv => ⟨hinv.1, ?_⟩⟩
        exact (hothers other (Ne.symm hu)).trans hinv.2
    | broadcasting channel pc'' => exact ⟨trivial, fun _ => trivial⟩

theorem resumeEndpoint_keeps {s s' : HubShared} {client : String} {pc pc' : EndpointAt}
    {a : HubAnswer} (hs : SharedInv s) (ht : TaskInv s (.endpoint client pc))
    (h : resumeEndpoint s client pc a = some (s', pc')) :
    StepKeeps s s' (.endpoint client pc) (.endpoint client pc') := by
  revert h
  cases pc with
  | connecting =>
      cases a with
      | acquire order now delivered =>
          rw [resumeEndpoint]
          split
          · rintro ⟨⟩
          · rintro ⟨⟩
            have hfresh : client ∉ s.hub.connections := fun hmem => by cases ht.2.1 hmem
            refine stepKeeps_of_connected hs ht (hs.consistent.connect hfresh)
              (iff_of_true (List.mem_insert_self ..) rfl) fun other hne => ?_
            exact List.mem_insert_iff.trans (or_iff_right hne)
      | _ => rintro ⟨⟩
  | receiving =>
      cases a with
      | received request =>
          rintro ⟨⟩
          refine stepKeeps_of_maps hs ht hs.consistent rfl rfl ?_
          split
          · rfl
          · rfl
      | rejected error now delivered =>
          obtain ⟨sent, hsent⟩ := s.hub.attempt_eq (WSMessage.createErrorMessage error now) client
            delivered
          rw [resumeEndpoint, hsent]
          rintro ⟨⟩
          exact stepKeeps_of_maps hs ht (hs.consistent.of_eq rfl rfl rfl) rfl rfl rfl
      | hangUp =>
          rintro ⟨⟩
          exact stepKeeps_of_maps hs ht hs.consistent rfl rfl rfl
      | _ => rintro ⟨⟩
  | rejecting delivered =>
      cases a with
      | goOn delivered' =>
          cases delivered with
          | false =>
              rintro ⟨⟩
              exact stepKeeps_of_maps hs ht hs.consistent rfl rfl rfl
          | true =>
              rintro ⟨⟩
              exact stepKeeps_of_maps hs ht hs.consistent rfl rfl rfl
      | _ => cases delivered <;> rintro ⟨⟩
  | locking request =>
      cases a with
      | acquire order now delivered =>
          rw [resumeEndpoint]
          split
          · rintro ⟨⟩
          · obtain ⟨hh, hconnections, hconnected⟩ :=
              handle_spec hs.consistent (ht.2.2 rfl) rfl
            rintro ⟨⟩
            exact stepKeeps_of_maps hs ht hh hconnections rfl hconnected
      | _ => rintro ⟨⟩
  | replying =>
      cases a with
      | goOn delivered =>
          rintro ⟨⟩
          exact stepKeeps_of_maps hs ht hs.consistent rfl rfl rfl
      | _ => rintro ⟨⟩
  | resyncing =>
      cases a with
      | goOn delivered =>
          rintro ⟨⟩
          exact stepKeeps_of_maps hs ht hs.consistent rfl rfl rfl
      | _ => rintro ⟨⟩
  | replaying lastSeq remaining =>
      cases a with
      | goOn delivered =>
          obtain ⟨sent, hsent⟩ := replayNext_eq s.hub client lastSeq remaining delivered
          have hconnected := replayNext_connected s.hub client lastSeq remaining delivered
          dsimp only [resumeEndpoint]
          rw [hsent]
          rintro ⟨⟩
          exact stepKeeps_of_maps hs ht (hs.consistent.of_eq rfl rfl rfl) rfl rfl hconnected
      | _ => rintro ⟨⟩
  | disconnecting =>
      cases a with
      | acquire order now delivered =>
          rw [resumeEndpoint]
          split
          · rintro ⟨⟩
          · rintro ⟨⟩
            refine stepKeeps_of_connected hs ht (hs.consistent.disconnect client)
              (iff_of_false (fun hmem => ?_) Bool.false_ne_true) fun other hne => ?_
            · rw [WebSocketHub.disconnect, List.mem_filter] at hmem
              exact of_decide_eq_true hmem.2 rfl
            · rw [WebSocketHub.disconnect, List.mem_filter, decide_eq_true_eq]
              exact and_iff_left hne
      | _ => rintro ⟨⟩
  | closed => cases a <;> rintro ⟨⟩

theorem resumeBroadcast_keeps {s s' : HubShared} {channel : String} {pc pc' : BroadcastAt}
    {a : HubAnswer} (hs : SharedInv s) (h : resumeBroadcast s channel pc a = some (s', pc')) :
    StepKeeps s s' (.broadcasting channel pc) (.broadcasting channel pc') := by
  obtain ⟨hh, hconnections, hused⟩ : s'.hub.Consistent ∧ s'.hub.connections = s.hub.connections ∧
      s'.used = s.used := by
    revert h
    cases pc with
    | numbering message =>
        cases a with
        | acquire order now delivered =>
            obtain ⟨sent, hsent⟩ := sendNext_eq (takeNumber s.hub message)
              (s.hub.numbered message) [] 0 delivered order
            dsimp only [resumeBroadcast]
            split
            · rintro ⟨⟩
            · rw [hsent]
              rintro ⟨⟩
              exact ⟨hs.consistent.of_eq rfl rfl rfl, rfl, rfl⟩
        | _ => rintro ⟨⟩
    | sending message attempted remaining sentCount =>
        cases a with
        | goOn delivered =>
            obtain ⟨sent, hsent⟩ :=
              sendNext_eq s.hub message attempted sentCount delivered remaining
            dsimp only [resumeBroadcast]
            rw [hsent]
            rintro ⟨⟩
            exact ⟨hs.consistent.of_eq rfl rfl rfl, rfl, rfl⟩
        | _ => rintro ⟨⟩
    | done attempted sentCount => rintro ⟨⟩
  refine ⟨⟨hh, by rw [hconnections, hused]; exact hs.used⟩, trivial, hused, fun u _ => ?_⟩
  cases u with
  | endpoint other pc'' =>
      refine ⟨trivial, fun hinv => ?_⟩
      rw [TaskInv, hconnections, hused]
      exact hinv
  | broadcasting channel' pc'' => exact ⟨trivial, fun _ => trivial⟩

theorem resume_keeps {s s' : HubShared} {t t' : HubTask} {a : HubAnswer} (hs : SharedInv s)
    (ht : TaskInv s t) (h : resume s t a = some (s', t')) : StepKeeps s s' t t' := by
  cases t with
  | endpoint client pc =>
      obtain ⟨⟨s'', pc'⟩, hstep, heq⟩ := Option.map_eq_some_iff.1 h
      cases heq
      exact resumeEndpoint_keeps hs ht hstep
  | broadcasting channel pc =>
      obtain ⟨⟨s'', pc'⟩, hstep, heq⟩ := Option.map_eq_some_iff.1 h
      cases heq
      exact resumeBroadcast_keeps hs hstep

/-- The invariant of the hub and its tasks. -/
def Inv (p : TaskPool HubShared HubTask) : Prop := p.Inv SharedInv TaskInv Apart

theorem inv_start (bufferSize : ℕ) : Inv (start bufferSize) :=
  TaskPool.inv_of_nil ⟨WebSocketHub.consistent_init bufferSize, fun _ h => by cases h⟩

theorem step_inv {p q : TaskPool HubShared HubTask} {l : TaskLabel HubEntry HubAnswer Empty}
    (hp : Inv p) (h : system.step p l = some q) : Inv q := by
  refine TaskSystem.step_inv (P := fun _ _ => True) ⟨apart_symm, ?_, ?_, fun p k => k.elim⟩
    hp trivial h
  · intro p entry s t hp _ henter
    cases entry with
    | accept client =>
        dsimp only [system, enter] at henter
        split at henter
        · cases henter
        · next hunused =>
            cases henter
            have hfresh : client ∉ p.shared.hub.connections :=
              fun hmem => hunused (hp.shared.used client hmem)
            refine ⟨⟨hp.shared.consistent, fun other hother =>
              List.mem_cons_of_mem _ (hp.shared.used other hother)⟩,
              ⟨List.mem_cons_self, iff_of_false hfresh Bool.false_ne_true⟩, fun u hu => ?_⟩
            have hold := hp.mem hu
            cases u with
            | endpoint other pc =>
                exact ⟨⟨List.mem_cons_of_mem _ hold.1, hold.2⟩,
                  fun heq => hunused (heq ▸ hold.1)⟩
            | broadcasting channel pc => exact ⟨trivial, trivial⟩
    | broadcast channel message =>
        cases henter
        refine ⟨hp.shared, trivial, fun u hu => ⟨hp.mem hu, ?_⟩⟩
        cases u with
        | endpoint other pc => trivial
        | broadcasting channel' pc => trivial
  · intro p i a t s t' hp _ ht hstep
    obtain ⟨hshared, htask, -, hothers⟩ := resume_keeps hp.shared (hp.task i t ht) hstep
    refine ⟨hshared, htask, fun j u hj hu => ?_⟩
    obtain ⟨hapart, hinv⟩ := hothers u (hp.pair i j t u hj.symm ht hu)
    exact ⟨hinv (hp.task j u hu), hapart⟩

theorem exec_inv {p q : TaskPool HubShared HubTask} {ls : List (TaskLabel HubEntry HubAnswer Empty)}
    (hp : Inv p) (h : Transition.exec system.step p ls = some q) : Inv q :=
  Transition.exec_invariant (fun _ _ _ => step_inv) hp h

/-! ### A broadcast goes to every subscriber once -/

end HubTasks

/-- The clients that a broadcast has attempted and those that remain are some subscribers, each of
them once; in the end nobody remains. -/
def BroadcastAt.AttemptsOnce (subscribers : List String) : BroadcastAt → Prop
  | .numbering _ => False
  | .sending _ attempted remaining _ =>
      (attempted ++ remaining).Nodup ∧ (attempted ++ remaining).Perm subscribers
  | .done attempted _ => attempted.Nodup ∧ attempted.Perm subscribers

/-- Where a broadcast is that got the lock, to send a message to clients in an order, and that has
been resumed some times since: one more client is attempted than that, and with as many resumptions
as there are clients it is done. -/
def BroadcastAt.Sends (message : WSMessage) (order : List String) (resumed : ℕ) :
    BroadcastAt → Prop
  | .numbering _ => False
  | .sending message' attempted remaining _ =>
      message' = message ∧ resumed < order.length ∧ attempted = order.take (resumed + 1) ∧
        remaining = order.drop (resumed + 1)
  | .done attempted _ => resumed = order.length ∧ attempted = order

theorem BroadcastAt.Sends.attemptsOnce {message : WSMessage} {order subscribers : List String}
    {resumed : ℕ} {pc : BroadcastAt} (h : pc.Sends message order resumed) (hnodup : order.Nodup)
    (hperm : order.Perm subscribers) : pc.AttemptsOnce subscribers := by
  cases pc with
  | numbering message' => exact h
  | sending message' attempted remaining sentCount =>
      obtain ⟨-, -, rfl, rfl⟩ := h
      rw [BroadcastAt.AttemptsOnce, List.take_append_drop]
      exact ⟨hnodup, hperm⟩
  | done attempted sentCount =>
      obtain ⟨-, rfl⟩ := h
      exact ⟨hnodup, hperm⟩

namespace HubTasks

/-- The message goes to the next client of the order, if there is one. -/
theorem sendNext_sends {h : WebSocketHub} {message : WSMessage} {order : List String} {resumed : ℕ}
    (hle : resumed ≤ order.length) (sentCount : ℕ) (delivered : Bool) :
    (sendNext h message (order.take resumed) sentCount delivered (order.drop resumed)).2.Sends
      message order resumed := by
  cases hremaining : order.drop resumed with
  | nil =>
      have hlength : order.length ≤ resumed := List.drop_eq_nil_iff.1 hremaining
      exact ⟨le_antisymm hle hlength, List.take_of_length_le hlength⟩
  | cons client remaining =>
      have hlt : resumed < order.length := by
        have hlength := congrArg List.length hremaining
        rw [List.length_drop, List.length_cons] at hlength
        omega
      rw [List.drop_eq_getElem_cons hlt, List.cons.injEq] at hremaining
      obtain ⟨rfl, rfl⟩ := hremaining
      exact ⟨rfl, hlt, (List.take_succ_eq_append_getElem hlt).symm, rfl⟩

/-- A resumption of a broadcast takes it one client further; other steps leave it where it is. -/
theorem sends_step {p q : TaskPool HubShared HubTask} {l : TaskLabel HubEntry HubAnswer Empty}
    {i : ℕ} {channel : String} {message : WSMessage} {order : List String} {resumed : ℕ}
    (hp : ∃ pc, p.tasks[i]? = some (.broadcasting channel pc) ∧ pc.Sends message order resumed)
    (h : system.step p l = some q) :
    ∃ pc, q.tasks[i]? = some (.broadcasting channel pc) ∧
      pc.Sends message order (resumed + TaskLabel.resumptions i [l]) := by
  obtain ⟨pc, hpc, hsends⟩ := hp
  have hi : i < p.tasks.length := (List.getElem?_eq_some_iff.1 hpc).1
  cases l with
  | enter entry =>
      obtain ⟨s, t, -, rfl⟩ := TaskSystem.step_enter.1 h
      exact ⟨pc, by rw [List.getElem?_append_left hi, hpc], hsends⟩
  | resume j a =>
      obtain ⟨t, s, t', ht, hstep, rfl⟩ := TaskSystem.step_resume.1 h
      by_cases hj : j = i
      · subst hj
        obtain rfl : HubTask.broadcasting channel pc = t := Option.some.inj (hpc.symm.trans ht)
        obtain ⟨⟨s', pc'⟩, hresume, heq⟩ := Option.map_eq_some_iff.1 hstep
        cases heq
        refine ⟨pc', by rw [List.getElem?_set_self hi], ?_⟩
        rw [TaskLabel.resumptions_self]
        cases pc with
        | numbering message' => exact hsends.elim
        | sending message' attempted remaining sentCount =>
            obtain ⟨rfl, hlt, rfl, rfl⟩ := hsends
            cases a with
            | goOn delivered =>
                cases hresume
                exact sendNext_sends hlt sentCount delivered
            | _ => cases hresume
        | done attempted sentCount => cases hresume
      · refine ⟨pc, by rw [List.getElem?_set_ne hj, hpc], ?_⟩
        rw [TaskLabel.resumptions_other hj]
        exact hsends
  | restart k => exact k.elim

/-- Any run takes a broadcast as many clients further as there are resumptions of it. -/
theorem sends_run {p q : TaskPool HubShared HubTask} {ls : List (TaskLabel HubEntry HubAnswer Empty)}
    {i : ℕ} {channel : String} {message : WSMessage} {order : List String} {resumed : ℕ}
    (hp : ∃ pc, p.tasks[i]? = some (.broadcasting channel pc) ∧ pc.Sends message order resumed)
    (h : Transition.exec system.step p ls = some q) :
    ∃ pc, q.tasks[i]? = some (.broadcasting channel pc) ∧
      pc.Sends message order (resumed + TaskLabel.resumptions i ls) := by
  induction ls generalizing p resumed with
  | nil =>
      obtain rfl : p = q := Option.some.inj h
      exact hp
  | cons l ls ih =>
      obtain ⟨p', hstep, hrest⟩ := Transition.exec_cons_eq_some.1 h
      have hlabels := TaskLabel.resumptions_append i [l] ls
      rw [List.singleton_append] at hlabels
      rw [hlabels, ← Nat.add_assoc]
      exact ih (sends_step hp hstep) hrest

/-- A broadcast that gets the lock starts with the first client of its order. -/
theorem sends_acquire {p q : TaskPool HubShared HubTask} {i : ℕ} {channel : String}
    {message : WSMessage} {order : List String} {now : ℚ} {delivered : Bool}
    (hi : p.tasks[i]? = some (.broadcasting channel (.numbering message)))
    (h : system.step p (.resume i (.acquire order now delivered)) = some q) :
    order.Perm (p.shared.hub.subscribers channel) ∧
      q.shared.hub = (takeNumber p.shared.hub message).attemptAll (p.shared.hub.numbered message)
        ((order.take 1).zip [delivered]) ∧
      ∃ pc, q.tasks[i]? = some (.broadcasting channel pc) ∧
        pc.Sends (p.shared.hub.numbered message) order 0 := by
  obtain ⟨t, s, t', ht, hstep, rfl⟩ := TaskSystem.step_resume.1 h
  obtain rfl : HubTask.broadcasting channel (.numbering message) = t :=
    Option.some.inj (hi.symm.trans ht)
  obtain ⟨⟨s', pc'⟩, hresume, heq⟩ := Option.map_eq_some_iff.1 hstep
  cases heq
  rw [resumeBroadcast] at hresume
  split at hresume
  · cases hresume
  · next horder =>
      cases hresume
      refine ⟨not_not.1 fun hnot => horder (Or.inr hnot), ?_, _,
        List.getElem?_set_self (List.getElem?_eq_some_iff.1 hi).1,
        sendNext_sends (Nat.zero_le _) 0 delivered⟩
      cases order with
      | nil => rfl
      | cons client remaining => rfl

/-- A broadcast can always go on: it attempts the next client of its order. -/
theorem step_sends {p : TaskPool HubShared HubTask} {i : ℕ} {channel : String}
    {message : WSMessage} {order : List String} {resumed : ℕ} {pc : BroadcastAt}
    (hpc : p.tasks[i]? = some (.broadcasting channel pc)) (h : pc.Sends message order resumed)
    (hlt : resumed < order.length) (delivered : Bool) :
    ∃ q, system.step p (.resume i (.goOn delivered)) = some q ∧
      q.shared.hub = p.shared.hub.attemptAll message
        (((order.drop (resumed + 1)).take 1).zip [delivered]) := by
  cases pc with
  | numbering message' => exact h.elim
  | sending message' attempted remaining sentCount =>
      obtain ⟨rfl, -, rfl, rfl⟩ := h
      refine ⟨_, TaskSystem.step_resume.2 ⟨_, _, _, hpc, rfl, rfl⟩, ?_⟩
      cases order.drop (resumed + 1) with
      | nil => rfl
      | cons client remaining => rfl
  | done attempted sentCount => exact absurd h.1 (Nat.ne_of_lt hlt)

/-- A broadcast that goes on alone is done with as many resumptions as are left. -/
theorem exec_sends {p : TaskPool HubShared HubTask} {i : ℕ} {channel : String}
    {message : WSMessage} {order : List String} {resumed : ℕ} {pc : BroadcastAt}
    (hpc : p.tasks[i]? = some (.broadcasting channel pc)) (h : pc.Sends message order resumed)
    {outcomes : List Bool} (hlength : resumed + outcomes.length = order.length) :
    ∃ q sentCount, Transition.exec system.step p
        (outcomes.map fun delivered => .resume i (.goOn delivered)) = some q ∧
      q.shared.hub =
        p.shared.hub.attemptAll message ((order.drop (resumed + 1)).zip outcomes) ∧
      q.tasks[i]? = some (.broadcasting channel (.done order sentCount)) := by
  cases pc with
  | numbering message' => exact h.elim
  | sending message' attempted remaining sentCount =>
      obtain ⟨rfl, hlt, rfl, rfl⟩ := h
      have hleft : outcomes.length = (order.drop (resumed + 1)).length + 1 := by
        rw [List.length_drop]
        omega
      obtain ⟨q, sentCount', hrun, hhub, hdone⟩ := exec_sending hpc hleft
      rw [List.take_append_drop] at hdone
      exact ⟨q, sentCount', hrun, hhub, hdone⟩
  | done attempted sentCount =>
      obtain ⟨rfl, rfl⟩ := h
      obtain rfl : outcomes = [] := List.eq_nil_of_length_eq_zero (by omega)
      exact ⟨p, sentCount, rfl, by rw [List.zip_nil_right]; rfl, hpc⟩

/-- In every run of the hub the maps are consistent.  A broadcast can get the lock when it is free,
and alone it is a broadcast of the hub.  It goes to the subscribers that its channel has when it gets
the lock, in an order of them that has each once: the first is attempted then, and, however the run
goes on, with each resumption the next one is, nobody else, and it is done with as many resumptions
as there are subscribers. -/
theorem maps_consistent (bufferSize : ℕ) (ls : List (TaskLabel HubEntry HubAnswer Empty))
    (p : TaskPool HubShared HubTask)
    (h : Transition.exec system.step (start bufferSize) ls = some p) :
    p.shared.hub.Consistent ∧
      ∀ (i : ℕ) (channel : String) (message : WSMessage),
        p.tasks[i]? = some (.broadcasting channel (.numbering message)) →
        (p.shared.locked = false → ∃ ms q sentCount, Transition.exec system.step p ms = some q ∧
          q.shared.hub = p.shared.hub.broadcast channel message ∧
          q.tasks[i]? = some (.broadcasting channel
            (.done (p.shared.hub.subscribers channel) sentCount))) ∧
        ∀ (order : List String) (now : ℚ) (delivered : Bool) (q : TaskPool HubShared HubTask),
          system.step p (.resume i (.acquire order now delivered)) = some q →
          order.Nodup ∧ order.Perm (p.shared.hub.subscribers channel) ∧
          q.shared.hub = (takeNumber p.shared.hub message).attemptAll
            (p.shared.hub.numbered message) ((order.take 1).zip [delivered]) ∧
          ∀ (ms : List (TaskLabel HubEntry HubAnswer Empty)) (r : TaskPool HubShared HubTask),
            Transition.exec system.step q ms = some r →
            (∃ pc, r.tasks[i]? = some (.broadcasting channel pc) ∧
              pc.AttemptsOnce (p.shared.hub.subscribers channel) ∧
              pc.Sends (p.shared.hub.numbered message) order (TaskLabel.resumptions i ms)) ∧
            (TaskLabel.resumptions i ms < order.length → ∀ delivered : Bool,
              ∃ r', system.step r (.resume i (.goOn delivered)) = some r' ∧
                r'.shared.hub = r.shared.hub.attemptAll (p.shared.hub.numbered message)
                  (((order.drop (TaskLabel.resumptions i ms + 1)).take 1).zip [delivered])) ∧
            ∀ outcomes : List Bool,
              TaskLabel.resumptions i ms + outcomes.length = order.length →
              ∃ r' sentCount, Transition.exec system.step r
                  (outcomes.map fun delivered => .resume i (.goOn delivered)) = some r' ∧
                r'.shared.hub = r.shared.hub.attemptAll (p.shared.hub.numbered message)
                  ((order.drop (TaskLabel.resumptions i ms + 1)).zip outcomes) ∧
                r'.tasks[i]? = some (.broadcasting channel (.done order sentCount)) := by
  have hp := exec_inv (inv_start bufferSize) h
  refine ⟨hp.shared.consistent, fun i channel message hi => ⟨fun hlocked =>
    exec_broadcast hlocked hi, fun order now delivered q hstep => ?_⟩⟩
  obtain ⟨hperm, hhub, hfirst⟩ := sends_acquire hi hstep
  have hnodup : order.Nodup := hperm.nodup_iff.2 (hp.shared.consistent.nodup channel)
  refine ⟨hnodup, hperm, hhub, fun ms r hrun => ?_⟩
  obtain ⟨pc, hpc, hsends⟩ := sends_run hfirst hrun
  rw [Nat.zero_add] at hsends
  exact ⟨⟨pc, hpc, hsends.attemptsOnce hnodup hperm, hsends⟩,
    fun hlt delivered => step_sends hpc hsends hlt delivered,
    fun outcomes hlength => exec_sends hpc hsends hlength⟩

/-- Two clients that have subscribed to a channel, and a broadcast on it that waits for the lock. -/
def firstBroadcast : List (TaskLabel HubEntry HubAnswer Empty) :=
  [.enter (.accept "client"), .resume 0 (.acquire [] 0 true),
    .resume 0 (.received (.subscribe "positions")), .resume 0 (.acquire [] 0 true),
    .enter (.accept "other"), .resume 1 (.acquire [] 0 true),
    .resume 1 (.received (.subscribe "positions")), .resume 1 (.acquire [] 0 true),
    .enter (.broadcast "positions" { type := .position, channel := some "positions" })]

theorem maps_consistent_firstBroadcast :
    ∃ p q r, Transition.exec system.step (start 1000) firstBroadcast = some p ∧
      p.shared.hub.Consistent ∧ p.shared.hub.subscribers "positions" = ["other", "client"] ∧
      system.step p (.resume 2 (.acquire ["client", "other"] 0 true)) = some q ∧
      Transition.exec system.step q
        [.resume 2 (.goOn false), .resume 0 (.goOn true), .resume 0 .hangUp,
          .resume 2 (.goOn true)] = some r ∧
      ∃ pc, r.tasks[2]? = some (.broadcasting "positions" pc) ∧
        pc.AttemptsOnce (p.shared.hub.subscribers "positions") ∧
        pc.Sends (p.shared.hub.numbered
          { type := .position, channel := some "positions" }) ["client", "other"] 2 := by
  have hrun := maps_consistent 1000 firstBroadcast _ rfl
  refine ⟨_, _, _, rfl, hrun.1, rfl, rfl, rfl, ?_⟩
  have hbroadcast := (hrun.2 2 "positions" _ rfl).2 ["client", "other"] 0 true _ rfl
  exact (hbroadcast.2.2.2
    [.resume 2 (.goOn false), .resume 0 (.goOn true), .resume 0 .hangUp,
      .resume 2 (.goOn true)] _ rfl).1

end HubTasks
