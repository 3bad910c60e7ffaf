/-
**The order of the messages on a connection.**

The hub numbers the broadcasts under its lock, but sends them without it, to one client after the
other; a replay sends what is in the buffer.  So the messages of two broadcasts, or of a broadcast
and a replay, may overtake each other on their way to a client, and a message may go there twice.
Sends to one connection arrive in the order in which they are called.

A run keeps the order on every connection if no message gets through to a client while another task
has yet to send that client a message with a number not greater, and replays begin after what the
client was sent.

Main definitions:

* `HubTasks.numbersFor`, `HubTasks.delivered` — the numbers of the messages for a client;
* `HubTask.queue`, `HubTasks.upcoming` — what a task has yet to send;
* `HubTasks.Undisturbed` — the condition on the steps.

Main results:

* `HubTasks.resume_sends` — what a step sends;
* `HubTasks.delivered_increasing` — in undisturbed runs the numbers on a connection increase;
* `HubTasks.message_twice` — a client that resumes during a broadcast gets a message twice.
-/

import Brokerage.HubTasks

set_option relaxedAutoImplicit false
set_option autoImplicit false

/-- The number of a message, if it was given one. -/
def WSMessage.number? (message : WSMessage) : Option ℕ :=
  match message.seq with
  | some (.num q) => some q.num.toNat
  | _ => none

theorem WebSocketHub.number?_numbered (h : WebSocketHub) (message : WSMessage) :
    (h.numbered message).number? = some (h.seq + 1) := rfl

/-! ### What is sent, and what is yet to be sent -/

namespace HubTasks

/-- The numbers of the messages for a client, among messages for all. -/
def numbersFor (client : String) (messages : List (String × WSMessage)) : List ℕ :=
  messages.filterMap fun p => if p.1 = client then p.2.number? else none

/-- The numbers of the messages that a client was sent. -/
def delivered (h : WebSocketHub) (client : String) : List ℕ := numbersFor client h.sent

theorem numbersFor_append (client : String) (messages messages' : List (String × WSMessage)) :
    numbersFor client (messages ++ messages') =
      numbersFor client messages ++ numbersFor client messages' := List.filterMap_append

theorem mem_numbersFor {client : String} {messages : List (String × WSMessage)} {n : ℕ} :
    n ∈ numbersFor client messages ↔ ∃ message, (client, message) ∈ messages ∧
      message.number? = some n := by
  rw [numbersFor, List.mem_filterMap]
  constructor
  · rintro ⟨⟨other, message⟩, hmem, hn⟩
    dsimp only at hn
    split at hn
    · next heq => exact ⟨message, heq ▸ hmem, hn⟩
    · cases hn
  · rintro ⟨message, hmem, hn⟩
    exact ⟨(client, message), hmem, by rw [if_pos rfl, hn]⟩

theorem numbersFor_eq_nil {client : String} {messages : List (String × WSMessage)}
    (h : ∀ p ∈ messages, p.2.number? = none) : numbersFor client messages = [] := by
  rw [List.eq_nil_iff_forall_not_mem]
  intro n hn
  obtain ⟨message, hmem, hsome⟩ := mem_numbersFor.1 hn
  cases (h _ hmem).symm.trans hsome

/-- What a replay has yet to send to a client: what remains of the buffer, after the last message
and on the channels of the client. -/
def replayQueue (channels : List String) (client : String) (lastSeq : ℤ)
    (remaining : List (ℕ × WSMessage)) : List (String × WSMessage) :=
  (remaining.filter fun p => ¬ (p.1 : ℤ) ≤ lastSeq ∧ WebSocketHub.onChannels channels p.2).map
    fun p => (client, p.2)

theorem replayQueue_nextReplay (channels : List String) (client : String) (lastSeq : ℤ)
    (remaining : List (ℕ × WSMessage)) :
    replayQueue channels client lastSeq remaining =
      match nextReplay channels lastSeq remaining with
      | none => []
      | some ((_, message), remaining) =>
          (client, message) :: replayQueue channels client lastSeq remaining := by
  induction remaining with
  | nil => rfl
  | cons p remaining ih =>
      obtain ⟨seq, message⟩ := p
      rw [nextReplay, replayQueue]
      by_cases hseq : (seq : ℤ) ≤ lastSeq
      · rw [if_pos hseq, ← ih, List.filter_cons_of_neg (by simp [hseq])]
        rfl
      · rw [if_neg hseq]
        by_cases hchannel : WebSocketHub.onChannels channels message = true
        · rw [if_pos hchannel, List.filter_cons_of_pos (by simp [hseq, hchannel])]
          rfl
        · rw [if_neg hchannel, ← ih, List.filter_cons_of_neg (by simp [hchannel])]
          rfl

end HubTasks

/-- What a task has yet to send, in the order in which it sends it. -/
def HubTask.queue (h : WebSocketHub) : HubTask → List (String × WSMessage)
  | .endpoint client (.replaying lastSeq remaining) =>
      HubTasks.replayQueue (h.channels client) client lastSeq remaining
  | .broadcasting _ (.sending message _ remaining _) =>
      remaining.map fun client => (client, message)
  | _ => []

/-- The message that is sent with an answer gets through. -/
def HubAnswer.delivers : HubAnswer → Bool
  | .acquire _ _ delivered => delivered
  | .goOn delivered => delivered
  | _ => false

namespace HubTasks

/-- What a task has to send when it is resumed with an answer: a broadcast or a replay that gets the
lock begins with all of its messages. -/
def upcoming (s : HubShared) : HubTask → HubAnswer → List (String × WSMessage)
  | .endpoint client (.locking (.resume lastSeq)), .acquire _ _ _ =>
      match s.hub.resumeAnswer client lastSeq with
      | .replay messages => messages.map fun message => (client, message)
      | _ => []
  | .broadcasting _ (.numbering message), .acquire order _ _ =>
      order.map fun client => (client, s.hub.numbered message)
  | t, _ => t.queue s.hub

/-- The message that goes to a client at this step gets there before every message that another
task has yet to send to it. -/
def InTurn (p : TaskPool HubShared HubTask) (i : ℕ) (t : HubTask) (a : HubAnswer) : Prop :=
  ∀ x ∈ (upcoming p.shared t a).head?, a.delivers = true → ∀ n ∈ x.2.number?,
    ∀ u ∈ p.tasks.eraseIdx i, ∀ m ∈ numbersFor x.1 (u.queue p.shared.hub), n < m

/-- A replay that begins has only messages with numbers greater than those the client was sent. -/
def ReplaysNew (s : HubShared) : HubTask → HubAnswer → Prop
  | .endpoint client (.locking (.resume lastSeq)), a =>
      ∀ n ∈ delivered s.hub client, ∀ m ∈ numbersFor client
        (upcoming s (.endpoint client (.locking (.resume lastSeq))) a), n < m
  | _, _ => True

/-- No task overtakes another one with this step, and a replay that begins does not go back. -/
def Undisturbed (p : TaskPool HubShared HubTask) : TaskLabel HubEntry HubAnswer Empty → Prop
  | .resume i a => ∀ t ∈ p.tasks[i]?, InTurn p i t a ∧ ReplaysNew p.shared t a
  | _ => True

instance (p : TaskPool HubShared HubTask) (i : ℕ) (t : HubTask) (a : HubAnswer) :
    Decidable (InTurn p i t a) :=
  inferInstanceAs (Decidable (∀ x ∈ (upcoming p.shared t a).head?, a.delivers = true →
    ∀ n ∈ x.2.number?, ∀ u ∈ p.tasks.eraseIdx i, ∀ m ∈ numbersFor x.1 (u.queue p.shared.hub),
      n < m))

instance (s : HubShared) (t : HubTask) (a : HubAnswer) : Decidable (ReplaysNew s t a) :=
  match t with
  | .endpoint client (.locking (.resume lastSeq)) =>
      inferInstanceAs (Decidable (∀ n ∈ delivered s.hub client, ∀ m ∈ numbersFor client
        (upcoming s (.endpoint client (.locking (.resume lastSeq))) a), n < m))
  | .endpoint _ (.locking (.subscribe _)) => .isTrue trivial
  | .endpoint _ (.locking (.unsubscribe _)) => .isTrue trivial
  | .endpoint _ .connecting => .isTrue trivial
  | .endpoint _ .receiving => .isTrue trivial
  | .endpoint _ (.rejecting _) => .isTrue trivial
  | .endpoint _ .replying => .isTrue trivial
  | .endpoint _ .resyncing => .isTrue trivial
  | .endpoint _ (.replaying _ _) => .isTrue trivial
  | .endpoint _ .disconnecting => .isTrue trivial
  | .endpoint _ .closed => .isTrue trivial
  | .broadcasting _ _ => .isTrue trivial

instance (p : TaskPool HubShared HubTask) (l : TaskLabel HubEntry HubAnswer Empty) :
    Decidable (Undisturbed p l) :=
  match l with
  | .resume i a =>
      inferInstanceAs (Decidable (∀ t ∈ p.tasks[i]?, InTurn p i t a ∧ ReplaysNew p.shared t a))
  | .enter _ => .isTrue trivial
  | .restart _ => .isTrue trivial

/-! ### What a step sends -/

/-- What a step of a task does to the messages: it sends some that have no number, or the first of
those that it has yet to send, unless that is lost; the channels of other clients stay; and a
broadcast that gets the lock takes a number and keeps its message. -/
structure Sends (s s' : HubShared) (t t' : HubTask) (a : HubAnswer)
    (now : List (String × WSMessage)) : Prop where
  sent : s'.hub.sent = s.hub.sent ++ now
  next : (upcoming s t a = [] ∧ (∀ x ∈ now, x.2.number? = none) ∧ t'.queue s'.hub = []) ∨
    ∃ x rest, upcoming s t a = x :: rest ∧ (now = [] ∨ a.delivers = true ∧ now = [x]) ∧
      t'.queue s'.hub = rest
  channels : ∀ client, (∀ pc, t ≠ .endpoint client pc) →
    s'.hub.channels client = s.hub.channels client
  buffer : ((∀ channel message, t ≠ .broadcasting channel (.numbering message)) ∧
      s'.hub.seq = s.hub.seq ∧ s'.hub.buffer = s.hub.buffer) ∨
    ∃ channel message order time delivers, t = .broadcasting channel (.numbering message) ∧
      a = .acquire order time delivers ∧ order.Perm (s.hub.subscribers channel) ∧
      s'.hub.seq = s.hub.seq + 1 ∧ s'.hub.buffer = s.hub.push (s.hub.numbered message)

/-- A message that is sent to a client, or is lost. -/
theorem attempt_cases (h : WebSocketHub) (message : WSMessage) (client : String)
    (delivered : Bool) :
    h.attempt message client delivered = h ∨ delivered = true ∧
      h.attempt message client delivered = { h with sent := h.sent ++ [(client, message)] } := by
  rw [WebSocketHub.attempt, WebSocketHub.sendToClient]
  split
  · next hdelivered =>
      split
      · exact Or.inr ⟨hdelivered, rfl⟩
      · exact Or.inl rfl
  · exact Or.inl rfl

/-- A step that sends a message without a number, if any. -/
theorem sends_unnumbered {s : HubShared} {h h' : WebSocketHub} {locked : Bool} {client : String}
    {pc pc' : EndpointAt} {a : HubAnswer} {message : WSMessage} {delivered : Bool}
    (hmessage : message.number? = none) (hsent : h.sent = s.hub.sent) (hseq : h.seq = s.hub.seq)
    (hbuffer : h.buffer = s.hub.buffer)
    (hchannels : ∀ other, other ≠ client → h.channels other = s.hub.channels other)
    (heq : h' = h.attempt message client delivered)
    (hupcoming : upcoming s (.endpoint client pc) a = [])
    (hqueue : ∀ h : WebSocketHub, (HubTask.endpoint client pc').queue h = []) :
    ∃ now, Sends s { s with hub := h', locked := locked } (.endpoint client pc)
      (.endpoint client pc') a now := by
  have hother : ∀ other, (∀ pc'', HubTask.endpoint client pc ≠ .endpoint other pc'') →
      h.channels other = s.hub.channels other :=
    fun other hne => hchannels other fun heq => hne pc (heq ▸ rfl)
  subst heq
  obtain heq | ⟨-, heq⟩ := attempt_cases h message client delivered
  · rw [heq]
    exact ⟨[], by rw [hsent, List.append_nil], Or.inl ⟨hupcoming, (fun _ h => by cases h), hqueue _⟩,
      hother, Or.inl ⟨(fun _ _ h => by cases h), hseq, hbuffer⟩⟩
  · rw [heq]
    refine ⟨[(client, message)], by rw [hsent], Or.inl ⟨hupcoming, fun x hx => ?_, hqueue _⟩,
      hother, Or.inl ⟨(fun _ _ h => by cases h), hseq, hbuffer⟩⟩
    rwa [List.mem_singleton.1 hx]

/-- A step that sends nothing. -/
theorem sends_nothing {s : HubShared} {h : WebSocketHub} {locked : Bool} {client : String}
    {pc pc' : EndpointAt} {a : HubAnswer} (hsent : h.sent = s.hub.sent) (hseq : h.seq = s.hub.seq)
    (hbuffer : h.buffer = s.hub.buffer)
    (hchannels : ∀ other, other ≠ client → h.channels other = s.hub.channels other)
    (hupcoming : upcoming s (.endpoint client pc) a = [])
    (hqueue : ∀ h : WebSocketHub, (HubTask.endpoint client pc').queue h = []) :
    ∃ now, Sends s { s with hub := h, locked := locked } (.endpoint client pc)
      (.endpoint client pc') a now :=
  ⟨[], by rw [hsent, List.append_nil], Or.inl ⟨hupcoming, (fun _ h => by cases h), hqueue h⟩,
    fun other hne => hchannels other fun heq => hne pc (heq ▸ rfl),
    Or.inl ⟨(fun _ _ h => by cases h), hseq, hbuffer⟩⟩

/-- A replay goes to its next message. -/
theorem sends_replayNext {s : HubShared} {client : String} {lastSeq : ℤ}
    {remaining : List (ℕ × WSMessage)} {delivered : Bool} {pc pc' : EndpointAt} {a : HubAnswer}
    {h : WebSocketHub} (locked : Bool) (hdelivers : a.delivers = delivered)
    (hupcoming : upcoming s (.endpoint client pc) a =
      replayQueue (s.hub.channels client) client lastSeq remaining)
    (heq : replayNext s.hub client lastSeq remaining delivered = (h, pc')) :
    ∃ now, Sends s { s with hub := h, locked := locked } (.endpoint client pc)
      (.endpoint client pc') a now := by
  rw [replayQueue_nextReplay] at hupcoming
  rw [replayNext] at heq
  cases hnext : nextReplay (s.hub.channels client) lastSeq remaining with
  | none =>
      rw [hnext] at hupcoming heq
      cases heq
      exact sends_nothing rfl rfl rfl (fun _ _ => rfl) hupcoming fun _ => rfl
  | some r =>
      obtain ⟨⟨seq, message⟩, more⟩ := r
      rw [hnext] at hupcoming heq
      dsimp only at hupcoming heq
      obtain ⟨rfl, rfl⟩ := Prod.mk.inj heq
      obtain heq | ⟨hdelivered, heq⟩ := attempt_cases s.hub message client delivered
      · rw [heq]
        exact ⟨[], by rw [List.append_nil],
          Or.inr ⟨_, _, hupcoming, Or.inl rfl, rfl⟩, fun _ _ => rfl,
          Or.inl ⟨(fun _ _ h => by cases h), rfl, rfl⟩⟩
      · rw [heq]
        exact ⟨_, rfl, Or.inr ⟨_, _, hupcoming, Or.inr ⟨hdelivers.trans hdelivered, rfl⟩, rfl⟩,
          fun _ _ => rfl, Or.inl ⟨(fun _ _ h => by cases h), rfl, rfl⟩⟩

/-- A replay begins with what the buffer has. -/
theorem replay_eq {h : WebSocketHub} {client : String} {lastSeq : ℤ} {messages : List WSMessage}
    (heq : h.resumeAnswer client lastSeq = .replay messages) :
    (messages.map fun message => (client, message)) =
      replayQueue (h.channels client) client lastSeq h.buffer := by
  rw [WebSocketHub.resumeAnswer] at heq
  split at heq
  · cases heq
  · next oldestSeq message more hbuffer =>
      dsimp only at heq
      split at heq
      · cases heq
      · split at heq
        · cases heq
        · cases heq
          rw [replayQueue, hbuffer, List.map_map]
          rfl

theorem channels_set_of_ne {h : WebSocketHub} {client other : String} (hne : other ≠ client)
    (channels : List String) :
    ((h.subscriptions.set client channels).get? other).getD [] = h.channels other := by
  rw [Dict.get?_set_of_ne _ _ hne]
  rfl

/-- What an endpoint sends under the lock. -/
theorem handle_sends {s : HubShared} {client : String} {order : List String} {now : ℚ}
    {delivered locked : Bool} {request : HubRequest} {h : WebSocketHub} {pc : EndpointAt}
    (heq : handle s.hub client now delivered request = (h, locked, pc)) :
    ∃ sent, Sends s { s with hub := h, locked := locked } (.endpoint client (.locking request))
      (.endpoint client pc) (.acquire order now delivered) sent := by
  cases request with
  | subscribe channel =>
      obtain ⟨rfl, rfl, rfl⟩ : _ ∧ _ ∧ _ := by simpa [handle] using heq
      refine sends_unnumbered (h := s.hub.addSubscription client channel) rfl rfl rfl rfl
        (fun other hne => channels_set_of_ne hne _) rfl rfl fun _ => rfl
  | unsubscribe channel =>
      obtain ⟨rfl, rfl, rfl⟩ : _ ∧ _ ∧ _ := by simpa [handle] using heq
      refine sends_unnumbered (h := s.hub.removeSubscription client channel) rfl rfl rfl rfl
        (fun other hne => ?_) rfl rfl fun _ => rfl
      rw [WebSocketHub.channels_removeSubscription, if_neg hne]
  | resume lastSeq =>
      have hupcoming : upcoming s (.endpoint client (.locking (.resume lastSeq)))
          (.acquire order now delivered) = match s.hub.resumeAnswer client lastSeq with
          | .replay messages => messages.map fun message => (client, message)
          | _ => [] := rfl
      rw [handle] at heq
      cases hanswer : s.hub.resumeAnswer client lastSeq with
      | upToDate =>
          rw [hanswer] at hupcoming heq
          obtain ⟨rfl, rfl, rfl⟩ : _ ∧ _ ∧ _ := by simpa using heq
          exact sends_nothing rfl rfl rfl (fun _ _ => rfl) hupcoming fun _ => rfl
      | resync oldestSeq =>
          rw [hanswer] at hupcoming heq
          obtain ⟨rfl, rfl, rfl⟩ : _ ∧ _ ∧ _ := by simpa using heq
          exact sends_unnumbered (h := s.hub) rfl rfl rfl rfl (fun _ _ => rfl) rfl hupcoming
            fun _ => rfl
      | replay messages =>
          rw [hanswer] at hupcoming heq
          dsimp only at hupcoming heq
          rw [replay_eq hanswer] at hupcoming
          obtain ⟨rfl, rfl, rfl⟩ : _ ∧ _ ∧ _ := by simpa using heq
          exact sends_replayNext false rfl hupcoming rfl

theorem resumeEndpoint_sends {s s' : HubShared} {client : String} {pc pc' : EndpointAt}
    {a : HubAnswer} (h : resumeEndpoint s client pc a = some (s', pc')) :
    ∃ now, Sends s s' (.endpoint client pc) (.endpoint client pc') a now := by
  revert h
  cases pc with
  | connecting =>
      cases a with
      | acquire order now delivered =>
          rw [resumeEndpoint]
          split
          · rintro ⟨⟩
          · rintro ⟨⟩
            exact sends_nothing rfl rfl rfl (fun other hne => channels_set_of_ne hne _) rfl
              fun _ => rfl
      | _ => rintro ⟨⟩
  | receiving =>
      cases a with
      | received request =>
          rintro ⟨⟩
          refine sends_nothing rfl rfl rfl (fun _ _ => rfl) rfl fun h => ?_
          split
          · rfl
          · rfl
      | rejected error now delivered =>
          rintro ⟨⟩
          exact sends_unnumbered (h := s.hub) rfl rfl rfl rfl (fun _ _ => rfl) rfl rfl fun _ => rfl
      | hangUp =>
          rintro ⟨⟩
          exact sends_nothing rfl rfl rfl (fun _ _ => rfl) rfl fun _ => rfl
      | _ => rintro ⟨⟩
  | rejecting delivered =>
      cases a with
      | goOn delivered' =>
          cases delivered with
          | false =>
              rintro ⟨⟩
              exact sends_nothing rfl rfl rfl (fun _ _ => rfl) rfl fun _ => rfl
          | true =>
              rintro ⟨⟩
              exact sends_nothing rfl rfl rfl (fun _ _ => rfl) rfl fun _ => rfl
      | _ => cases delivered <;> rintro ⟨⟩
  | locking request =>
      cases a with
      | acquire order now delivered =>
          rw [resumeEndpoint]
          split
          · rintro ⟨⟩
          · rintro ⟨⟩
            exact handle_sends rfl
      | _ => rintro ⟨⟩
  | replying =>
      cases a with
      | goOn delivered =>
          rintro ⟨⟩
          exact sends_nothing rfl rfl rfl (fun _ _ => rfl) rfl fun _ => rfl
      | _ => rintro ⟨⟩
  | resyncing =>
      cases a with
      | goOn delivered =>
          rintro ⟨⟩
          exact sends_nothing rfl rfl rfl (fun _ _ => rfl) rfl fun _ => rfl
      | _ => rintro ⟨⟩
  | replaying lastSeq remaining =>
      cases a with
      | goOn delivered =>
          rintro ⟨⟩
          exact sends_replayNext s.locked rfl rfl rfl
      | _ => rintro ⟨⟩
  | disconnecting =>
      cases a with
      | acquire order now delivered =>
          rw [resumeEndpoint]
          split
          · rintro ⟨⟩
          · rintro ⟨⟩
            refine sends_nothing rfl rfl rfl (fun other hne => ?_) rfl fun _ => rfl
            rw [WebSocketHub.channels, WebSocketHub.disconnect, Dict.get?_erase_of_ne _ hne]
            rfl
      | _ => rintro ⟨⟩
  | closed => cases a <;> rintro ⟨⟩

/-- A broadcast goes to the next client. -/
theorem sends_sendNext {s : HubShared} {g h : WebSocketHub} {channel : String}
    {pc pc' : BroadcastAt} {message : WSMessage} {attempted remaining : List String}
    {sentCount : ℕ} {delivered : Bool} {a : HubAnswer} (hdelivers : a.delivers = delivered)
    (hupcoming : upcoming s (.broadcasting channel pc) a =
      remaining.map fun client => (client, message))
    (hsent : g.sent = s.hub.sent) (hchannels : g.subscriptions = s.hub.subscriptions)
    (hbuffer : ((∀ channel' message',
          HubTask.broadcasting channel pc ≠ .broadcasting channel' (.numbering message')) ∧
        g.seq = s.hub.seq ∧ g.buffer = s.hub.buffer) ∨
      ∃ channel' message' order time delivers,
        HubTask.broadcasting channel pc = .broadcasting channel' (.numbering message') ∧
        a = .acquire order time delivers ∧ order.Perm (s.hub.subscribers channel') ∧
        g.seq = s.hub.seq + 1 ∧ g.buffer = s.hub.push (s.hub.numbered message'))
    (heq : sendNext g message attempted sentCount delivered remaining = (h, pc')) :
    ∃ now, Sends s { s with hub := h } (.broadcasting channel pc) (.broadcasting channel pc') a
      now := by
  have hother : ∀ other, g.channels other = s.hub.channels other := fun other => by
    rw [WebSocketHub.channels, hchannels, WebSocketHub.channels]
  cases remaining with
  | nil =>
      cases heq
      exact ⟨[], by rw [hsent, List.append_nil],
        Or.inl ⟨hupcoming, (fun _ h => by cases h), rfl⟩, fun _ _ => hother _, hbuffer⟩
  | cons client remaining =>
      obtain ⟨rfl, rfl⟩ := Prod.mk.inj heq
      obtain heq | ⟨hdelivered, heq⟩ := attempt_cases g message client delivered
      · rw [heq]
        exact ⟨[], by rw [hsent, List.append_nil], Or.inr ⟨_, _, hupcoming, Or.inl rfl, rfl⟩,
          fun _ _ => hother _, hbuffer⟩
      · rw [heq]
        exact ⟨_, congrArg (· ++ _) hsent,
          Or.inr ⟨_, _, hupcoming, Or.inr ⟨hdelivers.trans hdelivered, rfl⟩, rfl⟩,
          fun _ _ => hother _, hbuffer⟩

theorem resumeBroadcast_sends {s s' : HubShared} {channel : String} {pc pc' : BroadcastAt}
    {a : HubAnswer} (h : resumeBroadcast s channel pc a = some (s', pc')) :
    ∃ now, Sends s s' (.broadcasting channel pc) (.broadcasting channel pc') a now := by
  revert h
  cases pc with
  | numbering message =>
      cases a with
      | acquire order now delivered =>
          rw [resumeBroadcast]
          split
          · rintro ⟨⟩
          · next hnot =>
              rintro ⟨⟩
              exact sends_sendNext (g := takeNumber s.hub message) rfl rfl rfl rfl
                (Or.inr ⟨channel, message, order, now, delivered, rfl, rfl,
                  not_not.1 fun hperm => hnot (Or.inr hperm), rfl, rfl⟩) rfl
      | _ => rintro ⟨⟩
  | sending message attempted remaining sentCount =>
      cases a with
      | goOn delivered =>
          rintro ⟨⟩
          exact sends_sendNext rfl rfl rfl rfl (Or.inl ⟨(fun _ _ h => by cases h), rfl, rfl⟩) rfl
      | _ => rintro ⟨⟩
  | done attempted sentCount => cases a <;> rintro ⟨⟩

theorem resume_sends {s s' : HubShared} {t t' : HubTask} {a : HubAnswer}
    (h : resume s t a = some (s', t')) : ∃ now, Sends s s' t t' a now := by
  cases t with
  | endpoint client pc =>
      obtain ⟨⟨s'', pc'⟩, hstep, heq⟩ := Option.map_eq_some_iff.1 h
      cases heq
      exact resumeEndpoint_sends hstep
  | broadcasting channel pc =>
      obtain ⟨⟨s'', pc'⟩, hstep, heq⟩ := Option.map_eq_some_iff.1 h
      cases heq
      exact resumeBroadcast_sends hstep

/-! ### A return that nobody interrupts -/

/-- A replay that goes on alone sends all that it has to send. -/
theorem exec_replaying {p : TaskPool HubShared HubTask} {i : ℕ} {client : String} {lastSeq : ℤ}
    {remaining : List (ℕ × WSMessage)} {queue : List (String × WSMessage)}
    (hqueue : replayQueue (p.shared.hub.channels client) client lastSeq remaining = queue)
    (hi : p.tasks[i]? = some (.endpoint client (.replaying lastSeq remaining))) :
    ∃ ls q, Transition.exec system.step p ls = some q ∧
      q.shared.hub = queue.foldl (fun h x => h.sendToClient x.2 x.1) p.shared.hub ∧
      q.shared.locked = p.shared.locked ∧ q.tasks[i]? = some (.endpoint client .receiving) := by
  have hlt := (List.getElem?_eq_some_iff.1 hi).1
  induction queue generalizing p remaining with
  | nil =>
      have hnext : nextReplay (p.shared.hub.channels client) lastSeq remaining = none := by
        rw [replayQueue_nextReplay] at hqueue
        split at hqueue
        · assumption
        · cases hqueue
      have hresume : system.resume p.shared (.endpoint client (.replaying lastSeq remaining))
          (.goOn true) = some (p.shared, .endpoint client .receiving) := by
        dsimp only [system, resume, resumeEndpoint, replayNext]
        rw [hnext]
        rfl
      have hstep := TaskSystem.step_resume.2 ⟨_, _, _, hi, hresume, rfl⟩
      exact ⟨_, _, Transition.exec_cons_of_eq hstep [], rfl, rfl, List.getElem?_set_self hlt⟩
  | cons x queue ih =>
      rw [replayQueue_nextReplay] at hqueue
      split at hqueue
      · cases hqueue
      · next seq message more hnext =>
          obtain ⟨rfl, hmore⟩ := List.cons.inj hqueue
          obtain ⟨q, hstep, hhub, hlocked, hq⟩ : ∃ q,
              system.step p (.resume i (.goOn true)) = some q ∧
              q.shared.hub = p.shared.hub.sendToClient message client ∧
              q.shared.locked = p.shared.locked ∧
              q.tasks[i]? = some (.endpoint client (.replaying lastSeq more)) := by
            have hresume : system.resume p.shared (.endpoint client (.replaying lastSeq remaining))
                (.goOn true) = some ({ p.shared with
                  hub := p.shared.hub.sendToClient message client },
                  .endpoint client (.replaying lastSeq more)) := by
              dsimp only [system, resume, resumeEndpoint, replayNext]
              rw [hnext]
              rfl
            exact ⟨_, TaskSystem.step_resume.2 ⟨_, _, _, hi, hresume, rfl⟩, rfl, rfl,
              List.getElem?_set_self hlt⟩
          have hchannels : q.shared.hub.channels client = p.shared.hub.channels client := by
            rw [hhub, WebSocketHub.sendToClient]
            split
            · rfl
            · rfl
          obtain ⟨ls, r, hrun, hr, hlock, hdone⟩ := ih (by rw [hchannels, hmore]) hq
            (List.getElem?_eq_some_iff.1 hq).1
          refine ⟨_, r, (Transition.exec_cons_of_eq hstep ls).trans hrun, ?_,
            hlock.trans hlocked, hdone⟩
          rw [hr, hhub, List.foldl_cons]

/-- The return of a client that nobody interrupts is the one of the hub. -/
theorem exec_resume {p : TaskPool HubShared HubTask} {i : ℕ} {client : String} {lastSeq : ℤ}
    (now : ℚ) (hlocked : p.shared.locked = false) (hconnected : client ∈ p.shared.hub.connections)
    (hi : p.tasks[i]? = some (.endpoint client (.locking (.resume lastSeq)))) :
    ∃ ls q, Transition.exec system.step p ls = some q ∧
      q.shared.hub = (p.shared.hub.resume client lastSeq now).2 ∧ q.shared.locked = false ∧
      q.tasks[i]? = some (.endpoint client .receiving) := by
  have hlt := (List.getElem?_eq_some_iff.1 hi).1
  have hfirst : system.resume p.shared (.endpoint client (.locking (.resume lastSeq)))
      (.acquire [] now true) =
      some ({ p.shared with
          hub := (handle p.shared.hub client now true (.resume lastSeq)).1
          locked := (handle p.shared.hub client now true (.resume lastSeq)).2.1 },
        .endpoint client (handle p.shared.hub client now true (.resume lastSeq)).2.2) := by
    dsimp only [system, resume, resumeEndpoint]
    rw [hlocked]
    rfl
  obtain ⟨q, hstep, hhub, hlock, hpc⟩ : ∃ q,
      system.step p (.resume i (.acquire [] now true)) = some q ∧
      q.shared.hub = (handle p.shared.hub client now true (.resume lastSeq)).1 ∧
      q.shared.locked = (handle p.shared.hub client now true (.resume lastSeq)).2.1 ∧
      q.tasks[i]? = some (.endpoint client
        (handle p.shared.hub client now true (.resume lastSeq)).2.2) :=
    ⟨_, TaskSystem.step_resume.2 ⟨_, _, _, hi, hfirst, rfl⟩, rfl, rfl,
      List.getElem?_set_self hlt⟩
  rw [WebSocketHub.resume, if_pos hconnected]
  rw [handle] at hhub hlock hpc
  cases hanswer : p.shared.hub.resumeAnswer client lastSeq with
  | upToDate =>
      rw [hanswer] at hhub hlock hpc
      exact ⟨_, q, Transition.exec_cons_of_eq hstep [], hhub, hlock, hpc⟩
  | resync oldestSeq =>
      -- one more step gives the lock back
      rw [hanswer] at hhub hlock hpc
      have hback := TaskSystem.step_resume.2 ⟨_, _, _, hpc, (rfl : system.resume q.shared
        (.endpoint client .resyncing) (.goOn true) = some _), rfl⟩
      refine ⟨_, _, (Transition.exec_cons_of_eq hstep _).trans
        (Transition.exec_cons_of_eq hback []), hhub, rfl,
        List.getElem?_set_self (List.getElem?_eq_some_iff.1 hpc).1⟩
  | replay messages =>
      rw [hanswer] at hhub hlock hpc
      have hqueue := replay_eq hanswer
      rw [replayQueue_nextReplay] at hqueue
      dsimp only [replayNext] at hhub hlock hpc ⊢
      cases hnext : nextReplay (p.shared.hub.channels client) lastSeq p.shared.hub.buffer with
      | none =>
          rw [hnext] at hqueue hhub hpc
          rw [List.map_eq_nil_iff.1 hqueue]
          exact ⟨_, q, Transition.exec_cons_of_eq hstep [], hhub, hlock, hpc⟩
      | some r =>
          obtain ⟨⟨seq, message⟩, more⟩ := r
          rw [hnext] at hqueue hhub hpc
          have hsend : q.shared.hub = p.shared.hub.sendToClient message client := hhub
          have hchannels : q.shared.hub.channels client = p.shared.hub.channels client := by
            rw [hsend, WebSocketHub.sendToClient]
            split
            · rfl
            · rfl
          obtain ⟨ls, r, hrun, hr, hlock', hdone⟩ := exec_replaying rfl hpc
          refine ⟨_, r, (Transition.exec_cons_of_eq hstep ls).trans hrun, ?_,
            hlock'.trans hlock, hdone⟩
          have hfold : messages.foldl (fun h message => h.sendToClient message client)
              p.shared.hub = (messages.map fun message => (client, message)).foldl
                (fun h x => h.sendToClient x.2 x.1) p.shared.hub := by
            rw [List.foldl_map]
          rw [hr, hchannels, hsend, hfold, hqueue]
          rfl

/-! ### The invariant of the order -/

/-- The numbers of the messages for each client increase, up to some number at most. -/
def Ascends (seq : ℕ) (messages : List (String × WSMessage)) : Prop :=
  ∀ client, (numbersFor client messages).Pairwise (· < ·) ∧
    ∀ n ∈ numbersFor client messages, n ≤ seq

theorem Ascends.sublist {seq : ℕ} {messages messages' : List (String × WSMessage)}
    (h : Ascends seq messages') (hsub : messages.Sublist messages') : Ascends seq messages := by
  intro client
  have hnumbers : (numbersFor client messages).Sublist (numbersFor client messages') :=
    hsub.filterMap _
  exact ⟨(h client).1.sublist hnumbers, fun n hn => (h client).2 n (hnumbers.subset hn)⟩

theorem Ascends.mono {seq seq' : ℕ} {messages : List (String × WSMessage)}
    (h : Ascends seq messages) (hle : seq ≤ seq') : Ascends seq' messages :=
  fun client => ⟨(h client).1, fun n hn => ((h client).2 n hn).trans hle⟩

theorem ascends_append {seq : ℕ} {messages messages' : List (String × WSMessage)} :
    Ascends seq (messages ++ messages') ↔ Ascends seq messages ∧ Ascends seq messages' ∧
      ∀ client, ∀ n ∈ numbersFor client messages, ∀ m ∈ numbersFor client messages', n < m := by
  simp only [Ascends, numbersFor_append, List.pairwise_append, List.mem_append, or_imp,
    forall_and]
  tauto

/-- Messages without numbers do not count. -/
theorem Ascends.append_unnumbered {seq : ℕ} {messages now : List (String × WSMessage)}
    (h : Ascends seq messages) (hnow : ∀ x ∈ now, x.2.number? = none) :
    Ascends seq (messages ++ now) := by
  intro client
  rw [numbersFor_append, numbersFor_eq_nil hnow, List.append_nil]
  exact h client

/-- One message goes once to each of some clients. -/
theorem ascends_broadcast {message : WSMessage} {n : ℕ} (hn : message.number? = some n)
    {clients : List String} (hnodup : clients.Nodup) :
    Ascends n (clients.map fun client => (client, message)) := by
  have hsub : ∀ client,
      (numbersFor client (clients.map fun client => (client, message))).Sublist [n] := by
    intro client
    induction clients with
    | nil => exact List.nil_sublist _
    | cons first clients ih =>
        obtain ⟨hfirst, hrest⟩ := List.nodup_cons.1 hnodup
        rw [List.map_cons, numbersFor, List.filterMap_cons]
        by_cases heq : first = client
        · have hnone : numbersFor client (clients.map fun client => (client, message)) = [] := by
            rw [List.eq_nil_iff_forall_not_mem]
            intro m hm
            obtain ⟨_, hmem, -⟩ := mem_numbersFor.1 hm
            obtain ⟨other, hother, hpair⟩ := List.mem_map.1 hmem
            cases hpair
            exact hfirst (heq ▸ hother)
          rw [numbersFor] at hnone
          rw [if_pos heq, hn, hnone]
        · rw [if_neg heq]
          exact ih hrest
  intro client
  refine ⟨(List.pairwise_singleton _ n).sublist (hsub client), fun m hm => ?_⟩
  exact (List.mem_singleton.1 ((hsub client).subset hm)).le

/-- The numbers of messages of the buffer that go to one client. -/
theorem numbersFor_map_sublist {client : String} (other : String) {entries : List (ℕ × WSMessage)}
    (h : ∀ p ∈ entries, p.2.number? = some p.1) :
    (numbersFor other (entries.map fun p => (client, p.2))).Sublist (entries.map Prod.fst) := by
  induction entries with
  | nil => exact List.Sublist.slnil
  | cons p entries ih =>
      have hrest := ih fun q hq => h q (List.mem_cons_of_mem _ hq)
      rw [List.map_cons, List.map_cons, numbersFor, List.filterMap_cons]
      by_cases heq : client = other
      · rw [if_pos heq, h p List.mem_cons_self]
        exact hrest.cons_cons p.1
      · rw [if_neg heq]
        exact hrest.cons p.1

/-- A hub keeps the messages with their numbers, in order, and sends every client messages in
order. -/
structure SharedOrder (s : HubShared) : Prop where
  numbered : ∀ p ∈ s.hub.buffer, p.2.number? = some p.1 ∧ p.1 ≤ s.hub.seq
  sorted : (s.hub.buffer.map Prod.fst).Pairwise (· < ·)
  sent : Ascends s.hub.seq s.hub.sent

/-- What was sent, and what a task has yet to send, is in order. -/
def TaskOrder (s : HubShared) (t : HubTask) : Prop :=
  Ascends s.hub.seq (s.hub.sent ++ t.queue s.hub)

/-- A replay has the messages of the buffer in order. -/
theorem SharedOrder.ascends_replayQueue {s : HubShared} (hs : SharedOrder s)
    (channels : List String) (client : String) (lastSeq : ℤ) :
    Ascends s.hub.seq (replayQueue channels client lastSeq s.hub.buffer) := by
  intro other
  have hsub : (numbersFor other (replayQueue channels client lastSeq s.hub.buffer)).Sublist
      (s.hub.buffer.map Prod.fst) := by
    refine (numbersFor_map_sublist other fun p hp => ?_).trans (List.filter_sublist.map _)
    exact (hs.numbered p (List.mem_of_mem_filter hp)).1
  refine ⟨hs.sorted.sublist hsub, fun n hn => ?_⟩
  obtain ⟨p, hp, rfl⟩ := List.mem_map.1 (hsub.subset hn)
  exact (hs.numbered p hp).2

/-- What was sent, and what a task has to send at a step, is in order. -/
theorem ascends_upcoming {s s' : HubShared} {t t' : HubTask} {a : HubAnswer}
    {now : List (String × WSMessage)} (hmaps : s.hub.Consistent) (hs : SharedOrder s)
    (ht : TaskOrder s t) (hnew : ReplaysNew s t a) (hstep : Sends s s' t t' a now) :
    Ascends s'.hub.seq (s.hub.sent ++ upcoming s t a) := by
  obtain ⟨hother, hseq, -⟩ | ⟨channel, message, order, time, delivers, rfl, rfl, hperm, hseq, -⟩ :=
    hstep.buffer
  · rw [hseq]
    have hnothing : Ascends s.hub.seq (s.hub.sent ++ []) := by
      rw [List.append_nil]
      exact hs.sent
    cases t with
    | broadcasting channel pc =>
        cases pc with
        | numbering message => exact absurd rfl (hother channel message)
        | sending message attempted remaining sentCount => exact ht
        | done attempted sentCount => exact ht
    | endpoint client pc =>
        cases pc with
        | locking request =>
            cases request with
            | resume lastSeq =>
                cases a with
                | acquire order time delivers =>
                    cases hanswer : s.hub.resumeAnswer client lastSeq with
                    | replay messages =>
                        rw [ReplaysNew] at hnew
                        rw [upcoming, hanswer] at hnew ⊢
                        dsimp only at hnew ⊢
                        refine ascends_append.2 ⟨hs.sent, ?_, fun other n hn m hm => ?_⟩
                        · rw [replay_eq hanswer]
                          exact hs.ascends_replayQueue _ client lastSeq
                        · obtain ⟨_, hmem, -⟩ := mem_numbersFor.1 hm
                          obtain ⟨_, _, hpair⟩ := List.mem_map.1 hmem
                          cases hpair
                          exact hnew n hn m hm
                    | _ =>
                        rw [upcoming, hanswer]
                        exact hnothing
                | _ => exact ht
            | _ => exact ht
        | _ => exact ht
  · rw [hseq]
    refine ascends_append.2 ⟨hs.sent.mono (Nat.le_succ _), ?_, fun client n hn m hm => ?_⟩
    · exact ascends_broadcast (s.hub.number?_numbered message)
        (hperm.nodup_iff.2 (hmaps.nodup channel))
    · -- the number is the next one, and all before are smaller
      obtain ⟨_, hmem, hnumber⟩ := mem_numbersFor.1 hm
      obtain ⟨_, _, hpair⟩ := List.mem_map.1 hmem
      cases hpair
      rw [s.hub.number?_numbered] at hnumber
      cases hnumber
      exact Nat.lt_succ_of_le ((hs.sent client).2 n hn)

/-- The buffer stays in order. -/
theorem SharedOrder.buffer_step {s s' : HubShared} {t t' : HubTask} {a : HubAnswer}
    {now : List (String × WSMessage)} (hs : SharedOrder s) (hstep : Sends s s' t t' a now) :
    (∀ p ∈ s'.hub.buffer, p.2.number? = some p.1 ∧ p.1 ≤ s'.hub.seq) ∧
      (s'.hub.buffer.map Prod.fst).Pairwise (· < ·) := by
  obtain ⟨-, hseq, hbuffer⟩ | ⟨channel, message, order, time, delivers, -, -, -, hseq, hbuffer⟩ :=
    hstep.buffer
  · rw [hseq, hbuffer]
    exact ⟨hs.numbered, hs.sorted⟩
  · rw [hseq, hbuffer, WebSocketHub.push]
    constructor
    · intro p hp
      rcases List.mem_append.1 (List.mem_of_mem_drop hp) with hold | hnew
      · exact ⟨(hs.numbered p hold).1, (hs.numbered p hold).2.trans (Nat.le_succ _)⟩
      · rw [List.mem_singleton.1 hnew]
        exact ⟨s.hub.number?_numbered message, le_rfl⟩
    · rw [List.map_drop, List.map_append, List.map_singleton]
      refine List.Pairwise.drop (List.pairwise_append.2
        ⟨hs.sorted, List.pairwise_singleton _ _, ?_⟩)
      intro n hn m hm
      obtain ⟨p, hp, rfl⟩ := List.mem_map.1 hn
      rw [List.mem_singleton.1 hm]
      exact Nat.lt_succ_of_le (hs.numbered p hp).2

/-- What another task has yet to send stays so. -/
theorem queue_eq {s s' : HubShared} {t t' u : HubTask} {a : HubAnswer}
    {now : List (String × WSMessage)} (hstep : Sends s s' t t' a now) (hapart : Apart t u) :
    u.queue s'.hub = u.queue s.hub := by
  cases u with
  | endpoint client pc =>
      have hchannels : s'.hub.channels client = s.hub.channels client :=
        hstep.channels client fun pc' heq => by
          subst heq
          exact hapart rfl
      cases pc with
      | replaying lastSeq remaining => rw [HubTask.queue, HubTask.queue, hchannels]
      | _ => rfl
  | broadcasting channel pc =>
      cases pc with
      | sending message attempted remaining sentCount => rfl
      | _ => rfl

theorem seq_le {s s' : HubShared} {t t' : HubTask} {a : HubAnswer}
    {now : List (String × WSMessage)} (hstep : Sends s s' t t' a now) :
    s.hub.seq ≤ s'.hub.seq := by
  obtain ⟨-, hseq, -⟩ | ⟨channel, message, order, time, delivers, -, -, -, hseq, -⟩ := hstep.buffer
  · rw [hseq]
  · rw [hseq]
    exact Nat.le_succ _

/-- A step keeps the order of its own task. -/
theorem taskOrder_step {s s' : HubShared} {t t' : HubTask} {a : HubAnswer}
    {now : List (String × WSMessage)} (hstep : Sends s s' t t' a now)
    (hascends : Ascends s'.hub.seq (s.hub.sent ++ upcoming s t a)) : TaskOrder s' t' := by
  rw [TaskOrder, hstep.sent]
  obtain ⟨hnone, hnow, hqueue⟩ | ⟨x, rest, hupcoming, hnow, hqueue⟩ := hstep.next
  · rw [hnone, List.append_nil] at hascends
    rw [hqueue, List.append_nil]
    exact hascends.append_unnumbered hnow
  · rw [hupcoming] at hascends
    rw [hqueue]
    obtain rfl | ⟨-, rfl⟩ := hnow
    · rw [List.append_nil]
      exact hascends.sublist ((List.Sublist.refl _).append (List.sublist_cons_self x rest))
    · rw [List.append_assoc]
      exact hascends

/-- It keeps the order of the others if it does not overtake them. -/
theorem taskOrder_other {s s' : HubShared} {t t' u : HubTask} {a : HubAnswer}
    {now : List (String × WSMessage)} (hstep : Sends s s' t t' a now) (hapart : Apart t u)
    (hu : TaskOrder s u) (hsent : Ascends s'.hub.seq s'.hub.sent)
    (hturn : ∀ x ∈ (upcoming s t a).head?, a.delivers = true → ∀ n ∈ x.2.number?,
      ∀ m ∈ numbersFor x.1 (u.queue s.hub), n < m) : TaskOrder s' u := by
  have hold := ascends_append.1 (hu.mono (seq_le hstep))
  rw [TaskOrder, queue_eq hstep hapart]
  refine ascends_append.2 ⟨hsent, hold.2.1, fun client n hn m hm => ?_⟩
  rw [hstep.sent, numbersFor_append, List.mem_append] at hn
  rcases hn with hn | hn
  · exact hold.2.2 client n hn m hm
  · obtain ⟨hnone, hnow, -⟩ | ⟨x, rest, hupcoming, hnow, -⟩ := hstep.next
    · rw [numbersFor_eq_nil hnow] at hn
      cases hn
    · obtain rfl | ⟨hdelivers, rfl⟩ := hnow
      · cases hn
      · obtain ⟨message, hmem, hnumber⟩ := mem_numbersFor.1 hn
        obtain rfl := List.mem_singleton.1 hmem
        exact hturn (client, message) (by rw [hupcoming]; rfl) hdelivers n hnumber m hm

/-! ### Runs -/

/-- The invariant of the maps and the order. -/
def OrderInv (p : TaskPool HubShared HubTask) : Prop :=
  Inv p ∧ p.Inv SharedOrder TaskOrder fun _ _ => True

theorem orderInv_start (bufferSize : ℕ) : OrderInv (start bufferSize) :=
  ⟨inv_start bufferSize, TaskPool.inv_of_nil
    ⟨(fun _ h => by cases h), List.Pairwise.nil,
      fun _ => ⟨List.Pairwise.nil, fun _ h => by cases h⟩⟩⟩

theorem orderInv_step {p q : TaskPool HubShared HubTask} {l : TaskLabel HubEntry HubAnswer Empty}
    (hp : OrderInv p) (hl : Undisturbed p l) (h : system.step p l = some q) : OrderInv q := by
  obtain ⟨hinv, horder⟩ := hp
  refine ⟨step_inv hinv h, ?_⟩
  refine TaskSystem.step_inv (P := fun p l => Inv p ∧ Undisturbed p l)
    ⟨fun _ _ _ => trivial, ?_, ?_, fun p k => k.elim⟩ horder ⟨hinv, hl⟩ h
  · intro p entry s t hp _ henter
    -- a task that starts has nothing to send yet
    have hshared : s.hub = p.shared.hub ∧ t.queue s.hub = [] := by
      cases entry with
      | accept client =>
          dsimp only [system, enter] at henter
          split at henter
          · cases henter
          · cases henter
            exact ⟨rfl, rfl⟩
      | broadcast channel message =>
          cases henter
          exact ⟨rfl, rfl⟩
    obtain ⟨hhub, hqueue⟩ := hshared
    have hshared : SharedOrder s := by
      have := hp.shared
      exact ⟨hhub ▸ this.numbered, hhub ▸ this.sorted, hhub ▸ this.sent⟩
    refine ⟨hshared, ?_, fun u hu => ⟨?_, trivial⟩⟩
    · rw [TaskOrder, hqueue, List.append_nil]
      exact hshared.sent
    · rw [TaskOrder, hhub]
      exact hp.mem hu
  · rintro p i a t s t' hp ⟨hinv, hl⟩ ht hresume
    obtain ⟨now, hstep⟩ := resume_sends hresume
    obtain ⟨hturn, hnew⟩ := hl t ht
    have hascends := ascends_upcoming hinv.shared.consistent hp.shared (hp.task i t ht) hnew hstep
    have htask := taskOrder_step hstep hascends
    have hsent : Ascends s.hub.seq s.hub.sent := htask.sublist (List.sublist_append_left _ _)
    obtain ⟨hnumbered, hsorted⟩ := hp.shared.buffer_step hstep
    refine ⟨⟨hnumbered, hsorted, hsent⟩, htask, fun j u hj hu => ⟨?_, trivial⟩⟩
    refine taskOrder_other hstep (hinv.pair i j t u hj.symm ht hu) (hp.task j u hu) hsent ?_
    intro x hx hdelivers n hn
    exact hturn x hx hdelivers n hn u (List.mem_eraseIdx_iff_getElem?.2 ⟨j, hj, hu⟩)

/-- In every run whose steps overtake nothing, and whose replays begin after what was sent, the
numbers of the messages on every connection increase. -/
theorem delivered_increasing (bufferSize : ℕ) (ls : List (TaskLabel HubEntry HubAnswer Empty))
    (p : TaskPool HubShared HubTask)
    (hmeets : Transition.Meets system.step Undisturbed (start bufferSize) ls)
    (h : Transition.exec system.step (start bufferSize) ls = some p) :
    ∀ client, (delivered p.shared.hub client).Pairwise (· < ·) := by
  have hp := Transition.exec_invariant_of_meets (fun _ _ _ => orderInv_step)
    (orderInv_start bufferSize) hmeets h
  exact fun client => (hp.2.shared.sent client).1

/-- Two clients, of which the second resumes after the first of two messages while the second
message is on its way. -/
def resumeMeanwhile : List (TaskLabel HubEntry HubAnswer Empty) :=
  let message : WSMessage := { type := .position, channel := some "positions" }
  [.enter (.accept "first"), .resume 0 (.acquire [] 0 true),
    .resume 0 (.received (.subscribe "positions")), .resume 0 (.acquire [] 0 true),
    .enter (.accept "second"), .resume 1 (.acquire [] 0 true),
    .resume 1 (.received (.subscribe "positions")), .resume 1 (.acquire [] 0 true),
    .resume 1 (.goOn true),
    .enter (.broadcast "positions" message), .resume 2 (.acquire ["first", "second"] 0 true),
    .resume 2 (.goOn true), .resume 2 (.goOn true),
    .enter (.broadcast "positions" message), .resume 3 (.acquire ["first", "second"] 0 true),
    .resume 1 (.received (.resume 1)), .resume 1 (.acquire [] 0 true), .resume 1 (.goOn true),
    .resume 3 (.goOn true)]

theorem delivered_increasing_first : ∃ p,
    Transition.exec system.step (start 1000) (resumeMeanwhile.take 15) = some p ∧
      delivered p.shared.hub "first" = [1, 2] ∧
      ∀ client, (delivered p.shared.hub client).Pairwise (· < ·) :=
  ⟨_, rfl, rfl, delivered_increasing 1000 (resumeMeanwhile.take 15) _ (by decide) rfl⟩

/-- The second client gets the second message from the buffer and from the broadcast. -/
theorem message_twice : ∃ p,
    Transition.exec system.step (start 1000) resumeMeanwhile = some p ∧
      delivered p.shared.hub "second" = [1, 2, 2] ∧
      ¬ ∀ client, (delivered p.shared.hub client).Pairwise (· < ·) := by
  refine ⟨_, rfl, rfl, fun h => ?_⟩
  exact absurd (h "second") (by decide : ¬ [1, 2, 2].Pairwise (· < ·))

end HubTasks
