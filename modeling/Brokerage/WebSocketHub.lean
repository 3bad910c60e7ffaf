/-
**The hub for messages to web clients.**

Clients connect to the hub and subscribe to channels.  A message that is broadcast on a channel gets
the next sequence number, is kept in a buffer, and is sent to every client that is subscribed to
the channel and connected.  A client that comes back gets what it has missed from the buffer.  The
sends of this module all succeed, and what the sockets were given is recorded with the hub.

Python does not check the number of arguments before a call is made, so the functions that build
messages take a list of arguments here, and raise if there are not as many as they need.

Main definitions:

* `WsValue`, `WSMessage` — the payloads and the messages;
* `WSMessage.createPositionMessage` and its siblings — building a message from arguments;
* `WebSocketHub` with `connect`, `disconnect`, `subscribe`, `unsubscribe`, `broadcast` and `resume`.

Main results:

* `WebSocketHub.sent_broadcast` — a broadcast message reaches the connected subscribers, and they
  alone.
-/

import Brokerage.Dict

set_option relaxedAutoImplicit false
set_option autoImplicit false

/-- A value of a payload. -/
inductive WsValue
  | null
  | num (q : ℚ)
  | str (s : String)
  | time (t : ℚ)
  | dict (fields : List (String × WsValue))

/-- What a field of a dictionary has. -/
def WsValue.get? (key : String) : WsValue → Option WsValue
  | .dict fields => fields.lookup key
  | _ => none

/-- The types of the messages. -/
inductive WSMessageType
  | position
  | balance
  | execution
  | subscribed
  | unsubscribed
  | error
  | resyncRequired
  deriving DecidableEq

/-- A message. -/
structure WSMessage where
  type : WSMessageType
  seq : Option WsValue := none
  data : Option WsValue := none
  channel : Option String := none
  timestamp : Option WsValue := none
  error : Option String := none

/-- What ends a broadcast before it reaches the hub. -/
inductive BroadcastError
  /-- `TypeError`: a function is called without all of its arguments. -/
  | missingArguments (function : String)
  /-- `AttributeError`: an object does not have the attribute. -/
  | noAttribute (name : String)
  deriving DecidableEq

namespace WSMessage

/-- A message about a position, from the sequence number, the action, the position and the time. -/
def createPositionMessage : List WsValue → Except BroadcastError WSMessage
  | [seq, action, positionData, timestamp] => .ok {
      type := .position
      seq := some seq
      channel := some "positions"
      data := some (.dict [("action", action), ("position", positionData)])
      timestamp := some timestamp }
  | _ => .error (.missingArguments "create_position_message")

/-- A message about the balance, from the sequence number, the balance and the time. -/
def createBalanceMessage : List WsValue → Except BroadcastError WSMessage
  | [seq, balanceData, timestamp] => .ok {
      type := .balance
      seq := some seq
      channel := some "balance"
      data := some balanceData
      timestamp := some timestamp }
  | _ => .error (.missingArguments "create_balance_message")

/-- A message about an execution, from the sequence number, the execution and the time. -/
def createExecutionMessage : List WsValue → Except BroadcastError WSMessage
  | [seq, executionData, timestamp] => .ok {
      type := .execution
      seq := some seq
      channel := some "execution"
      data := some executionData
      timestamp := some timestamp }
  | _ => .error (.missingArguments "create_execution_message")

/-- The confirmation of a subscription. -/
def createSubscribedMessage (channel : String) (now : ℚ) : WSMessage where
  type := .subscribed
  channel := some channel
  data := some (.dict [("status", .str "subscribed")])
  timestamp := some (.time now)

/-- The confirmation of the end of a subscription. -/
def createUnsubscribedMessage (channel : String) (now : ℚ) : WSMessage where
  type := .unsubscribed
  channel := some channel
  data := some (.dict [("status", .str "unsubscribed")])
  timestamp := some (.time now)

def createErrorMessage (error : String) (now : ℚ) : WSMessage where
  type := .error
  timestamp := some (.time now)
  error := some error

/-- The message that asks a client to start anew. -/
def createResyncRequiredMessage (reason : String) (lastAvailableSeq : ℕ) (now : ℚ) : WSMessage where
  type := .resyncRequired
  data := some (.dict [("reason", .str reason), ("last_available_seq", .num lastAvailableSeq)])
  timestamp := some (.time now)

end WSMessage

/-- The hub.  Of a connection only the messages matter that were sent over it: `sent` has them with
the clients they went to, oldest first. -/
structure WebSocketHub where
  connections : List String
  subscriptions : Dict String (List String)
  channelSubscribers : Dict String (List String)
  seq : ℕ
  buffer : List (ℕ × WSMessage)
  bufferSize : ℕ
  sent : List (String × WSMessage)

namespace WebSocketHub

/-- A hub without clients. -/
def init (bufferSize : ℕ) : WebSocketHub where
  connections := []
  subscriptions := Dict.empty
  channelSubscribers := Dict.empty
  seq := 0
  buffer := []
  bufferSize := bufferSize
  sent := []

/-- The clients subscribed to a channel. -/
def subscribers (h : WebSocketHub) (channel : String) : List String :=
  (h.channelSubscribers.get? channel).getD []

/-- Sending a message to a client; nothing is sent to a client that is not connected. -/
def sendToClient (h : WebSocketHub) (message : WSMessage) (client : String) : WebSocketHub :=
  if client ∈ h.connections then { h with sent := h.sent ++ [(client, message)] } else h

/-- A client connects. -/
def connect (h : WebSocketHub) (client : String) : WebSocketHub :=
  { h with
    connections := h.connections.insert client
    subscriptions := h.subscriptions.set client [] }

/-- The channels of a client. -/
def channels (h : WebSocketHub) (client : String) : List String :=
  (h.subscriptions.get? client).getD []

/-- A client is taken out of the subscribers of a channel; where none is left, the channel is. -/
def discard (client : String) (d : Dict String (List String)) (channel : String) :
    Dict String (List String) :=
  match d.get? channel with
  | none => d
  | some clients =>
      let left := clients.filter (· ≠ client)
      if left = [] then d.erase channel else d.set channel left

/-- A client disconnects. -/
def disconnect (h : WebSocketHub) (client : String) : WebSocketHub :=
  { h with
    channelSubscribers := (h.channels client).foldl (discard client) h.channelSubscribers
    subscriptions := h.subscriptions.erase client
    connections := h.connections.filter (· ≠ client) }

/-- The subscription of a client to a channel is noted. -/
def addSubscription (h : WebSocketHub) (client channel : String) : WebSocketHub :=
  { h with
    subscriptions := h.subscriptions.set client ((h.channels client).insert channel)
    channelSubscribers := h.channelSubscribers.set channel ((h.subscribers channel).insert client) }

/-- It is forgotten. -/
def removeSubscription (h : WebSocketHub) (client channel : String) : WebSocketHub :=
  { h with
    subscriptions :=
      match h.subscriptions.get? client with
      | none => h.subscriptions
      | some channels => h.subscriptions.set client (channels.filter (· ≠ channel))
    channelSubscribers := discard client h.channelSubscribers channel }

/-- A client subscribes to a channel, if it is connected, and gets a confirmation. -/
def subscribe (h : WebSocketHub) (client channel : String) (now : ℚ) : WebSocketHub :=
  if client ∈ h.connections then
    ({ h with
        subscriptions := h.subscriptions.set client
          (((h.subscriptions.get? client).getD []).insert channel)
        channelSubscribers := h.channelSubscribers.set channel
          ((h.subscribers channel).insert client) } : WebSocketHub).sendToClient
      (WSMessage.createSubscribedMessage channel now) client
  else h

theorem subscribe_eq (h : WebSocketHub) (client channel : String) (now : ℚ) :
    h.subscribe client channel now =
      if client ∈ h.connections then
        (h.addSubscription client channel).sendToClient
          (WSMessage.createSubscribedMessage channel now) client
      else h := rfl

/-- A client unsubscribes from a channel, if it is connected, and gets a confirmation. -/
def unsubscribe (h : WebSocketHub) (client channel : String) (now : ℚ) : WebSocketHub :=
  if client ∈ h.connections then
    (h.removeSubscription client channel).sendToClient
      (WSMessage.createUnsubscribedMessage channel now) client
  else h

/-- The buffer keeps as many messages as its size allows. -/
def push (h : WebSocketHub) (message : WSMessage) : List (ℕ × WSMessage) :=
  let buffer := h.buffer ++ [(h.seq + 1, message)]
  buffer.drop (buffer.length - h.bufferSize)

/-- A message with the next sequence number. -/
def numbered (h : WebSocketHub) (message : WSMessage) : WSMessage :=
  { message with seq := some (.num (h.seq + 1 : ℕ)) }

/-- Broadcasting a message on a channel. -/
def broadcast (h : WebSocketHub) (channel : String) (message : WSMessage) : WebSocketHub :=
  let message := h.numbered message
  (h.subscribers channel).foldl (fun h client => h.sendToClient message client)
    { h with seq := h.seq + 1, buffer := h.push message }

/-- Whether a message is on one of some channels. -/
def onChannels (channels : List String) (message : WSMessage) : Bool :=
  match message.channel with
  | none => false
  | some channel => channel ≠ "" ∧ channel ∈ channels

/-- What the buffer says to a client that comes back. -/
inductive ResumeAnswer
  | upToDate
  | resync (oldestSeq : ℕ)
  | replay (messages : List WSMessage)

def resumeAnswer (h : WebSocketHub) (client : String) (lastSeq : ℤ) : ResumeAnswer :=
  match h.buffer with
  | [] => .upToDate
  | (oldestSeq, message) :: more =>
      let newestSeq := (more.getLastD (oldestSeq, message)).1
      if lastSeq < oldestSeq then .resync oldestSeq
      else if newestSeq < lastSeq then .upToDate
      else .replay ((((oldestSeq, message) :: more).filter fun p =>
        ¬ (p.1 : ℤ) ≤ lastSeq ∧ onChannels (h.channels client) p.2).map Prod.snd)

/-- A client that comes back gets the messages after the last one that it has got, unless the buffer
says that it has to start anew. -/
def resume (h : WebSocketHub) (client : String) (lastSeq : ℤ) (now : ℚ) : Bool × WebSocketHub :=
  if client ∈ h.connections then
    match h.resumeAnswer client lastSeq with
    | .upToDate => (true, h)
    | .resync oldestSeq => (false, h.sendToClient
        (WSMessage.createResyncRequiredMessage "buffer_overflow" oldestSeq now) client)
    | .replay messages =>
        (true, messages.foldl (fun h message => h.sendToClient message client) h)
  else (false, h)

/-- What was sent to a client on a channel. -/
def received (h : WebSocketHub) (client channel : String) : List WSMessage :=
  (h.sent.filter fun p => p.1 = client ∧ p.2.channel = some channel).map Prod.snd

/-- Sending a message to some clients, one after the other. -/
theorem foldl_sendToClient (h : WebSocketHub) (message : WSMessage) (clients : List String) :
    clients.foldl (fun h client => h.sendToClient message client) h =
      { h with sent := h.sent ++
          (clients.filter fun client => client ∈ h.connections).map fun client =>
            (client, message) } := by
  induction clients generalizing h with
  | nil => simp
  | cons client clients ih =>
      rw [List.foldl_cons, ih, sendToClient]
      by_cases hconnected : client ∈ h.connections
      · simp [hconnected]
      · simp [hconnected]

/-- Sending some messages to a client that is connected. -/
theorem foldl_replay (h : WebSocketHub) {client : String} (hconnected : client ∈ h.connections)
    (messages : List WSMessage) :
    messages.foldl (fun h message => h.sendToClient message client) h =
      { h with sent := h.sent ++ messages.map fun message => (client, message) } := by
  induction messages generalizing h with
  | nil => simp
  | cons message messages ih =>
      have hsend : h.sendToClient message client =
          { h with sent := h.sent ++ [(client, message)] } := if_pos hconnected
      rw [List.foldl_cons, hsend, ih { h with sent := h.sent ++ [(client, message)] } hconnected]
      simp

/-- A message that is broadcast reaches the subscribers of the channel that are connected, with the
next sequence number, and is sent to nobody else. -/
theorem sent_broadcast (h : WebSocketHub) (channel : String) (message : WSMessage) :
    (h.broadcast channel message).sent = h.sent ++
      ((h.subscribers channel).filter fun client => client ∈ h.connections).map fun client =>
        (client, h.numbered message) := by
  rw [broadcast, foldl_sendToClient]

end WebSocketHub
