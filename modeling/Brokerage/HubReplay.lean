/-
**Coming back to the hub.**

The hub numbers the messages and keeps the last ones in a buffer.  A client that comes back tells
the number of the last message that it has got.  If the buffer still has every message after it,
these are sent to the client, as far as they are on its channels; otherwise the client has to start
anew.  The hub asks for a new start if the number is smaller than the oldest one of the buffer,
although the predecessor of the oldest one is late enough, and an empty buffer counts as having
every message.

Main definitions:

* `HubCall`, `WebSocketHub.after` — the calls of the hub, and the hub after some;
* `WebSocketHub.ResumeContract` — what a return should do;
* `WebSocketHub.ResumesRight` — when it does.

Main results:

* `WebSocketHub.buffered_after` — the numbers in the buffer;
* `WebSocketHub.resume_iff` — exactly when the contract is kept;
* `WebSocketHub.asks_needlessly` — a client that has to start anew although nothing is lost.
-/

import Brokerage.WebSocketHub

set_option relaxedAutoImplicit false
set_option autoImplicit false

/-- A call of the hub, run to its end. -/
inductive HubCall
  | connect (client : String)
  | disconnect (client : String)
  | subscribe (client channel : String) (now : ℚ)
  | unsubscribe (client channel : String) (now : ℚ)
  | broadcast (channel : String) (message : WSMessage)
  | resume (client : String) (lastSeq : ℤ) (now : ℚ)

/-- Whether a call is a broadcast. -/
def HubCall.isBroadcast : HubCall → Bool
  | .broadcast .. => true
  | _ => false

namespace WebSocketHub

/-- The hub after a call. -/
def call (h : WebSocketHub) : HubCall → WebSocketHub
  | .connect client => h.connect client
  | .disconnect client => h.disconnect client
  | .subscribe client channel now => h.subscribe client channel now
  | .unsubscribe client channel now => h.unsubscribe client channel now
  | .broadcast channel message => h.broadcast channel message
  | .resume client lastSeq now => (h.resume client lastSeq now).2

/-- The hub after some calls, from its start on. -/
def after (bufferSize : ℕ) (calls : List HubCall) : WebSocketHub :=
  calls.foldl call (init bufferSize)

/-! ### The contract -/

/-- The number of a message is still in the buffer. -/
def Buffered (h : WebSocketHub) (n : ℕ) : Prop := n ∈ h.buffer.map Prod.fst

/-- What the return of a client should do: it succeeds just if every message after the last one is
still in the buffer, and then the client is sent those that are on its channels, in order; and a new
start is asked for only if some message after the last one is lost. -/
structure ResumeContract (h : WebSocketHub) (client : String) (lastSeq : ℕ) (now : ℚ) : Prop where
  result : (h.resume client lastSeq now).1 = true ↔
    ∀ n, lastSeq < n → n ≤ h.seq → h.Buffered n
  replayed : (h.resume client lastSeq now).1 = true →
    (h.resume client lastSeq now).2.sent = h.sent ++
      (h.buffer.filter fun p => lastSeq < p.1 ∧ ∃ channel ∈ h.channels client,
        p.2.channel = some channel).map fun p => (client, p.2)
  resync : ∀ oldestSeq, h.resumeAnswer client lastSeq = .resync oldestSeq →
    ∃ n, lastSeq < n ∧ n ≤ h.seq ∧ ¬ h.Buffered n

/-- When a return does that, by the size of the buffer and the number of broadcasts: nothing has
been broadcast; or the buffer has no place, and the last message is the newest; or the last message
is not the one before the oldest in the buffer. -/
def ResumesRight (bufferSize broadcasts lastSeq : ℕ) : Prop :=
  broadcasts = 0 ∨ (bufferSize = 0 ∧ lastSeq = broadcasts) ∨
    (0 < bufferSize ∧ lastSeq ≠ broadcasts - bufferSize)

/-! ### The buffer -/

/-- The numbers in the buffer are the last ones that were given. -/
def BufferInv (h : WebSocketHub) : Prop :=
  h.buffer.map Prod.fst =
    List.range' (h.seq - min h.bufferSize h.seq + 1) (min h.bufferSize h.seq)

theorem bufferInv_init (bufferSize : ℕ) : (init bufferSize).BufferInv := by
  simp [BufferInv, init]

theorem sendToClient_eq (h : WebSocketHub) (message : WSMessage) (client : String) :
    ∃ sent, h.sendToClient message client = { h with sent := sent } := by
  rw [sendToClient]
  split
  · exact ⟨_, rfl⟩
  · exact ⟨h.sent, rfl⟩

/-- The messages of a call change nothing but what was sent; only a broadcast takes a number, and
pushes its message. -/
theorem call_spec (h : WebSocketHub) (c : HubCall) : (h.call c).bufferSize = h.bufferSize ∧
    ((c.isBroadcast = false ∧ (h.call c).seq = h.seq ∧ (h.call c).buffer = h.buffer) ∨
      ∃ message, c.isBroadcast = true ∧ (h.call c).seq = h.seq + 1 ∧
        (h.call c).buffer = h.push message) := by
  cases c with
  | connect client => exact ⟨rfl, Or.inl ⟨rfl, rfl, rfl⟩⟩
  | disconnect client => exact ⟨rfl, Or.inl ⟨rfl, rfl, rfl⟩⟩
  | subscribe client channel now =>
      rw [call, subscribe_eq]
      split
      · obtain ⟨sent, hsent⟩ := sendToClient_eq (h.addSubscription client channel)
          (WSMessage.createSubscribedMessage channel now) client
        rw [hsent]
        exact ⟨rfl, Or.inl ⟨rfl, rfl, rfl⟩⟩
      · exact ⟨rfl, Or.inl ⟨rfl, rfl, rfl⟩⟩
  | unsubscribe client channel now =>
      rw [call, unsubscribe]
      split
      · obtain ⟨sent, hsent⟩ := sendToClient_eq (h.removeSubscription client channel)
          (WSMessage.createUnsubscribedMessage channel now) client
        rw [hsent]
        exact ⟨rfl, Or.inl ⟨rfl, rfl, rfl⟩⟩
      · exact ⟨rfl, Or.inl ⟨rfl, rfl, rfl⟩⟩
  | broadcast channel message =>
      rw [call, broadcast, foldl_sendToClient]
      exact ⟨rfl, Or.inr ⟨h.numbered message, rfl, rfl, rfl⟩⟩
  | resume client lastSeq now =>
      rw [call, resume]
      split
      · split
        · exact ⟨rfl, Or.inl ⟨rfl, rfl, rfl⟩⟩
        · rename_i oldestSeq _
          obtain ⟨sent, hsent⟩ := sendToClient_eq h
            (WSMessage.createResyncRequiredMessage "buffer_overflow" oldestSeq now) client
          rw [hsent]
          exact ⟨rfl, Or.inl ⟨rfl, rfl, rfl⟩⟩
        · rw [foldl_replay h ‹_›]
          exact ⟨rfl, Or.inl ⟨rfl, rfl, rfl⟩⟩
      · exact ⟨rfl, Or.inl ⟨rfl, rfl, rfl⟩⟩

/-- A broadcast pushes the next number, and the oldest one out of a full buffer. -/
theorem BufferInv.push {h : WebSocketHub} (hinv : h.BufferInv) (message : WSMessage) :
    (h.push message).map Prod.fst = List.range' (h.seq + 1 - min h.bufferSize (h.seq + 1) + 1)
      (min h.bufferSize (h.seq + 1)) := by
  have hlength : h.buffer.length = min h.bufferSize h.seq := by
    rw [← List.length_map Prod.fst, hinv, List.length_range']
  have hnext : h.seq + 1 = h.seq - min h.bufferSize h.seq + 1 + min h.bufferSize h.seq := by omega
  rw [WebSocketHub.push, List.map_drop, List.map_append, hinv, List.map_singleton, hnext,
    ← List.range'_1_concat, List.drop_range', List.length_append, hlength, List.length_singleton]
  congr 1
  · omega
  · omega

theorem bufferInv_call {h : WebSocketHub} (hinv : h.BufferInv) (c : HubCall) :
    (h.call c).BufferInv := by
  obtain ⟨hsize, ⟨-, hseq, hbuffer⟩ | ⟨message, -, hseq, hbuffer⟩⟩ := call_spec h c
  · rwa [BufferInv, hseq, hbuffer, hsize]
  · rw [BufferInv, hseq, hbuffer, hsize]
    exact hinv.push message

/-- Calls leave the last numbers in the buffer, and every broadcast takes one. -/
theorem foldl_call {h : WebSocketHub} (hinv : h.BufferInv) (calls : List HubCall) :
    (calls.foldl call h).BufferInv ∧ (calls.foldl call h).bufferSize = h.bufferSize ∧
      (calls.foldl call h).seq = h.seq + calls.countP HubCall.isBroadcast := by
  induction calls generalizing h with
  | nil => exact ⟨hinv, rfl, rfl⟩
  | cons c calls ih =>
      obtain ⟨hinv', hsize, hseq⟩ := ih (bufferInv_call hinv c)
      rw [List.foldl_cons, hsize, hseq, List.countP_cons]
      obtain ⟨hsize', ⟨hc, hseq', -⟩ | ⟨message, hc, hseq', -⟩⟩ := call_spec h c
      · rw [hseq', hc]
        exact ⟨hinv', hsize', rfl⟩
      · rw [hseq', hc]
        exact ⟨hinv', hsize', by simp only [if_true]; omega⟩

theorem buffered_after (bufferSize : ℕ) (calls : List HubCall) :
    (after bufferSize calls).BufferInv ∧ (after bufferSize calls).bufferSize = bufferSize ∧
      (after bufferSize calls).seq = calls.countP HubCall.isBroadcast := by
  obtain ⟨hinv, hsize, hseq⟩ := foldl_call (bufferInv_init bufferSize) calls
  exact ⟨hinv, hsize, hseq.trans (Nat.zero_add _)⟩

theorem BufferInv.buffered_iff {h : WebSocketHub} (hinv : h.BufferInv) {n : ℕ} :
    h.Buffered n ↔ h.seq - h.bufferSize < n ∧ n ≤ h.seq := by
  rw [Buffered, hinv, List.mem_range'_1]
  omega

/-! ### What a return does -/

/-- What the buffer says depends on the oldest number in it. -/
theorem BufferInv.resumeAnswer_cases {h : WebSocketHub} (hinv : h.BufferInv) (client : String)
    {lastSeq : ℕ} (hle : lastSeq ≤ h.seq) :
    (h.resumeAnswer client lastSeq = .upToDate ∧ (h.bufferSize = 0 ∨ h.seq = 0)) ∨
      (h.resumeAnswer client lastSeq = .resync (h.seq - h.bufferSize + 1) ∧
        lastSeq ≤ h.seq - h.bufferSize ∧ 0 < h.bufferSize ∧ 0 < h.seq) ∨
      (h.resumeAnswer client lastSeq = .replay ((h.buffer.filter fun p =>
          ¬ (p.1 : ℤ) ≤ lastSeq ∧ onChannels (h.channels client) p.2).map Prod.snd) ∧
        h.seq - h.bufferSize < lastSeq ∧ 0 < h.bufferSize) := by
  rw [resumeAnswer]
  cases hbuffer : h.buffer with
  | nil =>
      refine Or.inl ⟨rfl, ?_⟩
      rw [BufferInv, hbuffer, List.map_nil, eq_comm, List.range'_eq_nil_iff] at hinv
      omega
  | cons p more =>
      obtain ⟨oldestSeq, message⟩ := p
      have hnumbers := hinv
      rw [BufferInv, hbuffer, List.map_cons] at hnumbers
      dsimp only at hnumbers
      have hpos : 0 < min h.bufferSize h.seq := by
        have hlength := congrArg List.length hnumbers
        rw [List.length_cons, List.length_range'] at hlength
        omega
      have holdest : oldestSeq = h.seq - h.bufferSize + 1 := by
        have hhead := congrArg List.head? hnumbers
        rw [List.head?_cons, List.head?_range', if_neg hpos.ne', Option.some.injEq] at hhead
        omega
      have hnewest : (more.getLastD (oldestSeq, message)).1 = h.seq := by
        have hlast := congrArg List.getLast? hnumbers
        rw [List.getLast?_cons, List.getLast?_range', if_neg hpos.ne', Option.some.injEq,
          ← List.getLastD_eq_getLast?] at hlast
        have hmap : (more.map Prod.fst).getLastD oldestSeq =
            (more.getLastD (oldestSeq, message)).1 :=
          List.getLastD_map (f := Prod.fst) (l := more) (a := (oldestSeq, message))
        omega
      dsimp only
      rw [hnewest]
      split
      · rename_i hlt
        refine Or.inr (Or.inl ⟨by rw [holdest], by omega, by omega, by omega⟩)
      · rename_i hge
        rw [if_neg (by omega)]
        exact Or.inr (Or.inr ⟨rfl, by omega, by omega⟩)

variable {h : WebSocketHub} {client : String} {lastSeq : ℕ} {now : ℚ}

/-- Every message after the last one is in the buffer just if the oldest one there comes next at the
latest. -/
theorem BufferInv.forall_buffered_iff (hinv : h.BufferInv) (hle : lastSeq ≤ h.seq) :
    (∀ n, lastSeq < n → n ≤ h.seq → h.Buffered n) ↔ h.seq - h.bufferSize ≤ lastSeq := by
  constructor
  · intro hall
    by_contra hnot
    have hnext := hinv.buffered_iff.1 (hall (lastSeq + 1) (by omega) (by omega))
    omega
  · intro hle n hlt hn
    exact hinv.buffered_iff.2 ⟨by omega, hn⟩

/-- The messages after the last one that are on the channels of a client. -/
theorem filter_onChannels {channels : List String} (hchannels : "" ∉ channels)
    (buffer : List (ℕ × WSMessage)) :
    ((buffer.filter fun p => ¬ (p.1 : ℤ) ≤ lastSeq ∧ onChannels channels p.2).map Prod.snd).map
        (fun message => (client, message)) =
      (buffer.filter fun p => lastSeq < p.1 ∧ ∃ channel ∈ channels,
        p.2.channel = some channel).map fun p => (client, p.2) := by
  rw [List.map_map]
  congr 1
  refine List.filter_congr fun p _ => ?_
  rw [decide_eq_decide, not_le, Int.ofNat_lt]
  refine and_congr_right fun _ => ?_
  rw [onChannels]
  cases hchannel : p.2.channel with
  | none => simp
  | some channel =>
      simp only [Option.some.injEq, decide_eq_true_eq]
      constructor
      · rintro ⟨-, hmem⟩
        exact ⟨channel, hmem, rfl⟩
      · rintro ⟨_, hmem, rfl⟩
        exact ⟨fun hempty => hchannels (hempty ▸ hmem), hmem⟩

/-- The contract of a return that succeeds, and has sent some messages. -/
theorem resumeContract_of_true (hinv : h.BufferInv) (hle : lastSeq ≤ h.seq)
    (hkept : h.seq - h.bufferSize ≤ lastSeq)
    (hresync : ∀ n, h.resumeAnswer client lastSeq ≠ .resync n)
    {messages : List (String × WSMessage)}
    (heq : h.resume client lastSeq now = (true, { h with sent := h.sent ++ messages }))
    (hmessages : messages = (h.buffer.filter fun p => lastSeq < p.1 ∧
      ∃ channel ∈ h.channels client, p.2.channel = some channel).map fun p => (client, p.2)) :
    h.ResumeContract client lastSeq now := by
  refine ⟨?_, fun _ => ?_, fun n hn => absurd hn (hresync n)⟩
  · rw [heq]
    exact iff_of_true rfl ((hinv.forall_buffered_iff hle).2 hkept)
  · rw [heq, hmessages]

/-- The contract is kept just if the last message is not the one before the oldest in the buffer, or
nothing is in the buffer and nothing is lost. -/
theorem resumeContract_iff (hinv : h.BufferInv) (hconnected : client ∈ h.connections)
    (hchannels : "" ∉ h.channels client) (hle : lastSeq ≤ h.seq) :
    h.ResumeContract client lastSeq now ↔ ResumesRight h.bufferSize h.seq lastSeq := by
  have hresume : h.resume client lastSeq now = _ := if_pos hconnected
  have hall := hinv.forall_buffered_iff hle
  obtain ⟨hanswer, hzero⟩ | ⟨hanswer, hlost, hsize, hseq⟩ | ⟨hanswer, hkept, hsize⟩ :=
    hinv.resumeAnswer_cases client hle
  · rw [hanswer] at hresume
    dsimp only at hresume
    -- the buffer is empty
    have hempty : h.buffer = [] := by
      rw [← List.map_eq_nil_iff (f := Prod.fst), hinv, List.range'_eq_nil_iff]
      omega
    constructor
    · intro hcontract
      have hkept := hall.1 (hcontract.result.1 (by rw [hresume]))
      rw [ResumesRight]
      omega
    · intro hright
      have hnone : h.resume client lastSeq now = (true, { h with sent := h.sent ++ [] }) := by
        rw [hresume, List.append_nil]
      refine resumeContract_of_true hinv hle ?_ (fun n hn => ?_) hnone ?_
      · rw [ResumesRight] at hright
        omega
      · rw [hanswer] at hn
        cases hn
      · rw [hempty]
        rfl
  · rw [hanswer] at hresume
    dsimp only at hresume
    constructor
    · intro hcontract
      obtain ⟨n, hlt, hn, hnot⟩ := hcontract.resync _ hanswer
      rw [hinv.buffered_iff] at hnot
      rw [ResumesRight]
      omega
    · intro hright
      have hbefore : lastSeq < h.seq - h.bufferSize := by
        rw [ResumesRight] at hright
        omega
      refine ⟨?_, fun htrue => ?_, fun _ _ => ⟨lastSeq + 1, by omega, by omega, ?_⟩⟩
      · rw [hresume, hall]
        exact iff_of_false (fun h => by cases h) (by omega)
      · rw [hresume] at htrue
        cases htrue
      · rw [hinv.buffered_iff]
        omega
  · rw [hanswer] at hresume
    dsimp only at hresume
    rw [foldl_replay h hconnected] at hresume
    refine iff_of_true (resumeContract_of_true hinv hle hkept.le (fun n hn => ?_) hresume
      (filter_onChannels hchannels h.buffer)) ?_
    · rw [hanswer] at hn
      cases hn
    · exact Or.inr (Or.inr ⟨hsize, by omega⟩)

/-- After any calls of the hub, the return of a client keeps the contract just if it does by the
size of the buffer and the number of broadcasts. -/
theorem resume_iff (bufferSize : ℕ) (calls : List HubCall) (client : String) (lastSeq : ℕ) (now : ℚ)
    (hconnected : client ∈ (after bufferSize calls).connections)
    (hchannels : "" ∉ (after bufferSize calls).channels client)
    (hle : lastSeq ≤ (after bufferSize calls).seq) :
    (after bufferSize calls).ResumeContract client lastSeq now ↔
      ResumesRight bufferSize (calls.countP HubCall.isBroadcast) lastSeq := by
  obtain ⟨hinv, hsize, hseq⟩ := buffered_after bufferSize calls
  rw [resumeContract_iff hinv hconnected hchannels hle, hsize, hseq]

/-! ### A needless new start -/

/-- A client that has subscribed to a channel, and the first message on it. -/
def firstTicker : List HubCall :=
  [.connect "client", .subscribe "client" "positions" 0,
    .broadcast "positions" { type := .position, channel := some "positions" }]

/-- The client has got the message. -/
theorem resume_after_first : (after 1000 firstTicker).ResumeContract "client" 1 0 :=
  (resume_iff 1000 firstTicker "client" 1 0 (by decide) (by decide) (by decide)).2
    (Or.inr (Or.inr ⟨by decide, by decide⟩))

/-- The client has got no message yet, and the first one is in the buffer: it has to start anew. -/
theorem asks_needlessly : "client" ∈ (after 1000 firstTicker).connections ∧
    (after 1000 firstTicker).channels "client" = ["positions"] ∧
    (after 1000 firstTicker).seq = 1 ∧ (after 1000 firstTicker).Buffered 1 ∧
    ¬ (after 1000 firstTicker).ResumeContract "client" 0 0 := by
  have hbuffered : (after 1000 firstTicker).Buffered 1 := List.mem_singleton.2 rfl
  have hseq : (after 1000 firstTicker).seq = 1 := rfl
  refine ⟨by decide, by decide, hseq, hbuffered, fun hcontract => ?_⟩
  obtain ⟨n, hpos, hle, hnot⟩ := hcontract.resync 1 rfl
  obtain rfl : n = 1 := by omega
  exact hnot hbuffered

end WebSocketHub
