/-
**How the maps of the hub belong together.**

The hub keeps the channels of every client and the subscribers of every channel.  The two maps say
the same, and mention only clients that are connected; each operation of the hub changes both of
them.

Main definitions:

* `WebSocketHub.Consistent` — how the maps of the hub belong together.

Main results:

* `WebSocketHub.Consistent.connect`, `WebSocketHub.Consistent.disconnect`,
  `WebSocketHub.Consistent.addSubscription`, `WebSocketHub.Consistent.removeSubscription` — the
  operations keep the maps consistent.
-/

import Brokerage.WebSocketHub

set_option relaxedAutoImplicit false
set_option autoImplicit false

namespace WebSocketHub

/-! ### The invariant of the maps -/

/-- A client is a subscriber of a channel just if it has the channel among its own; both maps
mention only clients that are connected; and no channel is kept without subscribers, nor with one
twice. -/
structure Consistent (h : WebSocketHub) : Prop where
  inverse : ∀ client channel, client ∈ h.subscribers channel ↔ channel ∈ h.channels client
  subscriptions : ∀ client, h.subscriptions.contains client = true → client ∈ h.connections
  subscribers : ∀ channel, ∀ client ∈ h.subscribers channel, client ∈ h.connections
  nonempty : ∀ channel clients, h.channelSubscribers.get? channel = some clients → clients ≠ []
  nodup : ∀ channel, (h.subscribers channel).Nodup

theorem consistent_init (bufferSize : ℕ) : (init bufferSize).Consistent where
  inverse client channel := by simp [init, subscribers, channels]
  subscriptions client h := by simp [init, Dict.contains] at h
  subscribers channel client h := by simp [init, WebSocketHub.subscribers] at h
  nonempty channel clients h := by simp [init] at h
  nodup channel := by simp [init, WebSocketHub.subscribers]

/-- Only the maps count. -/
theorem Consistent.of_eq {h h' : WebSocketHub} (hh : h.Consistent)
    (hconnections : h'.connections = h.connections)
    (hsubscriptions : h'.subscriptions = h.subscriptions)
    (hsubscribers : h'.channelSubscribers = h.channelSubscribers) : h'.Consistent := by
  obtain ⟨connections', subscriptions', channelSubscribers', _, _, _, _⟩ := h'
  subst hconnections hsubscriptions hsubscribers
  exact ⟨hh.inverse, hh.subscriptions, hh.subscribers, hh.nonempty, hh.nodup⟩

/-- A client without channels is nobody's subscriber. -/
theorem Consistent.not_mem_subscribers {h : WebSocketHub} (hh : h.Consistent) {client : String}
    (hclient : client ∉ h.connections) (channel : String) : client ∉ h.subscribers channel :=
  fun hmem => hclient (hh.subscribers channel client hmem)

theorem Consistent.connect {h : WebSocketHub} (hh : h.Consistent) {client : String}
    (hclient : client ∉ h.connections) : (h.connect client).Consistent where
  inverse other channel := by
    rw [channels, WebSocketHub.connect, Dict.get?_set]
    split
    · next heq =>
        subst heq
        exact iff_of_false (hh.not_mem_subscribers hclient channel) List.not_mem_nil
    · exact hh.inverse other channel
  subscriptions other hother := by
    rw [WebSocketHub.connect, Dict.contains, Dict.get?_set] at hother
    rw [WebSocketHub.connect, List.mem_insert_iff]
    split at hother
    · next heq => exact Or.inl heq
    · exact Or.inr (hh.subscriptions other hother)
  subscribers channel other hother :=
    List.mem_insert_of_mem (hh.subscribers channel other hother)
  nonempty := hh.nonempty
  nodup := hh.nodup

/-! ### Taking a client out -/

theorem getList_discard (client : String) (d : Dict String (List String))
    (channel channel' : String) :
    (discard client d channel).getList channel' =
      if channel' = channel then (d.getList channel').filter (· ≠ client)
      else d.getList channel' := by
  rw [discard]
  cases hclients : d.get? channel with
  | none =>
      dsimp only
      split
      · next heq => rw [heq, Dict.getList, hclients]; rfl
      · rfl
  | some clients =>
      dsimp only
      split
      · next hempty =>
          rw [Dict.getList, Dict.get?_erase]
          split
          · next heq => rw [heq, Dict.getList, hclients, Option.getD_some, hempty]; rfl
          · rfl
      · rw [Dict.getList, Dict.get?_set]
        split
        · next heq => rw [heq, Dict.getList, hclients]; rfl
        · rfl

theorem getList_foldl_discard (client : String) (channels : List String)
    (d : Dict String (List String)) (channel : String) :
    (channels.foldl (discard client) d).getList channel =
      if channel ∈ channels then (d.getList channel).filter (· ≠ client)
      else d.getList channel := by
  induction channels generalizing d with
  | nil => rfl
  | cons first channels ih =>
      rw [List.foldl_cons, ih, getList_discard]
      by_cases heq : channel = first
      · rw [if_pos heq, if_pos (List.mem_cons.2 (Or.inl heq)), List.filter_filter]
        simp
      · simp [heq]

/-- Where no channel is without clients, none is when one of them is taken out. -/
theorem nonempty_discard {client : String} {d : Dict String (List String)}
    (hd : ∀ channel clients, d.get? channel = some clients → clients ≠ []) (channel : String) :
    ∀ channel' clients, (discard client d channel).get? channel' = some clients → clients ≠ [] := by
  intro channel' clients hclients
  rw [discard] at hclients
  split at hclients
  · exact hd channel' clients hclients
  · dsimp only at hclients
    split at hclients
    · rw [Dict.get?_erase] at hclients
      split at hclients
      · cases hclients
      · exact hd channel' clients hclients
    · next hleft =>
        rw [Dict.get?_set] at hclients
        split at hclients
        · rwa [← Option.some.inj hclients]
        · exact hd channel' clients hclients

theorem nonempty_foldl_discard {client : String} (channels : List String)
    {d : Dict String (List String)}
    (hd : ∀ channel clients, d.get? channel = some clients → clients ≠ []) :
    ∀ channel clients, (channels.foldl (discard client) d).get? channel = some clients →
      clients ≠ [] := by
  induction channels generalizing d with
  | nil => exact hd
  | cons first channels ih => exact ih (nonempty_discard hd first)

/-- When a client is gone, the others are the subscribers of a channel. -/
theorem Consistent.subscribers_disconnect {h : WebSocketHub} (hh : h.Consistent)
    (client channel : String) :
    (h.disconnect client).subscribers channel = (h.subscribers channel).filter (· ≠ client) := by
  rw [WebSocketHub.subscribers, WebSocketHub.disconnect]
  refine (getList_foldl_discard client _ _ _).trans ?_
  split
  · rfl
  · next hnot =>
      refine (List.filter_eq_self.2 fun other hother => ?_).symm
      rw [decide_eq_true_eq]
      rintro rfl
      exact hnot ((hh.inverse _ _).1 hother)

theorem Consistent.disconnect {h : WebSocketHub} (hh : h.Consistent) (client : String) :
    (h.disconnect client).Consistent where
  inverse other channel := by
    rw [hh.subscribers_disconnect, List.mem_filter, decide_eq_true_eq, channels,
      WebSocketHub.disconnect, Dict.get?_erase]
    split
    · next heq => exact iff_of_false (fun hmem => hmem.2 heq) List.not_mem_nil
    · next hne => exact (and_iff_left hne).trans (hh.inverse other channel)
  subscriptions other hother := by
    rw [WebSocketHub.disconnect, Dict.contains, Dict.get?_erase] at hother
    rw [WebSocketHub.disconnect, List.mem_filter, decide_eq_true_eq]
    split at hother
    · cases hother
    · next hne => exact ⟨hh.subscriptions other hother, hne⟩
  subscribers channel other hother := by
    rw [hh.subscribers_disconnect, List.mem_filter] at hother
    exact List.mem_filter.2 ⟨hh.subscribers channel other hother.1, hother.2⟩
  nonempty := nonempty_foldl_discard _ hh.nonempty
  nodup channel := by
    rw [hh.subscribers_disconnect]
    exact (hh.nodup channel).filter _

/-! ### Subscriptions -/

theorem subscribers_addSubscription (h : WebSocketHub) (client channel channel' : String) :
    (h.addSubscription client channel).subscribers channel' =
      if channel' = channel then (h.subscribers channel).insert client
      else h.subscribers channel' := by
  rw [subscribers, addSubscription, Dict.get?_set]
  split
  · rfl
  · rfl

theorem channels_addSubscription (h : WebSocketHub) (client channel client' : String) :
    (h.addSubscription client channel).channels client' =
      if client' = client then (h.channels client).insert channel else h.channels client' := by
  rw [channels, addSubscription, Dict.get?_set]
  split
  · rfl
  · rfl

theorem Consistent.addSubscription {h : WebSocketHub} (hh : h.Consistent) {client : String}
    (hclient : client ∈ h.connections) (channel : String) :
    (h.addSubscription client channel).Consistent where
  inverse other channel' := by
    rw [subscribers_addSubscription, channels_addSubscription]
    have hold := hh.inverse other channel'
    by_cases hchannel : channel' = channel <;> by_cases hother : other = client
    · simp [hchannel, hother]
    · subst hchannel
      simpa [hother] using hold
    · subst hother
      simpa [hchannel] using hold
    · simpa [hchannel, hother] using hold
  subscriptions other hother := by
    rw [WebSocketHub.addSubscription, Dict.contains, Dict.get?_set] at hother
    split at hother
    · next heq => exact heq ▸ hclient
    · exact hh.subscriptions other hother
  subscribers channel' other hother := by
    rw [subscribers_addSubscription] at hother
    split at hother
    · rcases List.mem_insert_iff.1 hother with rfl | hother
      · exact hclient
      · exact hh.subscribers _ _ hother
    · exact hh.subscribers _ _ hother
  nonempty channel' clients hclients := by
    rw [WebSocketHub.addSubscription, Dict.get?_set] at hclients
    split at hclients
    · rw [← Option.some.inj hclients]
      exact List.ne_nil_of_mem (List.mem_insert_self ..)
    · exact hh.nonempty _ _ hclients
  nodup channel' := by
    rw [subscribers_addSubscription]
    split
    · exact (hh.nodup channel).insert
    · exact hh.nodup channel'

theorem subscribers_removeSubscription (h : WebSocketHub) (client channel channel' : String) :
    (h.removeSubscription client channel).subscribers channel' =
      if channel' = channel then (h.subscribers channel').filter (· ≠ client)
      else h.subscribers channel' :=
  getList_discard client h.channelSubscribers channel channel'

theorem channels_removeSubscription (h : WebSocketHub) (client channel client' : String) :
    (h.removeSubscription client channel).channels client' =
      if client' = client then (h.channels client').filter (· ≠ channel)
      else h.channels client' := by
  rw [channels, removeSubscription]
  cases hchannels : h.subscriptions.get? client with
  | none =>
      dsimp only
      split
      · next heq => rw [channels, heq, hchannels]; rfl
      · rfl
  | some mine =>
      dsimp only
      rw [Dict.get?_set]
      split
      · next heq => rw [channels, heq, hchannels]; rfl
      · rfl

theorem Consistent.removeSubscription {h : WebSocketHub} (hh : h.Consistent)
    (client channel : String) : (h.removeSubscription client channel).Consistent where
  inverse other channel' := by
    rw [subscribers_removeSubscription, channels_removeSubscription]
    have hold := hh.inverse other channel'
    by_cases hchannel : channel' = channel <;> by_cases hother : other = client
    · simp [hchannel, hother]
    · simpa [hchannel, hother] using hold
    · simpa [hchannel, hother] using hold
    · simpa [hchannel, hother] using hold
  subscriptions other hother := by
    refine hh.subscriptions other ?_
    rw [WebSocketHub.removeSubscription] at hother
    cases hchannels : h.subscriptions.get? client with
    | none => rwa [hchannels] at hother
    | some mine =>
        rw [hchannels] at hother
        dsimp only at hother
        rw [Dict.contains, Dict.get?_set] at hother
        split at hother
        · next heq => rw [Dict.contains, heq, hchannels]; rfl
        · exact hother
  subscribers channel' other hother := by
    rw [subscribers_removeSubscription] at hother
    split at hother
    · exact hh.subscribers _ _ (List.mem_filter.1 hother).1
    · exact hh.subscribers _ _ hother
  nonempty := nonempty_discard hh.nonempty channel
  nodup channel' := by
    rw [subscribers_removeSubscription]
    split
    · exact (hh.nodup channel').filter _
    · exact hh.nodup channel'

end WebSocketHub
