import SecureComm.Android.Log

/-!
# Who is online

Whenever the maps of the relay change it writes the list of its users to every
registered socket that is open. So in every state the last list written to such a
socket is the list of now, and an app that has read it shows it, unless a frame
that poses as a list has come in since (`run_online`).
-/

namespace SecureComm.Android

open Function Node

namespace Chat

variable {α : Type} {P : Platform} {st st' : Chat α} {prefs : α → Profile}

/-! ## What is written -/

def listed : Out → Option (List OnlineUser)
  | .onlineUsers users => some users
  | .relayed _ => none

def lists (cs : List Carried) : List (List OnlineUser) := cs.filterMap fun c => listed c.out

theorem lists_append (cs cs' : List Carried) : lists (cs ++ cs') = lists cs ++ lists cs' :=
  List.filterMap_append

/-- To every registered socket that is open, the last list written is that of now. -/
def Current (st : Chat α) : Prop :=
  ∀ ws, st.relay.Listens ws → (lists (st.down ws).put).getLast? = some st.relay.online

theorem Current.congr (h : Current st) (hrelay : st'.relay = st.relay)
    (hput : ∀ ws, lists (st'.down ws).put = lists (st.down ws).put) : Current st' := fun ws hl => by
  rw [hput, hrelay]
  exact h ws (hrelay ▸ hl)

theorem tell_lists (st : Chat α) (outs : List (ℕ × Out)) (ws : ℕ) :
    lists ((st.tell outs).down ws).put =
      lists (st.down ws).put ++ (outs.filter fun e => e.1 = ws).filterMap fun e => listed e.2 := by
  show lists ((st.down ws).put ++ _) = _
  rw [lists_append, lists, lists, List.filterMap_map]
  rfl

theorem getLast?_append_of_forall {β : Type} {l l' : List β} {x : β} (hne : l' ≠ [])
    (h : ∀ y ∈ l', y = x) : (l ++ l').getLast? = some x := by
  rw [List.getLast?_append_of_ne_nil _ hne, List.getLast?_eq_some_getLast hne]
  exact congrArg some (h _ (List.getLast_mem hne))

/-- **The relay tells everyone what has changed.** -/
theorem Current.updates {relay : Relay} {outs : List (ℕ × Out)} (h : Current st)
    (hu : Relay.Updates st.relay relay outs) (hrelay : st'.relay = relay)
    (hdown : st'.down = (st.tell outs).down) : Current st' := by
  intro ws hl
  rw [hdown, tell_lists, hrelay]
  rw [hrelay] at hl
  cases hu with
  | tells =>
    have hmem := Relay.mem_broadcast.mpr ⟨hl, rfl⟩
    refine getLast?_append_of_forall (List.ne_nil_of_mem (List.mem_filterMap.mpr
      ⟨_, List.mem_filter.mpr ⟨hmem, decide_eq_true rfl⟩, rfl⟩)) fun y hy => ?_
    obtain ⟨⟨w, out⟩, he, hy⟩ := List.mem_filterMap.mp hy
    obtain ⟨-, rfl⟩ := Relay.mem_broadcast.mp (List.mem_filter.mp he).1
    exact (Option.some.inj hy).symm
  | quiet hclients honline hready =>
    rw [honline]
    refine (congrArg List.getLast? (List.append_nil _)).trans (h ws ⟨?_, hready ws hl.2⟩)
    rw [← hclients]
    exact hl.1
  | exits => exact absurd hl.1 List.not_mem_nil

theorem passOn_lists (st : Chat α) (w : ℕ) (r : Option (ℕ × Relayed)) (ws : ℕ) :
    lists ((st.passOn w r).down ws).put = lists (st.down ws).put := by
  match r with
  | none => rfl
  | some (d, m) =>
    show lists (update st.down d _ ws).put = _
    by_cases hw : ws = d
    · subst hw
      rw [update_self, Pipe.push_put, lists_append]
      exact List.append_nil _
    · rw [update_of_ne hw]

section

variable [DecidableEq α]

theorem deliver_relay (P : Platform) (st : Chat α) (ws : ℕ) (now : ℤ) :
    (st.deliver P ws now).relay = st.relay := by
  obtain h | ⟨c, down, -, ⟨-, h⟩ | ⟨a, -, h⟩⟩ := deliver_cases P st ws now
  all_goals rw [h]

theorem sendClicked_relay (st : Chat α) (a : α) (recipient text : String) (now : ℤ) :
    (st.sendClicked a recipient text now).relay = st.relay ∧
      (st.sendClicked a recipient text now).down = st.down := by
  unfold sendClicked
  simp only
  split <;> exact ⟨rfl, rfl⟩

theorem Current.step (h : Current st) (ev : Event α) : Current (st.step P ev) := by
  cases ev with
  | connect a random =>
    show Current (st.connect a random)
    obtain hs | ⟨token, -, hs⟩ := connect_cases st a random
    · rwa [hs]
    · rw [hs]
      exact h.congr rfl fun _ => rfl
  | stranger token => exact h.congr rfl fun _ => rfl
  | connection ws =>
    show Current (st.connection ws)
    obtain hs | ⟨token, -, hs⟩ := connection_cases st ws
    · rwa [hs]
    · rw [hs]
      exact h.updates (Relay.connection_updates _ ws token) rfl rfl
  | sendClicked a recipient message now =>
    obtain ⟨hrelay, hdown⟩ := sendClicked_relay st a recipient message now
    exact h.congr hrelay fun ws => congrArg (fun down => lists (down ws).put) hdown
  | frame ws frame =>
    show Current (ite _ _ _)
    split
    · exact h.congr rfl fun _ => rfl
    · exact h
  | message w now =>
    show Current (st.message w now)
    obtain hs | ⟨frame, up, -, hs⟩ := message_cases st w now
    · rwa [hs]
    · rw [hs]
      exact h.congr (passOn_relay _ _ _) (passOn_lists _ _ _)
  | closing ws =>
    exact h.updates (Relay.closing_updates _ ws) rfl (funext fun _ => (Pipe.push_nil _).symm)
  | close ws => exact h.updates (Relay.close_updates _ ws) rfl rfl
  | deliver ws now =>
    exact h.congr (deliver_relay P st ws now) fun w => congrArg lists (deliver_put P st ws now w)

end

/-! ## What is shown -/

theorem Wired.users (h : Wired prefs st) :
    st.relay.online.map OnlineUser.userId = st.relay.clients.keys.map some := by
  rw [Relay.online, List.map_map, h.keys]
  refine List.map_congr_left fun k hk => ?_
  obtain ⟨ws, hget⟩ := Dict.mem_keys_iff.mp hk
  exact (h.entry k ws hget).1

theorem lists_rest {rest : List Entry} (h : rest.filterMap (Entry.list P) = []) (ws : ℕ) :
    lists (rest.filterMap (Entry.on ws)) = [] := by
  rw [lists, List.filterMap_eq_nil_iff]
  intro c hc
  obtain ⟨e, he, hon⟩ := List.mem_filterMap.mp hc
  have hlist := List.filterMap_eq_nil_iff.mp h e he
  cases e with
  | own text now => cases hon
  | incoming w c' now =>
    have hon : (if w = ws then some c' else none) = some c := hon
    split at hon
    · obtain rfl := Option.some.inj hon
      match hout : c'.out with
      | .onlineUsers users =>
        have hlist : ChatScreen.shownList P c'.out = none := hlist
        rw [hout] at hlist
        cases hlist
      | .relayed m => rfl
    · cases hon

theorem Logged.shown (h : Logged P prefs st) (hc : Current st) {a : α} {ws : ℕ}
    {users : List OnlineUser} {pre rest : List Entry} {now : ℤ} (ho : st.owner ws = some a)
    (hl : st.relay.Listens ws)
    (hlog : st.log a = pre ++ .incoming ws ⟨none, .onlineUsers users⟩ now :: rest)
    (hrest : rest.filterMap (Entry.list P) = []) (hin : lists (st.down ws).inside = []) :
    (st.screen a).onlineUsers = st.relay.online.map (shownUser P) := by
  have hcurrent : users = st.relay.online := by
    have hlast := hc ws hl
    have hon : (Entry.incoming ws ⟨none, .onlineUsers users⟩ now).on ws =
        some ⟨none, .onlineUsers users⟩ := if_pos rfl
    have hcons : ∀ cs, lists (⟨none, .onlineUsers users⟩ :: cs) = users :: lists cs :=
      fun _ => rfl
    rw [← Pipe.out_append_inside, lists_append, hin, List.append_nil, ← h.own ws a ho, hlog,
      List.filterMap_append, lists_append, List.filterMap_cons_some hon, hcons, lists_rest hrest,
      List.getLast?_concat] at hlast
    exact Option.some.inj hlast
  have hlist : (Entry.incoming ws ⟨none, .onlineUsers users⟩ now).list P =
      some (users.map (shownUser P)) := rfl
  rw [h.onlineUsers, hlog, List.filterMap_append, List.filterMap_cons_some hlist, hrest,
    List.getLast?_concat, hcurrent]
  rfl

end Chat

end SecureComm.Android
