import SecureComm.Android.Chat

/-!
# What a screen shows

A screen shows what its log says: the messages that were typed on it and those
its listener was given, and the last list of users. What the log has of a socket
is what has come out of it, in order.
-/

namespace SecureComm.Android

open Function Node

def Entry.on (ws : ℕ) : Entry → Option Carried
  | .own _ _ => none
  | .incoming w c _ => if w = ws then some c else none

variable (P : Platform)

def Entry.bubbles (c : Profile) : Entry → List ChatMessage
  | .own text now => [⟨text, true, now, c.displayName⟩]
  | .incoming _ carried now => ChatScreen.added P c carried.out now

def Entry.list : Entry → Option (List (String × String))
  | .own _ _ => none
  | .incoming _ c _ => ChatScreen.shownList P c.out

namespace Chat

variable {α : Type} {P : Platform} {st st' : Chat α} {prefs : α → Profile}

structure Logged (P : Platform) (prefs : α → Profile) (st : Chat α) : Prop where
  own : ∀ ws a, st.owner ws = some a → (st.log a).filterMap (Entry.on ws) = (st.down ws).out
  other : ∀ ws a, st.owner ws ≠ some a → (st.log a).filterMap (Entry.on ws) = []
  messages : ∀ a, (st.screen a).messages = (st.log a).flatMap (Entry.bubbles P (prefs a))
  onlineUsers : ∀ a,
    (st.screen a).onlineUsers = ((st.log a).filterMap (Entry.list P)).getLast?.getD []

namespace Logged

theorem congr (h : Logged P prefs st) (hlog : st'.log = st.log) (howner : st'.owner = st.owner)
    (hdown : ∀ ws, (st'.down ws).out = (st.down ws).out)
    (hscreen : ∀ a, (st'.screen a).messages = (st.screen a).messages ∧
      (st'.screen a).onlineUsers = (st.screen a).onlineUsers) : Logged P prefs st' where
  own ws a := by
    rw [hlog, howner, hdown]
    exact h.own ws a
  other ws a := by
    rw [hlog, howner]
    exact h.other ws a
  messages a := by
    rw [hlog, (hscreen a).1]
    exact h.messages a
  onlineUsers a := by
    rw [hlog, (hscreen a).2]
    exact h.onlineUsers a

theorem tell (h : Logged P prefs st) {relay : Relay} {connected : ℕ → Bool}
    (outs : List (ℕ × Out)) : Logged P prefs ({ st with relay, connected }.tell outs) :=
  h.congr rfl rfl (fun _ => Pipe.out_push _ _) fun _ => ⟨rfl, rfl⟩

theorem dial (h : Logged P prefs st) (hw : Wired prefs st) (token : Token) (o : Option α) :
    Logged P prefs (st.dial token o) := by
  have hu := hw.unused st.next (Nat.le_refl _)
  have hnone : ∀ a, (st.log a).filterMap (Entry.on st.next) = [] := fun a =>
    h.other _ a (by rw [hu.owner]; exact fun h => nomatch h)
  have hout : (st.down st.next).out = [] := by rw [Pipe.out, hu.down, List.take_nil]
  refine ⟨fun ws a ho => ?_, fun ws a ho => ?_, h.messages, h.onlineUsers⟩
  · by_cases hws : ws = st.next
    · subst hws
      exact (hnone a).trans hout.symm
    · exact h.own ws a ((update_of_ne hws ..).symm.trans ho)
  · by_cases hws : ws = st.next
    · subst hws
      exact hnone a
    · exact h.other ws a fun h' => ho ((update_of_ne hws ..).trans h')

theorem message (h : Logged P prefs st) (w : ℕ) (now : ℤ) : Logged P prefs (st.message w now) := by
  obtain hs | ⟨frame, up, -, hs⟩ := message_cases st w now
  · rwa [hs]
  · rw [hs]
    rcases st.relay.message frame now with _ | ⟨d, m⟩
    · exact h.congr rfl rfl (fun _ => rfl) fun _ => ⟨rfl, rfl⟩
    · refine h.congr rfl rfl (fun ws => ?_) fun _ => ⟨rfl, rfl⟩
      show (update st.down d _ ws).out = _
      by_cases hws : ws = d
      · subst hws
        rw [update_self, Pipe.out_push]
      · rw [update_of_ne hws]

variable [DecidableEq α]

theorem enter (h : Logged P prefs st) (a : α) (e : Entry) {screen : ChatScreen}
    (hlog : st'.log = update st.log a (st.log a ++ [e])) (howner : st'.owner = st.owner)
    (hscreen : st'.screen = update st.screen a screen)
    (hdown : ∀ ws, (st'.down ws).out = (st.down ws).out ++ (e.on ws).toList)
    (hon : ∀ ws, st.owner ws ≠ some a → e.on ws = none)
    (honly : ∀ ws b, st.owner ws = some b → b ≠ a → e.on ws = none)
    (hmessages : screen.messages = (st.screen a).messages ++ e.bubbles P (prefs a))
    (hlist : screen.onlineUsers = (e.list P).getD (st.screen a).onlineUsers) :
    Logged P prefs st' := by
  have hon' : ∀ b ws, (st'.log b).filterMap (Entry.on ws) =
      (st.log b).filterMap (Entry.on ws) ++ if b = a then (e.on ws).toList else [] := by
    intro b ws
    by_cases hb : b = a
    · subst hb
      rw [hlog, update_self, List.filterMap_append, if_pos rfl]
      cases he : e.on ws with
      | none => rw [List.filterMap_cons_none he]; rfl
      | some c => rw [List.filterMap_cons_some he]; rfl
    · rw [hlog, update_of_ne hb, if_neg hb, List.append_nil]
  refine ⟨fun ws b ho => ?_, fun ws b ho => ?_, fun b => ?_, fun b => ?_⟩
  · rw [howner] at ho
    rw [hon', h.own ws b ho, hdown]
    by_cases hb : b = a
    · rw [if_pos hb]
    · rw [if_neg hb, honly ws b ho hb]
      rfl
  · rw [howner] at ho
    rw [hon', h.other ws b ho, List.nil_append]
    by_cases hb : b = a
    · subst hb
      rw [if_pos rfl, hon ws ho]
      rfl
    · rw [if_neg hb]
  · by_cases hb : b = a
    · subst hb
      rw [hlog, hscreen, update_self, update_self, List.flatMap_append, hmessages, h.messages,
        List.flatMap_singleton]
    · rw [hlog, hscreen, update_of_ne hb, update_of_ne hb]
      exact h.messages b
  · by_cases hb : b = a
    · subst hb
      rw [hlog, hscreen, update_self, update_self, hlist, h.onlineUsers, List.filterMap_append]
      cases he : e.list P with
      | none => rw [List.filterMap_cons_none he, List.filterMap_nil, List.append_nil]; rfl
      | some l => rw [List.filterMap_cons_some he, List.filterMap_nil, List.getLast?_concat]; rfl
    · rw [hlog, hscreen, update_of_ne hb, update_of_ne hb]
      exact h.onlineUsers b

theorem sendClicked (h : Logged P prefs st) (hw : Wired prefs st) (a : α) (recipient text : String)
    (now : ℤ) : Logged P prefs (st.sendClicked a recipient text now) := by
  have hbubble : ((st.screen a).sendClicked text now).messages =
      (st.screen a).messages ++ (Entry.own text now).bubbles P (prefs a) := by
    rw [← hw.profile a]
    rfl
  obtain ⟨-, hs⟩ | ⟨w, -, hs⟩ := sendClicked_cases st a recipient text now
  all_goals
    rw [hs]
    exact h.enter a (.own text now) rfl rfl rfl (fun _ => (List.append_nil _).symm)
      (fun _ _ => rfl) (fun _ _ _ _ => rfl) hbubble rfl

theorem deliver (h : Logged P prefs st) (hw : Wired prefs st) (ws : ℕ) (now : ℤ) :
    Logged P prefs (st.deliver P ws now) := by
  obtain hs | ⟨c, down, hpop, hcase⟩ := deliver_cases P st ws now
  · rwa [hs]
  have hout := (Pipe.pop_eq_some hpop).2.1
  obtain ⟨ho, hs⟩ | ⟨a, ho, hs⟩ := hcase
  · rw [hs]
    refine ⟨fun w b hb => ?_, h.other, h.messages, h.onlineUsers⟩
    have hne : w ≠ ws := by
      rintro rfl
      rw [ho] at hb
      cases hb
    exact (h.own w b hb).trans (congrArg Pipe.out (update_of_ne hne ..).symm)
  · rw [hs]
    have hon : ∀ w, (Entry.incoming ws c now).on w = if ws = w then some c else none :=
      fun _ => rfl
    have heq := ChatScreen.onMessage_eq P (st.screen a) c.out now
    refine h.enter a (.incoming ws c now) rfl rfl rfl (fun w => ?_) (fun w hne => ?_)
      (fun w b hb hne => ?_) ?_ ?_
    · show (update st.down ws down w).out = _
      rw [hon]
      by_cases hws : w = ws
      · subst hws
        rw [update_self, if_pos rfl, hout]
        rfl
      · rw [update_of_ne hws, if_neg (Ne.symm hws)]
        exact (List.append_nil _).symm
    · rw [hon]
      refine if_neg ?_
      rintro rfl
      exact hne ho
    · rw [hon]
      refine if_neg ?_
      rintro rfl
      rw [ho] at hb
      exact hne (Option.some.inj hb).symm
    · rw [heq, ← hw.profile a]
      rfl
    · rw [heq]
      rfl

theorem step (h : Logged P prefs st) (hw : Wired prefs st) (ev : Event α) :
    Logged P prefs (st.step P ev) := by
  cases ev with
  | connect a random =>
    show Logged P prefs (st.connect a random)
    obtain hs | ⟨token, -, hs⟩ := connect_cases st a random
    · rwa [hs]
    · rw [hs]
      refine (h.dial hw token (some a)).congr rfl rfl (fun _ => rfl) fun b => ?_
      by_cases hb : b = a
      · subst hb
        show (update st.screen b _ b).messages = _ ∧ (update st.screen b _ b).onlineUsers = _
        rw [update_self]
        exact ⟨rfl, rfl⟩
      · show (update st.screen a _ b).messages = _ ∧ (update st.screen a _ b).onlineUsers = _
        rw [update_of_ne hb]
        exact ⟨rfl, rfl⟩
  | stranger token => exact h.dial hw token none
  | connection ws =>
    show Logged P prefs (st.connection ws)
    obtain hs | ⟨token, -, hs⟩ := connection_cases st ws
    · rwa [hs]
    · rw [hs]
      exact h.tell _
  | sendClicked a recipient text now => exact h.sendClicked hw a recipient text now
  | frame ws frame =>
    show Logged P prefs (ite _ _ _)
    split
    · exact h.congr rfl rfl (fun _ => rfl) fun _ => ⟨rfl, rfl⟩
    · exact h
  | message ws now => exact h.message ws now
  | closing ws => exact h.congr rfl rfl (fun _ => rfl) fun _ => ⟨rfl, rfl⟩
  | close ws => exact h.tell _
  | deliver ws now => exact h.deliver hw ws now

end Logged

end Chat

end SecureComm.Android
