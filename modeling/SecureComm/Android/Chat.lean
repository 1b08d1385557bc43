import SecureComm.Android.ChatScreen
import SecureComm.Lib.Pipe

/-!
# Chats over the Node relay

Any number of apps and of other clients with their sockets at the relay. A
socket is numbered when it is dialed; what goes up and down a socket stays in
order, and may never arrive. Recomposing a chat screen connects again, so an app
may listen to several sockets, and it sends on the last.
-/

namespace SecureComm.Android

open Function Node

/-- A message on its way down, with the socket whose frame it passes on. -/
structure Carried where
  src : Option ℕ
  out : Out
  deriving DecidableEq

structure Typed where
  recipient : String
  text : String
  now : ℤ
  deriving DecidableEq

inductive Entry where
  | own (text : String) (now : ℤ)
  | incoming (ws : ℕ) (c : Carried) (now : ℤ)

structure Chat (α : Type) where
  relay : Relay := {}
  next : ℕ := 0
  token : ℕ → Option Token := fun _ => none
  /-- The relay has had the event `connection`. -/
  connected : ℕ → Bool := fun _ => false
  /-- The app whose listener a socket has. -/
  owner : ℕ → Option α := fun _ => none
  up : ℕ → Pipe (Option Frame) := fun _ => {}
  down : ℕ → Pipe Carried := fun _ => {}
  screen : α → ChatScreen
  /-- What was typed on a socket. -/
  typed : ℕ → List Typed := fun _ => []
  /-- What became of the frames of a socket: where each was sent, and when. -/
  fate : ℕ → List (Option ℕ × ℤ) := fun _ => []
  log : α → List Entry := fun _ => []

namespace Chat

section

variable {α : Type} [DecidableEq α]

inductive Event (α : Type) where
  | connect (a : α) (random : String)
  /-- A client that is not the app connects. -/
  | stranger (token : Token)
  | connection (ws : ℕ)
  | sendClicked (a : α) (recipient message : String) (now : ℤ)
  /-- It sends whatever it pleases. -/
  | frame (ws : ℕ) (frame : Option Frame)
  | message (ws : ℕ) (now : ℤ)
  | closing (ws : ℕ)
  | close (ws : ℕ)
  | deliver (ws : ℕ) (now : ℤ)

def dial (st : Chat α) (token : Token) (owner : Option α) : Chat α :=
  { st with
    next := st.next + 1
    token := update st.token st.next (some token)
    owner := update st.owner st.next owner }

def tell (st : Chat α) (outs : List (ℕ × Out)) : Chat α :=
  { st with
    down := fun ws => (st.down ws).push
      ((outs.filter fun e => e.1 = ws).map fun e => ⟨none, e.2⟩) }

def connect (st : Chat α) (a : α) (random : String) : Chat α :=
  match (st.screen a).wsToken random with
  | none => st
  | some token =>
    { st.dial token (some a) with
      screen := update st.screen a { st.screen a with socket := some st.next } }

def connection (st : Chat α) (ws : ℕ) : Chat α :=
  match st.token ws with
  | none => st
  | some token =>
    if st.connected ws ∨ st.relay.exited then st
    else
      { st with
        relay := (st.relay.connection ws token).1
        connected := update st.connected ws true }.tell (st.relay.connection ws token).2

/-- A frame waits on the last socket, also when that is not open any more. -/
def sendClicked (st : Chat α) (a : α) (recipient message : String) (now : ℤ) : Chat α :=
  let st' := { st with
    screen := update st.screen a ((st.screen a).sendClicked message now)
    log := update st.log a (st.log a ++ [.own message now]) }
  match (st.screen a).socket with
  | none => st'
  | some w =>
    { st' with
      up := update st.up w ((st.up w).push [some ((st.screen a).frame recipient message now)])
      typed := update st.typed w (st.typed w ++ [⟨recipient, message, now⟩]) }

def passOn (st : Chat α) (w : ℕ) : Option (ℕ × Relayed) → Chat α
  | none => st
  | some (ws, m) =>
    { st with down := update st.down ws ((st.down ws).push [⟨some w, .relayed m⟩]) }

/-- The handler of a socket that has not closed takes its next frame. -/
def message (st : Chat α) (w : ℕ) (now : ℤ) : Chat α :=
  match Holders.keyOf st.relay.sockets w, (st.up w).pop with
  | some _, some (frame, up) =>
    { st with
      up := update st.up w up
      fate := update st.fate w
        (st.fate w ++ [((st.relay.message frame now).map Prod.fst, now)]) }.passOn w
      (st.relay.message frame now)
  | _, _ => st

def deliver (P : Platform) (st : Chat α) (ws : ℕ) (now : ℤ) : Chat α :=
  match (st.down ws).pop with
  | none => st
  | some (c, down) =>
    let st := { st with down := update st.down ws down }
    match st.owner ws with
    | none => st
    | some a =>
      { st with
        screen := update st.screen a ((st.screen a).onMessage P (received P c.out) now)
        log := update st.log a (st.log a ++ [.incoming ws c now]) }

def step (P : Platform) (st : Chat α) : Event α → Chat α
  | .connect a random => st.connect a random
  | .stranger token => st.dial token none
  | .connection ws => st.connection ws
  | .sendClicked a recipient message now => st.sendClicked a recipient message now
  | .frame ws frame =>
    if ws < st.next ∧ st.owner ws = none then
      { st with up := update st.up ws ((st.up ws).push [frame]) }
    else st
  | .message ws now => st.message ws now
  | .closing ws => { st with relay := st.relay.closing ws }
  | .close ws => { st with relay := (st.relay.close ws).1 }.tell (st.relay.close ws).2
  | .deliver ws now => st.deliver P ws now

/-- Nobody is connected. -/
def start (prefs : α → Profile) : Chat α := { screen := fun a => { toProfile := prefs a } }

end

variable {α : Type} {st : Chat α} {prefs : α → Profile}

@[simp] theorem passOn_relay (st : Chat α) (w : ℕ) (r : Option (ℕ × Relayed)) :
    (st.passOn w r).relay = st.relay := by
  cases r <;> rfl

@[simp] theorem passOn_owner (st : Chat α) (w : ℕ) (r : Option (ℕ × Relayed)) :
    (st.passOn w r).owner = st.owner := by
  cases r <;> rfl

theorem message_cases (st : Chat α) (w : ℕ) (now : ℤ) :
    st.message w now = st ∨ ∃ frame up, (st.up w).pop = some (frame, up) ∧
      st.message w now = { st with
        up := update st.up w up
        fate := update st.fate w
          (st.fate w ++ [((st.relay.message frame now).map Prod.fst, now)]) }.passOn w
        (st.relay.message frame now) := by
  unfold message
  split
  · rename_i hpop
    exact .inr ⟨_, _, hpop, rfl⟩
  · exact .inl rfl

theorem connection_cases (st : Chat α) (ws : ℕ) :
    st.connection ws = st ∨ ∃ token, st.token ws = some token ∧ st.connection ws =
      { st with
        relay := (st.relay.connection ws token).1
        connected := update st.connected ws true }.tell (st.relay.connection ws token).2 := by
  unfold connection
  split
  · exact .inl rfl
  · rename_i token ht
    split
    · exact .inl rfl
    · exact .inr ⟨token, ht, rfl⟩

section

variable [DecidableEq α]

theorem connect_cases (st : Chat α) (a : α) (random : String) :
    st.connect a random = st ∨ ∃ token, (st.screen a).wsToken random = some token ∧
      st.connect a random = { st.dial token (some a) with
        screen := update st.screen a { st.screen a with socket := some st.next } } := by
  unfold connect
  split
  · exact .inl rfl
  · rename_i token ht
    exact .inr ⟨token, ht, rfl⟩

theorem deliver_cases (P : Platform) (st : Chat α) (ws : ℕ) (now : ℤ) :
    st.deliver P ws now = st ∨ ∃ c down, (st.down ws).pop = some (c, down) ∧
      (st.owner ws = none ∧ st.deliver P ws now = { st with down := update st.down ws down } ∨
        ∃ a, st.owner ws = some a ∧ st.deliver P ws now = { st with
          down := update st.down ws down
          screen := update st.screen a ((st.screen a).onMessage P (received P c.out) now)
          log := update st.log a (st.log a ++ [.incoming ws c now]) }) := by
  unfold deliver
  split
  · exact .inl rfl
  · rename_i c down hpop
    refine .inr ⟨c, down, hpop, ?_⟩
    simp only
    split
    · rename_i ho
      exact .inl ⟨ho, rfl⟩
    · rename_i a ho
      exact .inr ⟨a, ho, rfl⟩

theorem deliver_put (P : Platform) (st : Chat α) (w : ℕ) (now : ℤ) (ws : ℕ) :
    ((st.deliver P w now).down ws).put = (st.down ws).put := by
  have hput : ∀ {c down}, (st.down w).pop = some (c, down) →
      (update st.down w down ws).put = (st.down ws).put := fun {c down} hpop => by
    by_cases hw : ws = w
    · subst hw
      rw [update_self, (Pipe.pop_eq_some hpop).1]
    · rw [update_of_ne hw]
  obtain h | ⟨c, down, hpop, ⟨-, h⟩ | ⟨a, -, h⟩⟩ := deliver_cases P st w now
  · rw [h]
  · rw [h]
    exact hput hpop
  · rw [h]
    exact hput hpop

theorem sendClicked_cases (st : Chat α) (a : α) (recipient text : String) (now : ℤ) :
    let st' : Chat α := { st with
      screen := update st.screen a ((st.screen a).sendClicked text now)
      log := update st.log a (st.log a ++ [.own text now]) }
    (st.screen a).socket = none ∧ st.sendClicked a recipient text now = st' ∨
      ∃ w, (st.screen a).socket = some w ∧ st.sendClicked a recipient text now = { st' with
        up := update st.up w ((st.up w).push [some ((st.screen a).frame recipient text now)])
        typed := update st.typed w (st.typed w ++ [⟨recipient, text, now⟩]) } := by
  unfold sendClicked
  simp only
  split
  · rename_i hs
    exact .inl ⟨hs, rfl⟩
  · rename_i w hs
    exact .inr ⟨w, hs, rfl⟩

end

/-! ## What the sockets are -/

structure Unused (st : Chat α) (ws : ℕ) : Prop where
  token : st.token ws = none
  owner : st.owner ws = none
  up : (st.up ws).put = []
  down : (st.down ws).put = []
  typed : st.typed ws = []
  fate : st.fate ws = []

/-- A registered socket is known by the id and the name in its token. -/
structure Wired (prefs : α → Profile) (st : Chat α) : Prop where
  keys : st.relay.userIds.keys = st.relay.clients.keys
  entry : ∀ k ws, st.relay.clients.get k = some ws → st.relay.userIds.get k = some k ∧
    ∃ token name, st.token ws = some token ∧ parse ws token = .accepted k name ∧
      st.relay.userDisplayNames.get k = some name
  unused : ∀ ws, st.next ≤ ws → st.Unused ws
  profile : ∀ a, (st.screen a).toProfile = prefs a
  socket : ∀ a w, (st.screen a).socket = some w → st.owner w = some a

namespace Wired

theorem lt_next (h : Wired prefs st) {k : ClientId} {ws : ℕ}
    (hget : st.relay.clients.get k = some ws) : ws < st.next := by
  obtain ⟨-, token, -, htoken, -⟩ := h.entry k ws hget
  refine Nat.lt_of_not_le fun hle => ?_
  rw [(h.unused ws hle).token] at htoken
  cases htoken

theorem tell (h : Wired prefs st) {outs : List (ℕ × Out)}
    (hreg : ∀ e ∈ outs, e.1 ∈ st.relay.clients.values) : Wired prefs (st.tell outs) where
  keys := h.keys
  entry := h.entry
  unused ws hle := by
    have hu := h.unused ws hle
    refine { hu with down := ?_ }
    have hnone : (outs.filter fun e => e.1 = ws) = [] := List.filter_eq_nil_iff.mpr fun e he heq => by
      obtain rfl : e.1 = ws := by simpa using heq
      obtain ⟨k, hget⟩ := Dict.mem_values_iff.mp (hreg e he)
      exact absurd (h.lt_next hget) (Nat.not_lt.mpr hle)
    show (st.down ws).put ++ _ = []
    rw [hu.down, hnone]
    rfl
  profile := h.profile
  socket := h.socket

theorem relay (h : Wired prefs st) {r : Relay} {connected : ℕ → Bool}
    (hkeys : r.userIds.keys = r.clients.keys)
    (hentry : ∀ k ws, r.clients.get k = some ws → r.userIds.get k = some k ∧
      ∃ token name, st.token ws = some token ∧ parse ws token = .accepted k name ∧
        r.userDisplayNames.get k = some name) :
    Wired prefs { st with relay := r, connected } :=
  ⟨hkeys, hentry, fun ws hle =>
    have hu := h.unused ws hle
    ⟨hu.token, hu.owner, hu.up, hu.down, hu.typed, hu.fate⟩, h.profile, h.socket⟩

theorem dial (h : Wired prefs st) (token : Token) (o : Option α) :
    Wired prefs (st.dial token o) where
  keys := h.keys
  entry k ws hget := by
    have hne : ws ≠ st.next := (h.lt_next hget).ne
    obtain ⟨hid, t, name, ht, hparse, hname⟩ := h.entry k ws hget
    exact ⟨hid, t, name, (update_of_ne hne ..).trans ht, hparse, hname⟩
  unused ws hle := by
    have hne : ws ≠ st.next := (Nat.lt_of_succ_le hle).ne'
    have hu := h.unused ws (Nat.le_of_succ_le hle)
    exact ⟨(update_of_ne hne ..).trans hu.token, (update_of_ne hne ..).trans hu.owner, hu.up,
      hu.down, hu.typed, hu.fate⟩
  profile := h.profile
  socket a w hs := by
    have ho := h.socket a w hs
    have hne : w ≠ st.next := by
      rintro rfl
      rw [(h.unused _ (Nat.le_refl _)).owner] at ho
      cases ho
    exact (update_of_ne hne ..).trans ho

theorem connect [DecidableEq α] (h : Wired prefs st) (a : α) (random : String) :
    Wired prefs (st.connect a random) := by
  obtain hs | ⟨token, -, hs⟩ := connect_cases st a random
  · rwa [hs]
  · rw [hs]
    have hd := h.dial token (some a)
    refine ⟨hd.keys, hd.entry, fun ws hle => ?_, fun b => ?_, fun b w hw => ?_⟩
    · have hu := hd.unused ws hle
      exact ⟨hu.token, hu.owner, hu.up, hu.down, hu.typed, hu.fate⟩
    · by_cases hb : b = a
      · subst hb
        have hself : update st.screen b { st.screen b with socket := some st.next } b =
            { st.screen b with socket := some st.next } := update_self ..
        exact (congrArg ChatScreen.toProfile hself).trans (h.profile b)
      · exact (congrArg ChatScreen.toProfile (update_of_ne hb ..)).trans (h.profile b)
    · by_cases hb : b = a
      · subst hb
        have hw : (update st.screen b { st.screen b with socket := some st.next } b).socket =
          some w := hw
        rw [update_self] at hw
        obtain rfl := Option.some.inj hw
        exact update_self ..
      · have hw : (update st.screen a { st.screen a with socket := some st.next } b).socket =
          some w := hw
        rw [update_of_ne hb] at hw
        exact hd.socket b w hw

theorem connection (h : Wired prefs st) (ws : ℕ) : Wired prefs (st.connection ws) := by
  obtain hs | ⟨token, ht, hs⟩ := connection_cases st ws
  · rwa [hs]
  rw [hs]
  unfold Relay.connection
  split
  · exact (h.relay h.keys h.entry).tell fun e he => absurd he List.not_mem_nil
  · exact (h.relay rfl fun k ws hget => by cases hget).tell fun e he => absurd he List.not_mem_nil
  · rename_i userId displayName hparse
    refine (h.relay ?_ fun k w hget => ?_).tell fun e he => (Relay.mem_broadcast.mp he).1.1
    · simp only [Dict.keys_set, h.keys]
    · simp only [Dict.get_set] at hget ⊢
      by_cases hk : k = userId
      · subst hk
        rw [if_pos rfl] at hget
        obtain rfl := Option.some.inj hget
        exact ⟨if_pos rfl, token, displayName, ht, hparse, if_pos rfl⟩
      · rw [if_neg hk] at hget
        rw [if_neg hk, if_neg hk]
        exact h.entry k w hget

theorem closing (h : Wired prefs st) (ws : ℕ) :
    Wired prefs { st with relay := st.relay.closing ws } := h.relay h.keys h.entry

theorem close (h : Wired prefs st) (ws : ℕ) :
    Wired prefs ({ st with relay := (st.relay.close ws).1 }.tell (st.relay.close ws).2) := by
  unfold Relay.close
  split
  · exact (h.closing ws).tell fun e he => absurd he List.not_mem_nil
  · rename_i clientId _
    refine (h.relay ?_ fun k w hget => ?_).tell fun e he => (Relay.mem_broadcast.mp he).1.1
    · simp only [Dict.keys_delete, h.keys]
    · simp only [Dict.get_delete] at hget ⊢
      by_cases hk : k = clientId
      · rw [if_pos hk] at hget
        cases hget
      · rw [if_neg hk] at hget
        rw [if_neg hk, if_neg hk]
        exact h.entry k w hget

theorem of_wires {st' : Chat α} (h : Wired prefs st) (hrelay : st'.relay = st.relay)
    (htoken : st'.token = st.token) (hnext : st'.next = st.next)
    (hscreen : ∀ a, (st'.screen a).toProfile = (st.screen a).toProfile ∧
      (st'.screen a).socket = (st.screen a).socket) (howner : st'.owner = st.owner)
    (hunused : ∀ ws, st.next ≤ ws → st.Unused ws → (st'.up ws).put = [] ∧
      (st'.down ws).put = [] ∧ st'.typed ws = [] ∧ st'.fate ws = []) : Wired prefs st' where
  keys := hrelay ▸ h.keys
  entry := by
    rw [hrelay, htoken]
    exact h.entry
  unused ws hle := by
    rw [hnext] at hle
    have hu := h.unused ws hle
    obtain ⟨hup, hdown, htyped, hfate⟩ := hunused ws hle hu
    exact ⟨htoken ▸ hu.token, howner ▸ hu.owner, hup, hdown, htyped, hfate⟩
  profile a := (hscreen a).1.trans (h.profile a)
  socket a w hs := by
    rw [howner]
    exact h.socket a w ((hscreen a).2 ▸ hs)

theorem ne_of_pop {τ : Type} {p : ℕ → Pipe τ} {w ws : ℕ} {x : τ} {q : Pipe τ}
    (hpop : (p w).pop = some (x, q)) (hput : (p ws).put = []) : ws ≠ w := by
  rintro rfl
  have hin := (Pipe.pop_eq_some hpop).2.2
  rw [Pipe.inside, hput, List.drop_nil] at hin
  cases hin

theorem passOn_down_ne (h : Wired prefs st) {st' : Chat α} {frame : Option Frame} {now : ℤ}
    (w : ℕ) {ws : ℕ} (hle : st.next ≤ ws) :
    (st'.passOn w (st.relay.message frame now)).down ws = st'.down ws := by
  rcases hm : st.relay.message frame now with _ | ⟨d, m⟩
  · rfl
  · obtain ⟨obj, r, -, -, hget, -⟩ := Relay.message_eq_some hm
    have hne : ws ≠ d := (Nat.lt_of_lt_of_le (h.lt_next hget) hle).ne'
    exact update_of_ne hne ..

theorem message (h : Wired prefs st) (w : ℕ) (now : ℤ) : Wired prefs (st.message w now) := by
  obtain hs | ⟨frame, up, hpop, hs⟩ := message_cases st w now
  · rwa [hs]
  · rw [hs]
    refine h.of_wires (passOn_relay _ _ _) ?_ ?_ (fun a => ?_) (passOn_owner _ _ _)
      fun ws hle hu => ?_
    · cases st.relay.message frame now <;> rfl
    · cases st.relay.message frame now <;> rfl
    · cases st.relay.message frame now <;> exact ⟨rfl, rfl⟩
    · have hne : ws ≠ w := ne_of_pop hpop hu.up
      refine ⟨?_, ?_, ?_, ?_⟩
      · have hup : update st.up w up ws = st.up ws := update_of_ne hne ..
        cases st.relay.message frame now <;> exact (congrArg Pipe.put hup).trans hu.up
      · rw [h.passOn_down_ne w hle]
        exact hu.down
      · cases st.relay.message frame now <;> exact hu.typed
      · cases st.relay.message frame now <;> exact (update_of_ne hne ..).trans hu.fate

section

variable [DecidableEq α]

theorem sendClicked (h : Wired prefs st) (a : α) (recipient text : String) (now : ℤ) :
    Wired prefs (st.sendClicked a recipient text now) := by
  have hscreen : ∀ b,
      (update st.screen a ((st.screen a).sendClicked text now) b).toProfile =
        (st.screen b).toProfile ∧
      (update st.screen a ((st.screen a).sendClicked text now) b).socket =
        (st.screen b).socket := fun b => by
    by_cases hb : b = a
    · subst hb
      rw [update_self]
      exact ⟨rfl, rfl⟩
    · rw [update_of_ne hb]
      exact ⟨rfl, rfl⟩
  obtain ⟨-, hs⟩ | ⟨w, hw, hs⟩ := sendClicked_cases st a recipient text now
  · rw [hs]
    exact h.of_wires rfl rfl rfl hscreen rfl fun ws _ hu => ⟨hu.up, hu.down, hu.typed, hu.fate⟩
  · rw [hs]
    refine h.of_wires rfl rfl rfl hscreen rfl fun ws _ hu => ?_
    have hne : ws ≠ w := by
      rintro rfl
      have ho := h.socket a ws hw
      rw [hu.owner] at ho
      cases ho
    exact ⟨(congrArg Pipe.put (update_of_ne hne ..)).trans hu.up, hu.down,
      (update_of_ne hne ..).trans hu.typed, hu.fate⟩

theorem deliver (h : Wired prefs st) (P : Platform) (ws : ℕ) (now : ℤ) :
    Wired prefs (st.deliver P ws now) := by
  obtain hs | ⟨c, down, hpop, hcase⟩ := deliver_cases P st ws now
  · rwa [hs]
  have hdown : ∀ {w}, st.Unused w → (update st.down ws down w).put = [] := fun {w} hu => by
    rw [update_of_ne (ne_of_pop hpop hu.down)]
    exact hu.down
  obtain ⟨-, hs⟩ | ⟨a, -, hs⟩ := hcase
  · rw [hs]
    exact h.of_wires rfl rfl rfl (fun _ => ⟨rfl, rfl⟩) rfl fun w _ hu =>
      ⟨hu.up, hdown hu, hu.typed, hu.fate⟩
  · rw [hs]
    refine h.of_wires rfl rfl rfl (fun b => ?_) rfl fun w _ hu =>
      ⟨hu.up, hdown hu, hu.typed, hu.fate⟩
    by_cases hb : b = a
    · subst hb
      show (update st.screen b _ b).toProfile = _ ∧ (update st.screen b _ b).socket = _
      rw [update_self, ChatScreen.onMessage_eq]
      exact ⟨rfl, rfl⟩
    · show (update st.screen a _ b).toProfile = _ ∧ (update st.screen a _ b).socket = _
      rw [update_of_ne hb]
      exact ⟨rfl, rfl⟩

theorem step (h : Wired prefs st) (P : Platform) (ev : Event α) : Wired prefs (st.step P ev) := by
  cases ev with
  | connect a random => exact h.connect a random
  | stranger token => exact h.dial token none
  | connection ws => exact h.connection ws
  | sendClicked a recipient text now => exact h.sendClicked a recipient text now
  | frame ws frame =>
    show Wired prefs (ite _ _ _)
    split
    · rename_i hlt
      refine h.of_wires rfl rfl rfl (fun _ => ⟨rfl, rfl⟩) rfl fun w hle hu => ?_
      have hne : w ≠ ws := (Nat.lt_of_lt_of_le hlt.1 hle).ne'
      exact ⟨(congrArg Pipe.put (update_of_ne hne ..)).trans hu.up, hu.down, hu.typed, hu.fate⟩
    · exact h
  | message ws now => exact h.message ws now
  | closing ws => exact h.closing ws
  | close ws => exact h.close ws
  | deliver ws now => exact h.deliver P ws now

end

end Wired

end Chat

end SecureComm.Android
