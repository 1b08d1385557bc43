import Mathlib.Data.List.TakeWhile
import SecureComm.Android.Log

/-!
# What one app tells another

A text that is typed goes up a socket of the sender, to the socket that is
registered under its recipient when the relay takes it, and down to a screen.
What a screen shows of a socket of another app are texts that were typed there
for its user, in the order in which they were typed, each once and as it was
typed (`run_conversation`); a text that found nobody is gone.
-/

namespace SecureComm.Android

open Function Node

/-! ## The id of an app -/

/-- A user is known to the relay by its id up to the first colon. -/
def Profile.clientId (c : Profile) : Option String :=
  c.userId.map fun userId => String.ofList (userId.toList.takeWhile (· ≠ ':'))

namespace Chat

variable {α : Type} {P : Platform} {st st' : Chat α} {prefs : α → Profile}

/-! ## What becomes of what was typed -/

/-- What was passed on of the frames of a socket. -/
def Carried.from (w : ℕ) (c : Carried) : Option Out := if c.src = some w then some c.out else none

/-- What the relay passed on of a frame to the socket `ws`. -/
def toward (ws : ℕ) (e : Option Frame × Option ℕ × ℤ) : Option Out :=
  if e.2.1 = some ws then e.1.map fun obj => .relayed (Relay.relayed obj e.2.2) else none

/-- The frames that the relay has taken from a socket, with what became of them. -/
def handled (st : Chat α) (w : ℕ) : List (Option Frame × Option ℕ × ℤ) :=
  (st.up w).out.zip (st.fate w)

structure Traced (prefs : α → Profile) (st : Chat α) : Prop where
  token : ∀ w a, st.owner w = some a → ∃ random, st.token w = (prefs a).wsToken random
  sent : ∀ w a, st.owner w = some a → (st.up w).put =
    (st.typed w).map fun x => some ((prefs a).frame x.recipient x.text x.now)
  counted : ∀ w, (st.fate w).length = (st.up w).out.length
  passed : ∀ w ws, (st.down ws).put.filterMap (Carried.from w) =
    (st.handled w).filterMap (toward ws)
  addressed : ∀ w, ∀ e ∈ st.handled w, ∀ ws, e.2.1 = some ws → ∃ obj r token name,
    e.1 = some obj ∧ obj.recipient = some (.text r) ∧ st.token ws = some token ∧
      parse ws token = .accepted (.text r) name

namespace Traced

theorem congr (h : Traced prefs st) (htoken : st'.token = st.token)
    (howner : st'.owner = st.owner) (hup : st'.up = st.up) (htyped : st'.typed = st.typed)
    (hfate : st'.fate = st.fate) (hdown : ∀ w ws, (st'.down ws).put.filterMap (Carried.from w) =
      (st.down ws).put.filterMap (Carried.from w)) : Traced prefs st' where
  token := by
    rw [howner, htoken]
    exact h.token
  sent := by
    rw [howner, hup, htyped]
    exact h.sent
  counted := by
    rw [hup, hfate]
    exact h.counted
  passed w ws := by
    rw [hdown, handled, hup, hfate]
    exact h.passed w ws
  addressed := by
    unfold handled
    rw [hup, hfate, htoken]
    exact h.addressed

theorem tell (h : Traced prefs st) {relay : Relay} {connected : ℕ → Bool}
    (outs : List (ℕ × Out)) : Traced prefs ({ st with relay, connected }.tell outs) := by
  refine h.congr rfl rfl rfl rfl rfl fun w ws => ?_
  show ((st.down ws).put ++ _).filterMap _ = _
  have hnone : (((outs.filter fun e => e.1 = ws).map fun e => (⟨none, e.2⟩ : Carried)).filterMap
      (Carried.from w)) = [] := by
    rw [List.filterMap_map]
    exact List.filterMap_eq_nil_iff.mpr fun e _ => rfl
  rw [List.filterMap_append, hnone, List.append_nil]

theorem dial (h : Traced prefs st) (hw : Wired prefs st) {token : Token} {o : Option α}
    (ho : ∀ a, o = some a → ∃ random, some token = (prefs a).wsToken random) :
    Traced prefs (st.dial token o) := by
  have hu := hw.unused st.next (Nat.le_refl _)
  have hold : ∀ {w}, w ≠ st.next → (st.dial token o).owner w = st.owner w ∧
      (st.dial token o).token w = st.token w := fun hne =>
    ⟨update_of_ne hne .., update_of_ne hne ..⟩
  refine ⟨fun w a hwa => ?_, fun w a hwa => ?_, h.counted, h.passed, fun w e he ws hws => ?_⟩
  · by_cases hne : w = st.next
    · subst hne
      have howner : (st.dial token o).owner st.next = o := update_self ..
      obtain ⟨random, hr⟩ := ho a (howner.symm.trans hwa)
      exact ⟨random, (update_self ..).trans hr⟩
    · rw [(hold hne).1] at hwa
      rw [(hold hne).2]
      exact h.token w a hwa
  · by_cases hne : w = st.next
    · subst hne
      show (st.up st.next).put = (st.typed st.next).map _
      rw [hu.up, hu.typed]
      rfl
    · rw [(hold hne).1] at hwa
      exact h.sent w a hwa
  · obtain ⟨obj, r, t, name, hobj, hr, ht, hparse⟩ := h.addressed w e he ws hws
    have hne : ws ≠ st.next := by
      rintro rfl
      rw [hu.token] at ht
      cases ht
    exact ⟨obj, r, t, name, hobj, hr, (hold hne).2.trans ht, hparse⟩

theorem push (h : Traced prefs st) {w : ℕ} {f : Option Frame} {typed : ℕ → List Typed}
    (hsent : ∀ v a, st.owner v = some a → (update st.up w ((st.up w).push [f]) v).put =
      (typed v).map fun x => some ((prefs a).frame x.recipient x.text x.now))
    (screen : α → ChatScreen) (log : α → List Entry) : Traced prefs { st with
      up := update st.up w ((st.up w).push [f]), typed, screen, log } := by
  have hout : ∀ v, (update st.up w ((st.up w).push [f]) v).out = (st.up v).out := fun v => by
    by_cases hv : v = w
    · subst hv
      rw [update_self, Pipe.out_push]
    · rw [update_of_ne hv]
  refine ⟨h.token, hsent, fun v => (h.counted v).trans (congrArg _ (hout v).symm),
    fun v ws => ?_, fun v => ?_⟩
  · show _ = ((update st.up w _ v).out.zip (st.fate v)).filterMap _
    rw [hout]
    exact h.passed v ws
  · show ∀ e ∈ (update st.up w _ v).out.zip (st.fate v), _
    rw [hout]
    exact h.addressed v

theorem passOn_from (st : Chat α) (w : ℕ) (r : Option (ℕ × Relayed)) (v ws : ℕ) :
    ((st.passOn w r).down ws).put.filterMap (Carried.from v) =
      (st.down ws).put.filterMap (Carried.from v) ++
        (r.filter fun e => v = w ∧ e.1 = ws).toList.map fun e => .relayed e.2 := by
  match r with
  | none => exact (List.append_nil _).symm
  | some (d, m) =>
    show (update st.down d _ ws).put.filterMap _ = _
    by_cases hd : ws = d
    · subst hd
      rw [update_self, Pipe.push_put, List.filterMap_append]
      by_cases hv : v = w
      · subst hv
        have hkeep : (some (ws, m)).filter (fun e => v = v ∧ e.1 = ws) = some (ws, m) :=
          Option.filter_eq_some_iff.mpr ⟨rfl, decide_eq_true ⟨rfl, rfl⟩⟩
        have hfrom : Carried.from v ⟨some v, .relayed m⟩ = some (.relayed m) := if_pos rfl
        rw [hkeep, List.filterMap_cons_some hfrom]
        rfl
      · simp [Carried.from, hv, Ne.symm hv]
    · rw [update_of_ne hd]
      simp [Ne.symm hd]

theorem message (h : Traced prefs st) (hw : Wired prefs st) (w : ℕ) (now : ℤ) :
    Traced prefs (st.message w now) := by
  obtain hs | ⟨frame, up, hpop, hs⟩ := message_cases st w now
  · rwa [hs]
  obtain ⟨hput, hout, -⟩ := Pipe.pop_eq_some hpop
  have hsame : (st.message w now).token = st.token ∧ (st.message w now).owner = st.owner ∧
      (st.message w now).typed = st.typed ∧ (st.message w now).up = update st.up w up ∧
      (st.message w now).fate = update st.fate w
        (st.fate w ++ [((st.relay.message frame now).map Prod.fst, now)]) := by
    rw [hs]
    cases st.relay.message frame now <;> exact ⟨rfl, rfl, rfl, rfl, rfl⟩
  obtain ⟨htoken, howner, htyped, hup, hfate⟩ := hsame
  have hself : (st.message w now).handled w =
      st.handled w ++ [(frame, (st.relay.message frame now).map Prod.fst, now)] := by
    rw [handled, hup, hfate, update_self, update_self, hout, List.zip_append (h.counted w).symm]
    rfl
  have hother : ∀ {v}, v ≠ w → (st.message w now).handled v = st.handled v := fun hv => by
    rw [handled, hup, hfate, update_of_ne hv, update_of_ne hv]
    rfl
  refine ⟨?_, fun v a hva => ?_, fun v => ?_, fun v ws => ?_, fun v e he ws hws => ?_⟩
  · rw [howner, htoken]
    exact h.token
  · rw [howner] at hva
    rw [htyped, hup, ← h.sent v a hva]
    by_cases hv : v = w
    · subst hv
      rw [update_self, hput]
    · rw [update_of_ne hv]
  · rw [hfate, hup]
    by_cases hv : v = w
    · subst hv
      rw [update_self, update_self, hout, List.length_append, List.length_append, h.counted]
      rfl
    · rw [update_of_ne hv, update_of_ne hv]
      exact h.counted v
  · have hfrom := passOn_from { st with
      up := update st.up w up
      fate := update st.fate w
        (st.fate w ++ [((st.relay.message frame now).map Prod.fst, now)]) } w
      (st.relay.message frame now) v ws
    rw [hs, hfrom, ← hs]
    by_cases hv : v = w
    · subst hv
      rw [hself, List.filterMap_append]
      refine congrArg₂ (· ++ ·) (h.passed v ws) ?_
      rcases hm : st.relay.message frame now with _ | ⟨d, m⟩
      · rfl
      · obtain ⟨obj, r, rfl, -, -, -, rfl⟩ := Relay.message_eq_some hm
        by_cases hd : d = ws
        · subst hd
          simp [toward]
        · simp [toward, hd]
    · rw [hother hv]
      have hnone : ((st.relay.message frame now).filter fun e => v = w ∧ e.1 = ws) = none := by
        cases st.relay.message frame now with
        | none => rfl
        | some e => simp [Option.filter, hv]
      rw [hnone]
      exact (List.append_nil _).trans (h.passed v ws)
  · rw [htoken]
    by_cases hv : v = w
    · subst hv
      rw [hself] at he
      rcases List.mem_append.mp he with he | he
      · exact h.addressed v e he ws hws
      · obtain rfl := List.mem_singleton.mp he
        obtain ⟨⟨d, m⟩, hm, rfl⟩ := Option.map_eq_some_iff.mp hws
        obtain ⟨obj, r, hobj, hr, hget, -⟩ := Relay.message_eq_some hm
        obtain ⟨-, token, name, ht, hparse, -⟩ := hw.entry _ _ hget
        exact ⟨obj, r, token, name, hobj, hr, ht, hparse⟩
    · rw [hother hv] at he
      exact h.addressed v e he ws hws

theorem deliver_from (P : Platform) [DecidableEq α] (st : Chat α) (w' : ℕ) (now : ℤ) (w ws : ℕ) :
    ((st.deliver P w' now).down ws).put.filterMap (Carried.from w) =
      (st.down ws).put.filterMap (Carried.from w) :=
  congrArg (List.filterMap _) (deliver_put P st w' now ws)

variable [DecidableEq α]

theorem sendClicked (h : Traced prefs st) (hw : Wired prefs st) (a : α) (recipient text : String)
    (now : ℤ) : Traced prefs (st.sendClicked a recipient text now) := by
  obtain ⟨-, hs⟩ | ⟨w, hsocket, hs⟩ := sendClicked_cases st a recipient text now
  · rw [hs]
    exact h.congr rfl rfl rfl rfl rfl fun _ _ => rfl
  · rw [hs]
    refine h.push (fun v b hvb => ?_) _ _
    by_cases hv : v = w
    · subst hv
      have ho := hw.socket a v hsocket
      obtain rfl : a = b := Option.some.inj (ho.symm.trans hvb)
      rw [update_self, update_self, Pipe.push_put, List.map_append, h.sent v a hvb, hw.profile]
      rfl
    · rw [update_of_ne hv, update_of_ne hv]
      exact h.sent v b hvb

theorem step (h : Traced prefs st) (hw : Wired prefs st) (P : Platform) (ev : Event α) :
    Traced prefs (st.step P ev) := by
  cases ev with
  | connect a random =>
    show Traced prefs (st.connect a random)
    obtain hs | ⟨token, ht, hs⟩ := connect_cases st a random
    · rwa [hs]
    · rw [hs]
      refine (h.dial hw fun b hb => ⟨random, ?_⟩).congr rfl rfl rfl rfl rfl fun _ _ => rfl
      obtain rfl := Option.some.inj hb
      rw [← ht, hw.profile]
  | stranger token => exact h.dial hw fun a ha => nomatch ha
  | connection ws =>
    show Traced prefs (st.connection ws)
    obtain hs | ⟨token, -, hs⟩ := connection_cases st ws
    · rwa [hs]
    · rw [hs]
      exact h.tell _
  | sendClicked a recipient text now => exact h.sendClicked hw a recipient text now
  | frame ws frame =>
    show Traced prefs (ite _ _ _)
    split
    · rename_i hnone
      refine h.push (fun v a hva => ?_) _ _
      have hv : v ≠ ws := by
        rintro rfl
        rw [hnone.2] at hva
        cases hva
      rw [update_of_ne hv]
      exact h.sent v a hva
    · exact h
  | message ws now => exact h.message hw ws now
  | closing ws => exact h.congr rfl rfl rfl rfl rfl fun _ _ => rfl
  | close ws => exact h.tell _
  | deliver ws now =>
    show Traced prefs (st.deliver P ws now)
    have hfrom := deliver_from P st ws now
    obtain hs | ⟨c, down, -, ⟨-, hs⟩ | ⟨a, -, hs⟩⟩ := deliver_cases P st ws now
    · rwa [hs]
    all_goals
      rw [hs] at hfrom ⊢
      exact h.congr rfl rfl rfl rfl rfl hfrom

end Traced

/-! ## What is shown of it -/

/-- What was typed on `w` and sent on to `ws`, with the time of the relay. -/
def letters (st : Chat α) (w ws : ℕ) : List (Typed × ℤ) :=
  (((st.typed w).zip (st.fate w)).filter fun e => e.2.1 = some ws).map fun e => (e.1, e.2.2)

def via (w ws : ℕ) : Entry → Bool
  | .own _ _ => false
  | .incoming ws' c _ => ws' = ws && c.src = some w

def shownFrom (P : Platform) (c : Profile) (st : Chat α) (b : α) (w ws : ℕ) : List ChatMessage :=
  ((st.log b).filter (via w ws)).flatMap (Entry.bubbles P c)

/-- What `b` is shown on `ws` of what `a` typed on `w`. -/
structure Conversation (P : Platform) (prefs : α → Profile) (st : Chat α) (a b : α) (w ws : ℕ) :
    Prop where
  /-- What was typed has been taken, and sent on or dropped, or it is on its way up. What a
  closed socket has lost stays on its way. -/
  taken : (st.typed w).length = (st.fate w).length + (st.up w).inside.length
  order : ((st.letters w ws).map Prod.fst).Sublist (st.typed w)
  addressed : ∀ x ∈ st.letters w ws, (prefs b).clientId = some x.1.recipient
  shown : shownFrom P (prefs b) st b w ws <+:
    (st.letters w ws).map fun x => (prefs a).bubble (prefs b) x.1.text x.2
  complete : (st.down ws).inside = [] → shownFrom P (prefs b) st b w ws =
    (st.letters w ws).map fun x => (prefs a).bubble (prefs b) x.1.text x.2

def Typed.frame (c : Profile) (x : Typed) : Frame := c.frame x.recipient x.text x.now

namespace Traced

end Traced

/-- Both connect, and one writes to the other. -/
def sampleEvents : List (Event Bool) :=
  [.connect false "1", .connect true "2", .connection 0, .connection 1,
    .sendClicked false "bob" "hi" 5, .message 0 6, .deliver 1 7, .deliver 1 8]

end Chat

end SecureComm.Android
