import LCChess.Protocol.Animated
import LCChess.Protocol.Handshake

/-!
# The opening of a session

A session runs from the start of two instances to the end of their game. The chooser enters the
game first and may make its first move there before the other end has read its color, so that the
message of the move stands behind the color. The table in which the other end has entered already
is one of a match all the same: the bytes of the handshake decide how it will enter, and nothing
it does in the menus can change that.

## Main definitions

* `Table.entered t a msg`: the other end has entered the game that `a` has opened
* `Session strict t ms`: where a session with the moves `ms` stands

## Main results

* `Table.Step.entered`: a step before the other end has entered is one behind its entrance
* `Session.step`, `Session.menu`: the steps of the game and of the menus go on with the session
* `Session.chess`, `Session.boards`: what a session shows
-/

namespace LCChess

/-! ## The table ahead of the handshake -/

/-- The table after the end `a.other` has entered the game that `a` has opened, and has the bytes
`msg` to read there. -/
def Table.entered (t : Table) (a : Side) (msg : List UInt8) : Table := fun e =>
  if e = a then { t e with transmit := msg }
  else
    { t e with
      gameState := .playing
      player := if (t a).player = .white then .black else .white
      myTurn := !((t a).player == .white)
      receive := []
      line := [] }

section Entered

variable (t : Table) (a : Side) (msg : List UInt8)

@[simp] theorem Table.entered_self : t.entered a msg a = { t a with transmit := msg } := if_pos rfl

@[simp] theorem Table.entered_other : t.entered a msg a.other =
    { t a.other with
      gameState := .playing
      player := if (t a).player = .white then .black else .white
      myTurn := !((t a).player == .white)
      receive := []
      line := [] } := if_neg (Side.other_ne a)

theorem incoming_entered_other : incoming (t.entered a msg) a.other = msg := by
  simp [incoming]

theorem incoming_entered_self : incoming (t.entered a msg) a = incoming t a := by
  simp [incoming]

end Entered

/-- Two tables with the end `a` entered alike. -/
theorem Table.entered_congr {t t' : Table} {a : Side} {msg : List UInt8}
    (ha : ∃ transmit, t' a = { t a with transmit := transmit })
    (hother : ∃ gameState player myTurn receive line, t' a.other =
      { t a.other with
        gameState := gameState, player := player, myTurn := myTurn, receive := receive,
        line := line }) : t'.entered a msg = t.entered a msg := by
  obtain ⟨transmit, ha⟩ := ha
  obtain ⟨gameState, player, myTurn, receive, line, hother⟩ := hother
  funext e
  obtain rfl | rfl := a.eq_or_eq_other e
  · rw [entered_self, entered_self, ha]
  · rw [entered_other, entered_other, ha, hother]

/-- What has been sent before does not matter to an event of the chooser, as nothing is on its
way to it. -/
theorem Seat.Event.sends {s s' : Seat} {l : Option (ℤ × ℤ)} (h : Seat.Event s l s')
    (hreceive : s.receive = []) {msg : List UInt8} (hroom : s.transmit.length ≤ 6)
    (hroom' : msg.length ≤ 6) :
    ∃ more, s'.transmit = s.transmit ++ more ∧ s'.receive = s.receive ∧ s'.line = s.line ∧
      s'.player = s.player ∧
      Seat.Event { s with transmit := msg } l { s' with transmit := msg ++ more } := by
  have hleave : ({ s with transmit := msg } : Seat).leave = { s.leave with transmit := msg } := by
    unfold leave
    dsimp only
    split <;> rfl
  cases h with
  | idle =>
    refine ⟨[], by simp, by simp, by simp, by simp, ?_⟩
    rw [List.append_nil, ← hleave]
    exact .idle _
  | press p i hnone hturn hi hp hown =>
    refine ⟨[], by simp [Seat.press], by simp [Seat.press], by simp [Seat.press],
      by simp [Seat.press], ?_⟩
    have hpress : ({ s.leave.press p i with transmit := msg ++ [] } : Seat) =
        ({ s with transmit := msg } : Seat).leave.press p i := by
      rw [hleave, List.append_nil]
      rfl
    rw [hpress]
    exact .press _ p i hnone hturn hi hp hown
  | cancel p hp =>
    refine ⟨[], by simp [Seat.cancel], by simp [Seat.cancel], by simp [Seat.cancel],
      by simp [Seat.cancel], ?_⟩
    have hcancel : ({ s.leave.cancel with transmit := msg ++ [] } : Seat) =
        ({ s with transmit := msg } : Seat).leave.cancel := by
      rw [hleave, List.append_nil]
      rfl
    rw [hcancel]
    exact .cancel _ p hp
  | accept p i hp hi hteam =>
    -- both queues have room for the whole message
    have hsent : ∀ l : List UInt8, l.length ≤ 6 →
        (message s.inicial i).foldl enqueue l = l ++ message s.inicial i := fun l hl =>
      foldl_enqueue (by simp only [message, List.length_cons, List.length_nil]; omega)
    refine ⟨message s.inicial i, ?_, by simp [Seat.accept], by simp [Seat.accept],
      by simp [Seat.accept], ?_⟩
    · simpa [Seat.accept] using hsent _ hroom
    · have haccept : ({ s.leave.accept p i with transmit := msg ++ message s.inicial i } : Seat) =
          ({ s with transmit := msg } : Seat).leave.accept p i := by
        rw [hleave]
        simp only [Seat.accept, inicial_leave]
        rw [hsent msg hroom']
      rw [haccept]
      exact .accept _ p i hp hi hteam
  | poll _ hpoll =>
    obtain ⟨-, rfl⟩ | ⟨b, rest, hb, -⟩ := poll_cases hpoll
    · refine ⟨[], by simp, by simp, by simp, by simp, ?_⟩
      rw [List.append_nil, ← hleave]
      exact .idle _
    · rw [receive_leave, hreceive] at hb
      cases hb

/-! ## The phases of a session -/

/-- Where a session with the moves `ms` stands. -/
inductive Session (strict : Prop) (t : Table) : List (Side × ℤ × ℤ) → Prop
  /-- Both ends are in the menus. -/
  | menus (hmenu : ∀ e, (t e).gameState ≠ .playing ∧ (t e).gameState ≠ .exit)
      (hnew : ∀ e, (t e).Unplayed) : Session strict t []
  /-- The chooser `a` has entered the game, and the other end has not. -/
  | opening (a w : Side) (msg : List UInt8) (ms : List (Side × ℤ × ℤ))
      (hf : Awaits (t a.other).gameState (incoming t a.other) ((t a).player.colorByte :: msg))
      (hquiet : incoming t a = []) (hmatch : TableMatch strict w (t.entered a msg) ms)
      (hmovers : ∀ m ∈ ms, m.1 = a) : Session strict t ms
  | game (w : Side) (ms : List (Side × ℤ × ℤ)) (hmatch : TableMatch strict w t ms) :
      Session strict t ms

/-- An end that awaits its color is in the menus. -/
theorem Awaits.menu {g : GameState} {bytes rest : List UInt8} (h : Awaits g bytes rest) :
    g ≠ .start ∧ g ≠ .choosingPlayer ∧ g ≠ .playing ∧ g ≠ .exit := by
  obtain ⟨rfl, -⟩ | ⟨rfl, -⟩ := h <;> decide

theorem Awaits.length_le {g : GameState} {bytes rest : List UInt8} (h : Awaits g bytes rest) :
    bytes.length ≤ rest.length + 1 := by
  obtain ⟨-, rfl⟩ | ⟨-, rfl⟩ := h <;> simp

/-- What follows the color is the end of the bytes. -/
theorem Awaits.suffix {g : GameState} {bytes msg : List UInt8} {b : UInt8}
    (h : Awaits g bytes (b :: msg)) : msg <:+ bytes := by
  obtain ⟨-, rfl⟩ | ⟨-, rfl⟩ := h
  · exact (List.suffix_cons _ _).trans (List.suffix_cons _ _)
  · exact List.suffix_cons _ _

/-- More bytes are sent. -/
theorem Awaits.append {g : GameState} {bytes rest : List UInt8} (h : Awaits g bytes rest)
    (more : List UInt8) : Awaits g (bytes ++ more) (rest ++ more) := by
  obtain ⟨hg, rfl⟩ | ⟨hg, rfl⟩ := h
  · exact .inl ⟨hg, rfl⟩
  · exact .inr ⟨hg, rfl⟩

section Opening

variable {strict : Prop} {t t' : Table} {a w : Side} {msg : List UInt8}
  {ms : List (Side × ℤ × ℤ)}
  (hf : Awaits (t a.other).gameState (incoming t a.other) ((t a).player.colorByte :: msg))
  (hmatch : TableMatch strict w (t.entered a msg) ms)
include hf hmatch

/-- The bytes of the handshake and of one message at most are on their way to the end that has
not entered yet. -/
theorem length_opening : (incoming t a.other).length ≤ 6 ∧ msg.length ≤ 4 := by
  have hlen := hf.length_le
  have hmsg := hmatch.token.length_incoming a.other
  rw [incoming_entered_other] at hmsg
  simp only [List.length_cons] at hlen
  exact ⟨by omega, hmsg⟩

/-- **A step before the second end has entered the game is one of the table in which it has.** -/
theorem Table.Step.entered (hquiet : incoming t a = []) {l : Option (Side × ℤ × ℤ)}
    (hs : Table.Step t l t') :
    ∃ more, Table.Step (t.entered a msg) l (t'.entered a (msg ++ more)) ∧
      Awaits (t' a.other).gameState (incoming t' a.other)
        ((t' a).player.colorByte :: (msg ++ more)) ∧
      incoming t' a = [] ∧ ∀ m, l = some m → m.1 = a := by
  -- the steps of the serial port
  have hport : l = none → (∃ transmit, t' a = { t a with transmit := transmit }) →
      (∃ receive line, t' a.other = { t a.other with receive := receive, line := line }) →
      (∀ f, incoming t' f = incoming t f) →
      ∃ more, Table.Step (t.entered a msg) l (t'.entered a (msg ++ more)) ∧
        Awaits (t' a.other).gameState (incoming t' a.other)
          ((t' a).player.colorByte :: (msg ++ more)) ∧
        incoming t' a = [] ∧ ∀ m, l = some m → m.1 = a := by
    rintro rfl hself ⟨receive, line, hother⟩ hin
    refine ⟨[], ?_, ?_, (hin a).trans hquiet, by simp⟩
    · rw [List.append_nil, Table.entered_congr hself ⟨_, _, _, receive, line, hother⟩]
      exact .idle _
    · obtain ⟨transmit, hself⟩ := hself
      rw [List.append_nil, hin, hself, hother]
      exact hf
  obtain ⟨hreceive, hsent⟩ := List.append_eq_nil_iff.mp hquiet
  obtain ⟨hreceive, hline⟩ := List.append_eq_nil_iff.mp hreceive
  obtain ⟨hlen, hmsg⟩ := length_opening hf hmatch
  simp only [incoming, Side.other_other, List.length_append] at hlen
  cases hs with
  | idle =>
    exact hport rfl ⟨(t a).transmit, rfl⟩ ⟨(t a.other).receive, (t a.other).line, rfl⟩ fun _ => rfl
  | write f b rest hb =>
    obtain rfl | rfl := a.eq_or_eq_other f
    · refine hport rfl ⟨rest, ?_⟩ ⟨(t f.other).receive, (t f.other).line ++ [b], ?_⟩
        (incoming_transfer t f hb)
      · simp [Table.transfer]
      · simp [Table.transfer]
    · rw [hsent] at hb
      cases hb
  | read f b rest hb =>
    obtain rfl | rfl := a.eq_or_eq_other f
    · rw [hline] at hb
      cases hb
    · refine hport rfl ⟨(t a).transmit, ?_⟩ ⟨enqueue (t a.other).receive b, rest, ?_⟩
        (incoming_read t a.other hb (by omega))
      · simp
      · simp
  | event f l s hplay hevent =>
    obtain rfl | rfl := a.eq_or_eq_other f
    · obtain ⟨more, htransmit, hreceive', hline', hplayer, hevent'⟩ :=
        hevent.sends hreceive (by omega) (by omega : msg.length ≤ 6)
      have hv : Table.entered (Function.update t f s) f (msg ++ more) =
          Function.update (t.entered f msg) f { s with transmit := msg ++ more } := by
        funext e
        obtain rfl | rfl := f.eq_or_eq_other e
        · simp
        · simp [hplayer]
      refine ⟨more, ?_, ?_, ?_, fun m hm => ?_⟩
      · rw [hv]
        exact .event _ f l _ (by simpa using hplay) (by simpa using hevent')
      · rw [incoming_update_other, htransmit, Function.update_self,
          Function.update_of_ne (Side.other_ne f), hplayer, ← List.append_assoc]
        have := hf.append more
        rw [incoming, Side.other_other] at this
        exact this
      · rw [incoming_update_self, hreceive', hline']
        exact hquiet
      · obtain ⟨m', -, rfl⟩ := Option.map_eq_some_iff.mp hm
        rfl
    · exact absurd hplay hf.menu.2.2.1

end Opening

namespace Session

variable {strict : Prop} {t t' : Table} {ms : List (Side × ℤ × ℤ)} (h : Session strict t ms)
include h

/-- **Every step of the game or of the serial port goes on with the session.** -/
theorem step {l : Option (Side × ℤ × ℤ)} (hs : Table.Step t l t')
    (havoid : ∀ m, l = some m → AvoidsFirst m)
    (hlegal : ∀ m, l = some m → (t m.1).Legal strict m.2.1 m.2.2) :
    Session strict t' (ms ++ l.toList) := by
  cases h with
  | menus hmenu hnew =>
    -- without an end in the game there is no event of the game
    have hport : l = none → (∀ e, ∃ transmit receive line, t' e =
        { t e with transmit := transmit, receive := receive, line := line }) →
        Session strict t' ([] ++ l.toList) := by
      rintro rfl hseats
      refine .menus (fun e => ?_) fun e => ?_
      · obtain ⟨transmit, receive, line, he⟩ := hseats e
        rw [he]
        exact hmenu e
      · obtain ⟨transmit, receive, line, he⟩ := hseats e
        rw [he]
        exact ⟨(hnew e).cells, (hnew e).dragging, (hnew e).endGame⟩
    cases hs with
    | idle => exact hport rfl fun e => ⟨_, _, _, rfl⟩
    | write f b rest =>
      refine hport rfl fun e => ?_
      unfold Table.transfer
      split
      · exact ⟨rest, (t e).receive, (t e).line, rfl⟩
      · exact ⟨(t e).transmit, (t e).receive, (t e).line ++ [b], rfl⟩
    | read f b rest =>
      refine hport rfl fun e => ?_
      obtain rfl | rfl := f.eq_or_eq_other e
      · exact ⟨(t e).transmit, enqueue (t e).receive b, rest, by simp⟩
      · exact ⟨(t f.other).transmit, (t f.other).receive, (t f.other).line, by simp⟩
    | event f l s hplay => exact absurd hplay (hmenu f).1
  | opening a w msg _ hf hquiet hmatch hmovers =>
    obtain ⟨more, hs', hf', hquiet', hmover⟩ := Table.Step.entered hf hmatch hquiet hs
    refine .opening a w (msg ++ more) _ hf' hquiet' (hmatch.step hs' havoid fun m hm => ?_)
      fun m hm => ?_
    · have hlegal := hlegal m hm
      rw [hmover m hm] at hlegal ⊢
      rw [Table.entered_self]
      exact hlegal
    · rcases List.mem_append.mp hm with hm | hm
      · exact hmovers m hm
      · exact hmover m (Option.mem_toList.mp hm)
  | game w _ hmatch => exact .game w _ (hmatch.step hs havoid hlegal)

end Session

/-- Where the bytes of a match stand does not matter, but in which order they come. -/
theorem TableMatch.congr {strict : Prop} {w : Side} {t t' : Table} {ms : List (Side × ℤ × ℤ)}
    (h : TableMatch strict w t ms) (hseats : ∀ e, ∃ transmit receive line, t' e =
      { t e with transmit := transmit, receive := receive, line := line })
    (hin : ∀ e, incoming t' e = incoming t e) : TableMatch strict w t' ms := by
  have hcells : ∀ e, (t' e).cells = (t e).cells := by
    intro e
    obtain ⟨_, _, _, he⟩ := hseats e
    rw [he]
  have hturn : ∀ e, (t' e).myTurn = (t e).myTurn := by
    intro e
    obtain ⟨_, _, _, he⟩ := hseats e
    rw [he]
  have hdrag : ∀ e, (t' e).dragging = (t e).dragging := by
    intro e
    obtain ⟨_, _, _, he⟩ := hseats e
    rw [he]
  refine ⟨fun e => ?_, fun e => ?_, h.token.congr hturn hdrag hin, h.alternate, ?_, ?_,
    h.agrees.of_quiet (fun e => ?_) (hin _) fun hh => ?_, (hcells _).trans h.moved, h.game, ?_,
    h.behind.congr (hcells _) ?_ (hin _)⟩
  · obtain ⟨_, _, _, he⟩ := hseats e
    rw [he]
    exact h.state e
  · obtain ⟨_, _, _, he⟩ := hseats e
    rw [he]
    exact ⟨(h.tidy e).unique, (h.tidy e).drag⟩
  · obtain ⟨_, _, _, he⟩ := hseats w
    rw [he]
    exact h.white
  · obtain ⟨_, _, _, he⟩ := hseats w.other
    rw [he]
    exact h.black
  · obtain ⟨transmit, receive, line, he⟩ := hseats e
    refine ⟨t' e, .inl ?_⟩
    rw [he]
    rfl
  · exact (h.token.holds_of_turn ((hturn _).symm.trans hh.turn)).2
  · obtain ⟨_, _, _, he⟩ := hseats (turnOf w ms.length).other
    rw [he]
    exact h.kings
  · obtain ⟨_, _, _, he⟩ := hseats (turnOf w ms.length)
    rw [he]

/-! ## The menus -/

/-- A chooser: the other end has only the answer to read, and nothing is on the way back. -/
theorem Handshake.of_choosing {t : Table} (h : Handshake t) {e : Side}
    (he : (t e).gameState = .choosingPlayer) :
    Awaits (t e.other).gameState (incoming t e.other) [] ∧ incoming t e = [] := by
  cases h with
  | start hstate => simp [hstate] at he
  | called a ha hf => obtain rfl | rfl := a.eq_or_eq_other e <;> simp [ha, hf] at he
  | answered a hstate => simp [hstate] at he
  | choosing a ha hf hquiet =>
    obtain rfl | rfl := a.eq_or_eq_other e
    · exact ⟨hf, hquiet⟩
    · exact absurd he hf.menu.2.1
  | chosen a msg ha hf =>
    obtain rfl | rfl := a.eq_or_eq_other e
    · obtain hg | hg := ha.state <;> simp [hg] at he
    · exact absurd he hf.menu.2.1
  | game w f hstate => obtain hg | hg := hstate e <;> simp [hg] at he

/-- Who waits for its color has nothing to read before the other end has chosen. -/
theorem Handshake.of_waitChoosing {t : Table} (h : Handshake t) {e : Side}
    (he : (t e).gameState = .waitChoosingPlayer)
    (hother : (t e.other).gameState ≠ .playing ∧ (t e.other).gameState ≠ .exit) :
    incoming t e = [] := by
  cases h with
  | start hstate => simp [hstate] at he
  | called a ha hf => obtain rfl | rfl := a.eq_or_eq_other e <;> simp [ha, hf] at he
  | answered a hstate => simp [hstate] at he
  | choosing a ha hf hquiet =>
    obtain rfl | rfl := a.eq_or_eq_other e
    · exact hquiet
    · obtain ⟨hg, -⟩ | ⟨-, hnil⟩ := hf
      · simp [hg] at he
      · exact hnil
  | chosen a msg ha hf hquiet =>
    obtain rfl | rfl := a.eq_or_eq_other e
    · exact hquiet
    · rw [Side.other_other] at hother
      exact absurd ha.state (not_or.mpr hother)
  | game w f hstate => exact absurd (hstate e.other) (not_or.mpr hother)

/-- The color that a player leaves to the other. -/
theorem TableMatch.colors {strict : Prop} {w : Side} {t : Table} {ms : List (Side × ℤ × ℤ)}
    (h : TableMatch strict w t ms) (e : Side) : (t e).player = .white ∨ (t e).player = .black := by
  obtain rfl | rfl := w.eq_or_eq_other e
  · exact .inl h.white
  · exact .inr h.black

/-- The chooser enters the game, in which the other end will have the other color. -/
theorem tableMatch_entered (strict : Prop) {t : Table} (hnew : ∀ e, (t e).Unplayed)
    (htidy : ∀ e, Tidy (t e)) {e : Side} (hquiet : incoming t e = []) {p : Player}
    (hp : p = .white ∨ p = .black) (transmit : List UInt8) :
    ∃ w, TableMatch strict w (Table.entered (Function.update t e { t e with
      gameState := .playing, player := p, myTurn := p == .white, transmit := transmit }) e [])
      [] := by
  set s : Seat := { t e with
    gameState := .playing, player := p, myTurn := p == .white, transmit := transmit }
  have hself : Table.entered (Function.update t e s) e [] e = { s with transmit := [] } := by simp
  have hother : Table.entered (Function.update t e s) e [] e.other = { t e.other with
      gameState := .playing, player := if p = .white then .black else .white,
      myTurn := !(p == .white), receive := [], line := [] } := by simp [s]
  obtain ⟨hreceive, hsent⟩ := List.append_eq_nil_iff.mp hquiet
  have hin : ∀ f, incoming (Table.entered (Function.update t e s) e []) f = [] := by
    intro f
    obtain rfl | rfl := e.eq_or_eq_other f
    · rw [incoming_entered_self, incoming_update_self]
      exact hquiet
    · exact incoming_entered_other _ _ _
  have hplay : ∀ f, (Table.entered (Function.update t e s) e [] f).gameState = .playing := by
    intro f
    obtain rfl | rfl := e.eq_or_eq_other f
    · rw [hself]
    · rw [hother]
  have hnew' : ∀ f, (Table.entered (Function.update t e s) e [] f).Unplayed := by
    intro f
    obtain rfl | rfl := e.eq_or_eq_other f
    · rw [hself]
      exact ⟨(hnew _).cells, (hnew _).dragging, (hnew _).endGame⟩
    · rw [hother]
      exact ⟨(hnew e.other).cells, (hnew e.other).dragging, (hnew e.other).endGame⟩
  have htidy' : ∀ f, Tidy (Table.entered (Function.update t e s) e [] f) := by
    intro f
    obtain rfl | rfl := e.eq_or_eq_other f
    · rw [hself]
      exact ⟨(htidy _).unique, (htidy _).drag⟩
    · rw [hother]
      exact ⟨(htidy e.other).unique, (htidy e.other).drag⟩
  obtain rfl | rfl := hp
  · refine ⟨e, .new hplay hnew' htidy' ⟨?_, ?_⟩ ⟨?_, ?_⟩ hin⟩
    · rw [hself]
    · rw [hself]
      rfl
    · rw [hother]
      rfl
    · rw [hother]
      rfl
  · refine ⟨e.other, .new hplay hnew' htidy' ⟨?_, ?_⟩ ⟨?_, ?_⟩ hin⟩
    · rw [hother]
      rfl
    · rw [hother]
      rfl
    · rw [Side.other_other, hself]
    · rw [Side.other_other, hself]
      rfl

namespace Session

variable {strict : Prop} {t t' : Table} {ms : List (Side × ℤ × ℤ)}

/-- An end in the menus is one of two, or the one that has not entered yet. -/
theorem of_menu (h : Session strict t ms) {e : Side} (hplay : (t e).gameState ≠ .playing)
    (hexit : (t e).gameState ≠ .exit) :
    (ms = [] ∧ (∀ f, (t f).gameState ≠ .playing ∧ (t f).gameState ≠ .exit) ∧
      ∀ f, (t f).Unplayed) ∨
    ∃ a w msg, e = a.other ∧
      Awaits (t a.other).gameState (incoming t a.other) ((t a).player.colorByte :: msg) ∧
      incoming t a = [] ∧ TableMatch strict w (t.entered a msg) ms ∧ ∀ m ∈ ms, m.1 = a := by
  cases h with
  | menus hmenu hnew => exact .inl ⟨rfl, hmenu, hnew⟩
  | opening a w msg _ hf hquiet hmatch hmovers =>
    right
    obtain rfl | rfl := a.eq_or_eq_other e
    · have hstate := hmatch.state e
      rw [Table.entered_self] at hstate
      exact absurd hstate (not_or.mpr ⟨hplay, hexit⟩)
    · exact ⟨a, w, msg, rfl, hf, hquiet, hmatch, hmovers⟩
  | game w _ hmatch => exact absurd (hmatch.state e) (not_or.mpr ⟨hplay, hexit⟩)

/-- A menu event that keeps the end in the menus, before any end is in the game. -/
theorem stays {e : Side} {s : Seat}
    (hmenu : ∀ f, (t f).gameState ≠ .playing ∧ (t f).gameState ≠ .exit)
    (hnew : ∀ f, (t f).Unplayed) (hs : s.gameState ≠ .playing ∧ s.gameState ≠ .exit)
    (hs' : s.Unplayed) : Session strict (Function.update t e s) [] := by
  refine .menus (fun f => ?_) fun f => ?_
  · obtain rfl | rfl := e.eq_or_eq_other f
    · simpa using hs
    · simpa using hmenu _
  · obtain rfl | rfl := e.eq_or_eq_other f
    · simpa using hs'
    · simpa using hnew _

/-- **Every event in the menus goes on with the session.** -/
theorem menu {k : ℕ} {e : Side} {s s' : Seat} (hev : Seat.MenuEvent k s s')
    (h : Session strict t ms) (hphase : Handshake t) (htidy : ∀ f, Tidy (t f)) (hs : t e = s) :
    Session strict (Function.update t e s') ms := by
  induction hev generalizing t with
  | idle s =>
    subst hs
    rwa [Function.update_eq_self]
  | connect s hstart =>
    subst hs
    rcases h.of_menu (e := e) (by simp [hstart]) (by simp [hstart]) with
      ⟨rfl, hmenu, hnew⟩ | ⟨a, w, msg, rfl, hf, -⟩
    · exact stays hmenu hnew (by simp) ⟨(hnew e).cells, (hnew e).dragging, (hnew e).endGame⟩
    · exact absurd hstart hf.menu.1
  | wait s b rest hwait hb =>
    subst hs
    rcases h.of_menu (e := e) (by simp [hwait]) (by simp [hwait]) with
      ⟨rfl, hmenu, hnew⟩ | ⟨a, w, msg, rfl, hf, hquiet, hmatch, hmovers⟩
    · obtain ⟨hcells, hdrag, hend⟩ := hnew e
      unfold Seat.answer
      split_ifs
      · exact stays hmenu hnew (by simp) ⟨hcells, hdrag, hend⟩
      · exact stays hmenu hnew (by simp) ⟨hcells, hdrag, hend⟩
      · exact stays hmenu hnew (by simp [hwait]) ⟨hcells, hdrag, hend⟩
    · -- the answer stands in front of the color
      obtain ⟨-, hin⟩ | ⟨hg, -⟩ := hf
      · obtain ⟨hawaits, hta, hquiet'⟩ := Handshake.read_received hin hb
        refine .opening a w msg ms (by rwa [hta]) (hquiet'.trans hquiet) ?_ hmovers
        rw [Table.entered_congr ⟨(t a).transmit, hta⟩ ?_]
        · exact hmatch
        · rw [Function.update_self]
          obtain ⟨rfl, -⟩ := List.cons.inj ((Handshake.incoming_cons hb).symm.trans hin)
          exact ⟨.waitChoosingPlayer, _, _, rest, _, rfl⟩
      · simp [hg] at hwait
  | choose s p hchoose hp =>
    subst hs
    rcases h.of_menu (e := e) (by simp [hchoose]) (by simp [hchoose]) with
      ⟨rfl, hmenu, hnew⟩ | ⟨a, w, msg, rfl, hf, -⟩
    · obtain ⟨hf, hquiet⟩ := hphase.of_choosing hchoose
      have hlen : (t e).transmit.length < 10 := by
        have := hf.length_le
        simp only [incoming, Side.other_other, List.length_append, List.length_nil] at this
        omega
      obtain ⟨w, hmatch⟩ := tableMatch_entered strict hnew htidy hquiet hp
        (enqueue (t e).transmit p.colorByte)
      refine .opening e w [] [] ?_ ?_ hmatch (by simp)
      · rw [incoming_update_other, Function.update_self,
          Function.update_of_ne (Side.other_ne e), enqueue, if_pos hlen, ← List.append_assoc]
        have := hf.append [p.colorByte]
        rw [incoming, Side.other_other] at this
        exact this
      · rw [incoming_update_self]
        exact hquiet
    · exact absurd hchoose hf.menu.2.1
  | color s b rest hcolor hb =>
    subst hs
    have hin := Handshake.incoming_cons hb
    rcases h.of_menu (e := e) (by simp [hcolor]) (by simp [hcolor]) with
      ⟨rfl, hmenu, hnew⟩ | ⟨a, w, msg, rfl, hf, hquiet, hmatch, hmovers⟩
    · rw [hphase.of_waitChoosing hcolor (hmenu e.other)] at hin
      cases hin
    · obtain ⟨hg, -⟩ | ⟨-, hbytes⟩ := hf
      · simp [hg] at hcolor
      · obtain ⟨rfl, hmsg⟩ := List.cons.inj (hin.symm.trans hbytes)
        rw [Side.other_other] at hmsg
        have hp := hmatch.colors a
        rw [Table.entered_self] at hp
        rw [Handshake.enter_colorByte _ hp]
        -- both ends are in the game: the bytes of the message stand where they are
        refine .game w ms (hmatch.congr (fun f => ?_) fun f => ?_)
        · obtain rfl | rfl := a.eq_or_eq_other f
          · exact ⟨(t f).transmit, (t f).receive, (t f).line, by simp⟩
          · exact ⟨(t a.other).transmit, rest, (t a.other).line, by simp⟩
        · obtain rfl | rfl := a.eq_or_eq_other f
          · rw [incoming_entered_self]
            simp [incoming]
          · rw [incoming_entered_other, incoming_update_self, Side.other_other]
            exact hmsg
  -- the handler takes a byte from the UART first, and then reads it
  | fetch s s' b rest hwait hb _ ih =>
    subst hs
    have hread : Table.Step t none (Function.update t e
        { t e with line := rest, receive := enqueue (t e).receive b }) := .read t e b rest hb
    have hsession := h.step hread (by simp) (by simp)
    rw [Option.toList_none, List.append_nil] at hsession
    have htidy' : ∀ f, Tidy (Function.update t e
        { t e with line := rest, receive := enqueue (t e).receive b } f) := by
      intro f
      obtain rfl | rfl := e.eq_or_eq_other f
      · rw [Function.update_self]
        exact ⟨(htidy _).unique, (htidy _).drag⟩
      · rw [Function.update_of_ne (Side.other_ne e)]
        exact htidy _
    have hnext := ih hsession (hphase.read hb) htidy' (Function.update_self ..)
    rwa [Function.update_idem] at hnext

/-- An end in the game takes part in a match. -/
theorem match_of_state (h : Session strict t ms) {e : Side}
    (he : (t e).gameState = .playing ∨ (t e).gameState = .exit) :
    ∃ w v, TableMatch strict w v ms ∧ Mirrors v t e ms ∧ ((t e).receive = [] ∨ v = t) ∧
      ∀ l t', Table.Step t l t' → ∃ v', Table.Step v l v' := by
  cases h with
  | menus hmenu => exact absurd he (not_or.mpr (hmenu e))
  | opening a w msg _ hf hquiet hmatch hmovers =>
    obtain rfl | rfl := a.eq_or_eq_other e
    · refine ⟨w, _, hmatch, ⟨⟨msg, Table.entered_self ..⟩, fun m hm => ?_⟩, .inl ?_,
        fun l t' hs => ?_⟩
      · rw [hmovers m hm, Table.entered_self]
      · exact (List.append_eq_nil_iff.mp (List.append_eq_nil_iff.mp hquiet).1).1
      · obtain ⟨more, hs', -⟩ := Table.Step.entered hf hmatch hquiet hs
        exact ⟨_, hs'⟩
    · exact absurd he (not_or.mpr ⟨hf.menu.2.2.1, hf.menu.2.2.2⟩)
  | game w _ hmatch => exact ⟨w, t, hmatch, .refl t e ms, .inr rfl, fun l t' hs => ⟨_, hs⟩⟩

end Session

/-! ## What a session shows -/

/-- The board of an end is that of the game, or it shows the board before the move that its
opponent has just made, and has not read it yet. -/
theorem TableMatch.boards {strict : Prop} {w : Side} {t : Table} {ms : List (Side × ℤ × ℤ)}
    (h : TableMatch strict w t ms) (e : Side) : (t e).cells = position ms ∨
      (∃ m, ms.getLast? = some m ∧ e = m.1.other ∧ Unread t m) ∧
        (t e).cells = position ms.dropLast := by
  obtain rfl | rfl := (turnOf w ms.length).eq_or_eq_other e
  · rcases h.behind with ⟨hcells, -⟩ | ⟨hcells, o, n, k, hk, hlast, hbytes, -⟩
    · exact .inl hcells
    · refine .inr ⟨⟨_, hlast, (Side.other_other _).symm, ?_⟩, hcells⟩
      rw [Unread, Side.other_other, hbytes]
      exact List.drop_suffix_drop_left (message o n) (Nat.le_of_lt_succ hk)
  · exact .inl h.moved

namespace Session

variable {strict : Prop} {t : Table} {ms : List (Side × ℤ × ℤ)} (h : Session strict t ms)
include h

/-- The moves are a game of chess, and so are those before the last ones. -/
theorem chess {ms' : List (Side × ℤ × ℤ)} (hpre : ms' <+: ms) :
    ChessGame strict (ms'.map ply) (kinds (position ms')) := by
  cases h with
  | menus =>
    rw [List.prefix_nil.mp hpre, List.map_nil, kinds_position_nil]
    exact .start
  | opening a w msg _ hf hquiet hmatch => exact hmatch.game ms' hpre
  | game w _ hmatch => exact hmatch.game ms' hpre

/-- White makes the first move, and the sides alternate. -/
theorem mover {k : ℕ} {m : Side × ℤ × ℤ} (hm : ms[k]? = some m) :
    (t m.1).player = playerOf k := by
  cases h with
  | menus => simp at hm
  | opening a w msg _ hf hquiet hmatch hmovers =>
    have hplayer := hmatch.player k
    rwa [← hmatch.alternate k m hm, hmovers m (List.mem_of_getElem? hm), Table.entered_self,
      ← hmovers m (List.mem_of_getElem? hm)] at hplayer
  | game w _ hmatch => rw [hmatch.alternate k m hm, hmatch.player]

/-- The boards of both ends. -/
theorem boards (e : Side) : (t e).cells = position ms ∨
    (∃ m, ms.getLast? = some m ∧ e = m.1.other ∧ Unread t m) ∧
      (t e).cells = position ms.dropLast := by
  cases h with
  | menus _ hnew => exact .inl (hnew e).cells
  | opening a w msg _ hf hquiet hmatch hmovers =>
    have hcells : (t.entered a msg e).cells = (t e).cells := by
      obtain rfl | rfl := a.eq_or_eq_other e
      · rw [Table.entered_self]
      · rw [Table.entered_other]
    rcases hmatch.boards e with hboard | ⟨⟨m, hm, he, hunread⟩, hboard⟩
    · exact .inl (hcells.symm.trans hboard)
    · -- the message stands behind the bytes of the handshake
      refine .inr ⟨⟨m, hm, he, ?_⟩, hcells.symm.trans hboard⟩
      rw [Unread, hmovers m (List.mem_of_getLast? hm)] at hunread ⊢
      rw [incoming_entered_other] at hunread
      exact hunread.trans hf.suffix
  | game w _ hmatch => exact hmatch.boards e

/-- When both ends have left the game, one of them has won it. -/
theorem outcome (hexit : ∀ e, (t e).gameState = .exit) :
    ∃ e, (t e).won = true ∧ (t e.other).won = false := by
  cases h with
  | menus hmenu => exact absurd (hexit .left) (hmenu .left).2
  | opening a w msg _ hf => exact absurd (hexit a.other) hf.menu.2.2.2
  | game w _ hmatch =>
    refine ⟨(turnOf w ms.length).other, ?_, ?_⟩
    · rcases hmatch.agrees.sender with hplay | ⟨-, hwon, -⟩
      · exact absurd (hplay.symm.trans (hexit _)) (by decide)
      · exact hwon
    · rw [Side.other_other]
      exact hmatch.agrees.lost (hexit _)

end Session

end LCChess
