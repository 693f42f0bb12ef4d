import LCChess.Library.Fairness
import LCChess.Program.ProjMainLoop
import LCChess.Protocol.Rank
import LCChess.Protocol.Session

/-!
# Sessions go on

A session waits for its users and for nothing else. As long as both ends keep handling frames,
calling `sp_read` and `sp_write`, and the UART takes and shows their bytes, the session comes again
and again to a point where one of the two players chooses its color or has the turn, or where both
have left the game.

## Main definitions

* `AtRest t`: the session waits for a user, or is over
* `Service.Due t`: the service has something to do
* `Choosing`, `OnTurn`, `GameOver`: what a session at rest shows

## Main results

* `InSession.advances`: no step of a session raises the rank
* `Session.service_due`, `InSession.helps`: what helps next is due, and helps
* `session_settles`: a session comes to rest again and again
-/

namespace LCChess

open Transition

/-! ## What is never undone -/

/-- What the seat `s` has reached, the seat `s'` has reached as well. -/
structure Seat.Later (s s' : Seat) : Prop where
  entered : s.gameState ≠ .start → s'.gameState ≠ .start
  game : s.gameState = .playing ∨ s.gameState = .exit →
    s'.gameState = .playing ∨ s'.gameState = .exit
  endGame : s.endGame = true → s'.endGame = true

namespace Seat

variable {s s' s'' : Seat}

theorem Later.refl (s : Seat) : s.Later s := ⟨id, id, id⟩

theorem Later.trans (h : s.Later s') (h' : s'.Later s'') : s.Later s'' :=
  ⟨fun hs => h'.entered (h.entered hs), fun hs => h'.game (h.game hs),
    fun hs => h'.endGame (h.endGame hs)⟩

/-- In the game. -/
theorem Event.later {l : Option (ℤ × ℤ)} (h : Event s l s') (hplay : s.gameState = .playing) :
    s.Later s' where
  entered _ := by rcases h.gameState (.inl hplay) with hg | hg <;> simp [hg]
  game := h.gameState
  endGame hend := by
    cases h with
    | idle => exact s.endGame_leave.trans hend
    | press => exact s.endGame_leave.trans hend
    | cancel => exact s.endGame_leave.trans hend
    | accept => simp [Seat.accept, hend]
    | poll _ hpoll =>
      obtain ⟨-, rfl⟩ | ⟨b, rest, -, hparse⟩ := poll_cases hpoll
      · exact s.endGame_leave.trans hend
      · exact (parse_frame hparse).2.1.trans (s.endGame_leave.trans hend)

/-- In the menus. -/
theorem MenuEvent.later {k : ℕ} (h : MenuEvent k s s')
    (hmenu : ¬ (s.gameState = .playing ∨ s.gameState = .exit)) : s.Later s' := by
  refine ⟨fun hs => ?_, fun hs => absurd hs hmenu, fun hend => ?_⟩
  · induction h with
    | idle => exact hs
    | connect => simp
    | wait s b rest =>
      unfold answer
      split_ifs
      · simp
      · simp
      · exact hs
    | choose => simp
    | fetch s s' b rest _ _ _ ih => exact ih hmenu hs
    | color s b rest =>
      by_cases hzero : b = 0
      · rwa [enter, if_pos hzero]
      · rw [enter, if_neg hzero]
        change GameState.playing ≠ .start
        decide
  · induction h with
    | idle => exact hend
    | connect => exact hend
    | wait s b rest =>
      unfold answer
      split_ifs <;> exact hend
    | choose => exact hend
    | fetch s s' b rest _ _ _ ih => exact ih hmenu hend
    | color s b rest =>
      unfold enter
      split_ifs <;> exact hend

end Seat

/-- A step of the game or of the serial port. -/
theorem Table.Step.later {t t' : Table} {l : Option (Side × ℤ × ℤ)} (h : Table.Step t l t')
    (e : Side) : (t e).Later (t' e) := by
  cases h with
  | idle => exact .refl _
  | write f b rest =>
    unfold Table.transfer
    split <;> exact ⟨id, id, id⟩
  | read f b rest =>
    obtain rfl | rfl := f.eq_or_eq_other e
    · rw [Function.update_self]
      exact ⟨id, id, id⟩
    · rw [Function.update_of_ne (Side.other_ne f)]
      exact .refl _
  | event f l r hplay hevent =>
    obtain rfl | rfl := f.eq_or_eq_other e
    · rw [Function.update_self]
      exact hevent.later hplay
    · rw [Function.update_of_ne (Side.other_ne f)]
      exact .refl _

/-! ## A session goes on -/

/-- The session waits for a user, or is over: an end chooses its color, an end has the turn, or both
have left the game. -/
def AtRest (t : Table) : Prop :=
  (∃ a, (t a).gameState = .choosingPlayer ∧ (t a.other).gameState = .waitChoosingPlayer ∧
      ∀ e, incoming t e = []) ∨
    ((∀ e, (t e).gameState = .playing) ∧ ∃ e, Holds t e) ∨ ∀ e, (t e).gameState = .exit

/-- The move of a match that is not at rest is on its way. -/
theorem TableMatch.inFlight {strict : Prop} {w : Side} {t : Table} {ms : List (Side × ℤ × ℤ)}
    (h : TableMatch strict w t ms) (hnot : ¬ AtRest t) : InFlight t (turnOf w ms.length) := by
  refine h.token.resolve_left fun hh => hnot (.inr (.inl ⟨fun e => ?_, _, hh⟩))
  obtain ⟨-, hplay, hplay', -⟩ := h.agrees.of_holds hh
  obtain rfl | rfl := (turnOf w ms.length).eq_or_eq_other e
  · exact hplay
  · exact hplay'

namespace Session

variable {strict : Prop} {t : Table} {ms : List (Side × ℤ × ℤ)} (h : Session strict t ms)
include h

/-- Two ends in the game play a match. -/
theorem of_game (hstate : ∀ e, (t e).gameState = .playing ∨ (t e).gameState = .exit) :
    ∃ w, TableMatch strict w t ms := by
  cases h with
  | menus hmenu => exact absurd (hstate .left) (not_or.mpr (hmenu .left))
  | opening a w msg _ hf =>
    obtain ⟨-, -, hplay, hexit⟩ := hf.menu
    exact absurd (hstate a.other) (not_or.mpr ⟨hplay, hexit⟩)
  | game w _ hmatch => exact ⟨w, hmatch⟩

/-- Away from its rest the game leaves nobody the turn. -/
theorem turn_of_not_atRest (hnot : ¬ AtRest t)
    (hstate : ∀ e, (t e).gameState = .playing ∨ (t e).gameState = .exit) (e : Side) :
    (t e).myTurn = false := by
  obtain ⟨w, hmatch⟩ := h.of_game hstate
  exact (hmatch.inFlight hnot).turn e

/-- Nothing is on its way to an end in the game whose opponent has not entered it. -/
theorem quiet_of_menu {e : Side} (he : (t e).gameState = .playing)
    (hplay : (t e.other).gameState ≠ .playing) (hexit : (t e.other).gameState ≠ .exit) :
    incoming t e = [] := by
  rcases h.of_menu hplay hexit with ⟨-, hmenu, -⟩ | ⟨a, w, msg, heq, -, hquiet, -⟩
  · exact absurd he (hmenu e).1
  · have hea : e = a := by rw [← Side.other_other e, heq, Side.other_other]
    rwa [hea]

/-- A captured king needs an end in the game, and two that have entered their names. -/
theorem of_endGame {e : Side} (hend : (t e).endGame = true) :
    (∀ f, (t f).gameState ≠ .start) ∧
      ∃ f, (t f).gameState = .playing ∨ (t f).gameState = .exit := by
  have hentered : ∀ {f}, (t f).gameState = .playing ∨ (t f).gameState = .exit →
      (t f).gameState ≠ .start := by
    rintro f (hg | hg) <;> simp [hg]
  cases h with
  | menus _ hnew => exact absurd (hend.symm.trans (hnew e).endGame) (by decide)
  | opening a w msg _ hf _ hmatch =>
    have ha := hmatch.state a
    rw [Table.entered_self] at ha
    refine ⟨fun f => ?_, a, ha⟩
    obtain rfl | rfl := a.eq_or_eq_other f
    · exact hentered ha
    · exact hf.menu.1
  | game w _ hmatch => exact ⟨fun f => hentered (hmatch.state f), e, hmatch.state e⟩

omit h in
/-- An event that does not bring the session to rest brings no turn to an end whose opponent is in
the game. -/
theorem turn_update {e : Side} {r : Seat} (h : Session strict (Function.update t e r) ms)
    (hnot : ¬ AtRest (Function.update t e r))
    (hother : (t e.other).gameState = .playing ∨ (t e.other).gameState = .exit)
    (hplay : r.gameState = .playing) : r.myTurn = false := by
  have hturn := h.turn_of_not_atRest hnot (fun f => ?_) e
  · rwa [Function.update_self] at hturn
  · obtain rfl | rfl := e.eq_or_eq_other f
    · rw [Function.update_self]
      exact .inl hplay
    · rwa [Function.update_of_ne (Side.other_ne e)]

end Session

/-! ## What helps -/

/-- The service has something to do. -/
def Service.Due (t : Table) : Service → Prop
  | .write e => (t e.other).gameState ≠ .exit ∧ (t e).transmit ≠ []
  | .read e => (t e).gameState ≠ .exit ∧ (t e).line ≠ []
  | .frame e => (t e).gameState ≠ .exit ∧ (t e).receive ≠ [] ∨
      (t e).gameState = .playing ∧ (t e).endGame = true

namespace Table

variable {t : Table} {e : Side}

/-- The service that an end wants is due. -/
theorem due_of_wants {k : Service} (h : t.wants e = some k) : k.Due t := by
  unfold wants at h
  split_ifs at h with hexit hreceive hline htransmit
  · obtain rfl := Option.some.inj h
    exact .inl ⟨hexit, hreceive⟩
  · obtain rfl := Option.some.inj h
    exact ⟨hexit, hline⟩
  · obtain rfl := Option.some.inj h
    exact ⟨by rwa [Side.other_other], htransmit⟩

/-- An end that wants nothing has left, or has read everything. -/
theorem wants_eq_none (h : t.wants e = none) : (t e).gameState = .exit ∨ incoming t e = [] := by
  unfold wants at h
  split_ifs at h with hexit hreceive hline htransmit
  · exact .inl hexit
  · right
    simp only [ne_eq, not_not] at hreceive hline htransmit
    rw [incoming, hreceive, hline, htransmit]
    rfl

end Table

/-- In a match the move on its way is read, or its sender has won and may leave. -/
theorem TableMatch.due {strict : Prop} {w : Side} {t : Table} {ms : List (Side × ℤ × ℤ)}
    (h : TableMatch strict w t ms) (hnot : ¬ AtRest t)
    (hnone : ∀ e, (t e).gameState = .exit ∨ incoming t e = []) :
    (t (turnOf w ms.length)).gameState = .exit ∧
      (t (turnOf w ms.length).other).gameState = .playing ∧
      (t (turnOf w ms.length).other).endGame = true := by
  set f := turnOf w ms.length
  have hbytes : incoming t f ≠ [] := by
    obtain ⟨o, n, k, -, -, hk, hin⟩ := (h.inFlight hnot).bytes
    rw [hin, ne_eq, List.drop_eq_nil_iff]
    simp only [message, List.length_cons, List.length_nil]
    omega
  have hexit := (hnone f).resolve_right hbytes
  have hplay : (t f.other).gameState = .playing := by
    refine (h.state f.other).resolve_right fun hexit' => hnot (.inr (.inr fun e => ?_))
    obtain rfl | rfl := f.eq_or_eq_other e
    · exact hexit
    · exact hexit'
  refine ⟨hexit, hplay, ?_⟩
  -- the end to move can leave as the loser only
  cases hend : (t f.other).endGame with
  | true => rfl
  | false =>
    obtain ⟨r, hsettle, -, -, hgoes⟩ := h.agrees.settled
    exact absurd ((hgoes hend).symm.trans (exit_settle hsettle hexit)) (by decide)

/-- Who awaits its color reads everything. -/
theorem Awaits.bytes_eq_nil {g : GameState} {bytes rest : List UInt8} (h : Awaits g bytes rest)
    (hnone : g = .exit ∨ bytes = []) : g = .waitChoosingPlayer ∧ rest = [] := by
  obtain ⟨rfl, rfl⟩ | ⟨rfl, rfl⟩ := h
  · simp at hnone
  · exact ⟨rfl, hnone.resolve_left (by decide)⟩

/-- **What helps next is due**, as long as a session is not at rest. -/
theorem Session.service_due {strict : Prop} {t : Table} {ms : List (Side × ℤ × ℤ)}
    (h : Session strict t ms) (hphase : Handshake t) (hentered : ∀ e, (t e).gameState ≠ .start)
    (hnot : ¬ AtRest t) : t.service.Due t := by
  unfold Table.service
  cases hleft : t.wants .left with
  | some k => exact Table.due_of_wants hleft
  | none =>
    cases hright : t.wants .right with
    | some k => exact Table.due_of_wants hright
    | none =>
      -- nobody has a byte to read: the winner is still to leave
      have hnone : ∀ e, (t e).gameState = .exit ∨ incoming t e = [] := by
        intro e
        cases e with
        | left => exact Table.wants_eq_none hleft
        | right => exact Table.wants_eq_none hright
      have hgame : ∀ e, (t e).gameState = .playing ∨ (t e).gameState = .exit := by
        cases hphase with
        | start hstate => exact absurd (hstate .left) (hentered .left)
        | called a _ hf => exact absurd hf (hentered a.other)
        | answered a hstate hin =>
          have hquiet := (hnone a).resolve_left (by simp [hstate a])
          exact absurd (hin.symm.trans hquiet) (by simp)
        | choosing a ha hf hquiet =>
          obtain ⟨hstate, -⟩ := hf.bytes_eq_nil (hnone a.other)
          refine absurd (.inl ⟨a, ha, hstate, fun e => ?_⟩) hnot
          obtain rfl | rfl := a.eq_or_eq_other e
          · exact hquiet
          · exact (hnone _).resolve_left (by simp [hstate])
        | chosen a msg _ hf => simpa using (hf.bytes_eq_nil (hnone a.other)).2
        | game w e hstate => exact hstate
      obtain ⟨w, hmatch⟩ := h.of_game hgame
      obtain ⟨hexit, hplay, hend⟩ := hmatch.due hnot hnone
      generalize turnOf w ms.length = f at hexit hplay hend
      cases f with
      | left =>
        rw [if_pos hexit]
        exact .inr ⟨hplay, hend⟩
      | right =>
        have hgoing : (t .left).gameState ≠ .exit := by
          intro hexit'
          exact absurd (hplay.symm.trans hexit') (by decide)
        rw [if_neg hgoing]
        exact .inr ⟨hplay, hend⟩

/-! ## The instances -/

section Frames

variable {d : Display} {vm vm' : Vm} {k : ℕ}

/-- A frame of an end that waits takes a byte from its queue. -/
theorem receive_waiting (h : vm.receiveQueue.WellFormed) (hstate : vm.gameState = .waiting)
    (hne : vm.receiveQueue.toList ≠ []) (hev : handleEvent d k .newFrame vm = some vm') :
    vm'.receiveQueue.toList ≠ vm.receiveQueue.toList := by
  have hqueue : vm'.receiveQueue = (readFromQueue vm.receiveQueue).2 := by
    have hview := (SameView.createBackground vm (menuScreen d d.waiting 0 0)).trans
      (SameView.showBackground _ d.toGeometry)
    simp only [handleEvent, inputHandler, hstate, Option.map_some, Option.some.injEq] at hev
    rw [← hev, ← hview.receive]
    simp only [presentFrame, waitingIh]
    split_ifs <;> rfl
  cases hb : vm.receiveQueue.toList with
  | nil => exact absurd hb hne
  | cons b rest =>
    rw [hqueue, (readFromQueue_of_cons h hb).2]
    exact (List.cons_ne_self b rest).symm

/-- A frame of an end that waits for its color takes a byte from the UART or from its queue. -/
theorem receive_waitChoosing (h : vm.receiveQueue.WellFormed)
    (hstate : vm.gameState = .waitChoosingPlayer) (hne : vm.receiveQueue.toList ≠ [])
    (hev : handleEvent d k .newFrame vm = some vm') :
    vm'.line ≠ vm.line ∨ vm'.receiveQueue.toList ≠ vm.receiveQueue.toList := by
  have hbuffers : vm'.line = (readLine (k ≠ 0) vm.line vm.receiveQueue).1 ∧
      vm'.receiveQueue =
        (readFromQueue (readLine (k ≠ 0) vm.line vm.receiveQueue).2).2 := by
    have hview := (SameView.createBackground vm (menuScreen d d.waiting 0 0)).trans
      (SameView.showBackground _ d.toGeometry)
    simp only [handleEvent, inputHandler, hstate, Option.map_some, Option.some.injEq] at hev
    rw [← hev, ← hview.receive, ← hview.line]
    simp only [presentFrame, waitingChoosingIh]
    split_ifs <;> exact ⟨rfl, rfl⟩
  rw [hbuffers.1, hbuffers.2]
  rcases readLine_cases (k ≠ 0) vm.line vm.receiveQueue with hread | ⟨b, rest, hline, hread⟩
  · right
    cases hb : vm.receiveQueue.toList with
    | nil => exact absurd hb hne
    | cons b rest =>
      rw [hread, (readFromQueue_of_cons h hb).2]
      exact (List.cons_ne_self b rest).symm
  · left
    rw [hread, hline]
    exact (List.cons_ne_self b rest).symm

/-- A frame of the game takes a byte from the queue, or lets the winner leave. -/
theorem frame_playing (h : Ready d vm) (hplay : vm.gameState = .playing)
    (hdue : vm.receiveQueue.toList ≠ [] ∨ vm.endGame = true)
    (hev : handleEvent d k .newFrame vm = some vm') :
    vm'.gameState ≠ .playing ∨ vm'.receiveQueue.toList ≠ vm.receiveQueue.toList := by
  have hpoll := (handleEvent_newFrame h hplay k).1
  rw [hev, Option.map_some] at hpoll
  rw [← seat_gameState d, ← seat_receive d vm, ← seat_receive d vm']
  obtain ⟨hnil, hleave⟩ | ⟨b, rest, hb, hparse⟩ := Seat.poll_cases hpoll.symm
  · left
    rw [Seat.receive_leave, seat_receive] at hnil
    have hend : (seat d vm).endGame = true := by
      rw [seat_endGame]
      exact hdue.resolve_left (not_not.mpr hnil)
    rw [hleave, Seat.leave, if_pos hend]
    simp
  · right
    obtain ⟨-, -, -, -, -, hreceive, -⟩ := Seat.parse_frame hparse
    rw [Seat.receive_leave] at hb
    rw [hreceive, hb]
    exact (List.cons_ne_self b rest).symm

end Frames

namespace InSession

variable {images : Images} {strict : Prop} {s : System} {ms : List (Side × ℤ × ℤ)}
  (h : InSession images strict s ms)
include h

/-- Every frame that is due does something. -/
theorem frame_helps {e : Side} (hdue : (Service.frame e).Due (table (Display.mode115 images) s))
    (hentered : (s e).vm.gameState ≠ .start) (k : ℕ) :
    ¬ Table.Still (table (Display.mode115 images) s)
      (table (Display.mode115 images)
        (System.step (Display.mode115 images) s (e, .event k .newFrame))) := by
  obtain ⟨vm', hev⟩ := Option.isSome_iff_exists.mp (h.event_isSome e k .newFrame)
  have hstep : System.step (Display.mode115 images) s (e, .event k .newFrame) e =
      { s e with vm := vm' } := by
    rw [System.step, if_pos rfl]
    exact Instance.step_event (h.alive e) hev
  have hwf := (h.knows.ready e).receive.1
  intro hstill
  have hstate := hstill.state e
  have hline := hstill.line e
  have hreceive := hstill.receive e
  simp only [table, hstep, seat_gameState, seat_line, seat_receive] at hstate hline hreceive
  simp only [Service.Due, table, seat_gameState, seat_receive, seat_endGame] at hdue
  cases hg : (s e).vm.gameState with
  | start => exact hentered hg
  | exit => simp [hg] at hdue
  | playing =>
    rcases frame_playing (h.knows.ready e) hg (hdue.imp And.right And.right) hev with hne | hne
    · exact hne (hstate.trans hg)
    · exact hne (hreceive (by simp [hg]))
  | waiting =>
    have hne : (s e).vm.receiveQueue.toList ≠ [] := by simpa [hg] using hdue
    exact receive_waiting hwf hg hne hev (hreceive (by simp [hg]))
  | waitChoosingPlayer =>
    have hne : (s e).vm.receiveQueue.toList ≠ [] := by simpa [hg] using hdue
    rcases receive_waitChoosing hwf hg hne hev with hne' | hne'
    · exact hne' (hline (by simp [hg]))
    · exact hne' (hreceive (by simp [hg]))
  | choosingPlayer =>
    -- nothing is on its way to a chooser
    have hne : (s e).vm.receiveQueue.toList ≠ [] := by simpa [hg] using hdue
    obtain ⟨-, hquiet⟩ := h.lobby.phase.of_choosing (e := e) (by simpa [table] using hg)
    have hnil := (List.append_eq_nil_iff.mp (List.append_eq_nil_iff.mp hquiet).1).1
    exact hne (by simpa [table] using hnil)

/-- A transmitter that is ready takes the next byte. -/
theorem write_helps {e : Side} (hdue : (Service.write e).Due (table (Display.mode115 images) s))
    {lsr : Option UInt32} (hready : spCheckWrite lsr = true) :
    ¬ Table.Still (table (Display.mode115 images) s)
      (table (Display.mode115 images)
        (System.step (Display.mode115 images) s (e, .spWrite lsr))) := by
  obtain ⟨hgoing, hne⟩ := hdue
  intro hstill
  have htransmit := hstill.transmit e hgoing
  have hstep : System.step (Display.mode115 images) s (e, .spWrite lsr) e =
      { s e with vm := ((s e).vm.spWrite lsr).1 } := by
    rw [System.step, if_pos rfl]
    exact (Instance.step_spWrite (h.alive e) lsr).1
  simp only [table, seat_transmit] at htransmit hne
  rw [hstep] at htransmit
  rcases spWrite_cases (h.knows.ready e).transmit.1 lsr with hsame | ⟨b, rest, hb, hwrite, hrest⟩
  · have hempty : queueIsEmpty (s e).vm.transmitQueue = false := by
      rw [← Bool.not_eq_true, Queue.queueIsEmpty_iff]
      exact hne
    have htaken : (spWrite lsr true (s e).vm.transmitQueue).2.2 ≠ none := by
      simp [spWrite, hempty, hready]
    exact htaken (congrArg Prod.snd hsame)
  · have hqueue : ((s e).vm.spWrite lsr).1.transmitQueue.toList = rest := by
      rw [← hrest]
      exact congrArg (fun q => Queue.toList q.1) hwrite
    rw [hqueue, hb] at htransmit
    exact List.cons_ne_self b rest htransmit.symm

/-- `sp_read` takes a byte that has arrived. -/
theorem read_helps {e : Side} (hdue : (Service.read e).Due (table (Display.mode115 images) s)) :
    ¬ Table.Still (table (Display.mode115 images) s)
      (table (Display.mode115 images)
        (System.step (Display.mode115 images) s (e, .spRead true))) := by
  obtain ⟨hgoing, hne⟩ := hdue
  intro hstill
  have hline := hstill.line e hgoing
  simp only [table, seat_line, seat_gameState] at hline hne hgoing
  have hstep : System.step (Display.mode115 images) s (e, .spRead true) e =
      { s e with vm := (s e).vm.spRead true } := by
    rw [System.step, if_pos rfl]
    exact (Instance.step_spRead (h.alive e) hgoing true).1
  rw [hstep] at hline
  cases hb : (s e).vm.line with
  | nil => exact hne hb
  | cons b rest =>
    have hread : ((s e).vm.spRead true).line = rest := by simp [Vm.spRead, hb, readLine]
    rw [hread, hb] at hline
    exact List.cons_ne_self b rest hline.symm

/-- **A service that is due helps.** -/
theorem helps {k : Service} (hdue : k.Due (table (Display.mode115 images) s))
    (hentered : ∀ e, (s e).vm.gameState ≠ .start) {a : Side × Action} (hdone : k.DoneBy a) :
    ¬ Table.Still (table (Display.mode115 images) s)
      (table (Display.mode115 images) (System.step (Display.mode115 images) s a)) := by
  cases k with
  | write e =>
    obtain ⟨lsr, rfl, hready⟩ := hdone
    exact h.write_helps hdue hready
  | read e =>
    obtain rfl := hdone
    exact h.read_helps hdue
  | frame e =>
    obtain ⟨k, rfl⟩ := hdone
    exact h.frame_helps hdue (hentered e) k

/-- **No step raises the rank**, before the session comes to rest. -/
theorem advances {a : Side × Action} (hentered : ∀ e, (s e).vm.gameState ≠ .start)
    (hnext : ∃ ms', InSession images strict (System.step (Display.mode115 images) s a) ms')
    (hnot : ¬ AtRest (table (Display.mode115 images) (System.step (Display.mode115 images) s a))) :
    Table.Advances (table (Display.mode115 images) s)
      (table (Display.mode115 images) (System.step (Display.mode115 images) s a)) := by
  obtain ⟨ms', hnext⟩ := hnext
  have hsession := hnext.session
  obtain ⟨-, ⟨l, hstep⟩ | ⟨k, event, r, -, hplay, hexit, htable, hevent, -⟩⟩ := h.lobby.cases a
  · generalize table (Display.mode115 images) (System.step (Display.mode115 images) s a) = t' at *
    cases hstep with
    | idle => exact .inr (.refl _)
    | write e b rest hb => exact advances_write hb
    | read e b rest hb => exact advances_read hb
    | event e l r hplay hevent =>
      refine (hevent.lighter hplay (fun p => h.lobby.phase.turn_of_dragging h.lobby.menu)
        fun hreceive hplay' => ?_).advances (by simp [hplay])
      by_cases hother : (table (Display.mode115 images) s e.other).gameState = .playing ∨
          (table (Display.mode115 images) s e.other).gameState = .exit
      · exact hsession.turn_update hnot hother hplay'
      · rw [not_or] at hother
        have hquiet := h.session.quiet_of_menu hplay hother.1 hother.2
        exact absurd (List.append_eq_nil_iff.mp (List.append_eq_nil_iff.mp hquiet).1).1 hreceive
  · rw [htable] at hsession hnot ⊢
    have hstart : (table (Display.mode115 images) s a.1).gameState ≠ .start := by
      simpa [table] using hentered a.1
    have hlighter := hevent.lighter hstart fun hcolor hplay' => by
      by_cases hother : (table (Display.mode115 images) s a.1.other).gameState = .playing ∨
          (table (Display.mode115 images) s a.1.other).gameState = .exit
      · exact hsession.turn_update hnot hother hplay'
      · -- the other end has sent no color yet
        have hquiet := h.lobby.phase.of_waitChoosing hcolor (not_or.mp hother)
        obtain ⟨hreceive, -⟩ := List.append_eq_nil_iff.mp hquiet
        obtain ⟨hreceive, hline⟩ := List.append_eq_nil_iff.mp hreceive
        rw [hevent.eq_of_quiet hcolor hreceive hline, hcolor] at hplay'
        cases hplay'
    rcases hlighter with hlighter | rfl
    · exact Seat.Lighter.advances (.inl hlighter) (by simpa [table] using hexit)
    · rw [Function.update_eq_self]
      exact .inr (.refl _)

/-- What has been reached stays so. -/
theorem later (a : Side × Action) (e : Side) :
    (table (Display.mode115 images) s e).Later
      (table (Display.mode115 images) (System.step (Display.mode115 images) s a) e) := by
  obtain ⟨-, ⟨l, hstep⟩ | ⟨k, event, r, -, hplay, hexit, htable, hevent, -⟩⟩ := h.lobby.cases a
  · exact hstep.later e
  · rw [htable]
    obtain rfl | rfl := a.1.eq_or_eq_other e
    · rw [Function.update_self]
      exact hevent.later (by simpa [table] using not_or.mpr ⟨hplay, hexit⟩)
    · rw [Function.update_of_ne (Side.other_ne _)]
      exact .refl _

end InSession

/-! ## The theorem -/

/-- An end chooses its color, and the other one awaits it. -/
def Choosing (s : System) : Prop :=
  Drained s ∧ ∃ a, (s a).vm.gameState = .choosingPlayer ∧
    (s a.other).vm.gameState = .waitChoosingPlayer

/-- An end has the turn in a game that goes on, and both show the same position. -/
def OnTurn (d : Display) (s : System) : Prop :=
  Drained s ∧ (∀ e, (s e).vm.gameState = .playing ∧ (s e).vm.endGame = false) ∧
    (∃ e, (s e).vm.myTurn = true ∧ (s e.other).vm.myTurn = false) ∧
    shownPosition d (s .left).vm = shownPosition d (s .right).vm

/-- Both ends have left the game, and the one that has captured the king has won it. -/
def GameOver (s : System) : Prop :=
  (∀ e, (s e).vm.gameState = .exit) ∧
    ∃ e, ((s e).vm.endGame = true ∧ (s e).vm.won = true) ∧
      (s e.other).vm.endGame = false ∧ (s e.other).vm.won = false

section Theorem

variable {images : Images}

/-- Nothing is on its way to either end. -/
theorem drained_of_quiet {d : Display} {s : System} (hquiet : ∀ e, incoming (table d s) e = []) :
    Drained s := by
  have hbytes : ∀ e, (s e).vm.receiveQueue.toList = [] ∧ (s e).vm.line = [] ∧
      (s e.other).vm.transmitQueue.toList = [] := by
    intro e
    simpa [incoming, table, and_assoc] using hquiet e
  intro e
  have hother := hbytes e.other
  rw [Side.other_other] at hother
  exact ⟨hother.2.2, (hbytes e).2.1, (hbytes e).1⟩

/-- What a session at rest waits for. -/
theorem InSession.atRest {strict : Prop} {s : System} {ms : List (Side × ℤ × ℤ)}
    (h : InSession images strict s ms) (hrest : AtRest (table (Display.mode115 images) s)) :
    Choosing s ∨ OnTurn (Display.mode115 images) s ∨ GameOver s := by
  rcases hrest with ⟨a, ha, hf, hquiet⟩ | ⟨hplay, e, hh⟩ | hexit
  · exact .inl ⟨drained_of_quiet hquiet, a, by simpa [table] using ha, by simpa [table] using hf⟩
  · right; left
    obtain ⟨w, hmatch⟩ := h.session.of_game fun f => .inl (hplay f)
    obtain ⟨rfl, -⟩ := hmatch.token.holds_of_turn hh.turn
    obtain ⟨hcells, -, -, hend⟩ := hmatch.agrees.of_holds hh
    have hend' := hmatch.agrees.receiver
    refine ⟨drained_of_quiet (d := Display.mode115 images) fun f => ?_,
      fun f => ⟨by simpa [table] using hplay f, ?_⟩,
      ⟨_, by simpa [table] using hh.turn, by simpa [table] using hh.turn_other⟩, ?_⟩
    · obtain rfl | rfl := (turnOf w ms.length).eq_or_eq_other f
      · exact hh.quiet
      · exact hh.quiet_other
    · obtain rfl | rfl := (turnOf w ms.length).eq_or_eq_other f
      · simpa [table] using hend'
      · simpa [table] using hend
    · rw [shownPosition_eq (h.knows.ready .left), shownPosition_eq (h.knows.ready .right)]
      generalize turnOf w ms.length = f at hcells
      cases f with
      | left => exact congrArg kinds hcells
      | right => exact congrArg kinds hcells.symm
  · right; right
    obtain ⟨w, hmatch⟩ := h.session.of_game fun f => .inr (hexit f)
    have hreceiver := hmatch.agrees.receiver
    have hlost := hmatch.agrees.lost (hexit _)
    rcases hmatch.agrees.sender with hplay | ⟨-, hwon, hend⟩
    · exact absurd (hplay.symm.trans (hexit _)) (by decide)
    · refine ⟨fun e => by simpa [table] using hexit e, (turnOf w ms.length).other, ?_⟩
      rw [Side.other_other]
      exact ⟨by simpa [table] using And.intro hend hwon,
        by simpa [table] using And.intro hreceiver hlost⟩

/-- The steps of a session. -/
def SessionOk (images : Images) (s : System) (a : Side × Action) : Prop :=
  EnterOk s a ∧ ∀ m, System.accepted (Display.mode115 images) s a = some m → AvoidsFirst m

/-- A session whose ends have entered their names. -/
def Entered (images : Images) (s : System) : Prop :=
  (∃ ms, InSession images False s ms) ∧ ∀ e, (s e).vm.gameState ≠ .start

/-- The services help a session to come to rest. -/
theorem helps_session : Helps (System.step (Display.mode115 images)) (SessionOk images)
    (Entered images) (fun s => AtRest (table (Display.mode115 images) s))
    (fun s => (table (Display.mode115 images) s).rank)
    (fun s => (table (Display.mode115 images) s).service) Service.DoneBy where
  keeps s a hs hnot hok := by
    obtain ⟨⟨ms, h⟩, hentered⟩ := hs
    by_cases hrest : AtRest (table (Display.mode115 images)
        (System.step (Display.mode115 images) s a))
    · exact .inl hrest
    · have hnext := h.step a hok.1 (fun hfalse => hfalse.elim) hok.2
      refine .inr ⟨⟨⟨_, hnext⟩, fun e => ?_⟩, ?_⟩
      · simpa [table] using (h.later a e).entered (by simpa [table] using hentered e)
      · exact (h.advances hentered ⟨_, hnext⟩ hrest).imp_right fun hstill =>
          ⟨hstill.rank, hstill.service⟩
  helps s a hs hnot hok hdone := by
    obtain ⟨⟨ms, h⟩, hentered⟩ := hs
    by_cases hrest : AtRest (table (Display.mode115 images)
        (System.step (Display.mode115 images) s a))
    · exact .inl hrest
    · have hnext := h.step a hok.1 (fun hfalse => hfalse.elim) hok.2
      have hdue := h.session.service_due h.lobby.phase
        (fun e => by simpa [table] using hentered e) hnot
      exact .inr ((h.advances hentered ⟨_, hnext⟩ hrest).resolve_right
        (h.helps hdue hentered hdone))

section Trace

variable {s : System} (h : AtStart (Display.mode115 images) s) (halive : ∀ e, (s e).crashed = false)
  {acts : ℕ → Side × Action}
  (hok : ∀ n, SessionOk images (trace (System.step (Display.mode115 images)) s acts n) (acts n))
include h halive hok

/-- An infinite session. -/
theorem AtStart.inSession_trace (n : ℕ) :
    ∃ ms, InSession images False (trace (System.step (Display.mode115 images)) s acts n) ms := by
  refine trace_invariant_along (fun s => ∃ ms, InSession images False s ms) (SessionOk images) ?_
    ⟨[], h.inSession halive fun hfalse => hfalse.elim⟩ hok n
  rintro s a ⟨ms, hs⟩ hok
  exact ⟨_, hs.step a hok.1 (fun hfalse => hfalse.elim) hok.2⟩

/-- What an end has reached it does not lose. -/
theorem AtStart.later_trace (n k : ℕ) (e : Side) :
    (table (Display.mode115 images) (trace (System.step (Display.mode115 images)) s acts n) e).Later
      (table (Display.mode115 images)
        (trace (System.step (Display.mode115 images)) s acts (n + k)) e) := by
  induction k with
  | zero => exact .refl _
  | succ k ih =>
    obtain ⟨ms, hs⟩ := h.inSession_trace halive hok (n + k)
    exact ih.trans (hs.later (acts (n + k)) e)

/-- **From any time on**, a session whose ends have entered their names comes to rest. -/
theorem AtStart.atRest_trace (hfair : ∀ k : Service, Again fun n => k.DoneBy (acts n)) {n : ℕ}
    (hentered : ∀ e,
      (trace (System.step (Display.mode115 images)) s acts n e).vm.gameState ≠ .start) :
    ∃ m, n ≤ m ∧
      AtRest (table (Display.mode115 images)
        (trace (System.step (Display.mode115 images)) s acts m)) := by
  have hok' : ∀ k, SessionOk images
      (trace (System.step (Display.mode115 images))
        (trace (System.step (Display.mode115 images)) s acts n) (fun i => acts (n + i)) k)
      (acts (n + k)) := by
    intro k
    rw [← trace_add]
    exact hok (n + k)
  obtain ⟨k, hk⟩ := helps_session.reaches ⟨h.inSession_trace halive hok n, hentered⟩ hok'
    fun k => (hfair k).shift n
  refine ⟨n + k, Nat.le_add_right n k, ?_⟩
  rwa [trace_add]

end Trace

/-- **A session goes on.** In every infinite run of two instances from the start of their main
loops in which the second `ENTER` comes after the `VM_CONNECTED` of the first has arrived and no
accepted move starts or ends in the first cell, and in which each end handles frames, calls
`sp_read` when a byte has arrived and `sp_write` when the transmitter is ready again and again: from
the time on at which both ends have entered their names, the session comes again and again to a
point where nothing is on its way and a user chooses a color, or has the turn in a game that goes on
and that both ends show alike, or where both have left the game. And when an end has captured a
king, both leave, that end as the winner and the other one as the loser. -/
theorem session_settles {s : System} (h : AtStart (Display.mode115 images) s)
    (halive : ∀ e, (s e).crashed = false) {acts : ℕ → Side × Action}
    (hok : ∀ n, EnterOk (trace (System.step (Display.mode115 images)) s acts n) (acts n))
    (havoid : ∀ n m, System.accepted (Display.mode115 images)
      (trace (System.step (Display.mode115 images)) s acts n) (acts n) = some m → AvoidsFirst m)
    (hfair : ∀ k : Service, Again fun n => k.DoneBy (acts n)) :
    let d := Display.mode115 images
    let s' := trace (System.step d) s acts
    (∀ n, (∀ e, (s' n e).vm.gameState ≠ .start) →
      ∃ m, n ≤ m ∧ (Choosing (s' m) ∨ OnTurn d (s' m) ∨ GameOver (s' m))) ∧
    ∀ n e, (s' n e).vm.endGame = true → ∃ m, n ≤ m ∧
      (∀ f, (s' m f).vm.gameState = .exit) ∧ (s' m e).vm.won = true ∧
        (s' m e.other).vm.won = false := by
  intro d s'
  have hok' : ∀ n, SessionOk images (s' n) (acts n) := fun n => ⟨hok n, havoid n⟩
  have hsettles : ∀ n, (∀ e, (s' n e).vm.gameState ≠ .start) →
      ∃ m, n ≤ m ∧ (Choosing (s' m) ∨ OnTurn d (s' m) ∨ GameOver (s' m)) := by
    intro n hentered
    obtain ⟨m, hm, hrest⟩ := h.atRest_trace halive hok' hfair hentered
    obtain ⟨ms, hs⟩ := h.inSession_trace halive hok' m
    exact ⟨m, hm, hs.atRest hrest⟩
  refine ⟨hsettles, fun n e hend => ?_⟩
  obtain ⟨ms, hs⟩ := h.inSession_trace halive hok' n
  obtain ⟨hentered, f, hf⟩ := hs.session.of_endGame (e := e) (by simpa [table] using hend)
  obtain ⟨m, hm, hrest⟩ := hsettles n fun g => by simpa [table] using hentered g
  obtain ⟨k, rfl⟩ := Nat.exists_eq_add_of_le hm
  have hlater := h.later_trace halive hok' n k
  have hend' : (s' (n + k) e).vm.endGame = true := by
    simpa [table] using (hlater e).endGame (by simpa [table] using hend)
  refine ⟨n + k, hm, ?_⟩
  rcases hrest with ⟨-, a, ha, ha'⟩ | ⟨-, hgoing, -⟩ | ⟨hexit, g, ⟨hcaptured, hwon⟩, hnone, hlost⟩
  · -- an end in the game stays there
    have hgame := (hlater f).game hf
    obtain rfl | rfl := a.eq_or_eq_other f
    · rw [table, seat_gameState, ha] at hgame
      simp at hgame
    · rw [table, seat_gameState, ha'] at hgame
      simp at hgame
  · exact absurd (hend'.symm.trans (hgoing e).2) (by decide)
  · obtain rfl | rfl := g.eq_or_eq_other e
    · exact ⟨hexit, hwon, hlost⟩
    · exact absurd (hend'.symm.trans hnone) (by decide)

/-- The line and the timer serve both ends in turns. -/
def served (n : ℕ) : Side × Action :=
  match n % 6 with
  | 0 => (.left, .spWrite (some 0x20))
  | 1 => (.left, .spRead true)
  | 2 => (.left, .event 0 .newFrame)
  | 3 => (.right, .spWrite (some 0x20))
  | 4 => (.right, .spRead true)
  | _ => (.right, .event 0 .newFrame)

/-- An orderly session, and then frames without an input. -/
def raidForever (n : ℕ) : Side × Action := orderlyRaid.getD n (served n)

theorem length_orderlyRaid : orderlyRaid.length = 112 := by decide

theorem raidForever_of_le {n : ℕ} (h : 112 ≤ n) : raidForever n = served n := by
  rw [raidForever, List.getD_eq_getElem?_getD,
    List.getElem?_eq_none (length_orderlyRaid.trans_le h), Option.getD_none]

theorem map_raidForever : (List.range 112).map raidForever = orderlyRaid := by
  refine List.ext_getElem (by simp [length_orderlyRaid]) fun n hn hn' => ?_
  simp [raidForever, List.getElem?_eq_getElem hn']

/-- Neither a key nor a packet. -/
theorem served_input (n : ℕ) : (∀ k code, (served n).2 ≠ .event k (.keyboard code)) ∧
    ∀ k packet, (served n).2 ≠ .event k (.mouse packet) := by
  unfold served
  split <;> simp

/-- The handshake is orderly, and the moves avoid the first cell. -/
theorem sessionOk_raidForever (n : ℕ) : SessionOk Images.blank
    (trace (System.step (Display.mode115 Images.blank)) startLobby raidForever n)
    (raidForever n) := by
  have havoid : ∀ m ∈ moves (Display.mode115 Images.blank) startLobby orderlyRaid,
      AvoidsFirst m := by
    rw [orderlyRaid_spec.2.2]
    decide
  rcases Nat.lt_or_ge n 112 with hn | hn
  · constructor
    · have hok := along_orderlyRaid
      rw [← map_raidForever] at hok
      exact ok_of_along hok hn
    · have hok := along_outputs.mp havoid
      rw [← map_raidForever] at hok
      simpa only [Option.mem_toList] using ok_of_along hok hn
  · obtain ⟨hkey, hmouse⟩ := served_input n
    rw [raidForever_of_le hn]
    constructor
    · exact enterOk_of_ne fun k => hkey k enter
    · intro m hm
      obtain ⟨-, k, event, hact, hmove⟩ := System.accepted_eq_some hm
      unfold acceptedMove at hmove
      split at hmove
      · exact absurd (congrArg Prod.snd hact) (hmouse k _)
      · cases hmove

theorem again_served (k : Service) : Again fun n => k.DoneBy (raidForever n) := by
  intro n
  have hat : ∀ i < 6, raidForever (114 + 6 * n + i) = served i := by
    intro i hi
    rw [raidForever_of_le (by omega), served, served]
    have hmod : (114 + 6 * n + i) % 6 = i % 6 := by omega
    rw [hmod]
  cases k with
  | write e =>
    cases e with
    | left => exact ⟨114 + 6 * n + 0, by omega, some 0x20, hat 0 (by decide), by decide⟩
    | right => exact ⟨114 + 6 * n + 3, by omega, some 0x20, hat 3 (by decide), by decide⟩
  | read e =>
    cases e with
    | left => exact ⟨114 + 6 * n + 1, by omega, hat 1 (by decide)⟩
    | right => exact ⟨114 + 6 * n + 4, by omega, hat 4 (by decide)⟩
  | frame e =>
    cases e with
    | left => exact ⟨114 + 6 * n + 2, by omega, 0, hat 2 (by decide)⟩
    | right => exact ⟨114 + 6 * n + 5, by omega, 0, hat 5 (by decide)⟩

/-- Behind the raid both ends leave the game, white as the winner. -/
theorem session_settles_raid :
    let s' := trace (System.step (Display.mode115 Images.blank)) startLobby raidForever
    (s' 112 .left).vm.endGame = true ∧
      ∃ m, 112 ≤ m ∧ (∀ e, (s' m e).vm.gameState = .exit) ∧ (s' m .left).vm.won = true ∧
        (s' m .right).vm.won = false := by
  have hend : (trace (System.step (Display.mode115 Images.blank)) startLobby raidForever 112
      .left).vm.endGame = true := by
    rw [trace_eq_run, map_raidForever]
    exact orderlyRaid_spec.1
  have hsettles := session_settles (atStart_startLobby (Display.mode115 Images.blank))
    (fun _ => rfl) (fun n => (sessionOk_raidForever n).1) (fun n => (sessionOk_raidForever n).2)
    again_served
  exact ⟨hend, hsettles.2 112 .left hend⟩

end Theorem

end LCChess
