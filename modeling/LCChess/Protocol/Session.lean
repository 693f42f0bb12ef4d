import LCChess.Protocol.Opening

/-!
# Sessions of two instances

Runs from the start of two instances, through the menus and the game, to its end. The moves that
the instances accept are a game of chess, whatever the interleaving, as long as the second `ENTER`
does not cross the `VM_CONNECTED` of the first.

## Main definitions

* `KeepsGame vm vm'`: the game and the animation have not changed
* `InSession images strict s ms`: the invariant of a session in which the moves `ms` have been made
* `orderlyRaid`: a session of seven moves, from the menus to the capture of a king

## Main results

* `handleEvent_keepsGame`: the menus crash on no event, and leave the game alone
* `InSession.step`: every step goes on with the session
* `session_is_chess`: a session is a game of chess
-/

namespace LCChess

open Transition (run run_append Along along_outputs run_outputs_invariant_along)

/-! ## What the menus leave alone -/

/-- The game of an instance and its animation have not changed. -/
structure KeepsGame (vm vm' : Vm) : Prop extends SameGame vm vm' where
  animation : vm'.animation = vm.animation

namespace KeepsGame

variable {vm vm' vm'' : Vm}

theorem trans (h : KeepsGame vm vm') (h' : KeepsGame vm' vm'') : KeepsGame vm vm'' :=
  ⟨⟨h'.created.trans h.created, h'.board.trans h.board, h'.heap.trans h.heap,
    h'.move.trans h.move, h'.byteOfMove.trans h.byteOfMove, h'.dragging.trans h.dragging,
    h'.inicialRow.trans h.inicialRow, h'.inicialCol.trans h.inicialCol,
    h'.endGame.trans h.endGame, h'.won.trans h.won⟩, h'.animation.trans h.animation⟩

theorem createBackground (vm : Vm) (screen : Memory) :
    KeepsGame vm (vm.createBackground screen) := by
  unfold Vm.createBackground
  split <;> exact ⟨⟨rfl, rfl, rfl, rfl, rfl, rfl, rfl, rfl, rfl, rfl⟩, rfl⟩

theorem showBackground (vm : Vm) (g : Geometry) : KeepsGame vm (vm.showBackground g) := by
  unfold Vm.showBackground
  split <;> exact ⟨⟨rfl, rfl, rfl, rfl, rfl, rfl, rfl, rfl, rfl, rfl⟩, rfl⟩

theorem waiting (d : Display) (event : Event) (vm : Vm) : KeepsGame vm (waitingIh d event vm) := by
  have h := createBackground vm (menuScreen d d.waiting 0 0)
  cases event with
  | mouse packet => exact h
  | keyboard code => exact h
  | newFrame =>
    refine (h.trans (showBackground _ d.toGeometry)).trans ?_
    dsimp only [waitingIh]
    split_ifs <;> exact ⟨⟨rfl, rfl, rfl, rfl, rfl, rfl, rfl, rfl, rfl, rfl⟩, rfl⟩

theorem waitingChoosing (d : Display) (arrived : Bool) (event : Event) (vm : Vm) :
    KeepsGame vm (waitingChoosingIh d arrived event vm) := by
  have h := createBackground vm (menuScreen d d.waiting 0 0)
  cases event with
  | mouse packet => exact h
  | keyboard code => exact h
  | newFrame =>
    refine (h.trans (showBackground _ d.toGeometry)).trans ?_
    dsimp only [waitingChoosingIh]
    split_ifs <;> exact ⟨⟨rfl, rfl, rfl, rfl, rfl, rfl, rfl, rfl, rfl, rfl⟩, rfl⟩

theorem choosing (d : Display) (event : Event) (vm : Vm) :
    KeepsGame vm (choosingIh d event vm) := by
  have h := createBackground vm (menuScreen d d.playerChoice 95 15)
  cases event with
  | keyboard code => exact h
  | newFrame => exact h.trans (showBackground _ d.toGeometry)
  | mouse packet =>
    refine h.trans ?_
    dsimp only [choosingIh]
    split <;> exact ⟨⟨rfl, rfl, rfl, rfl, rfl, rfl, rfl, rfl, rfl, rfl⟩, rfl⟩

theorem nameChoice (d : Display) (k : ℕ) (event : Event) (vm : Vm) :
    KeepsGame vm (nameChoiceIh d k event vm) := by
  unfold nameChoiceIh
  have h : KeepsGame vm (if (vm.background .start).isNone then
      { vm with
        background := Function.update vm.background .start (some (nameScreen d vm.name))
        redraw := false }
    else vm) := by
    split <;> exact ⟨⟨rfl, rfl, rfl, rfl, rfl, rfl, rfl, rfl, rfl, rfl⟩, rfl⟩
  refine h.trans ?_
  generalize (if (vm.background .start).isNone then _ else vm) = v
  cases event with
  | mouse packet => exact ⟨⟨rfl, rfl, rfl, rfl, rfl, rfl, rfl, rfl, rfl, rfl⟩, rfl⟩
  | newFrame =>
    refine trans ?_ (showBackground _ d.toGeometry)
    split <;> exact ⟨⟨rfl, rfl, rfl, rfl, rfl, rfl, rfl, rfl, rfl, rfl⟩, rfl⟩
  | keyboard code =>
    dsimp only [nameChoiceKeyboard]
    split_ifs <;> exact ⟨⟨rfl, rfl, rfl, rfl, rfl, rfl, rfl, rfl, rfl, rfl⟩, rfl⟩
end KeepsGame

/-- **An event outside the game** is handled, and leaves the game and the animation alone. -/
theorem handleEvent_keepsGame (d : Display) (k : ℕ) (event : Event) {vm : Vm}
    (hplay : vm.gameState ≠ .playing) :
    ∃ vm', handleEvent d k event vm = some vm' ∧ KeepsGame vm vm' := by
  -- a mouse packet moves the cursor first, a frame is presented behind
  have hinput : ∀ v : Vm, v.gameState = vm.gameState →
      ∃ v', inputHandler d k event v = some v' ∧ KeepsGame v v' := by
    intro v hv
    unfold inputHandler
    split
    · exact ⟨_, rfl, .nameChoice d k event v⟩
    · exact ⟨_, rfl, .waiting d event v⟩
    · rename_i hplaying
      exact absurd (hv.symm.trans hplaying) hplay
    · exact ⟨_, rfl, .choosing d event v⟩
    · exact ⟨_, rfl, .waitingChoosing d _ event v⟩
    · exact ⟨v, rfl, ⟨rfl, rfl, rfl, rfl, rfl, rfl, rfl, rfl, rfl, rfl⟩, rfl⟩
  cases event with
  | mouse packet =>
    have hcursor : KeepsGame vm
        { vm with cursor := updateCursor d.toGeometry packet vm.cursor } :=
      ⟨⟨rfl, rfl, rfl, rfl, rfl, rfl, rfl, rfl, rfl, rfl⟩, rfl⟩
    obtain ⟨vm', hvm', hkeeps⟩ :=
      hinput { vm with cursor := updateCursor d.toGeometry packet vm.cursor } rfl
    exact ⟨vm', hvm', hcursor.trans hkeeps⟩
  | newFrame =>
    obtain ⟨vm', hvm', hkeeps⟩ := hinput vm rfl
    have hpresent : KeepsGame vm' (presentFrame d vm') :=
      ⟨⟨rfl, rfl, rfl, rfl, rfl, rfl, rfl, rfl, rfl, rfl⟩, rfl⟩
    exact ⟨_, congrArg (Option.map (presentFrame d)) hvm', hkeeps.trans hpresent⟩
  | keyboard scanCode => exact hinput vm rfl

/-! ## Sessions of two instances -/

/-- An instance that drags nothing has a clean board in memory. -/
theorem guides_of_idle {images : Images} {vm : Vm} (hidle : vm.draggingPiece = none)
    (hclean : Clean (ensureBoard (Display.mode115 images) vm).board.memBoard) (strict : Prop) :
    Guides images strict vm := by
  have hnone : (seat (Display.mode115 images) vm).dragging = none := (seat_dragging _ _).trans hidle
  refine ⟨fun _ => hclean, fun p hp => ?_, fun p hp => ?_⟩
  · exact absurd (hnone.symm.trans hp) (by simp)
  · exact absurd (hnone.symm.trans hp) (by simp)

/-- Without an event that crashes, no instance crashes. -/
theorem System.step_alive {d : Display} {s : System} (h : ∀ e, (s e).crashed = false)
    {a : Side × Action} (hevent : ∀ arrivals event, a.2 = .event arrivals event →
      (handleEvent d arrivals event (s a.1).vm).isSome = true) (e : Side) :
    (System.step d s a e).crashed = false := by
  unfold System.step
  split
  · rename_i he
    subst he
    rw [Instance.step_of_alive (h a.1)]
    cases hact : a.2 with
    | event arrivals event =>
      obtain ⟨vm', hvm'⟩ := Option.isSome_iff_exists.mp (hevent arrivals event hact)
      simpa only [hvm'] using h a.1
    | spWrite lsr => exact h a.1
    | spRead arrived =>
      dsimp only
      split
      · exact h a.1
      · exact h a.1
  · exact h e

namespace Knows

variable {images : Images} {strict : Prop} {s : System} {ms : List (Side × ℤ × ℤ)}
  (h : Knows images strict s ms)
include h

/-- A call of `sp_write` or `sp_read` leaves the boards and the flags alone. -/
theorem port {a : Side × Action} (hport : ∀ arrivals event, a.2 ≠ .event arrivals event)
    (hready : ∀ e, Ready (Display.mode115 images)
      (System.step (Display.mode115 images) s a e).vm) :
    Knows images strict (System.step (Display.mode115 images) s a) ms := by
  have hbuffered : ∀ e, (s e).vm.Buffered (System.step (Display.mode115 images) s a e).vm := by
    intro e
    rcases System.step_event_or_buffered (Display.mode115 images) s a e with
      ⟨arrivals, event, -, rfl, -⟩ | hbuffered
    · exact absurd rfl (hport arrivals event)
    · exact hbuffered
  refine ⟨hready, fun e => guides_buffered (h.guides e) (h.ready e) (hbuffered e),
    fun hstrict => ⟨fun e => ?_, fun i p hi hp hpawn hrow => ?_⟩⟩
  · obtain ⟨_, _, _, he, -⟩ := hbuffered e
    rw [he]
    exact (h.flags hstrict).on e
  · obtain ⟨e, hmoved, hown, hnoted⟩ := (h.flags hstrict).noted i p hi hp hpawn hrow
    refine ⟨e, hmoved, ?_⟩
    obtain ⟨hboard, hheap⟩ := (hbuffered e).sameGame.ensureBoard (d := Display.mode115 images)
    obtain ⟨transmit, receive, line, he, -⟩ := hbuffered e
    rw [he] at hboard hheap ⊢
    exact ⟨hown, hnoted.congr hheap (congrArg Board.board hboard) rfl⟩

/-- An event of an end in the menus, which has not moved, leaves them alone, too. -/
theorem menu {e : Side} (halive : (s e).crashed = false)
    (hplay : (s e).vm.gameState ≠ .playing) (hidle : (s e).vm.draggingPiece = none)
    (hmovers : ∀ m ∈ ms, m.1 ≠ e) (k : ℕ) (event : Event)
    (hready : ∀ f, Ready (Display.mode115 images)
      (System.step (Display.mode115 images) s (e, .event k event) f).vm) :
    Knows images strict (System.step (Display.mode115 images) s (e, .event k event)) ms := by
  obtain ⟨vm', hev, hkeeps⟩ := handleEvent_keepsGame (Display.mode115 images) k event hplay
  have hself : System.step (Display.mode115 images) s (e, .event k event) e =
      { s e with vm := vm' } := by
    rw [System.step, if_pos rfl]
    exact Instance.step_event halive hev
  have hother : ∀ f, f ≠ e →
      System.step (Display.mode115 images) s (e, .event k event) f = s f := by
    intro f hf
    rw [System.step_local (by simp [Instance.written]), Function.update_of_ne hf]
  refine ⟨hready, fun f => ?_, fun hstrict => ⟨fun f => ?_, fun i p hi hp hpawn hrow => ?_⟩⟩
  · rcases eq_or_ne f e with rfl | hf
    · rw [hself]
      refine guides_of_idle (hkeeps.dragging.trans hidle) ?_ strict
      rw [hkeeps.toSameGame.ensureBoard.1]
      exact (h.guides f).erased ((seat_dragging _ _).trans hidle)
    · rw [hother f hf]
      exact h.guides f
  · rcases eq_or_ne f e with rfl | hf
    · rw [hself]
      exact hkeeps.animation.trans ((h.flags hstrict).on f)
    · rw [hother f hf]
      exact (h.flags hstrict).on f
  · obtain ⟨f, ⟨m, hm, rfl⟩, hown, hnoted⟩ := (h.flags hstrict).noted i p hi hp hpawn hrow
    refine ⟨m.1, ⟨m, hm, rfl⟩, ?_⟩
    rw [hother _ (hmovers m hm)]
    exact ⟨hown, hnoted⟩

end Knows

/-- The invariant of a session in which the moves `ms` have been made. -/
structure InSession (images : Images) (strict : Prop) (s : System) (ms : List (Side × ℤ × ℤ)) :
    Prop where
  lobby : InLobby (Display.mode115 images) s
  alive : ∀ e, (s e).crashed = false
  knows : Knows images strict s ms
  session : Session strict (table (Display.mode115 images) s) ms

namespace InSession

variable {images : Images} {strict : Prop} {s : System} {ms : List (Side × ℤ × ℤ)}
  (h : InSession images strict s ms)
include h

/-- A drag needs the turn. -/
theorem turn_of_dragging (e : Side) (p : PieceRef) (hp : (s e).vm.draggingPiece = some p) :
    (s e).vm.myTurn = true := by
  have := h.lobby.phase.turn_of_dragging h.lobby.menu (f := e) (p := p) (by simpa [table] using hp)
  simpa [table] using this

/-- **Every event is handled without a crash.** -/
theorem event_isSome (e : Side) (arrivals : ℕ) (event : Event) :
    (handleEvent (Display.mode115 images) arrivals event (s e).vm).isSome = true := by
  by_cases hgame : (s e).vm.gameState = .playing ∨ (s e).vm.gameState = .exit
  · refine handleEvent_isSome ⟨h.knows.ready e, hgame⟩ ?_
    obtain ⟨w, v, hmatch, -, hnil | rfl, -⟩ := h.session.match_of_state
      (e := e) (by simpa [table] using hgame)
    · -- the chooser has nothing to parse yet
      have hnil' : (seat (Display.mode115 images) (s e).vm).leave.receive = [] := by
        rw [Seat.receive_leave]
        exact hnil
      rw [Seat.poll, hnil', Option.isSome_some]
    · exact hmatch.agrees.poll_isSome hmatch.token e
  · obtain ⟨vm', hev, -⟩ := handleEvent_keepsGame (Display.mode115 images) arrivals event
      (not_or.mp hgame).1
    rw [hev, Option.isSome_some]

/-- A step of the game, or of the serial port. -/
theorem step_game (a : Side × Action) (hkey : strict → ¬ Switches s a)
    (havoid : ∀ m, System.accepted (Display.mode115 images) s a = some m → AvoidsFirst m)
    (hstate : ∀ arrivals event, a.2 = .event arrivals event →
      (s a.1).vm.gameState = .playing ∨ (s a.1).vm.gameState = .exit) :
    Knows images strict (System.step (Display.mode115 images) s a)
        (ms ++ (System.accepted (Display.mode115 images) s a).toList) ∧
      Session strict (table (Display.mode115 images) (System.step (Display.mode115 images) s a))
        (ms ++ (System.accepted (Display.mode115 images) s a).toList) := by
  obtain ⟨hready, hstep⟩ := System.step_table h.knows.ready a (fun _ => hstate)
    (h.turn_of_dragging a.1)
  refine ⟨?_, h.session.step hstep havoid fun m hm => (h.knows.legal (.refl _ _ ms) hm).2⟩
  by_cases hevent : ∃ arrivals event, a.2 = .event arrivals event
  · obtain ⟨arrivals, event, hact⟩ := hevent
    have hgame := hstate arrivals event hact
    obtain ⟨w, v, hmatch, hv, -, hlift⟩ := h.session.match_of_state (e := a.1)
      (by simpa [table] using hgame)
    obtain ⟨v', hs⟩ := hlift _ _ hstep
    refine h.knows.step hmatch hv hs hready (fun e => ?_) hstate hkey
    simpa [table] using player_step hstep e
  · have hport : ∀ arrivals event, a.2 ≠ .event arrivals event := by
      simpa only [not_exists] using hevent
    have hnone : System.accepted (Display.mode115 images) s a = none := by
      cases hm : System.accepted (Display.mode115 images) s a with
      | none => rfl
      | some m =>
        obtain ⟨-, arrivals, event, rfl, -⟩ := System.accepted_eq_some hm
        exact absurd rfl (hport arrivals event)
    rw [hnone, Option.toList_none, List.append_nil]
    exact h.knows.port hport hready

/-- A step in the menus. -/
theorem step_menu {e : Side} (k : ℕ) (event : Event) (hplay : (s e).vm.gameState ≠ .playing)
    (hexit : (s e).vm.gameState ≠ .exit) :
    System.accepted (Display.mode115 images) s (e, .event k event) = none ∧
      Knows images strict (System.step (Display.mode115 images) s (e, .event k event)) ms ∧
      Session strict (table (Display.mode115 images)
        (System.step (Display.mode115 images) s (e, .event k event))) ms := by
  obtain ⟨hready, r, htable, hevent, -⟩ :=
    System.step_menu h.knows.ready (h.alive e) hplay hexit k event
  have hplay' : (table (Display.mode115 images) s e).gameState ≠ .playing := by
    simpa [table] using hplay
  have hexit' : (table (Display.mode115 images) s e).gameState ≠ .exit := by
    simpa [table] using hexit
  refine ⟨?_, h.knows.menu (h.alive e) hplay ?_ (fun m hm => ?_) k event hready, ?_⟩
  · simp [System.accepted, h.alive e, acceptedMove_menu hplay]
  · simpa [table] using h.lobby.menu e hplay' hexit'
  · rcases h.session.of_menu hplay' hexit' with ⟨rfl, -⟩ | ⟨a, w, msg, rfl, -, -, -, hmovers⟩
    · cases hm
    · rw [hmovers m hm]
      exact Side.ne_other a
  · rw [htable]
    exact Session.menu hevent h.session h.lobby.phase h.lobby.tidy rfl

/-- **Every step goes on with the session**, if the second `ENTER` is in order and its move avoids
the first cell. -/
theorem step (a : Side × Action) (hok : EnterOk s a) (hkey : strict → ¬ Switches s a)
    (havoid : ∀ m, System.accepted (Display.mode115 images) s a = some m → AvoidsFirst m) :
    InSession images strict (System.step (Display.mode115 images) s a)
      (ms ++ (System.accepted (Display.mode115 images) s a).toList) := by
  have hlobby := h.lobby.step a hok
  have halive := System.step_alive h.alive (a := a)
    fun arrivals event _ => h.event_isSome a.1 arrivals event
  by_cases hmenu : (∃ k event, a.2 = .event k event) ∧ (s a.1).vm.gameState ≠ .playing ∧
      (s a.1).vm.gameState ≠ .exit
  · obtain ⟨e, act⟩ := a
    obtain ⟨⟨k, event, rfl⟩, hplay, hexit⟩ := hmenu
    obtain ⟨hnone, hknows, hsession⟩ := h.step_menu k event hplay hexit
    rw [hnone, Option.toList_none, List.append_nil]
    exact ⟨hlobby, halive, hknows, hsession⟩
  · obtain ⟨hknows, hsession⟩ := h.step_game a hkey havoid fun k event hact => by
      by_contra hne
      exact hmenu ⟨⟨k, event, hact⟩, not_or.mp hne⟩
    exact ⟨hlobby, halive, hknows, hsession⟩

/-- The moves, and what the two ends show of them. -/
theorem chess :
    ∃ pos, ChessGame strict (ms.map ply) pos ∧
      ∀ e, shownPosition (Display.mode115 images) (s e).vm = pos ∨
        (∃ m, ms.getLast? = some m ∧ e = m.1.other ∧
          Unread (table (Display.mode115 images) s) m) ∧
          ChessGame strict (ms.dropLast.map ply)
            (shownPosition (Display.mode115 images) (s e).vm) := by
  refine ⟨kinds (position ms), h.session.chess List.prefix_rfl, fun e => ?_⟩
  rw [shownPosition_eq (h.knows.ready e)]
  rcases h.session.boards e with hcells | ⟨hlast, hcells⟩
  · exact .inl (congrArg kinds hcells)
  · refine .inr ⟨hlast, ?_⟩
    have hchess := h.session.chess (List.dropLast_prefix ms)
    rwa [← hcells] at hchess

end InSession

/-! ## The theorem -/

section Theorem

variable {images : Images}

/-- Two instances at their start begin a session. -/
theorem AtStart.inSession {s : System} (h : AtStart (Display.mode115 images) s)
    (halive : ∀ e, (s e).crashed = false) {strict : Prop}
    (hon : strict → ∀ e, (s e).vm.animation = true) : InSession images strict s [] where
  lobby := h.inLobby
  alive := halive
  knows := ⟨fun e => (h.fresh e).sound, fun e => (h.fresh e).guides strict,
    fun hstrict => flags_nil (hon hstrict)⟩
  session := by
    refine .menus (fun e => ?_) fun e => (h.fresh e).unplayed
    simp [table, h.start e]

/-- Every session whose moves avoid the first cell. -/
theorem AtStart.inSession_run {s : System} (h : AtStart (Display.mode115 images) s)
    (halive : ∀ e, (s e).crashed = false) {acts : List (Side × Action)}
    (hok : Along EnterOk (System.step (Display.mode115 images)) s acts)
    (havoid : ∀ m ∈ moves (Display.mode115 images) s acts, AvoidsFirst m) :
    InSession images ((∀ e, (s e).vm.animation = true) ∧
        Along (fun s a => ¬ Switches s a) (System.step (Display.mode115 images)) s acts)
      (run (System.step (Display.mode115 images)) s acts)
      (moves (Display.mode115 images) s acts) := by
  have havoid' := along_outputs.mp havoid
  simp only [Option.mem_toList] at havoid'
  have hboth := hok.and havoid'
  by_cases hanimated : (∀ e, (s e).vm.animation = true) ∧
      Along (fun s a => ¬ Switches s a) (System.step (Display.mode115 images)) s acts
  · rw [eq_true hanimated]
    exact run_outputs_invariant_along (InSession images True) _
      (fun s a ms hs hok => hs.step a hok.1.1 (fun _ => hok.2) hok.1.2)
      (h.inSession halive fun _ => hanimated.1) (hboth.and hanimated.2)
  · rw [eq_false hanimated]
    exact run_outputs_invariant_along (InSession images False) _
      (fun s a ms hs hok => hs.step a hok.1 (fun hfalse => hfalse.elim) hok.2)
      (h.inSession halive fun hfalse => hfalse.elim) hboth

/-- **A session is a game of chess.** In every run of two instances from the start of their main
loops, through the menus and the game, in which the second `ENTER` comes after the `VM_CONNECTED`
of the first has arrived and no accepted move starts or ends in the first cell: no instance
crashes; the accepted moves are a game of chess, made by the end that plays white and the other
one in turns, in which a pawn makes a double step from its home row only if the animation stays
on; the board of an end is that of this game, or the one before the last move as long as the end
has not read it; and when both have left the game, exactly one of them has won it. -/
theorem session_is_chess {s : System} (h : AtStart (Display.mode115 images) s)
    (halive : ∀ e, (s e).crashed = false) {acts : List (Side × Action)}
    (hok : Along EnterOk (System.step (Display.mode115 images)) s acts)
    (havoid : ∀ m ∈ moves (Display.mode115 images) s acts, AvoidsFirst m) :
    let d := Display.mode115 images
    let s' := run (System.step d) s acts
    let ms := moves d s acts
    let strict := (∀ e, (s e).vm.animation = true) ∧
      Along (fun s a => ¬ Switches s a) (System.step d) s acts
    (∀ e, (s' e).crashed = false) ∧
      (∀ (k : ℕ) m, ms[k]? = some m → (s' m.1).vm.player = playerOf k) ∧
      (∃ pos, ChessGame strict (ms.map ply) pos ∧
        ∀ e, shownPosition d (s' e).vm = pos ∨
          (∃ m, ms.getLast? = some m ∧ e = m.1.other ∧ Unread (table d s') m) ∧
            ChessGame strict (ms.dropLast.map ply) (shownPosition d (s' e).vm)) ∧
      ((∀ e, (s' e).vm.gameState = .exit) →
        ∃ e, (s' e).vm.won = true ∧ (s' e.other).vm.won = false) := by
  intro d s' ms strict
  have hrun : InSession images strict s' ms := h.inSession_run halive hok havoid
  refine ⟨hrun.alive, fun k m hm => ?_, hrun.chess, fun hexit => ?_⟩
  · simpa [table] using hrun.session.mover hm
  · simpa [table] using hrun.session.outcome (by simpa [table] using hexit)

/-! ## A raid in a session -/

/-- Behind an orderly handshake both ends show a new game. -/
theorem stands_orderly :
    let s' := run (System.step (Display.mode115 Images.blank)) startLobby orderly
    Stands Images.blank (s' .left) (.initial .white ⟨400, 530, true, false⟩) [] ∧
      Stands Images.blank (s' .right) (.initial .black ⟨0, 0, false, false⟩) [] ∧
      moves (Display.mode115 Images.blank) startLobby orderly = [] := by
  intro s'
  have hmoves : moves (Display.mode115 Images.blank) startLobby orderly = [] := by decide +kernel
  have hrun := (atStart_startLobby (Display.mode115 Images.blank)).inSession_run (fun _ => rfl)
    along_orderly (by rw [hmoves]; exact fun m hm => absurd hm List.not_mem_nil)
  rw [hmoves] at hrun
  have hboth : ∀ e, (s' e).vm.gameState = .playing ∧ (s' e).vm.endGame = false ∧
      (s' e).vm.draggingPiece = none ∧ (s' e).vm.transmitQueue.toList = [] ∧
      (s' e).vm.receiveQueue.toList = [] ∧ (s' e).vm.line = [] := fun e => by
    cases e <;> decide +kernel
  have hleft : (s' .left).vm.player = .white ∧ (s' .left).vm.myTurn = true ∧
      (s' .left).vm.cursor = ⟨400, 530, true, false⟩ := by decide +kernel
  have hright : (s' .right).vm.player = .black ∧ (s' .right).vm.myTurn = false ∧
      (s' .right).vm.cursor = ⟨0, 0, false, false⟩ := by decide +kernel
  change InSession Images.blank _ s' [] at hrun
  generalize s' = s at hrun hboth hleft hright ⊢
  have hstands : ∀ e player cursor, (s e).vm.player = player →
      (s e).vm.myTurn = decide (player = .white) → (s e).vm.cursor = cursor →
      Stands Images.blank (s e) (.initial player cursor) [] := by
    intro e player cursor hplayer hturn hcursor
    obtain ⟨hplay, hend, hidle, htransmit, hreceive, hline⟩ := hboth e
    have hcells : (table (Display.mode115 Images.blank) s e).cells = position [] := by
      obtain hnow | ⟨⟨m, hm, -⟩, -⟩ := hrun.session.boards e
      · exact hnow
      · simp at hm
    exact ⟨⟨hrun.knows.ready e, .inl hplay⟩, hrun.alive e, hplay, hplayer, hturn, hend, hidle,
      htransmit, hreceive, hline, hcells,
      fun hnone => (hrun.knows.guides e).erased ((seat_dragging _ _).trans hnone), hcursor⟩
  exact ⟨hstands .left _ _ hleft.1 hleft.2.1 hleft.2.2,
    hstands .right _ _ hright.1 hright.2.1 hright.2.2, hmoves⟩

/-- The raid, from where the handshake leaves the two cursors. -/
def orderlyClicks : List Click :=
  [⟨buttonDown (-250) 30, buttonUp 59 118, 17, 1, 7, 2, 5⟩,
    ⟨buttonDown 250 (-150), buttonUp 0 (-59), 11, 3, 1, 3, 2⟩] ++ raidClicks.drop 2

theorem plays_orderlyClicks : (Diagram.initial .white ⟨400, 530, true, false⟩).Plays
    (.initial .black ⟨0, 0, false, false⟩) orderlyClicks := by decide +kernel

/-- The diagrams behind it. -/
def orderlyDiagrams : Diagram × Diagram :=
  (Diagram.initial .white ⟨400, 530, true, false⟩).after (.initial .black ⟨0, 0, false, false⟩)
    orderlyClicks

/-- **The raid of a session** leaves its diagrams, with white to move. -/
theorem stands_orderlyClicks :
    let s' := run (System.step (Display.mode115 Images.blank)) startLobby
      (orderly ++ clicks .left orderlyClicks)
    Stands Images.blank (s' .left) orderlyDiagrams.1 [] ∧
      Stands Images.blank (s' .right) orderlyDiagrams.2 [] ∧
      moves (Display.mode115 Images.blank) startLobby (orderly ++ clicks .left orderlyClicks) =
        clickMoves .left raidClicks := by
  obtain ⟨hleft, hright, hnone⟩ := stands_orderly
  rw [moves] at hnone ⊢
  rw [run_append, Transition.outputs_append, hnone, List.nil_append]
  generalize run _ startLobby orderly = s at hleft hright ⊢
  obtain ⟨hleft', hright'⟩ := stands_clicks (e := .left) hleft hright plays_orderlyClicks
  exact ⟨hleft', hright', moves_clicks (e := .left) hleft hright plays_orderlyClicks⟩

/-- An orderly session: the knight takes the king, and black has read where it went. -/
def orderlyRaid : List (Side × Action) :=
  orderly ++ (clicks .left orderlyClicks ++ raidCapture.begun .left)

/-- White has taken the king then, and `YOUR_TURN` is the only byte left. -/
theorem orderlyRaid_spec :
    let s' := run (System.step (Display.mode115 Images.blank)) startLobby orderlyRaid
    (s' .left).vm.endGame = true ∧
      incoming (table (Display.mode115 Images.blank) s') .right = [yourTurn] ∧
      moves (Display.mode115 Images.blank) startLobby orderlyRaid =
        clickMoves .left (raidClicks ++ [raidCapture]) := by
  intro s'
  obtain ⟨hleft, hright, hnone⟩ := stands_orderly
  have hs' : s' = run _ (run _ startLobby orderly) _ := run_append _ _ _ _
  rw [moves] at hnone ⊢
  rw [hs', orderlyRaid, Transition.outputs_append, hnone, List.nil_append]
  generalize run _ startLobby orderly = s at hleft hright ⊢
  have hcell : orderlyDiagrams.2.cells raidCapture.origin = some 17 := by decide +kernel
  have hside : sideAfter .left orderlyClicks = .left := rfl
  have hgame := stands_game (e := .left) hleft hright plays_orderlyClicks (c := raidCapture)
    (by decide +kernel) (by decide +kernel) (by decide) (by decide) hcell
  rw [hside] at hgame
  obtain ⟨hstands, hincoming, hmoves⟩ := hgame
  exact ⟨hstands.ended.trans (by decide +kernel), hincoming, hmoves⟩

/-- The animation is switched by a key. -/
theorem Keyless.not_toggles {acts : List (Side × Action)} (h : Keyless acts) :
    ∀ a ∈ acts, ¬ Toggles a.2 := by
  intro a ha
  have hnokey := h a ha
  rcases a with ⟨e, ⟨k, event⟩ | lsr | arrived⟩
  · cases event with
    | keyboard scanCode => exact absurd rfl (hnokey k scanCode)
    | newFrame => exact id
    | mouse packet => exact id
  · exact id
  · exact id

/-- Behind an orderly handshake no key is pressed. -/
theorem along_orderly_append {acts : List (Side × Action)} (h : Keyless acts) :
    Along EnterOk (System.step (Display.mode115 Images.blank)) startLobby (orderly ++ acts) ∧
      ∀ a ∈ orderly ++ acts, ¬ Toggles a.2 := by
  have horderly : ∀ a ∈ orderly, ¬ Toggles a.2 := by
    simp [orderly, enterName, pass, mouseAt, Toggles, enter]
  rw [Transition.along_append]
  exact ⟨⟨along_orderly, along_enterOk fun a ha k => h a ha k enter⟩,
    fun a ha => (List.mem_append.mp ha).elim (horderly a) (h.not_toggles a)⟩

theorem keyless_raid : Keyless (clicks .left orderlyClicks ++ raidCapture.begun .left) :=
  (keyless_clicks _ _).append ((keyless_drag _ _).append (keyless_passes _ _))

theorem along_orderlyRaid :
    Along EnterOk (System.step (Display.mode115 Images.blank)) startLobby orderlyRaid :=
  (along_orderly_append keyless_raid).1

/-- Behind this session both ends show the position of its game. -/
theorem session_is_chess_raid :
    let d := Display.mode115 Images.blank
    let s' := run (System.step d) startLobby orderlyRaid
    let ms := clickMoves .left (raidClicks ++ [raidCapture])
    moves d startLobby orderlyRaid = ms ∧ (∀ e, (s' e).crashed = false) ∧
      (s' .left).vm.player = playerOf 6 ∧
      ∃ pos, ChessGame True (ms.map ply) pos ∧ ∀ e, shownPosition d (s' e).vm = pos := by
  obtain ⟨-, hincoming, hmoves⟩ := orderlyRaid_spec
  have hchess := session_is_chess (atStart_startLobby (Display.mode115 Images.blank))
    (fun _ => rfl) along_orderlyRaid (by
      rw [hmoves]
      decide)
  have hstrict : (∀ e, (startLobby e).vm.animation = true) ∧ Along (fun s a => ¬ Switches s a)
      (System.step (Display.mode115 Images.blank)) startLobby orderlyRaid :=
    ⟨fun _ => rfl, (Along.of_mem (along_orderly_append keyless_raid).2).mono
      fun _ _ hno hswitch => hno hswitch.2⟩
  have hlast : (clickMoves .left (raidClicks ++ [raidCapture])).getLast? =
      some (.left, 10, 4) := by decide
  dsimp only at hchess ⊢
  rw [hmoves, eq_true hstrict] at hchess
  generalize run _ startLobby orderlyRaid = s' at hincoming hchess ⊢
  obtain ⟨halive, hmover, ⟨pos, hgame, hshown⟩, -⟩ := hchess
  refine ⟨hmoves, halive, hmover 6 (.left, 10, 4) (by decide), pos, hgame, fun e => ?_⟩
  obtain hnow | ⟨⟨m, hm, rfl, hunread⟩, -⟩ := hshown e
  · exact hnow
  · -- the only byte left is the turn
    obtain rfl := Option.some.inj (hlast.symm.trans hm)
    have hlength := hunread.length_le
    dsimp only [Side.other] at hlength
    rw [hincoming] at hlength
    exact absurd hlength (by simp)

end Theorem

end LCChess
