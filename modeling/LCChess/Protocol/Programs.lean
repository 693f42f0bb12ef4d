import LCChess.Protocol.Driving
import LCChess.Protocol.Session

/-!
# Two programs

Two whole programs on one serial line, from the start of `proj_main_loop` until they return. Their
instances are in a session, so that they play chess. A byte that is written to THR arrives: that
`sp_configure_end` clears the FIFOs of the UART is not modelled, and nothing is said here of what a
program that returns leaves unsent.

## Main definitions

* `Phase.inLoop`: the phases of the main loop
* `Ends p`: behind the loop the game is over

## Main results

* `ends_run`: this holds along every run
* `programs_play_chess`: two programs play chess
-/

namespace LCChess

open Transition (run Along run_invariant outputs_cons)

/-! ## Behind the loop -/

/-- The phases of the main loop. -/
def Phase.inLoop : Phase → Bool
  | .receive | .write | .read | .handle => true
  | _ => false

namespace ProjMainLoop

/-- Behind the loop the game is over. -/
def Ends (p : ProjMainLoop) : Prop :=
  p.phase.inLoop = false → p.vm.gameState = .exit

/-- A step that stays in the loop. -/
theorem ends_of_inLoop {p : ProjMainLoop} (h : p.phase.inLoop = true) : p.Ends :=
  fun hphase => absurd (h.symm.trans hphase) (by decide)

variable {p : ProjMainLoop}

/-- A step behind the loop. -/
theorem Ends.goesOn (h : p.Ends) (hphase : p.phase.inLoop = false) {p' : ProjMainLoop}
    (hstate : p'.vm.gameState = p.vm.gameState) : p'.Ends :=
  fun _ => hstate.trans (h hphase)

/-- **Every step keeps this.** -/
theorem Ends.step (h : p.Ends) (d : Display) (i : Input) : (p.step d i).1.Ends := by
  cases hcrash : p.crashed with
  | true =>
    rw [ProjMainLoop.step, if_pos hcrash]
    exact h
  | false =>
    rw [step_of_alive hcrash]
    cases hphase : p.phase with
    | receive =>
      dsimp only
      unfold receiveMessage
      split_ifs with hexit hwon
      · exact fun _ => hexit
      · exact fun _ => hexit
      · cases i.message with
        | none => exact h
        | some message => exact ends_of_inLoop rfl
    | write => exact ends_of_inLoop rfl
    | read => exact ends_of_inLoop rfl
    | handle =>
      refine ends_of_inLoop ?_
      dsimp only
      unfold handle
      split_ifs
      · rfl
      · cases hpop : popEvent p.eventQueue with
        | mk event eventQueue =>
          cases event with
          | none => exact congrArg Phase.inLoop hphase
          | some event =>
            dsimp only
            split
            · exact congrArg Phase.inLoop hphase
            · exact congrArg Phase.inLoop hphase
    | emptyTransmitQueue =>
      refine h.goesOn (by rw [hphase]; rfl) ?_
      dsimp only
      unfold emptyTransmitQueue
      split_ifs <;> rfl
    | unsubscribe => exact h.goesOn (by rw [hphase]; rfl) rfl
    | clear => exact h.goesOn (by rw [hphase]; rfl) rfl
    | flush =>
      refine h.goesOn (by rw [hphase]; rfl) ?_
      dsimp only
      unfold flush
      split_ifs <;> rfl
    | returned => exact h

end ProjMainLoop

/-- Along every run. -/
theorem Programs.ends_run {d : Display} {s : Programs} (h : ∀ e, (s e).Ends)
    (acts : List (Side × Input)) (e : Side) : (run (Programs.step d) s acts e).Ends := by
  refine run_invariant (fun s : Programs => ∀ e, (s e).Ends) (fun s a hs f => ?_) h acts e
  obtain ⟨g, i⟩ := a
  obtain rfl | rfl := g.eq_or_eq_other f
  · rw [Programs.step_self]
    exact (hs _).step d i
  · rw [Programs.step_other]
    exact hs _

/-! ## What the programs show of their instances -/

section Shown

variable {d : Display} {p : ProjMainLoop} {s : Instance} (h : Follows p s)
include h

/-- A program and its instance differ in what they have received. -/
theorem Follows.buffered : ∃ receiveQueue line,
    p.vm = { s.vm with receiveQueue := receiveQueue, line := line } := by
  obtain hvm | ⟨-, hvm⟩ := h.vm
  · exact ⟨s.vm.receiveQueue, s.vm.line, hvm.symm⟩
  · exact hvm

/-- The outcome of the game. -/
theorem Follows.outcome : p.vm.gameState = s.vm.gameState ∧ p.vm.player = s.vm.player ∧
    p.vm.won = s.vm.won := by
  obtain ⟨receiveQueue, line, hvm⟩ := h.buffered
  simp [hvm]

/-- The position that is shown. -/
theorem Follows.shownPosition (d : Display) :
    LCChess.shownPosition d p.vm = LCChess.shownPosition d s.vm := by
  obtain ⟨receiveQueue, line, hvm⟩ := h.buffered
  have hgame : SameGame s.vm p.vm := by
    rw [hvm]
    exact ⟨rfl, rfl, rfl, rfl, rfl, rfl, rfl, rfl, rfl, rfl⟩
  obtain ⟨hboard, hheap⟩ := hgame.ensureBoard (d := d)
  funext x y
  simp only [LCChess.shownPosition, pieceAt, hboard, hheap]

end Shown

/-! ## The theorem -/

section Theorem

variable {images : Images}

/-- The moves of two programs. -/
def Programs.moves (d : Display) (s : Programs) (acts : List (Side × Input)) :
    List (Side × ℤ × ℤ) :=
  LCChess.moves d (fun e => (s e).toInstance) (Programs.actions d s acts)

/-- **Two programs play chess.** In every run of two programs from the start of their main loops,
in which the second `ENTER` comes after the `VM_CONNECTED` of the first has arrived and no accepted
move starts or ends in the first cell: no program crashes; the accepted moves are a game of chess,
made by white and black in turns, in which a pawn makes a double step from its home row only if the
animation stays on; the board of an end is that of this game, or the one before the last move if
its opponent has made it; a program leaves its loop only when it has left the game; and when both
have left it, exactly one has won. -/
theorem programs_play_chess {s : Programs} (h : ∀ e, (s e).AtHead)
    (hstart : AtStart (Display.mode115 images) fun e => (s e).toInstance)
    (halive : ∀ e, (s e).crashed = false) {acts : List (Side × Input)}
    (hok : Along EnterOk (System.step (Display.mode115 images)) (fun e => (s e).toInstance)
      (Programs.actions (Display.mode115 images) s acts))
    (havoid : ∀ m ∈ Programs.moves (Display.mode115 images) s acts, AvoidsFirst m) :
    let d := Display.mode115 images
    let s' := run (Programs.step d) s acts
    let ms := Programs.moves d s acts
    let strict := (∀ e, (s e).vm.animation = true) ∧ Along (fun s a => ¬ Switches s a)
      (System.step d) (fun e => (s e).toInstance) (Programs.actions d s acts)
    (∀ e, (s' e).crashed = false) ∧
      (∀ (k : ℕ) m, ms[k]? = some m → (s' m.1).vm.player = playerOf k) ∧
      (∃ pos, ChessGame strict (ms.map ply) pos ∧
        ∀ e, shownPosition d (s' e).vm = pos ∨
          (∃ m, ms.getLast? = some m ∧ e = m.1.other) ∧
            ChessGame strict (ms.dropLast.map ply) (shownPosition d (s' e).vm)) ∧
      (∀ e, (s' e).phase.inLoop = false → (s' e).vm.gameState = .exit) ∧
      ((∀ e, (s' e).vm.gameState = .exit) →
        ∃ e, (s' e).vm.won = true ∧ (s' e.other).vm.won = false) := by
  intro d s' ms strict
  -- the instances are in a session, and the programs follow them
  have hrun := hstart.inSession_run halive hok havoid
  have hfollows : ∀ e, Follows (s' e) (run (System.step d) (fun e => (s e).toInstance)
      (Programs.actions d s acts) e) :=
    Follows.programs_run (fun e => (h e).follows) acts
  have hends : ∀ e, (s' e).Ends := Programs.ends_run
    (fun e => ProjMainLoop.ends_of_inLoop (by rw [(h e).phase]; rfl)) acts
  change InSession images strict _ ms at hrun
  generalize run (System.step d) (fun e => (s e).toInstance) (Programs.actions d s acts) = S' at *
  have hsession := hrun.session
  refine ⟨fun e => ?_, fun k m hm => ?_, ?_, fun e => hends e, fun hexit => ?_⟩
  · rw [← (hfollows e).crashed]
    exact hrun.alive e
  · rw [(hfollows m.1).outcome.2.1]
    simpa [table] using hsession.mover hm
  · obtain ⟨pos, hgame, hshown⟩ := hrun.chess
    refine ⟨pos, hgame, fun e => ?_⟩
    rw [(hfollows e).shownPosition d]
    obtain hnow | ⟨⟨m, hm, he, -⟩, hbefore⟩ := hshown e
    · exact .inl hnow
    · exact .inr ⟨⟨m, hm, he⟩, hbefore⟩
  · simp only [fun e => (hfollows e).outcome.1] at hexit
    simp only [fun e => (hfollows e).outcome.2.2]
    simpa [table] using hsession.outcome (by simpa [table] using hexit)

/-- Idle calls press no key and no mouse button. -/
theorem IdleCall.input {a : Action} (h : IdleCall a) :
    (∀ k, a ≠ .event k (.keyboard enter)) ∧ ¬ Toggles a := by
  obtain rfl | rfl := h
  · exact ⟨by simp, id⟩
  · exact ⟨by simp, id⟩

/-- Two programs are driven through a handshake and the raid: the board of black shows the position
of the game, with the knight next to the king. -/
theorem programs_play_chess_raid :
    let d := Display.mode115 Images.blank
    let acts := drive (orderly ++ clicks .left orderlyClicks)
    let s' := run (Programs.step d) startPrograms acts
    Programs.moves d startPrograms acts = clickMoves .left raidClicks ∧
      (∀ e, (s' e).crashed = false) ∧
      ∃ pos, ChessGame True ((clickMoves .left raidClicks).map ply) pos ∧
        shownPosition d (s' .right).vm = pos ∧ pos 2 1 = some .wKnight := by
  have hproducible : ∀ a ∈ orderly ++ clicks .left orderlyClicks, a.2.Producible := by
    decide +kernel
  obtain ⟨hleft, hright, hmoves⟩ := stands_orderlyClicks
  have hwaits : ∀ e, (startPrograms e).Waits := fun _ =>
    ⟨rfl, (atHead_start _ _).queueOk, aligned_initial⟩
  have hlobby : (fun e => (startPrograms e).toInstance) = startLobby := rfl
  have hdrive := drive_follows (d := Display.mode115 Images.blank) hwaits hproducible
  rw [hlobby] at hdrive
  obtain ⟨hpadded, hrun⟩ := hdrive fun e => by
    cases e
    · exact ⟨hleft.alive, by simp [hleft.playing]⟩
    · exact ⟨hright.alive, by simp [hright.playing]⟩
  obtain ⟨hok, hkept⟩ := along_orderly_append (keyless_clicks .left orderlyClicks)
  have hok' := hpadded.along (d := Display.mode115 Images.blank) (s := startLobby)
    (fun s e a ha => enterOk_of_ne ha.input.1) hok
  have hmoves' : Programs.moves (Display.mode115 Images.blank) startPrograms
      (drive (orderly ++ clicks .left orderlyClicks)) = clickMoves .left raidClicks :=
    hpadded.run_eq.2.trans hmoves
  have hstrict : (∀ e, (startPrograms e).vm.animation = true) ∧
      Along (fun s a => ¬ Switches s a) (System.step (Display.mode115 Images.blank))
        (fun e => (startPrograms e).toInstance) (Programs.actions (Display.mode115 Images.blank)
          startPrograms (drive (orderly ++ clicks .left orderlyClicks))) :=
    ⟨fun _ => rfl, hpadded.along (fun s e a ha hswitch => ha.input.2 hswitch.2)
      ((Along.of_mem hkept).mono fun _ _ hno hswitch => hno hswitch.2)⟩
  have hchess := programs_play_chess (s := startPrograms) (fun _ => atHead_start _ _)
    (atStart_startLobby (Display.mode115 Images.blank)) (fun _ => rfl) hok' (by
      rw [hmoves']
      decide)
  have hright' := congrArg Instance.vm (hrun .right)
  dsimp only at hchess ⊢
  rw [hmoves', eq_true hstrict] at hchess
  generalize run (System.step _) startLobby _ = S at hright hright'
  generalize run (Programs.step _) startPrograms _ = s' at hchess hright' ⊢
  obtain ⟨halive, -, ⟨pos, hgame, hshown⟩, -⟩ := hchess
  have hlast : (clickMoves .left raidClicks).getLast? = some (.right, 27, 35) := by decide
  -- black has made the last move
  have hblack : shownPosition (Display.mode115 Images.blank) (s' .right).vm = pos := by
    obtain hnow | ⟨⟨m, hm, he⟩, -⟩ := hshown .right
    · exact hnow
    · obtain rfl := Option.some.inj (hlast.symm.trans hm)
      cases he
  refine ⟨hmoves', halive, pos, hgame, hblack, ?_⟩
  rw [← hblack, hright']
  exact (if_pos (by decide)).trans ((hright.pieceAt_eq (by decide)).trans (by decide +kernel))

end Theorem

end LCChess
