import LCChess.Input.Walk
import LCChess.Library.Leads
import LCChess.Program.NameEntry
import LCChess.Protocol.Liveness
import LCChess.Protocol.Ongoing

/-!
# What the users of a session can do

Two users lead a session where they want: they enter their names, one of them chooses its color,
and the line and the timer do the rest. What they need is at hand at any time: keys, packets that
their mice can send, frames, and calls of `sp_read` and `sp_write`.

## Main definitions

* `AtHand images s a`: a step that the users, the line and the timers can take
* `CanMake images s ms s'`: such steps lead from `s` to `s'`, and make the moves `ms`
* `Roams images e lb inv`: packets that hold or leave the button lead the cursor of `e` about
* `ToMove images s ms e`: the session is the move of the end `e`

## Main results

* `Roams.exists_walk`: the cursor is led to every pixel
* `Ongoing.exists_entered`: both users can enter their names
* `Ongoing.exists_toMove`: before a king is captured, a session can be led on to its next move
-/

namespace LCChess

open Transition (Leads exists_leads)

section Users

variable {images : Images} {s s' s'' : System} {ms ms' : List (Side × ℤ × ℤ)}

/-! ## What is at hand -/

/-- A step of a session that avoids the first cell, in which the mouse sends its packets and the
animation stays on. -/
structure AtHand (images : Images) (s : System) (a : Side × Action) : Prop where
  session : SessionOk images s a
  mouse : ∀ k packet, a.2 = .event k (.mouse packet) → packet.FromMouse
  steady : ¬ Toggles a.2

/-- Steps that are at hand lead from `s` to `s'`, and make the moves `ms`. -/
def CanMake (images : Images) (s : System) (ms : List (Side × ℤ × ℤ)) (s' : System) : Prop :=
  Leads (AtHand images) (fun s a => (System.accepted (Display.mode115 images) s a).toList)
    (System.step (Display.mode115 images)) s ms s'

theorem CanMake.trans (h : CanMake images s ms s') (h' : CanMake images s' ms' s'') :
    CanMake images s (ms ++ ms') s'' := Leads.trans h h'

/-- A session goes on, whatever the users do. -/
theorem Ongoing.canMake (h : Ongoing images s ms) (hmake : CanMake images s ms' s') :
    Ongoing images s' (ms ++ ms') :=
  Leads.invariant (Ongoing images) (fun _ a _ hs hok => hs.step a hok.session.1 hok.session.2)
    hmake h

/-- Steps that make no move go on with the session. -/
theorem Ongoing.stays (h : Ongoing images s ms) (hmake : CanMake images s [] s') :
    Ongoing images s' ms := by
  have h' := h.canMake hmake
  rwa [List.append_nil] at h'

/-- One step at hand. -/
theorem CanMake.single {a : Side × Action} (h : AtHand images s a) :
    CanMake images s (System.accepted (Display.mode115 images) s a).toList
      (System.step (Display.mode115 images) s a) := Leads.single h

/-- A step that makes no move. -/
theorem AtHand.of_quiet {a : Side × Action} (hok : EnterOk s a)
    (hmouse : ∀ k packet, a.2 = .event k (.mouse packet) → packet.FromMouse)
    (hsteady : ¬ Toggles a.2)
    (hnone : System.accepted (Display.mode115 images) s a = none) : AtHand images s a :=
  ⟨⟨hok, by simp [hnone]⟩, hmouse, hsteady⟩

theorem CanMake.quiet {a : Side × Action} (h : AtHand images s a)
    (hnone : System.accepted (Display.mode115 images) s a = none) :
    CanMake images s [] (System.step (Display.mode115 images) s a) := by
  have hmake := CanMake.single h
  rwa [hnone, Option.toList_none] at hmake

/-- A goal is reached without a move, by steps that lower a rank. -/
theorem CanMake.exists_of_rank (inv goal : System → Prop) (rank : System → ℕ)
    (hstep : ∀ r, inv r → ¬ goal r → ∃ a, AtHand images r a ∧
      System.accepted (Display.mode115 images) r a = none ∧
      (goal (System.step (Display.mode115 images) r a) ∨
        inv (System.step (Display.mode115 images) r a) ∧
          rank (System.step (Display.mode115 images) r a) < rank r)) (hs : inv s) :
    ∃ s', CanMake images s [] s' ∧ goal s' := by
  refine exists_leads inv goal rank (fun r hr hgoal => ?_) hs
  obtain ⟨a, hhand, hnone, hnext⟩ := hstep r hr hgoal
  exact ⟨a, hhand, by simp [hnone], hnext⟩

/-- Only packets make moves. -/
theorem accepted_of_ne {d : Display} {a : Side × Action}
    (hmouse : ∀ k packet, a.2 ≠ .event k (.mouse packet)) : System.accepted d s a = none := by
  cases hm : System.accepted d s a with
  | none => rfl
  | some m =>
    obtain ⟨-, k, event, rfl, hacc⟩ := System.accepted_eq_some hm
    unfold acceptedMove at hacc
    split at hacc
    · exact absurd rfl (hmouse k _)
    · cases hacc

/-- Whatever is no packet, no `ENTER` and no `Z` is at hand. -/
theorem atHand_of_ne {a : Side × Action} (hmouse : ∀ k packet, a.2 ≠ .event k (.mouse packet))
    (hkey : ∀ k, a.2 ≠ .event k (.keyboard enter)) (hsteady : ¬ Toggles a.2) : AtHand images s a :=
  .of_quiet (fun k _ hact hconnect => absurd (hconnect.2.1 ▸ hact) (hkey k))
    (fun k packet hact => absurd hact (hmouse k packet)) hsteady (accepted_of_ne hmouse)

/-- An event of an instance that is alive. -/
theorem System.step_handled {d : Display} {e : Side} (halive : (s e).crashed = false) {k : ℕ}
    {event : Event} {vm : Vm} (hev : handleEvent d k event (s e).vm = some vm) :
    System.step d s (e, .event k event) = Function.update s e { s e with vm := vm } := by
  rw [System.step_local (by simp [Instance.written]), Instance.step_event halive hev]

/-! ## The line and the timers -/

/-- The action that does a service. -/
def Service.action : Service → Side × Action
  | .write e => (e, .spWrite (some 0x20))
  | .read e => (e, .spRead true)
  | .frame e => (e, .event 0 .newFrame)

theorem Service.doneBy_action (k : Service) : k.DoneBy k.action := by
  cases k with
  | write e => exact ⟨some 0x20, rfl, by decide⟩
  | read e => rfl
  | frame e => exact ⟨0, rfl⟩

/-- Every service is at hand. -/
theorem Service.atHand (images : Images) (s : System) (k : Service) :
    AtHand images s k.action ∧ System.accepted (Display.mode115 images) s k.action = none := by
  have hmouse : ∀ n packet, k.action.2 ≠ .event n (.mouse packet) := by
    cases k <;> simp [Service.action]
  have hkey : ∀ n, k.action.2 ≠ .event n (.keyboard enter) := by
    cases k <;> simp [Service.action]
  have hsteady : ¬ Toggles k.action.2 := by
    cases k <;> simp [Service.action, Toggles]
  exact ⟨atHand_of_ne hmouse hkey hsteady, accepted_of_ne hmouse⟩

/-- **The line and the timers bring a session to rest** whose ends have entered their names. -/
theorem Ongoing.exists_atRest (h : Ongoing images s ms)
    (hentered : ∀ e, (s e).vm.gameState ≠ .start) :
    ∃ s', CanMake images s [] s' ∧ AtRest (table (Display.mode115 images) s') := by
  refine helps_session.exists_leads (fun s k => ⟨k.action, ?_⟩) ⟨⟨ms, h.session⟩, hentered⟩
  obtain ⟨hhand, hnone⟩ := k.atHand images s
  exact ⟨hhand, hhand.session, by simp [hnone], k.doneBy_action⟩

/-- A transmitter that is ready takes a byte from the queue. -/
theorem length_spWrite {q : Queue} (h : q.WellFormed) (hne : q.toList ≠ []) :
    (spWrite (some 0x20) true q).2.1.toList.length < q.toList.length := by
  rcases spWrite_cases h (some 0x20) with hsame | ⟨b, rest, hb, hwrite, hrest⟩
  · have hempty : queueIsEmpty q = false := by
      rw [← Bool.not_eq_true, Queue.queueIsEmpty_iff]
      exact hne
    have htaken : (spWrite (some 0x20) true q).2.2 ≠ none := by
      simp [spWrite, hempty, show spCheckWrite (some 0x20) = true from by decide]
    exact absurd (congrArg Prod.snd hsame) htaken
  · rw [hwrite, hrest, hb]
    simp

/-- What an end has to send is written. -/
theorem Ongoing.exists_written (h : Ongoing images s ms) (e : Side) :
    ∃ s', CanMake images s [] s' ∧ (s' e).vm.transmitQueue.toList = [] ∧
      ∀ f, (s' f).vm.gameState = (s f).vm.gameState := by
  refine CanMake.exists_of_rank
    (fun r => Ongoing images r ms ∧ ∀ f, (r f).vm.gameState = (s f).vm.gameState) _
    (fun r => (r e).vm.transmitQueue.toList.length) ?_ ⟨h, fun _ => rfl⟩
  rintro r ⟨hr, hstate⟩ hgoal
  obtain ⟨hhand, hnone⟩ := (Service.write e).atHand images r
  refine ⟨_, hhand, hnone, .inr ⟨⟨?_, fun f => ?_⟩, ?_⟩⟩
  · exact hr.stays (.quiet hhand hnone)
  · rcases System.step_event_or_buffered (Display.mode115 images) r (Service.write e).action f with
      ⟨k, event, vm', hact, -⟩ | ⟨transmit, receive, line, heq, -⟩
    · simp [Service.action] at hact
    · rw [heq]
      exact hstate f
  · have hstep : System.step (Display.mode115 images) r (Service.write e).action e =
        { r e with vm := { (r e).vm with
          transmitQueue := (spWrite (some 0x20) true (r e).vm.transmitQueue).2.1 } } := by
      rw [System.step, Service.action, if_pos rfl, Instance.step_of_alive (hr.session.alive e)]
    rw [hstep]
    exact length_spWrite (hr.session.knows.ready e).transmit.1 fun hnil => hgoal ⟨hnil, hstate⟩

/-! ## Names -/

/-- A user that has no name yet types a letter. -/
theorem Ongoing.exists_named (h : Ongoing images s ms) {e : Side}
    (hstart : (s e).vm.gameState = .start) :
    ∃ s', CanMake images s [] s' ∧ (s' e).vm.gameState = .start ∧ 0 < (s' e).vm.nameSize ∧
      s' e.other = s e.other := by
  rcases Nat.eq_zero_or_pos (s e).vm.nameSize with hzero | hpos
  · obtain ⟨v, vm', hsame, hev, ⟨code, hcode, rfl⟩ | ⟨hcode, -⟩⟩ :=
      handleEvent_start (d := Display.mode115 images) hstart 0 (.keyboard 0x9e)
    · obtain rfl : 0x9e = code := by simpa using hcode
      have hkey : nameChoiceKeyboard 0 0x9e v = { v with
          redraw := true
          name := Function.update v.name v.nameSize 0x9e
          nameSize := v.nameSize + 1 } := by
        simp [nameChoiceKeyboard, backSpace, enter, maxNameSize, hsame.size, hzero,
          show (0x9e : UInt8) &&& 0x80 ≠ 0 from by decide]
      have hmake : CanMake images s [] (System.step _ s (e, .event 0 (.keyboard 0x9e))) :=
        .quiet (atHand_of_ne (by simp) (by simp [enter]) (by simp [Toggles]))
          (accepted_of_ne (by simp))
      rw [System.step_handled (h.session.alive e) hev, hkey] at hmake
      refine ⟨_, hmake, ?_, ?_, ?_⟩
      · rw [Function.update_self]
        exact hsame.gameState.trans hstart
      · rw [Function.update_self]
        exact Nat.succ_pos _
      · rw [Function.update_of_ne (Side.other_ne e)]
    · exact absurd rfl (hcode 0x9e)
  · exact ⟨s, Leads.refl s, hstart, hpos, rfl⟩

/-- A user enters its name, when the other end has nothing to send. -/
theorem Ongoing.exists_enters (h : Ongoing images s ms) (e : Side) :
    ∃ s', CanMake images s [] s' ∧ (s' e).vm.gameState ≠ .start ∧
      ((s e.other).vm.gameState ≠ .start → (s' e.other).vm.gameState ≠ .start) := by
  by_cases hstart : (s e).vm.gameState = .start
  · obtain ⟨s₁, hmake₁, hwritten, hstate⟩ := h.exists_written e.other
    have h₁ := h.stays hmake₁
    obtain ⟨s₂, hmake₂, hstart₂, hnamed, hother⟩ := h₁.exists_named ((hstate e).trans hstart)
    have h₂ := h₁.stays hmake₂
    obtain ⟨v, vm', hsame, hev, ⟨code, hcode, rfl⟩ | ⟨hcode, -⟩⟩ :=
      handleEvent_start (d := Display.mode115 images) hstart₂ (s₂ e).vm.line.length
        (.keyboard enter)
    · obtain rfl : enter = code := by simpa using hcode
      have hkey : (nameChoiceKeyboard (s₂ e).vm.line.length enter v).gameState = .waiting := by
        simp [nameChoiceKeyboard, backSpace, enter, hsame.size, hnamed, Vm.leaveMenu,
          show (0x9c : UInt8) &&& 0x80 ≠ 0 from by decide]
      have hok : EnterOk s₂ (e, .event (s₂ e).vm.line.length (.keyboard enter)) := by
        rintro k event hact - -
        cases hact
        rw [hother]
        exact ⟨hwritten, le_rfl⟩
      have hnone := accepted_of_ne (d := Display.mode115 images) (s := s₂)
        (a := (e, .event (s₂ e).vm.line.length (.keyboard enter))) (by simp)
      have hmake₃ := CanMake.quiet (.of_quiet hok (by simp) (by simp [Toggles, enter]) hnone) hnone
      rw [System.step_handled (h₂.session.alive e) hev] at hmake₃
      refine ⟨_, (hmake₁.trans hmake₂).trans hmake₃, ?_, fun hne => ?_⟩
      · rw [Function.update_self]
        simp [hkey]
      · rw [Function.update_of_ne (Side.other_ne e), hother, hstate]
        exact hne
    · exact absurd rfl (hcode enter)
  · exact ⟨s, Leads.refl s, hstart, id⟩

/-- **Both users can enter their names**, one after the other. -/
theorem Ongoing.exists_entered (h : Ongoing images s ms) :
    ∃ s', CanMake images s [] s' ∧ ∀ e, (s' e).vm.gameState ≠ .start := by
  obtain ⟨s₁, hmake₁, hleft, -⟩ := h.exists_enters .left
  have h₁ := h.stays hmake₁
  obtain ⟨s₂, hmake₂, hright, hkept⟩ := h₁.exists_enters .right
  refine ⟨s₂, hmake₁.trans hmake₂, fun e => ?_⟩
  cases e with
  | left => exact hkept hleft
  | right => exact hright

/-! ## Mice -/

/-- As long as `inv` holds, the packets of the end `e` that hold the button (`lb`) or leave it lead
its cursor about, and nothing that `inv` speaks of. -/
def Roams (images : Images) (e : Side) (lb : Bool) (inv : System → Prop) : Prop :=
  ∀ s packet, inv s → packet.lb = lb →
    System.accepted (Display.mode115 images) s (e, .event 0 (.mouse packet)) = none ∧
    (System.step (Display.mode115 images) s (e, .event 0 (.mouse packet)) e).vm.cursor =
      updateCursor mode115 packet (s e).vm.cursor ∧
    inv (System.step (Display.mode115 images) s (e, .event 0 (.mouse packet)))

/-- A packet is no `ENTER`. -/
theorem enterOk_mouse {e : Side} {k : ℕ} {packet : Packet} :
    EnterOk s (e, .event k (.mouse packet)) := by
  intro n event hact hconnect
  cases hact
  exact absurd hconnect.2.1 (by simp)

/-- A packet of the mouse that makes no move. -/
theorem atHand_mouse {e : Side} {packet : Packet} (h : packet.FromMouse)
    (hnone : System.accepted (Display.mode115 images) s (e, .event 0 (.mouse packet)) = none) :
    AtHand images s (e, .event 0 (.mouse packet)) := by
  refine .of_quiet enterOk_mouse (fun k p hact => ?_) id hnone
  cases hact
  exact h

/-- The cursor points at the pixel `(x, y)`, with its button as `lb` says. -/
structure Cursor.At (cursor : Cursor) (lb : Bool) (x y : ℤ) : Prop where
  pixel : cursor.distance x y = 0
  button : cursor.pressed = lb

/-- **The cursor is led to every pixel** that it can reach. -/
theorem Roams.exists_walk {e : Side} {lb : Bool} {inv : System → Prop}
    (h : Roams images e lb inv) {x y : ℤ} (hx : 0 ≤ x ∧ x ≤ 788) (hy : 0 ≤ y ∧ y ≤ 580)
    (hs : inv s) : ∃ s', CanMake images s [] s' ∧ inv s' ∧ (s' e).vm.cursor.At lb x y := by
  -- the first packet brings the button into place
  refine CanMake.exists_of_rank inv _
    (fun r => (r e).vm.cursor.distance x y + if (r e).vm.cursor.pressed = lb then 0 else 1)
    (fun r hr hgoal => ?_) hs
  obtain ⟨hnone, hcursor, hnext⟩ := h r (nudge lb (r e).vm.cursor x y) hr rfl
  refine ⟨_, atHand_mouse (fromMouse_nudge lb _ x y) hnone, hnone, .inr ⟨hnext, ?_⟩⟩
  have hcloser := distance_nudge (g := mode115) (by decide) (by decide) (by decide) (by decide) lb
    (r e).vm.cursor (x := x) (y := y) hx hy
  have hbutton : (updateCursor mode115 (nudge lb (r e).vm.cursor x y)
      (r e).vm.cursor).pressed = lb := pressed_updateCursor _ _ _
  rw [hcursor, if_pos hbutton]
  split
  · rename_i hpressed
    have hfar : (r e).vm.cursor.distance x y ≠ 0 := fun hzero => hgoal ⟨hr, hzero, hpressed⟩
    omega
  · omega

/-- A step that makes no move goes on with the session. -/
theorem Ongoing.quiet (h : Ongoing images s ms) {a : Side × Action} (hok : EnterOk s a)
    (hnone : System.accepted (Display.mode115 images) s a = none) :
    Ongoing images (System.step (Display.mode115 images) s a) ms := by
  have hnext := h.step a hok (by simp [hnone])
  rwa [hnone, Option.toList_none, List.append_nil] at hnext

/-- What an end has reached it does not lose. -/
theorem Ongoing.later (h : Ongoing images s ms) (hmake : CanMake images s ms' s') (e : Side) :
    (table (Display.mode115 images) s e).Later (table (Display.mode115 images) s' e) := by
  refine (Leads.invariant (fun r os => Ongoing images r os ∧
    (table (Display.mode115 images) s e).Later (table (Display.mode115 images) r e))
    (fun r a os hr hok => ?_) hmake ⟨h, .refl _⟩).2
  exact ⟨hr.1.step a hok.session.1 hok.session.2, hr.2.trans (hr.1.session.later a e)⟩

/-- An event that leaves the turn where it is makes no move. -/
theorem accepted_of_turn {d : Display} {e : Side} {k : ℕ} {event : Event} {vm' : Vm}
    (hev : handleEvent d k event (s e).vm = some vm')
    (hturn : (s e).vm.gameState = .playing → vm'.myTurn = (s e).vm.myTurn) :
    System.accepted d s (e, .event k event) = none := by
  cases hm : System.accepted d s (e, .event k event) with
  | none => rfl
  | some m =>
    obtain ⟨-, k', event', hact, hacc⟩ := System.accepted_eq_some hm
    cases hact
    unfold acceptedMove at hacc
    split at hacc
    · rename_i packet vm'' hev'
      obtain rfl := Option.some.inj (hev.symm.trans hev')
      split_ifs at hacc with hmove
      obtain ⟨hplay, hmine, hlost⟩ := hmove
      exact absurd (hlost.symm.trans ((hturn hplay).trans hmine)) (by decide)
    · cases hacc

/-- The cursor is led to every pixel, where one more packet brings the button into the place
`lb'`. -/
theorem Roams.exists_packet {e : Side} {lb : Bool} {inv : System → Prop}
    (h : Roams images e lb inv) {x y : ℤ} (lb' : Bool) (hx : 0 ≤ x ∧ x ≤ 788)
    (hy : 0 ≤ y ∧ y ≤ 580) (hs : inv s) :
    ∃ s' packet, CanMake images s [] s' ∧ inv s' ∧ packet.FromMouse ∧
      (s' e).vm.cursor.pressed = lb ∧ packet.lb = lb' ∧
      (updateCursor mode115 packet (s' e).vm.cursor).At lb' x y := by
  obtain ⟨s', hmake, hinv, hat⟩ := h.exists_walk hx hy hs
  have hcloser := distance_nudge (g := mode115) (by decide) (by decide) (by decide) (by decide) lb'
    (s' e).vm.cursor (x := x) (y := y) hx hy
  have hzero := hat.pixel
  exact ⟨s', nudge lb' (s' e).vm.cursor x y, hmake, hinv, fromMouse_nudge _ _ _ _, hat.button, rfl,
    by omega, pressed_updateCursor _ _ _⟩

/-! ## The choice of a color -/

/-- A packet of an end that chooses its color: the choice, or none. -/
theorem handleEvent_choosing {d : Display} {vm : Vm} (h : vm.gameState = .choosingPlayer) (k : ℕ)
    (packet : Packet) : ∃ vm', handleEvent d k (.mouse packet) vm = some vm' ∧
      vm'.cursor = updateCursor d.toGeometry packet vm.cursor ∧
      vm'.gameState =
        if (cursorClickPlayer (updateCursor d.toGeometry packet vm.cursor)).isSome then .playing
        else .choosingPlayer := by
  have hcursor : ∀ (v : Vm) screen, (v.createBackground screen).cursor = v.cursor := by
    intro v screen
    unfold Vm.createBackground
    split <;> rfl
  refine ⟨choosingIh d (.mouse packet)
    { vm with cursor := updateCursor d.toGeometry packet vm.cursor }, ?_, ?_⟩
  · simp only [handleEvent, inputHandler, h]
  · unfold choosingIh
    dsimp only
    rw [hcursor]
    dsimp only
    cases cursorClickPlayer (updateCursor d.toGeometry packet vm.cursor) with
    | none => exact ⟨hcursor _ _, (SameView.createBackground _ _).gameState.trans h⟩
    | some player => exact ⟨rfl, rfl⟩

/-- The end `a` chooses its color, and the other one awaits it. -/
structure Chooses (images : Images) (s : System) (a : Side) (ms : List (Side × ℤ × ℤ)) :
    Prop where
  ongoing : Ongoing images s ms
  choosing : (s a).vm.gameState = .choosingPlayer
  entered : (s a.other).vm.gameState ≠ .start

/-- A chooser leads its cursor about without the button. -/
theorem roams_chooses (a : Side) (ms : List (Side × ℤ × ℤ)) :
    Roams images a false fun s => Chooses images s a ms := by
  rintro s packet ⟨hongoing, hchoosing, hentered⟩ hup
  obtain ⟨vm', hev, hcursor, hstate⟩ := handleEvent_choosing (d := Display.mode115 images)
    hchoosing 0 packet
  have hclick : cursorClickPlayer (updateCursor mode115 packet (s a).vm.cursor) = none := by
    simp [cursorClickPlayer, hup]
  have hnone := accepted_of_turn hev (by simp [hchoosing])
  refine ⟨hnone, ?_, hongoing.quiet enterOk_mouse hnone, ?_, ?_⟩
  · rw [System.step_handled (hongoing.session.alive a) hev, Function.update_self]
    exact hcursor
  · rw [System.step_handled (hongoing.session.alive a) hev, Function.update_self]
    rw [Display.toGeometry_mode115, hclick] at hstate
    exact hstate
  · rw [System.step_handled (hongoing.session.alive a) hev,
      Function.update_of_ne (Side.other_ne a)]
    exact hentered

/-- **The chooser can choose**: it leads its cursor to a button and presses. -/
theorem Chooses.exists_chosen {a : Side} (h : Chooses images s a ms) :
    ∃ s', CanMake images s [] s' ∧ (s' a).vm.gameState = .playing ∧
      (s' a.other).vm.gameState ≠ .start := by
  obtain ⟨s₁, packet, hmake₁, h₁, hfrom, -, -, hat⟩ := (roams_chooses a ms).exists_packet
    (x := 400) (y := 540) true (by decide) (by decide) h
  obtain ⟨vm', hev, -, hstate⟩ := handleEvent_choosing (d := Display.mode115 images)
    h₁.choosing 0 packet
  have hclick : (cursorClickPlayer (updateCursor mode115 packet (s₁ a).vm.cursor)).isSome =
      true := by
    obtain ⟨hx, hy⟩ := Cursor.distance_eq_zero.mp hat.pixel
    have hpressed := hat.button
    generalize updateCursor mode115 packet (s₁ a).vm.cursor = cursor at hx hy hpressed
    have hx' : cursor.x = 400 := UInt16.toNat_inj.mp (by exact_mod_cast hx)
    have hy' : cursor.y = 540 := UInt16.toNat_inj.mp (by exact_mod_cast hy)
    simp [cursorClickPlayer, hx', hy', hpressed]
  have hnone := accepted_of_turn hev (by simp [h₁.choosing])
  have hmake₂ := CanMake.quiet (atHand_mouse hfrom hnone) hnone
  rw [System.step_handled (h₁.ongoing.session.alive a) hev] at hmake₂
  refine ⟨_, hmake₁.trans hmake₂, ?_, ?_⟩
  · rw [Function.update_self]
    rw [Display.toGeometry_mode115, hclick, if_pos rfl] at hstate
    exact hstate
  · rw [Function.update_of_ne (Side.other_ne a)]
    exact h₁.entered

/-! ## The next move -/

/-- The session is the move of the end `e`. -/
structure ToMove (images : Images) (s : System) (e : Side) (ms : List (Side × ℤ × ℤ)) :
    Prop where
  ongoing : Ongoing images s ms
  playing : (s e).vm.gameState = .playing
  turn : (s e).vm.myTurn = true
  going : (s e).vm.endGame = false

/-- A session at rest in which no king has been captured waits for a choice, or for a move. -/
theorem Ongoing.chooses_or_toMove (h : Ongoing images s ms)
    (hkings : (kinds (position ms)).Has .wKing ∧ (kinds (position ms)).Has .bKing)
    (hrest : AtRest (table (Display.mode115 images) s)) :
    (∃ a, Chooses images s a ms ∧ (s a.other).vm.gameState = .waitChoosingPlayer) ∨
      ∃ e, ToMove images s e ms := by
  have hgoing := h.going hkings.1 hkings.2
  rcases h.session.atRest hrest with ⟨-, a, ha, ha'⟩ | ⟨-, hplay, ⟨e, hturn, -⟩, -⟩ |
    ⟨-, e, ⟨hend, -⟩, -⟩
  · exact .inl ⟨a, ⟨h, ha, by simp [ha']⟩, ha'⟩
  · exact .inr ⟨e, h, (hplay e).1, hturn, (hplay e).2⟩
  · exact absurd (hend.symm.trans (hgoing e)) (by decide)

/-- **Before a king is captured, a session can be led on to its next move.** -/
theorem Ongoing.exists_toMove (h : Ongoing images s ms)
    (hkings : (kinds (position ms)).Has .wKing ∧ (kinds (position ms)).Has .bKing) :
    ∃ s' e, CanMake images s [] s' ∧ ToMove images s' e ms := by
  obtain ⟨s₁, hmake₁, hentered⟩ := h.exists_entered
  have h₁ := h.stays hmake₁
  obtain ⟨s₂, hmake₂, hrest⟩ := h₁.exists_atRest hentered
  have h₂ := h₁.stays hmake₂
  rcases h₂.chooses_or_toMove hkings hrest with ⟨a, hchooses, -⟩ | ⟨e, hmove⟩
  · obtain ⟨s₃, hmake₃, hplay, hother⟩ := hchooses.exists_chosen
    have h₃ := h₂.stays hmake₃
    obtain ⟨s₄, hmake₄, hrest'⟩ := h₃.exists_atRest fun e => by
      obtain rfl | rfl := a.eq_or_eq_other e
      · simp [hplay]
      · exact hother
    have h₄ := h₃.stays hmake₄
    have hmake := ((hmake₁.trans hmake₂).trans hmake₃).trans hmake₄
    rcases h₄.chooses_or_toMove hkings hrest' with ⟨f, hchooses', hwaits⟩ | ⟨e, hmove⟩
    · -- the chooser is in the game, and stays there
      have hgame := (h₃.later hmake₄ a).game (.inl (by simpa [table] using hplay))
      obtain rfl | rfl := f.eq_or_eq_other a
      · simp [table, hchooses'.choosing] at hgame
      · simp [table, hwaits] at hgame
    · exact ⟨s₄, e, hmake, hmove⟩
  · exact ⟨s₂, e, hmake₁.trans hmake₂, hmove⟩

end Users

end LCChess
