import LCChess.Program.MainLoop
import Mathlib.Data.List.GetD

/-!
# Entering the name

`name_choice_ih` edits the name with the break codes of the keyboard. Compared with a line
editor it has one flaw: an `ENTER` that finds the name empty is not ignored but stored, because
the last branch of the handler excludes `BACK_SPACE` only. On all other inputs it is that
editor, and the other handlers never touch the name.

## Main definitions

* `LineEditor`, `LineEditor.key`: the reference editor
* `typed`, `queued`: the scancodes a run hands to `name_choice_ih`, and the bytes it queues
* `EntersName`: the name buffer is that of the editor
* `EnterAccepted`: no `ENTER` meets an empty name

## Main results

* `nameChoiceKeyboard_key`: one scancode
* `name_entered_iff`: the name buffer is the editor's along exactly the runs with
  `EnterAccepted`
* `name_entered_fails`: the run with one `ENTER`
-/

namespace LCChess

open Transition (run outputs outputs_append run_snoc Along along_append)

/-! ## The reference editor -/

/-- A line editor: the characters stored, and whether the line was submitted. -/
structure LineEditor where
  codes : List UInt8
  submitted : Bool

namespace LineEditor

/-- The editor before the first key. -/
def blank : LineEditor := ⟨[], false⟩

/-- One scancode: make codes are ignored, and so is everything behind the submission. -/
def key (e : LineEditor) (code : UInt8) : LineEditor :=
  if e.submitted = true ∨ code &&& 0x80 = 0 then e
  else if code = backSpace then { e with codes := e.codes.dropLast }
  else if code = enter then if e.codes = [] then e else { e with submitted := true }
  else if e.codes.length < maxNameSize then { e with codes := e.codes ++ [code] }
  else e

/-- What the editor can hold. -/
structure Valid (e : LineEditor) : Prop where
  length_le : e.codes.length ≤ maxNameSize
  /-- The characters are break codes, but for those that edit. -/
  chars : ∀ c ∈ e.codes, c ≠ 0 ∧ c ≠ enter ∧ c ≠ backSpace
  nonempty : e.submitted = true → e.codes ≠ []

theorem valid_blank : blank.Valid := ⟨by decide, by simp [blank], nofun⟩

theorem Valid.key {e : LineEditor} (h : e.Valid) (code : UInt8) : (e.key code).Valid := by
  unfold LineEditor.key
  split_ifs with hoff hback henter hnil hroom
  · exact h
  · have hopen : e.submitted = false := by
      have := (not_or.mp hoff).1
      simpa using this
    refine ⟨?_, fun c hc => h.chars c (List.dropLast_subset _ hc), fun hs => ?_⟩
    · have := h.length_le
      rw [List.length_dropLast]
      omega
    · rw [hopen] at hs
      cases hs
  · exact h
  · exact ⟨h.length_le, h.chars, fun _ => hnil⟩
  · refine ⟨?_, ?_, fun _ => by simp⟩
    · rw [List.length_append, List.length_singleton]
      omega
    · intro c hc
      rcases List.mem_append.mp hc with hc | hc
      · exact h.chars c hc
      · obtain rfl := List.mem_singleton.mp hc
        refine ⟨?_, henter, hback⟩
        rintro rfl
        exact (not_or.mp hoff).2 (by decide)
  · exact h

end LineEditor

/-! ## The runs of an instance -/

/-- An instance at the start of the main loop. -/
def programStart : Instance := { vm := Vm.initial, crashed := false }

/-- The scancode an input hands to `name_choice_ih`. -/
def typed (s : Instance) : Action ⊕ UInt8 → List UInt8
  | .inl (.event _ (.keyboard code)) =>
    if s.crashed = false ∧ s.vm.gameState = .start then [code] else []
  | _ => []

/-- Only the keyboard of an instance that enters its name hands a scancode over. -/
theorem typed_eq_nil {s : Instance} {i : Action ⊕ UInt8}
    (h : ∀ k code, i = .inl (.event k (.keyboard code)) → s.crashed = false →
      s.vm.gameState ≠ .start) : typed s i = [] := by
  unfold typed
  split
  · rename_i k code
    apply if_neg
    rintro ⟨halive, hstart⟩
    exact h k code rfl halive hstart
  · rfl

/-- The bytes an input writes to THR. -/
def transmitted (s : Instance) : Action ⊕ UInt8 → List UInt8
  | .inl a => s.written a
  | .inr _ => []

/-- The instance after the inputs `l`. -/
def entryRun (d : Display) (l : List (Action ⊕ UInt8)) : Instance :=
  run (Instance.stepInput d) programStart l

/-- The reference editor on the scancodes that `name_choice_ih` was handed. -/
def entryEditor (d : Display) (l : List (Action ⊕ UInt8)) : LineEditor :=
  run LineEditor.key .blank (outputs typed (Instance.stepInput d) programStart l)

/-- The bytes queued along the inputs `l`: those transmitted, and those still in the queue. -/
def queued (d : Display) (l : List (Action ⊕ UInt8)) : List UInt8 :=
  outputs transmitted (Instance.stepInput d) programStart l ++
    (entryRun d l).vm.transmitQueue.toList

/-- The name buffer of `vm` holds the characters of `e`, and zeros behind them. -/
structure HoldsName (vm : Vm) (e : LineEditor) : Prop where
  size : vm.nameSize = e.codes.length
  name : ∀ i ≤ maxNameSize, vm.name i = e.codes.getD i 0

/-- The name entry is that of the editor `e`, while the bytes `bytes` were queued. -/
structure EntersName (vm : Vm) (e : LineEditor) (bytes : List UInt8) : Prop where
  valid : e.Valid
  holds : HoldsName vm e
  /-- The editor is left when the line is submitted. -/
  start_iff : vm.gameState = .start ↔ e.submitted = false
  start_queued : vm.gameState = .start → bytes = []
  waiting_queued : vm.gameState = .waiting → bytes = [vmConnected]

/-- An `ENTER` does not meet an empty name. -/
def EnterAccepted (s : Instance) (i : Action ⊕ UInt8) : Prop :=
  enter ∈ typed s i → 0 < s.vm.nameSize

/-! ## One scancode -/

section Key

variable {vm : Vm} {e : LineEditor}

theorem HoldsName.frame (h : HoldsName vm e) {vm' : Vm} (hname : vm'.name = vm.name)
    (hsize : vm'.nameSize = vm.nameSize) : HoldsName vm' e :=
  ⟨hsize.trans h.size, fun i hi => hname ▸ h.name i hi⟩

/-- Deleting the last character. -/
theorem HoldsName.dropLast (h : HoldsName vm e) (hpos : 0 < vm.nameSize) :
    HoldsName { vm with
        nameSize := vm.nameSize - 1
        name := Function.update vm.name (vm.nameSize - 1) 0 }
      { e with codes := e.codes.dropLast } := by
  have hsize := h.size
  refine ⟨by simp [hsize], fun i hi => ?_⟩
  show Function.update vm.name (vm.nameSize - 1) 0 i = e.codes.dropLast.getD i 0
  rw [List.getD_eq_getElem?_getD, List.getElem?_dropLast]
  -- in front of the deleted character, at its place, and behind it
  rcases Nat.lt_trichotomy i (vm.nameSize - 1) with hlt | rfl | hgt
  · rw [Function.update_of_ne (by omega), if_pos (by omega), h.name i hi,
      List.getD_eq_getElem?_getD]
  · rw [Function.update_self, if_neg (by omega)]
    rfl
  · rw [Function.update_of_ne (by omega), if_neg (by omega), h.name i hi,
      List.getD_eq_default _ _ (by omega)]
    rfl

/-- Storing one more character. -/
theorem HoldsName.append (h : HoldsName vm e) (code : UInt8) :
    HoldsName { vm with
        name := Function.update vm.name vm.nameSize code
        nameSize := vm.nameSize + 1 }
      { e with codes := e.codes ++ [code] } := by
  have hsize := h.size
  refine ⟨by simp [hsize], fun i hi => ?_⟩
  show Function.update vm.name vm.nameSize code i = (e.codes ++ [code]).getD i 0
  -- in front of the new character, at its place, and behind it
  rcases Nat.lt_trichotomy i e.codes.length with hlt | rfl | hgt
  · rw [Function.update_of_ne (by omega), h.name i hi, List.getD_append _ _ _ _ hlt]
  · rw [hsize, Function.update_self, List.getD_append_right _ _ _ _ le_rfl]
    simp
  · rw [Function.update_of_ne (by omega), h.name i hi, List.getD_eq_default _ _ (by omega),
      List.getD_eq_default _ _ (by simp; omega)]

/-- Ending the name, which ends there already. -/
theorem HoldsName.terminate (h : HoldsName vm e) :
    HoldsName { vm with name := Function.update vm.name vm.nameSize 0 }
      { e with submitted := true } := by
  have hsize := h.size
  refine ⟨hsize, fun i hi => ?_⟩
  show Function.update vm.name vm.nameSize 0 i = e.codes.getD i 0
  by_cases hi' : i = vm.nameSize
  · rw [hi', Function.update_self, List.getD_eq_default _ _ (by omega)]
  · rw [Function.update_of_ne hi', h.name i hi]

/-- **One scancode** edits the name as the editor does, unless it is an `ENTER` that meets an
empty name; the name is submitted together with one `VM_CONNECTED`. -/
theorem nameChoiceKeyboard_key (h : HoldsName vm e) (hopen : e.submitted = false)
    (hstart : vm.gameState = .start) {code : UInt8} (hok : code = enter → 0 < vm.nameSize)
    (k : ℕ) :
    HoldsName (nameChoiceKeyboard k code vm) (e.key code) ∧
      (((e.key code).submitted = false ∧ (nameChoiceKeyboard k code vm).gameState = .start ∧
          (nameChoiceKeyboard k code vm).transmitQueue = vm.transmitQueue) ∨
        ((e.key code).submitted = true ∧ (nameChoiceKeyboard k code vm).gameState = .waiting ∧
          (nameChoiceKeyboard k code vm).transmitQueue =
            addToTransmitQueue vmConnected vm.transmitQueue)) := by
  have hsize := h.size
  by_cases hmake : code &&& 0x80 = 0
  · -- a make code
    have hkey : e.key code = e := if_pos (.inr hmake)
    have hstep : nameChoiceKeyboard k code vm = vm := if_neg (not_not.mpr hmake)
    rw [hkey, hstep]
    exact ⟨h, .inl ⟨hopen, hstart, rfl⟩⟩
  · have hon : ¬ (e.submitted = true ∨ code &&& 0x80 = 0) := by simp [hopen, hmake]
    by_cases hback : code = backSpace
    · subst hback
      by_cases hpos : 0 < vm.nameSize
      · have hstep : nameChoiceKeyboard k backSpace vm = { vm with
            redraw := true
            nameSize := vm.nameSize - 1
            name := Function.update vm.name (vm.nameSize - 1) 0 } := by
          simp only [nameChoiceKeyboard, ne_eq, hmake, not_false_eq_true, if_true, hpos, and_self]
        have hkey : e.key backSpace = { e with codes := e.codes.dropLast } := by
          simp only [LineEditor.key, hon, if_false, if_true]
        rw [hstep, hkey]
        exact ⟨(h.dropLast hpos).frame rfl rfl, .inl ⟨hopen, hstart, rfl⟩⟩
      -- there is nothing to delete
      · have hstep : nameChoiceKeyboard k backSpace vm = { vm with redraw := true } := by
          have henter : ¬ (backSpace = enter) := by decide
          simp only [nameChoiceKeyboard, ne_eq, hmake, not_false_eq_true, if_true, hpos, and_false,
            if_false, not_true_eq_false, false_and]
        have hnil : e.codes = [] := List.length_eq_zero_iff.mp (by omega)
        have hkey : e.key backSpace = e := by
          simp only [LineEditor.key, hon, if_false, if_true, hnil, List.dropLast_nil]
          rw [← hnil]
        rw [hstep, hkey]
        exact ⟨h.frame rfl rfl, .inl ⟨hopen, hstart, rfl⟩⟩
    · by_cases henter : code = enter
      · -- `ENTER`, which does not meet an empty name
        have hpos := hok henter
        subst henter
        have hne : e.codes ≠ [] := by
          rintro hnil
          simp [hnil] at hsize
          omega
        have hkey : e.key enter = { e with submitted := true } := by
          simp only [LineEditor.key, hon, if_false, hback, if_true, hne]
        have hstep : nameChoiceKeyboard k enter vm =
            (({ vm with
              redraw := true
              name := Function.update vm.name vm.nameSize 0
              line := (spClear k vm.line vm.receiveQueue).1
              receiveQueue := (spClear k vm.line vm.receiveQueue).2 } : Vm).send
                vmConnected).leaveMenu .waiting := by
          simp only [nameChoiceKeyboard, ne_eq, hmake, not_false_eq_true, if_true, hpos, hback,
            false_and, if_false, and_self]
        rw [hstep, hkey]
        exact ⟨h.terminate.frame rfl rfl, .inr ⟨rfl, rfl, rfl⟩⟩
      -- any other break code is a character, if there is room for it
      · by_cases hroom : vm.nameSize < maxNameSize
        · have hstep : nameChoiceKeyboard k code vm = { vm with
              redraw := true
              name := Function.update vm.name vm.nameSize code
              nameSize := vm.nameSize + 1 } := by
            simp only [nameChoiceKeyboard, ne_eq, hmake, not_false_eq_true, if_true, hback,
              henter, false_and, if_false, hroom, and_self]
          have hkey : e.key code = { e with codes := e.codes ++ [code] } := by
            have hroom' : e.codes.length < maxNameSize := hsize ▸ hroom
            simp only [LineEditor.key, hon, if_false, hback, henter, hroom', if_true]
          rw [hstep, hkey]
          exact ⟨(h.append code).frame rfl rfl, .inl ⟨hopen, hstart, rfl⟩⟩
        · have hstep : nameChoiceKeyboard k code vm = { vm with redraw := true } := by
            simp only [nameChoiceKeyboard, ne_eq, hmake, not_false_eq_true, if_true, hback,
              henter, false_and, if_false, hroom, and_false]
          have hkey : e.key code = e := by
            have hroom' : ¬ e.codes.length < maxNameSize := hsize ▸ hroom
            simp only [LineEditor.key, hon, if_false, hback, henter, hroom']
          rw [hstep, hkey]
          exact ⟨h.frame rfl rfl, .inl ⟨hopen, hstart, rfl⟩⟩

end Key

/-! ## The other events -/

/-- The name entry sees no difference between two states. -/
structure SameEntry (vm vm' : Vm) : Prop where
  name : vm'.name = vm.name
  size : vm'.nameSize = vm.nameSize
  gameState : vm'.gameState = vm.gameState
  transmit : vm'.transmitQueue = vm.transmitQueue

theorem SameEntry.trans {vm vm' vm'' : Vm} (h : SameEntry vm vm') (h' : SameEntry vm' vm'') :
    SameEntry vm vm'' :=
  ⟨h'.name.trans h.name, h'.size.trans h.size, h'.gameState.trans h.gameState,
    h'.transmit.trans h.transmit⟩

/-- A screen that is drawn if `p` holds. -/
theorem SameEntry.redraw (vm : Vm) (p : Prop) [Decidable p]
    (background : GameState → Option Memory) :
    SameEntry vm (if p then { vm with background := background, redraw := false } else vm) := by
  split <;> exact ⟨rfl, rfl, rfl, rfl⟩

/-- Behind the name entry the name stays, and the queue while nobody has answered. -/
structure LeavesEntry (vm vm' : Vm) : Prop where
  name : vm'.name = vm.name
  size : vm'.nameSize = vm.nameSize
  ne_start : vm'.gameState ≠ .start
  waiting : vm'.gameState = .waiting →
    vm.gameState = .waiting ∧ vm'.transmitQueue = vm.transmitQueue

theorem SameEntry.leaves {vm vm' : Vm} (h : SameEntry vm vm') (hs : vm.gameState ≠ .start) :
    LeavesEntry vm vm' :=
  ⟨h.name, h.size, fun hs' => hs (h.gameState.symm.trans hs'),
    fun hw => ⟨h.gameState.symm.trans hw, h.transmit⟩⟩

theorem LeavesEntry.trans_same {vm v vm' : Vm} (h : LeavesEntry vm v) (h' : SameEntry v vm') :
    LeavesEntry vm vm' where
  name := h'.name.trans h.name
  size := h'.size.trans h.size
  ne_start hs := h.ne_start (h'.gameState.symm.trans hs)
  waiting hw := by
    obtain ⟨hstate, htransmit⟩ := h.waiting (h'.gameState.symm.trans hw)
    exact ⟨hstate, h'.transmit.trans htransmit⟩

theorem SameEntry.trans_leaves {vm v vm' : Vm} (h : SameEntry vm v) (h' : LeavesEntry v vm') :
    LeavesEntry vm vm' where
  name := h'.name.trans h.name
  size := h'.size.trans h.size
  ne_start := h'.ne_start
  waiting hw := by
    obtain ⟨hstate, htransmit⟩ := h'.waiting hw
    exact ⟨h.gameState.symm.trans hstate, htransmit.trans h.transmit⟩

/-- An event that ends in another state than the first two. -/
theorem LeavesEntry.of_state {vm vm' : Vm} (hname : vm'.name = vm.name)
    (hsize : vm'.nameSize = vm.nameSize) (hstart : vm'.gameState ≠ .start)
    (hwaiting : vm'.gameState ≠ .waiting) : LeavesEntry vm vm' :=
  ⟨hname, hsize, hstart, fun hw => absurd hw hwaiting⟩

section Events

variable {d : Display} {vm vm' : Vm}

theorem SameEntry.createBackground (vm : Vm) (screen : Memory) :
    SameEntry vm (vm.createBackground screen) := by
  unfold Vm.createBackground
  split <;> exact ⟨rfl, rfl, rfl, rfl⟩

theorem SameEntry.showBackground (vm : Vm) (g : Geometry) :
    SameEntry vm (vm.showBackground g) := by
  unfold Vm.showBackground
  split <;> exact ⟨rfl, rfl, rfl, rfl⟩

/-- The `KEYBOARD` events of `name_choice_ih` find the name as it was. -/
theorem nameChoiceIh_keyboard (k : ℕ) (code : UInt8) (vm : Vm) :
    ∃ v, SameEntry vm v ∧
      nameChoiceIh d k (.keyboard code) vm = nameChoiceKeyboard k code v := by
  exact ⟨if (vm.background .start).isNone then
      { vm with
        background := Function.update vm.background .start (some (nameScreen d vm.name))
        redraw := false }
    else vm, SameEntry.redraw _ _ _, rfl⟩

/-- The other events of `name_choice_ih` draw only. -/
theorem nameChoiceIh_draw (k : ℕ) (event : Event) (h : ∀ code, event ≠ .keyboard code)
    (vm : Vm) : SameEntry vm (nameChoiceIh d k event vm) := by
  have hcreate : SameEntry vm (if (vm.background .start).isNone then
      { vm with
        background := Function.update vm.background .start (some (nameScreen d vm.name))
        redraw := false }
    else vm) := SameEntry.redraw _ _ _
  cases event with
  | keyboard code => exact absurd rfl (h code)
  | mouse packet => exact hcreate
  | newFrame =>
    have hredraw := fun p [Decidable p] background =>
      hcreate.trans (SameEntry.redraw _ p background)
    exact (hredraw _ _).trans (SameEntry.showBackground _ d.toGeometry)

theorem waitingIh_leaves (h : vm.gameState = .waiting) (event : Event) :
    LeavesEntry vm (waitingIh d event vm) := by
  have hcreate := SameEntry.createBackground vm (menuScreen d d.waiting 0 0)
  have hstay : LeavesEntry vm (vm.createBackground (menuScreen d d.waiting 0 0)) :=
    hcreate.leaves (by simp [h])
  cases event with
  | mouse packet => exact hstay
  | keyboard code => exact hstay
  | newFrame =>
    have hshow := hcreate.trans (SameEntry.showBackground _ d.toGeometry)
    unfold waitingIh
    dsimp only
    split_ifs
    · exact .of_state hshow.name hshow.size nofun nofun
    · exact .of_state hshow.name hshow.size nofun nofun
    · exact (hshow.leaves (by simp [h])).trans_same ⟨rfl, rfl, rfl, rfl⟩

theorem waitingChoosingIh_leaves (h : vm.gameState = .waitChoosingPlayer) (arrived : Bool)
    (event : Event) : LeavesEntry vm (waitingChoosingIh d arrived event vm) := by
  have hcreate := SameEntry.createBackground vm (menuScreen d d.waiting 0 0)
  have hstay : LeavesEntry vm (vm.createBackground (menuScreen d d.waiting 0 0)) :=
    hcreate.leaves (by simp [h])
  cases event with
  | mouse packet => exact hstay
  | keyboard code => exact hstay
  | newFrame =>
    have hshow := hcreate.trans (SameEntry.showBackground _ d.toGeometry)
    unfold waitingChoosingIh
    dsimp only
    split_ifs
    · exact .of_state hshow.name hshow.size nofun nofun
    · exact .of_state hshow.name hshow.size nofun nofun
    · exact (hshow.leaves (by simp [h])).trans_same ⟨rfl, rfl, rfl, rfl⟩

theorem choosingIh_leaves (h : vm.gameState = .choosingPlayer) (event : Event) :
    LeavesEntry vm (choosingIh d event vm) := by
  have hcreate := SameEntry.createBackground vm (menuScreen d d.playerChoice 95 15)
  have hstay : LeavesEntry vm (vm.createBackground (menuScreen d d.playerChoice 95 15)) :=
    hcreate.leaves (by simp [h])
  cases event with
  | keyboard code => exact hstay
  | newFrame =>
    exact (hcreate.trans (SameEntry.showBackground _ d.toGeometry)).leaves (by simp [h])
  | mouse packet =>
    unfold choosingIh
    dsimp only
    split
    · exact .of_state hcreate.name hcreate.size nofun nofun
    · exact hstay

/-- The name and the state of a received byte. -/
theorem parseByte_name {b : UInt8} (h : parseByte d b vm = some vm') :
    vm'.name = vm.name ∧ vm'.nameSize = vm.nameSize ∧
      (vm'.gameState = vm.gameState ∨ vm'.gameState = .exit) := by
  obtain rfl | rfl | rfl | ⟨move, byteOfMove, rfl⟩ | ⟨p, gameState, won, -, -, hstate, rfl⟩ :=
    parseByte_cases h
  · exact ⟨rfl, rfl, .inl rfl⟩
  · exact ⟨rfl, rfl, .inl rfl⟩
  · exact ⟨rfl, rfl, .inl rfl⟩
  · exact ⟨rfl, rfl, .inl rfl⟩
  · exact ⟨rfl, rfl, hstate⟩

/-- A `MOUSE` event of the game leaves the name alone. -/
theorem playingMouse_name (d : Display) (vm : Vm) :
    (playingMouse d vm).name = vm.name ∧ (playingMouse d vm).nameSize = vm.nameSize := by
  obtain ⟨heap, board, draggingPiece, row, col, videoMemBuffer, hpress⟩ := pressOrDrag_frame d vm
  unfold playingMouse
  rw [hpress]
  dsimp only
  split
  · rename_i p
    split_ifs
    · obtain ⟨heap', board', transmitQueue, endGame, myTurn, h⟩ := release_frame d { vm with
        heap := heap, board := board, draggingPiece := some p, inicialPieceRow := row
        inicialPieceCol := col, videoMemBuffer := videoMemBuffer } p
      rw [h]
      exact ⟨rfl, rfl⟩
    · exact ⟨rfl, rfl⟩
  · exact ⟨rfl, rfl⟩

theorem playingIh_leaves (h : vm.gameState = .playing) {event : Event}
    (hev : playingIh d event vm = some vm') : LeavesEntry vm vm' := by
  obtain ⟨board, heap, redraw, hboard⟩ := ensureBoard_frame d vm
  obtain ⟨v, hv, hname, hsize, hstate⟩ : ∃ v, v = leaveGame (ensureBoard d vm) ∧
      v.name = vm.name ∧ v.nameSize = vm.nameSize ∧
      (v.gameState = .playing ∨ v.gameState = .exit) := by
    refine ⟨_, rfl, ?_, ?_, ?_⟩
    · obtain ⟨gameState, won, hleave⟩ := leaveGame_frame (ensureBoard d vm)
      rw [hleave, hboard]
    · obtain ⟨gameState, won, hleave⟩ := leaveGame_frame (ensureBoard d vm)
      rw [hleave, hboard]
    · rw [hboard]
      unfold leaveGame
      split
      · exact .inr rfl
      · exact .inl h
  -- the game never goes back to the menus
  have hdone : ∀ w : Vm, w.name = v.name → w.nameSize = v.nameSize →
      (w.gameState = v.gameState ∨ w.gameState = .exit) → LeavesEntry vm w := by
    intro w hw hw' hws
    refine .of_state (hw.trans hname) (hw'.trans hsize) ?_ ?_
    · rcases hws with hws | hws <;> rcases hstate with hs | hs <;> simp [hws, hs]
    · rcases hws with hws | hws <;> rcases hstate with hs | hs <;> simp [hws, hs]
  simp only [playingIh, ← hv] at hev
  cases event with
  | newFrame =>
    obtain ⟨hw, hw', hws⟩ := parseByte_name hev
    exact hdone vm' hw hw' hws
  | keyboard code =>
    obtain rfl := Option.some.inj hev
    unfold playingKeyboard
    split_ifs <;> exact hdone _ rfl rfl (.inl rfl)
  | mouse packet =>
    obtain rfl := Option.some.inj hev
    obtain ⟨hw, hw'⟩ := playingMouse_name d v
    exact hdone _ hw hw' (.inl (playingMouse_frame d v).1)

/-- Behind the name entry no event touches the name. -/
theorem inputHandler_leaves (h : vm.gameState ≠ .start) {k : ℕ} {event : Event}
    (hev : inputHandler d k event vm = some vm') : LeavesEntry vm vm' := by
  unfold inputHandler at hev
  split at hev
  · rename_i hs
    exact absurd hs h
  · rename_i hs
    obtain rfl := Option.some.inj hev
    exact waitingIh_leaves hs event
  · rename_i hs
    exact playingIh_leaves hs hev
  · rename_i hs
    obtain rfl := Option.some.inj hev
    exact choosingIh_leaves hs event
  · rename_i hs
    obtain rfl := Option.some.inj hev
    exact waitingChoosingIh_leaves hs _ event
  · obtain rfl := Option.some.inj hev
    exact SameEntry.leaves ⟨rfl, rfl, rfl, rfl⟩ h

theorem handleEvent_leaves (h : vm.gameState ≠ .start) {k : ℕ} {event : Event}
    (hev : handleEvent d k event vm = some vm') : LeavesEntry vm vm' := by
  cases event with
  | keyboard code => exact inputHandler_leaves h hev
  | mouse packet =>
    have hcursor : SameEntry vm
        { vm with cursor := updateCursor d.toGeometry packet vm.cursor } := ⟨rfl, rfl, rfl, rfl⟩
    exact hcursor.trans_leaves (inputHandler_leaves (by exact h) hev)
  | newFrame =>
    obtain ⟨v, hv, rfl⟩ := Option.map_eq_some_iff.mp hev
    exact (inputHandler_leaves h hv).trans_same ⟨rfl, rfl, rfl, rfl⟩

/-- The events of the name entry: a scancode, or only the screen changes. -/
theorem handleEvent_start (h : vm.gameState = .start) (k : ℕ) (event : Event) :
    ∃ v vm', SameEntry vm v ∧ handleEvent d k event vm = some vm' ∧
      ((∃ code, event = .keyboard code ∧ vm' = nameChoiceKeyboard k code v) ∨
        (∀ code, event ≠ .keyboard code) ∧ vm' = v) := by
  cases event with
  | keyboard code =>
    obtain ⟨v, hsame, hstep⟩ := nameChoiceIh_keyboard (d := d) k code vm
    refine ⟨v, _, hsame, ?_, .inl ⟨code, rfl, rfl⟩⟩
    simp only [handleEvent, inputHandler, h, hstep]
  | mouse packet =>
    have hcursor : SameEntry vm
        { vm with cursor := updateCursor d.toGeometry packet vm.cursor } := ⟨rfl, rfl, rfl, rfl⟩
    have hdraw := nameChoiceIh_draw (d := d) k (.mouse packet) (by simp)
      { vm with cursor := updateCursor d.toGeometry packet vm.cursor }
    refine ⟨_, _, hcursor.trans hdraw, ?_, .inr ⟨by simp, rfl⟩⟩
    simp only [handleEvent, inputHandler, h]
  | newFrame =>
    have hdraw := nameChoiceIh_draw (d := d) k .newFrame (by simp) vm
    have hpresent : SameEntry (nameChoiceIh d k .newFrame vm)
        (presentFrame d (nameChoiceIh d k .newFrame vm)) := ⟨rfl, rfl, rfl, rfl⟩
    refine ⟨_, _, hdraw.trans hpresent, ?_, .inr ⟨by simp, rfl⟩⟩
    simp only [handleEvent, inputHandler, h, Option.map_some]

end Events

/-! ## The runs -/

/-- The invariant of the runs in which every `ENTER` is accepted, when the bytes `sent` were
transmitted so far. -/
structure Entering (s : Instance) (e : LineEditor) (sent : List UInt8) : Prop
    extends EntersName s.vm e (sent ++ s.vm.transmitQueue.toList) where
  queue : s.vm.gameState = .start ∨ s.vm.gameState = .waiting →
    s.vm.transmitQueue.WellFormed ∧ s.vm.transmitQueue.capacity = 10

namespace Entering

variable {d : Display} {s s' : Instance} {e : LineEditor} {sent : List UInt8}

theorem programStart : Entering programStart .blank [] where
  valid := LineEditor.valid_blank
  holds := ⟨rfl, fun _ _ => rfl⟩
  start_iff := by decide
  start_queued _ := rfl
  waiting_queued := nofun
  queue _ := ⟨Queue.wellFormed_create (by decide) (by decide) _, rfl⟩

/-- A step that the name entry does not see. -/
theorem same (h : Entering s e sent) (hsame : SameEntry s.vm s'.vm) : Entering s' e sent where
  valid := h.valid
  holds := h.holds.frame hsame.name hsame.size
  start_iff := hsame.gameState ▸ h.start_iff
  start_queued hs := hsame.transmit ▸ h.start_queued (hsame.gameState ▸ hs)
  waiting_queued hw := hsame.transmit ▸ h.waiting_queued (hsame.gameState ▸ hw)
  queue hq := hsame.transmit ▸ h.queue (hsame.gameState ▸ hq)

/-- A step behind the name entry. -/
theorem leaves (h : Entering s e sent) (hs : s.vm.gameState ≠ .start)
    (hleave : LeavesEntry s.vm s'.vm) : Entering s' e sent where
  valid := h.valid
  holds := h.holds.frame hleave.name hleave.size
  start_iff := iff_of_false hleave.ne_start fun he => hs (h.start_iff.mpr he)
  start_queued hs' := absurd hs' hleave.ne_start
  waiting_queued hw := by
    obtain ⟨hwait, htransmit⟩ := hleave.waiting hw
    exact htransmit ▸ h.waiting_queued hwait
  queue hq := by
    obtain ⟨hwait, htransmit⟩ := hleave.waiting (hq.resolve_left hleave.ne_start)
    exact htransmit ▸ h.queue (.inr hwait)

/-- A scancode of the name entry. -/
theorem key (h : Entering s e sent) (hs : s.vm.gameState = .start) {v : Vm}
    (hv : SameEntry s.vm v) {code : UInt8} (hok : code = enter → 0 < s.vm.nameSize) (k : ℕ)
    (hstep : s'.vm = nameChoiceKeyboard k code v) : Entering s' (e.key code) sent := by
  obtain ⟨hwf, hcap⟩ := h.queue (.inl hs)
  have hnil : sent = [] ∧ s.vm.transmitQueue.toList = [] :=
    List.append_eq_nil_iff.mp (h.start_queued hs)
  obtain ⟨hholds, hcases⟩ := nameChoiceKeyboard_key (h.holds.frame hv.name hv.size)
    (h.start_iff.mp hs) (hv.gameState.trans hs) (by rwa [hv.size]) k
  rw [hv.transmit, ← hstep] at hcases
  rw [← hstep] at hholds
  rcases hcases with ⟨hopen, hstart, hqueue⟩ | ⟨hdone, hwaiting, hqueue⟩
  · exact ⟨⟨h.valid.key code, hholds, by simp [hopen, hstart],
      fun _ => hqueue ▸ h.start_queued hs, by simp [hstart]⟩, fun _ => hqueue ▸ ⟨hwf, hcap⟩⟩
  · -- the name is submitted: the queue was empty before
    have hroom : s.vm.transmitQueue.toList.length < s.vm.transmitQueue.capacity := by
      rw [hnil.2, hcap]
      decide
    have hlist : s'.vm.transmitQueue.toList = [vmConnected] := by
      rw [hqueue, toList_addToTransmitQueue hwf hroom, hnil.2]
      rfl
    refine ⟨⟨h.valid.key code, hholds, by simp [hdone, hwaiting], by simp [hwaiting], fun _ => ?_⟩,
      fun _ => ?_⟩
    · rw [hnil.1, hlist]
      rfl
    · rw [hqueue]
      exact ⟨wellFormed_addToTransmitQueue hwf _, by simpa using hcap⟩

/-- `sp_write` moves a byte from the queue to the transmitted ones. -/
theorem write (h : Entering s e sent) (lsr : Option UInt32) :
    Entering { s with vm := { s.vm with
        transmitQueue := (spWrite lsr true s.vm.transmitQueue).2.1 } } e
      (sent ++ (spWrite lsr true s.vm.transmitQueue).2.2.toList) := by
  -- what is written and what stays in the queue are the same bytes as before
  have hsum : s.vm.gameState = .start ∨ s.vm.gameState = .waiting →
      sent ++ (spWrite lsr true s.vm.transmitQueue).2.2.toList ++
          (spWrite lsr true s.vm.transmitQueue).2.1.toList =
        sent ++ s.vm.transmitQueue.toList := by
    intro hstate
    rcases spWrite_cases (h.queue hstate).1 lsr with hwrite | ⟨b, rest, hq, hwrite, hrest⟩
    · rw [hwrite]
      simp
    · rw [hwrite, hq, ← hrest]
      simp
  refine ⟨⟨h.valid, h.holds.frame rfl rfl, h.start_iff, fun hs => ?_, fun hw => ?_⟩,
    fun hstate => ?_⟩
  · exact (hsum (.inl hs)).trans (h.start_queued hs)
  · exact (hsum (.inr hw)).trans (h.waiting_queued hw)
  · obtain ⟨hwf, hcap⟩ := h.queue hstate
    obtain ⟨hwf', hcap'⟩ := wellFormed_spWrite hwf lsr
    exact ⟨hwf', hcap'.trans hcap⟩

/-- **One input**: the name entry stays that of the editor, unless an `ENTER` is not
accepted. -/
theorem step (h : Entering s e sent) (d : Display) (i : Action ⊕ UInt8)
    (hok : EnterAccepted s i) :
    Entering (s.stepInput d i) (run LineEditor.key e (typed s i)) (sent ++ transmitted s i) := by
  cases i with
  | inr byte =>
    rw [show transmitted s (.inr byte) = [] from rfl, List.append_nil]
    exact h.same ⟨rfl, rfl, rfl, rfl⟩
  | inl a =>
    cases hcrash : s.crashed with
    | true =>
      have htyped : typed s (.inl a) = [] :=
        typed_eq_nil fun _ _ _ halive => absurd (hcrash.symm.trans halive) (by decide)
      simpa [Instance.stepInput, Instance.step, transmitted, Instance.written, hcrash, htyped]
        using h
    | false =>
      cases a with
      | spWrite lsr =>
        simpa [Instance.stepInput, Instance.step_of_alive hcrash, transmitted, Instance.written,
          hcrash, typed] using h.write lsr
      | spRead arrived =>
        have hsame : Entering (s.stepInput d (.inl (.spRead arrived))) e sent := by
          simp only [Instance.stepInput, Instance.step_of_alive hcrash]
          split
          · exact h
          · exact h.same ⟨rfl, rfl, rfl, rfl⟩
        simpa [transmitted, Instance.written, typed] using hsame
      | event k event =>
        have hsent : sent ++ transmitted s (.inl (.event k event)) = sent := by
          simp [transmitted, Instance.written, hcrash]
        rw [hsent]
        by_cases hs : s.vm.gameState = .start
        · obtain ⟨v, vm', hsame, hev, hcases⟩ := handleEvent_start (d := d) hs k event
          rw [Instance.stepInput, Instance.step_event hcrash hev]
          rcases hcases with ⟨code, rfl, rfl⟩ | ⟨hdraw, rfl⟩
          -- the editor gets the scancode that the handler gets
          · have htyped : typed s (.inl (.event k (.keyboard code))) = [code] := by
              simp [typed, hcrash, hs]
            rw [htyped]
            refine h.key hs hsame (fun henter => hok ?_) k rfl
            rw [htyped, henter]
            exact List.mem_singleton_self enter
          · have htyped : typed s (.inl (.event k event)) = [] := by
              refine typed_eq_nil fun k code heq => ?_
              cases heq
              exact absurd rfl (hdraw _)
            rw [htyped]
            exact h.same hsame
        · have htyped : typed s (.inl (.event k event)) = [] :=
            typed_eq_nil fun _ _ _ _ => hs
          rw [htyped, run, List.foldl_nil]
          cases hev : handleEvent d k event s.vm with
          | some vm' =>
            rw [Instance.stepInput, Instance.step_event hcrash hev]
            exact h.leaves hs (handleEvent_leaves hs hev)
          | none =>
            simp only [Instance.stepInput, Instance.step_of_alive hcrash, hev]
            exact h.same ⟨rfl, rfl, rfl, rfl⟩

end Entering

/-- The invariant along a run in which every `ENTER` is accepted. -/
theorem entering_run {d : Display} {l : List (Action ⊕ UInt8)}
    (h : Along EnterAccepted (Instance.stepInput d) programStart l) :
    Entering (entryRun d l) (entryEditor d l)
      (outputs transmitted (Instance.stepInput d) programStart l) := by
  -- on the last input: it is handled in the state that the others lead to
  induction l using List.reverseRecOn with
  | nil => exact Entering.programStart
  | append_singleton l i ih =>
    obtain ⟨hl, hi⟩ := along_append.mp h
    have hstep := (ih hl).step d i hi.1
    rw [entryRun, run_snoc, entryEditor, outputs_append, outputs_append]
    simp only [Transition.outputs_cons, Transition.outputs_nil, List.append_nil,
      Transition.run_append]
    exact hstep

/-- An `ENTER` that meets an empty name is stored. -/
theorem EntersName.accepted {d : Display} {s : Instance} {e : LineEditor} {bytes : List UInt8}
    {bytes' : List UInt8} {i : Action ⊕ UInt8} (h : EntersName s.vm e bytes)
    (h' : EntersName (s.stepInput d i).vm (run LineEditor.key e (typed s i)) bytes') :
    EnterAccepted s i := by
  intro henter
  by_contra hzero
  have hsize : s.vm.nameSize = 0 := by omega
  -- the input is the break code of `ENTER`
  obtain ⟨k, rfl, hcrash, hs⟩ : ∃ k, i = .inl (.event k (.keyboard enter)) ∧
      s.crashed = false ∧ s.vm.gameState = .start := by
    unfold typed at henter
    split at henter
    · rename_i k code
      split at henter
      · rename_i hstate
        obtain rfl := List.mem_singleton.mp henter
        exact ⟨k, rfl, hstate⟩
      · cases henter
    · cases henter
  obtain ⟨v, vm', hsame, hev, ⟨code, hcode, rfl⟩ | ⟨hdraw, -⟩⟩ :=
    handleEvent_start (d := d) hs k (.keyboard enter)
  · cases hcode
    -- the handler stores the break code where the editor ignores it
    have hstored : (nameChoiceKeyboard k enter v).nameSize = 1 := by
      have hv : v.nameSize = 0 := hsame.size.trans hsize
      have hbreak : ¬ (enter &&& 0x80 = 0) := by decide
      have hback : ¬ (enter = backSpace) := by decide
      simp [nameChoiceKeyboard, hv, hbreak, hback, maxNameSize]
    have hkey : (run LineEditor.key e (typed s (.inl (.event k (.keyboard enter))))).codes =
        [] := by
      have hnil : e.codes = [] := List.length_eq_zero_iff.mp (h.holds.size ▸ hsize)
      have htyped : typed s (.inl (.event k (.keyboard enter))) = [enter] := by
        simp [typed, hcrash, hs]
      rw [htyped]
      show (e.key enter).codes = []
      unfold LineEditor.key
      split_ifs <;> first | contradiction | simp [hnil]
    have hholds := h'.holds.size
    rw [hkey, Instance.stepInput, Instance.step_event hcrash hev, hstored] at hholds
    simp at hholds
  · exact hdraw enter rfl

/-- If the name is the editor's before and after an input, then no `ENTER` was stored. -/
theorem accepted_snoc {d : Display} {l : List (Action ⊕ UInt8)} {i : Action ⊕ UInt8}
    (h : EntersName (entryRun d l).vm (entryEditor d l) (queued d l))
    (h' : EntersName (entryRun d (l ++ [i])).vm (entryEditor d (l ++ [i]))
      (queued d (l ++ [i]))) : EnterAccepted (entryRun d l) i := by
  rw [entryRun, run_snoc, entryEditor, outputs_append, Transition.run_append] at h'
  simp only [Transition.outputs_cons, Transition.outputs_nil, List.append_nil] at h'
  exact h.accepted h'

/-- **Name entry is a line editor but for `ENTER` on an empty name**: in every run of an
instance from the program start, on a line of arbitrary bytes, the name buffer, the state and
the queued bytes are those of the reference editor in every state reached, if and only if no
`ENTER` is handled while the name is empty. -/
theorem name_entered_iff (d : Display) (l : List (Action ⊕ UInt8)) :
    (∀ l', l' <+: l → EntersName (entryRun d l').vm (entryEditor d l') (queued d l')) ↔
      Along EnterAccepted (Instance.stepInput d) programStart l := by
  constructor
  · intro h
    induction l using List.reverseRecOn with
    | nil => trivial
    | append_singleton l i ih =>
      have hl := ih fun l' hl' => h l' (hl'.trans (List.prefix_append l [i]))
      have hi := accepted_snoc (h l (List.prefix_append l [i])) (h (l ++ [i]) List.prefix_rfl)
      exact along_append.mpr ⟨hl, hi, trivial⟩
  · rintro h l' ⟨m, rfl⟩
    exact (entering_run (along_append.mp h).1).toEntersName

/-- One `ENTER` before any letter: its break code becomes the first letter of the name. -/
theorem name_entered_fails :
    ¬ ∀ l', l' <+: [Sum.inl (Action.event 0 (.keyboard enter))] →
      EntersName (entryRun (Display.mode115 Images.blank) l').vm
        (entryEditor (Display.mode115 Images.blank) l')
        (queued (Display.mode115 Images.blank) l') := by
  intro h
  have haccepted := accepted_snoc (l := []) (h [] List.nil_prefix) (h _ List.prefix_rfl)
  have hmem : enter ∈ typed programStart (.inl (.event 0 (.keyboard enter))) := by decide
  exact absurd (haccepted hmem) (by decide)

end LCChess
