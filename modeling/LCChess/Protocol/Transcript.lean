import LCChess.Protocol.Parser

/-!
# The parser on legible transcripts

The parser counts position bytes in `byteOfMove`, which only `BEGIN_MESSAGE` resets: once a
message has been parsed, every further position byte is one more move from the same origin. It
never looks whether the origin holds a piece, nor whether origin and destination differ. The
bytes an instance polls and the moves it makes itself are the transcript of its run. A reader of
the transcript, who keeps a board of his own and sees nothing of the instance, can tell from it
whether the parser is safe.

## Main definitions

* `transcript d s inputs`: the polled bytes and the own moves of a run, in order
* `Reader.next r`: the reader takes the next entry, or finds it ill-framed
* `Legible r es`: the reader `r` finds nothing wrong with the entries `es`

## Main results

* `Reader.Tracks.step`: what the reader knows of the instance
* `parser_safe`: the parser is safe on legible transcripts
* `parser_unsafe`: three position bytes crash the program
-/

namespace LCChess

open Transition (run outputs outputs_cons outputs_append run_append run_snoc)

/-! ## Transcripts -/

/-- What an instance sees of a game: a byte that it polls, or a move that it makes. -/
inductive Entry
  | byte (b : UInt8)
  | own (o n : ℤ)

/-- The own move an input makes. -/
def ownMove (d : Display) (s : Instance) (i : Action ⊕ UInt8) : Option (ℤ × ℤ) :=
  match i with
  | .inl (.event arrivals event) =>
    if s.crashed then none else acceptedMove d arrivals event s.vm
  | _ => none

/-- The entries an input adds to the transcript. -/
def entries (d : Display) (s : Instance) (i : Action ⊕ UInt8) : List Entry :=
  (polledByte s i).toList.map Entry.byte ++
    (ownMove d s i).toList.map fun m => Entry.own m.1 m.2

/-- The polled bytes and the own moves of a run. -/
def transcript (d : Display) (s : Instance) (inputs : List (Action ⊕ UInt8)) : List Entry :=
  outputs (entries d) (Instance.stepInput d) s inputs

/-- How far a message has been read. -/
inductive Framing
  /-- Neither a `BEGIN_MESSAGE` nor a position. -/
  | start
  /-- `BEGIN_MESSAGE`. -/
  | begun
  /-- The position byte of the cell `o` behind it. -/
  | named (o : ℤ)
  /-- No further position belongs to the message. -/
  | complete

/-- A reader: how far the message has been read, and the cells that hold a piece. -/
structure Reader where
  framing : Framing
  occupied : ℤ → Bool

/-- A piece goes from cell `o` to cell `n`. -/
def occupy (occupied : ℤ → Bool) (o n : ℤ) : ℤ → Bool :=
  Function.update (Function.update occupied o false) n true

namespace Reader

/-- The reader at the start of a game. -/
def initial : Reader where
  framing := .start
  occupied := fun i => decide (IsCell i) && (initialCells i).isSome

/-- The reader takes an entry. A message is `BEGIN_MESSAGE` and two positions, the first one a
cell that holds a piece, and the second one another cell; `YOUR_TURN` and the empty polls may
stand anywhere. -/
def next (r : Reader) : Entry → Option Reader
  | .own o n => some { r with occupied := occupy r.occupied o n }
  | .byte b =>
    if b = beginMessage then some { r with framing := .begun }
    else if IsPosition b then
      match r.framing with
      -- a position in front of all messages is taken for an origin
      | .start => some { r with framing := .complete }
      | .begun => some { r with framing := .named (byteCell b) }
      | .named o =>
        if r.occupied o = true ∧ o ≠ byteCell b then
          some ⟨.complete, occupy r.occupied o (byteCell b)⟩
        else none
      | .complete => none
    else some r

end Reader

/-- The reader finds nothing wrong with the entries. -/
def Legible (r : Reader) (es : List Entry) : Prop := (es.foldlM Reader.next r).isSome = true

instance (r : Reader) (es : List Entry) : Decidable (Legible r es) :=
  inferInstanceAs (Decidable (_ = _))

theorem legible_append {r : Reader} {es es' : List Entry} : Legible r (es ++ es') ↔
    ∃ r', es.foldlM Reader.next r = some r' ∧ Legible r' es' := by
  rw [Legible, List.foldlM_append, Option.bind_eq_bind]
  cases h : es.foldlM Reader.next r with
  | none => simp
  | some r' => simp [Legible]

/-! ## The reader and the parser -/

/-- The moves that are still to come of the messages begun. -/
def Framing.pending : Framing → ℕ
  | .begun | .named _ => 1
  | .start | .complete => 0

/-- The parser of the seat has read as much as the reader. -/
def Framing.Shows (framing : Framing) (s : Seat) : Prop :=
  match framing with
  | .start | .begun => s.byteOfMove = 0
  | .named o => s.byteOfMove ≠ 0 ∧ s.origin = o
  | .complete => s.byteOfMove ≠ 0

namespace Reader

/-- The reader knows the parser of the seat, and which cells hold a piece. -/
structure Shows (r : Reader) (s : Seat) : Prop where
  occupied : ∀ i, IsCell i → (s.cells i).isSome = r.occupied i
  framing : r.framing.Shows s

/-- A change of the seat that the reader does not see. -/
theorem Shows.of_eq {r : Reader} {s s' : Seat} (h : r.Shows s) (hcells : s'.cells = s.cells)
    (hbyte : s'.byteOfMove = s.byteOfMove) (horigin : s'.origin = s.origin) : r.Shows s' := by
  obtain ⟨hocc, hread⟩ := h
  refine ⟨by rwa [hcells], ?_⟩
  unfold Framing.Shows at hread ⊢
  rw [hbyte, horigin]
  exact hread

/-- The reader moves a piece as the board does. -/
theorem isSome_moveFrom {cells : ℤ → Option PieceRef} {occupied : ℤ → Bool}
    (h : ∀ i, IsCell i → (cells i).isSome = occupied i) (o n : ℤ) (p : PieceRef) :
    ∀ i, IsCell i → (Seat.moveFrom cells o n p i).isSome = occupy occupied o n i := by
  intro i hi
  unfold Seat.moveFrom occupy
  rcases eq_or_ne i n with rfl | hn
  · simp
  rcases eq_or_ne i o with rfl | ho
  · simp [Function.update_of_ne hn]
  · simp [Function.update_of_ne hn, Function.update_of_ne ho, h i hi]

/-- The second position of a message makes the move that the reader makes. -/
theorem Shows.receiveMove {r : Reader} {s : Seat} (h : r.Shows s) (horigin : IsCell s.origin)
    {n : ℤ} (hpiece : r.occupied s.origin = true) (hbyte : s.byteOfMove ≠ 0)
    (hne : s.origin ≠ n) :
    ∃ s' p, s.receiveMove n = some s' ∧ s.cells s.origin = some p ∧
      Shows ⟨.complete, occupy r.occupied s.origin n⟩ s' := by
  obtain ⟨p, hp⟩ := Option.isSome_iff_exists.mp ((h.occupied _ horigin).trans hpiece)
  obtain ⟨s', hmove, hbyte', hcells⟩ : ∃ s', s.receiveMove n = some s' ∧
      s'.byteOfMove = s.byteOfMove ∧ s'.cells = Seat.moveTo s.cells s.origin n p := by
    rw [Seat.receiveMove, hp]
    exact ⟨_, rfl, rfl, rfl⟩
  refine ⟨s', p, hmove, hp, ?_, fun h0 => hbyte (hbyte'.symm.trans h0)⟩
  rw [hcells, ← moveFrom_eq_moveTo hne]
  exact isSome_moveFrom h.occupied _ _ _

/-- **The parser on a byte that the reader takes**: it makes a move only where the reader does, of
a message begun, from a cell that holds a piece, and to another cell. -/
theorem Shows.parse {r r' : Reader} {s : Seat} (h : r.Shows s) (horigin : IsCell s.origin)
    {b : UInt8} (hnext : r.next (.byte b) = some r') :
    ∃ s', s.parse b = some s' ∧ r'.Shows s' ∧
      (IsPosition b ∧ s.byteOfMove ≠ 0 →
        (r.framing.pending = 1 ∧ r'.framing.pending = 0) ∧
          ∃ p, s.cells s.origin = some p ∧ s.origin ≠ byteCell b) ∧
      (¬ (IsPosition b ∧ s.byteOfMove ≠ 0) →
        r'.framing.pending ≤ [b].count beginMessage + r.framing.pending) := by
  obtain ⟨hocc, hread⟩ := id h
  by_cases hbegin : b = beginMessage
  · subst hbegin
    obtain rfl : { r with framing := .begun } = r' := Option.some.inj hnext
    exact ⟨_, Seat.parse_beginMessage s, ⟨hocc, rfl⟩, fun hmove => absurd rfl hmove.1.1,
      fun _ => by simp [Framing.pending]⟩
  by_cases hpos : IsPosition b
  · obtain ⟨-, hturn, hzero⟩ := id hpos
    simp only [next, hbegin, hpos, if_false, if_true] at hnext
    unfold Seat.parse
    rw [if_neg hbegin, if_neg hturn, if_neg hzero]
    unfold Framing.Shows at hread
    cases hr : r.framing with
    | start =>
      rw [hr] at hread hnext
      obtain rfl : { r with framing := .complete } = r' := Option.some.inj hnext
      refine ⟨_, if_pos hread, ⟨hocc, Nat.one_ne_zero⟩, fun hmove => absurd hread hmove.2,
        fun _ => ?_⟩
      simp [Framing.pending]
    | begun =>
      rw [hr] at hread hnext
      obtain rfl : { r with framing := .named (byteCell b) } = r' := Option.some.inj hnext
      refine ⟨_, if_pos hread, ⟨hocc, Nat.one_ne_zero, rfl⟩, fun hmove => absurd hread hmove.2,
        fun _ => ?_⟩
      simp [Framing.pending]
    | named o =>
      rw [hr] at hread hnext
      obtain ⟨hbyte, rfl⟩ := hread
      dsimp only at hnext
      split_ifs at hnext with hcond
      obtain rfl := Option.some.inj hnext
      obtain ⟨s', p, hmove, hp, hshows⟩ := h.receiveMove horigin hcond.1 hbyte hcond.2
      exact ⟨s', (if_neg hbyte).trans hmove, hshows, fun _ => ⟨⟨rfl, rfl⟩, p, hp, hcond.2⟩,
        fun hnot => absurd ⟨hpos, hbyte⟩ hnot⟩
    | complete =>
      rw [hr] at hnext
      exact absurd hnext (by simp)
  · -- `YOUR_TURN` and `0` do not concern the reader
    simp only [next, hbegin, hpos, if_false] at hnext
    obtain rfl := Option.some.inj hnext
    have hb : b = yourTurn ∨ b = 0 := by
      by_contra hne
      rw [not_or] at hne
      exact hpos ⟨hbegin, hne⟩
    rcases hb with rfl | rfl
    · exact ⟨_, Seat.parse_yourTurn s, ⟨hocc, hread⟩, fun hmove => absurd hmove.1 hpos,
        fun _ => by simp⟩
    · exact ⟨_, Seat.parse_zero s, ⟨hocc, hread⟩, fun hmove => absurd hmove.1 hpos,
        fun _ => by simp⟩

/-- The instance is in the game or behind it, and the reader knows its parser. -/
structure Tracks (d : Display) (r : Reader) (s : Instance) : Prop where
  inGame : InGame d s.vm
  alive : s.crashed = false
  turn : ∀ p, s.vm.draggingPiece = some p → s.vm.myTurn = true
  shows : r.Shows (seat d s.vm)

section Step

variable {d : Display} {r : Reader} {s : Instance} (h : r.Tracks d s) {i : Action ⊕ UInt8}
include h

/-- The reader follows a byte that is polled. -/
theorem Tracks.polled {b : UInt8} (hb : polledByte s i = some b) {r' : Reader}
    (hnext : r.next (.byte b) = some r') :
    r'.Tracks d (s.stepInput d i) ∧
      (appliedMove s i).toList.length + r'.framing.pending ≤
        [b].count beginMessage + r.framing.pending ∧
      ∀ o n, appliedMove s i = some (o, n) →
        o ≠ n ∧ ∃ p, (ensureBoard d s.vm).board.board o = some p := by
  have hgame := h.inGame.isCell_originCell
  obtain ⟨q, ⟨hcells, hbyte, horigin⟩, ⟨hdrag, hturn⟩, hcases⟩ := stepInput_polled h.inGame hb
  have hshows : r.Shows q := h.shows.of_eq hcells (hbyte.trans (seat_byteOfMove d s.vm).symm)
    (horigin.trans (seat_origin d s.vm).symm)
  obtain ⟨q', hparse, hshows', hmove, hrest⟩ := hshows.parse (horigin ▸ hgame) hnext
  obtain ⟨hnone, -⟩ | ⟨q₁, hparse', halive, rfl⟩ := hcases
  · exact absurd (hnone.symm.trans hparse) (by simp)
  obtain rfl := Option.some.inj (hparse'.symm.trans hparse)
  refine ⟨⟨inGame_stepInput h.inGame i, halive, fun p hp => ?_, hshows'⟩, ?_⟩
  · obtain ⟨-, -, hdrag', -⟩ := Seat.parse_frame hparse'
    rw [← seat_dragging d, hdrag', hdrag] at hp
    rw [← seat_myTurn d, Seat.myTurn_parse hparse', hturn, h.turn p hp, Bool.true_or]
  · rw [hbyte] at hmove hrest
    by_cases hcond : IsPosition b ∧ s.vm.byteOfMove ≠ 0
    · have happly : appliedMove s i = some (originCell s.vm, byteCell b) := by
        simp only [appliedMove, hb, hcond, ne_eq, not_false_eq_true, and_self, if_true]
      obtain ⟨⟨hpending, hpending'⟩, p, hp, hne⟩ := hmove hcond
      rw [happly, hpending, hpending']
      refine ⟨by simp, ?_⟩
      rintro _ _ ⟨⟩
      rw [hcells, horigin] at hp
      exact ⟨horigin ▸ hne, p, (cellsOf_of_isCell hgame).symm.trans hp⟩
    · have happly : appliedMove s i = none := by simp only [appliedMove, hb, hcond, if_false]
      rw [happly]
      exact ⟨by simpa using hrest hcond, by simp⟩

omit h in
/-- An input that is no event adds nothing to the transcript. -/
theorem entries_port (hport : ∀ arrivals event, i ≠ .inl (.event arrivals event)) :
    entries d s i = [] := by
  rcases i with (⟨arrivals, event⟩ | lsr | arrived) | byte
  · exact absurd rfl (hport arrivals event)
  · rfl
  · rfl
  · rfl

/-- The reader sees nothing of the serial port. -/
theorem Tracks.port (hport : ∀ arrivals event, i ≠ .inl (.event arrivals event)) :
    r.Tracks d (s.stepInput d i) := by
  have hready : Ready d s.vm := h.inGame.sound
  have hbuffered : s.vm.Buffered (s.stepInput d i).vm := by
    refine (s.stepInput_cases d i).resolve_left ?_
    rintro ⟨arrivals, event, -, hact, -⟩
    exact hport arrivals event hact
  have halive : (s.stepInput d i).crashed = false := by
    rcases i with (⟨arrivals, event⟩ | lsr | arrived) | byte
    · exact absurd rfl (hport arrivals event)
    · rw [Instance.stepInput, Instance.step_of_alive h.alive]
      exact h.alive
    · rw [Instance.stepInput, Instance.step_of_alive h.alive]
      dsimp only
      split <;> exact h.alive
    · exact h.alive
  obtain ⟨-, transmit, receive, line, hseat⟩ := hready.buffered hbuffered
  refine ⟨inGame_stepInput h.inGame i, halive, ?_, ?_⟩
  · obtain ⟨transmit, receive, line, hvm, -⟩ := hbuffered
    rw [hvm]
    exact h.turn
  · rw [hseat]
    exact h.shows.of_eq rfl rfl rfl

/-- The reader follows an event that polls no byte: an own move is all there is to see. -/
theorem Tracks.event {arrivals : ℕ} {event : Event}
    (hb : polledByte s (.inl (.event arrivals event)) = none) :
    ∃ r', (entries d s (.inl (.event arrivals event))).foldlM next r = some r' ∧
      r'.framing = r.framing ∧ r'.Tracks d (s.stepInput d (.inl (.event arrivals event))) := by
  have hready : Ready d s.vm := h.inGame.sound
  have hgame := inGame_stepInput h.inGame (.inl (.event arrivals event))
  obtain ⟨vm', hev⟩ := Option.isSome_iff_exists.mp
    (handleEvent_isSome_of_unpolled h.inGame h.alive hb)
  have hstep : s.stepInput d (.inl (.event arrivals event)) = { s with vm := vm' } :=
    Instance.step_event h.alive hev
  have hentries : entries d s (.inl (.event arrivals event)) =
      (acceptedMove d arrivals event s.vm).toList.map fun m => Entry.own m.1 m.2 := by
    simp [entries, hb, ownMove, h.alive]
  rw [hstep] at hgame ⊢
  rw [hentries]
  rcases h.inGame.state with hplay | hexit
  · have hunread : event ≠ .newFrame := by
      rintro rfl
      simp [polledByte, h.alive, hplay] at hb
    obtain ⟨-, l, hevent, hlabel, hbyte, horigin, hcells⟩ :=
      handleEvent_unread h.inGame.sound hplay hunread hev
    rw [acceptedMove_eq hplay h.turn hev hevent hlabel]
    have hturn : ∀ p, vm'.draggingPiece = some p → vm'.myTurn = true := by
      simpa using hevent.turn_of_dragging (by simpa using h.turn)
    cases l with
    | none =>
      exact ⟨r, rfl, rfl, hgame, h.alive, hturn, h.shows.of_eq (hcells rfl) hbyte horigin⟩
    | some m =>
      refine ⟨{ r with occupied := occupy r.occupied m.1 m.2 }, rfl, rfl, hgame, h.alive, hturn,
        ?_, ?_⟩
      · generalize seat d vm' = q at hevent
        cases hevent with
        | accept p n =>
          simp only [Seat.accept, Seat.cells_leave, Seat.inicial_leave]
          exact isSome_moveFrom h.shows.occupied _ _ _
      · have hshows : r.Shows { seat d vm' with cells := (seat d s.vm).cells } :=
          h.shows.of_eq rfl hbyte horigin
        exact hshows.framing
  · obtain ⟨-, hseat, hturn⟩ := handleEvent_exit hready hexit hev
    rw [acceptedMove_menu (by simp [hexit])]
    refine ⟨r, rfl, rfl, hgame, h.alive, fun p hp => ?_, ?_⟩
    · have hdrag := congrArg Seat.dragging hseat
      simp only [seat_dragging] at hdrag
      rw [hturn]
      exact h.turn p (hdrag.symm.trans hp)
    · rw [hseat]
      exact h.shows

/-- **The reader follows every input** that adds a legible entry: the instance does not crash, and
a move it applies is one of a message begun, from a cell that holds a piece to another cell. -/
theorem Tracks.step (hlegible : Legible r (entries d s i)) :
    ∃ r', (entries d s i).foldlM next r = some r' ∧ r'.Tracks d (s.stepInput d i) ∧
      (appliedMove s i).toList.length + r'.framing.pending ≤
        (polledByte s i).toList.count beginMessage + r.framing.pending ∧
      ∀ o n, appliedMove s i = some (o, n) →
        o ≠ n ∧ ∃ p, (ensureBoard d s.vm).board.board o = some p := by
  cases hb : polledByte s i with
  | some b =>
    -- a frame makes no own move
    have hentries : entries d s i = [.byte b] := by
      unfold polledByte at hb
      split at hb
      · simp only [entries, polledByte, hb, ownMove, acceptedMove]
        split <;> simp
      · exact absurd hb (by simp)
    rw [hentries] at hlegible ⊢
    obtain ⟨r', hnext⟩ := Option.isSome_iff_exists.mp hlegible
    rw [List.foldlM_cons, Option.bind_eq_bind, Option.bind_eq_some_iff] at hnext
    obtain ⟨r₁, hnext, hnil⟩ := hnext
    obtain rfl := Option.some.inj hnil
    obtain ⟨htracks, hcount, hmoves⟩ := h.polled hb hnext
    exact ⟨r₁, by simp [hnext], htracks, hcount, hmoves⟩
  | none =>
    have hnone : appliedMove s i = none := by simp [appliedMove, hb]
    rw [hnone]
    by_cases hport : ∀ arrivals event, i ≠ .inl (.event arrivals event)
    · rw [entries_port hport]
      exact ⟨r, rfl, h.port hport, by simp, by simp⟩
    · simp only [not_forall, not_not] at hport
      obtain ⟨arrivals, event, rfl⟩ := hport
      obtain ⟨r', hnext, hframing, htracks⟩ := h.event hb
      exact ⟨r', hnext, htracks, by simp [hframing], by simp⟩

end Step

/-- The reader follows a legible run. -/
theorem Tracks.run {d : Display} {r : Reader} {s : Instance} (h : r.Tracks d s)
    {inputs : List (Action ⊕ UInt8)} (hlegible : Legible r (transcript d s inputs)) :
    ∃ r', (transcript d s inputs).foldlM next r = some r' ∧
      r'.Tracks d (Transition.run (Instance.stepInput d) s inputs) ∧
      (appliedMoves d s inputs).length + r'.framing.pending ≤
        (polledBytes d s inputs).count beginMessage + r.framing.pending := by
  induction inputs generalizing r s with
  | nil => exact ⟨r, rfl, h, by simp [appliedMoves, polledBytes]⟩
  | cons i inputs ih =>
    obtain ⟨r₁, hnext, hrest⟩ := legible_append.mp hlegible
    have hlegible' : Legible r (entries d s i) := by
      rw [Legible, hnext]
      rfl
    obtain ⟨r₁', hnext', htracks, hcount, -⟩ := h.step hlegible'
    obtain rfl := Option.some.inj (hnext.symm.trans hnext')
    obtain ⟨r₂, hrun, htracks', hcount'⟩ := ih htracks hrest
    refine ⟨r₂, ?_, htracks', ?_⟩
    · rw [transcript, outputs_cons, List.foldlM_append, hnext]
      exact hrun
    · simp only [appliedMoves, polledBytes, outputs_cons, List.length_append,
        List.count_append] at hcount' ⊢
      omega

/-- The reader at the start of a game. -/
theorem tracks_initial {d : Display} {s : Instance} (h : NewGame d s.vm)
    (halive : s.crashed = false) : initial.Tracks d s where
  inGame := ⟨h.sound, .inl h.playing⟩
  alive := halive
  turn := fun p hp => absurd (h.dragging.symm.trans hp) (by simp)
  shows := by
    rw [h.seat_eq]
    refine ⟨fun i hi => ?_, rfl⟩
    simp [initial, hi]

end Reader

/-! ## Legible runs -/

/-- **The parser is safe on legible transcripts.** In every run of an instance from a new game, on
arbitrary bytes and events, whose transcript is legible: the program does not crash, at most one
move is made for every `BEGIN_MESSAGE`, and every move takes the piece of its origin to its
destination. -/
theorem parser_safe {d : Display} {s : Instance} (h : NewGame d s.vm)
    (halive : s.crashed = false) {inputs : List (Action ⊕ UInt8)}
    (hlegible : Legible .initial (transcript d s inputs)) :
    (run (Instance.stepInput d) s inputs).crashed = false ∧
      (appliedMoves d s inputs).length ≤ (polledBytes d s inputs).count beginMessage ∧
      ∀ before i after, inputs = before ++ i :: after → ∀ o n,
        appliedMove (run (Instance.stepInput d) s before) i = some (o, n) → ∃ p,
          (ensureBoard d (run (Instance.stepInput d) s before).vm).board.board o = some p ∧
          (ensureBoard d (run (Instance.stepInput d) s (before ++ [i])).vm).board.board n =
            some p := by
  have hstart := Reader.tracks_initial h halive
  obtain ⟨r, -, hend, hcount⟩ := hstart.run hlegible
  refine ⟨hend.alive, le_trans (Nat.le_add_right _ _) hcount, ?_⟩
  rintro before i after rfl o n hmove
  -- the move is made from the state that the inputs before it lead to
  rw [transcript, outputs_append] at hlegible
  obtain ⟨r₁, hbefore, hrest⟩ := legible_append.mp hlegible
  have hlegible₀ : Legible .initial (transcript d s before) := by
    rw [Legible, transcript, hbefore]
    rfl
  obtain ⟨r₁', hbefore', htracks, -⟩ := hstart.run hlegible₀
  obtain rfl := Option.some.inj (hbefore.symm.trans hbefore')
  obtain ⟨r₂, hi, -⟩ := legible_append.mp hrest
  have hlegible' : Legible r₁ (entries d (run (Instance.stepInput d) s before) i) := by
    rw [Legible, hi]
    rfl
  obtain ⟨-, -, -, -, hmoves⟩ := htracks.step hlegible'
  obtain ⟨hne, p, hp⟩ := hmoves o n hmove
  refine ⟨p, hp, ?_⟩
  rw [run_snoc]
  exact appliedMove_stands htracks.inGame hmove hne hp

/-- A byte that is fed to the instance is all that its transcript shows. -/
theorem Listening.transcript_feed {d : Display} {s : Instance} {r : Seat} (h : Listening d s r)
    (b : UInt8) : transcript d s (feed b) = [.byte b] := by
  have hpolled : transcript d s (feed b) = (polledBytes d s (feed b)).map Entry.byte := by
    simp [transcript, polledBytes, feed, entries, ownMove, acceptedMove, polledByte]
  rw [hpolled, (h.run_feed b).1]
  rfl

/-- A message that moves the pawn of the first column one square. -/
theorem parser_safe_message :
    let d := Display.mode115 Images.blank
    let inputs := feed beginMessage ++ feed 1 ++ feed 2 ++ feed yourTurn
    (appliedMoves d startBlack inputs).length = 1 ∧
      (run (Instance.stepInput d) startBlack inputs).crashed = false := by
  intro d inputs
  have h₀ := listening_startBlack d
  obtain ⟨-, hm₀, -, hr₀⟩ := h₀.run_feed beginMessage
  have h₁ := hr₀ _ rfl rfl
  obtain ⟨-, hm₁, -, hr₁⟩ := h₁.run_feed 1
  have h₂ := hr₁ _ rfl rfl
  obtain ⟨-, hm₂, -, hr₂⟩ := h₂.run_feed 2
  have h₃ := hr₂ _ rfl rfl
  obtain ⟨-, hm₃, -, -⟩ := h₃.run_feed yourTurn
  have htranscript : transcript d startBlack inputs =
      [.byte beginMessage, .byte 1, .byte 2, .byte yourTurn] := by
    have ht₀ := h₀.transcript_feed beginMessage
    have ht₁ := h₁.transcript_feed 1
    have ht₂ := h₂.transcript_feed 2
    have ht₃ := h₃.transcript_feed yourTurn
    simp only [transcript] at ht₀ ht₁ ht₂ ht₃
    simp only [inputs, transcript, outputs_append, run_append, ht₀, ht₁, ht₂, ht₃]
    rfl
  have hlegible : Legible .initial (transcript d startBlack inputs) := by
    rw [htranscript]
    decide
  refine ⟨?_, (parser_safe (newGame_initialGame d .black) rfl hlegible).1⟩
  simp only [appliedMoves] at hm₀ hm₁ hm₂ hm₃
  simp only [inputs, appliedMoves, outputs_append, run_append, hm₀, hm₁, hm₂, hm₃]
  decide

/-- **The parser is not safe on arbitrary bytes.** Three bytes that name the second cell of the
first column, and no `BEGIN_MESSAGE`: the second byte moves the pawn of that cell onto its own
cell and so off the board, and the third one makes the program dereference the null pointer that
is left there. -/
theorem parser_unsafe :
    let d := Display.mode115 Images.blank
    let inputs := feed 1 ++ feed 1 ++ feed 1
    NewGame d startBlack.vm ∧
      (polledBytes d startBlack inputs).count beginMessage = 0 ∧
      appliedMoves d startBlack inputs = [(8, 8), (8, 8)] ∧
      (ensureBoard d startBlack.vm).board.board 8 = some 8 ∧
      (∀ i, IsCell i → (ensureBoard d (run (Instance.stepInput d) startBlack
        (feed 1 ++ feed 1)).vm).board.board i ≠ some 8) ∧
      (run (Instance.stepInput d) startBlack inputs).crashed = true := by
  intro d inputs
  have hnew : NewGame d startBlack.vm := newGame_initialGame d .black
  have h₀ := listening_startBlack d
  obtain ⟨hb₁, hm₁, -, hr₁⟩ := h₀.run_feed 1
  have h₁ := hr₁ _ rfl rfl
  obtain ⟨hb₂, hm₂, -, hr₂⟩ := h₁.run_feed 1
  have h₂ := hr₂ _ rfl rfl
  obtain ⟨hb₃, hm₃, hcrash, -⟩ := h₂.run_feed 1
  refine ⟨hnew, ?_, ?_, ?_, fun i hi => ?_, ?_⟩
  · simp only [polledBytes] at hb₁ hb₂ hb₃
    simp only [inputs, polledBytes, outputs_append, run_append, hb₁, hb₂, hb₃]
    decide
  · simp only [appliedMoves] at hm₁ hm₂ hm₃
    simp only [inputs, appliedMoves, outputs_append, run_append, hm₁, hm₂,
      hm₃]
    decide
  · exact (hnew.position.1 8 (by decide)).trans (by decide)
  · have hcell : (seat d (run (Instance.stepInput d) startBlack (feed 1 ++ feed 1)).vm).cells i =
        (ensureBoard d (run (Instance.stepInput d) startBlack
          (feed 1 ++ feed 1)).vm).board.board i := cellsOf_of_isCell hi
    rw [← hcell, run_append, h₂.shows]
    exact forall_isCell (p := fun i => _ ≠ some 8) (by decide) hi
  · simp only [inputs, run_append]
    exact hcrash rfl

end LCChess
