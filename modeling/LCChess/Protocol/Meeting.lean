import LCChess.Protocol.Handshake

/-!
# The handshake does not get stuck

Whether or not the two `ENTER` cross on the line, an end that waits has a byte to wait for. An end
discards bytes only when it connects, before it sends anything: what it discards is at most the
`VM_CONNECTED` of the end that connected first, and that one has nothing left to discard.

## Main definitions

* `HasMet g`: the end is choosing, or in the game
* `Reaching g bytes`: the first of the bytes to be read takes the end out of its state
* `Meeting chose t`: the phases of the handshake, whatever the order of the steps

## Main results

* `Meeting.step`, `Meeting.menu`: every step keeps the phases
* `handshake_never_stuck`: no run gets stuck
-/

namespace LCChess

open Transition (run run_snoc)

/-- The end is choosing, or in the game. -/
def HasMet (g : GameState) : Prop := g = .choosingPlayer ∨ g = .playing ∨ g = .exit

/-- An end behind one that is choosing, with the bytes on their way to it. -/
def Reaching (g : GameState) (bytes : List UInt8) : Prop :=
  (g = .waiting ∧ ([vmConnected, receiveVmConnected] <+: bytes ∨ [receiveVmConnected] <+: bytes)) ∨
    g = .waitChoosingPlayer

/-- The phases of the handshake; `chose e` says that the end `e` has been choosing. -/
inductive Meeting (chose : Side → Prop) (t : Table) : Prop
  | start (hstate : ∀ e, (t e).gameState = .start) (hquiet : ∀ e, incoming t e = [])
  | called (a : Side) (ha : (t a).gameState = .waiting) (hf : (t a.other).gameState = .start)
      (hin : incoming t a.other = [vmConnected]) (hquiet : incoming t a = [])
  /-- The second `ENTER` discarded the `VM_CONNECTED` of `a`, or crossed it. -/
  | paired (a : Side) (hstate : ∀ e, (t e).gameState = .waiting)
      (hin : incoming t a = [vmConnected])
      (hother : incoming t a.other = [] ∨ incoming t a.other = [vmConnected])
  | ahead (a : Side) (hchose : chose a) (ha : HasMet (t a).gameState)
      (hf : Reaching (t a.other).gameState (incoming t a.other))
  | met (hstate : ∀ e, HasMet (t e).gameState)

/-! ## What the serial port leaves alone -/

theorem prefix_enqueue (l : List UInt8) (b : UInt8) : l <+: enqueue l b := by
  unfold enqueue
  split
  · exact List.prefix_append l [b]
  · exact List.prefix_rfl

theorem prefix_foldl_enqueue (bytes l : List UInt8) : l <+: bytes.foldl enqueue l := by
  induction bytes generalizing l with
  | nil => exact List.prefix_rfl
  | cons b bytes ih => exact (prefix_enqueue l b).trans (ih (enqueue l b))

/-- An event takes nothing out of the transmit queue. -/
theorem Seat.Event.transmit_prefix {s s' : Seat} {l : Option (ℤ × ℤ)} (h : Seat.Event s l s') :
    s.transmit <+: s'.transmit := by
  have hleave : s.transmit <+: s.leave.transmit := by simp
  cases h with
  | idle => exact hleave
  | press p i => exact hleave
  | cancel p => exact hleave
  | accept p i =>
    simp only [Seat.accept, Seat.transmit_leave, Seat.inicial_leave]
    exact prefix_foldl_enqueue _ _
  | poll _ hpoll =>
    obtain ⟨-, rfl⟩ | ⟨b, rest, -, hparse⟩ := Seat.poll_cases hpoll
    · exact hleave
    · obtain ⟨-, -, -, -, htransmit, -, -⟩ := Seat.parse_frame hparse
      rw [htransmit]
      exact hleave

/-- A drag has the turn, also after a step. -/
theorem Table.Step.turn_of_dragging {t t' : Table} {l : Option (Side × ℤ × ℤ)}
    (hs : Table.Step t l t') (ht : ∀ f p, (t f).dragging = some p → (t f).myTurn = true) :
    ∀ f p, (t' f).dragging = some p → (t' f).myTurn = true := by
  intro f
  cases hs with
  | idle => exact ht f
  | write e b rest =>
    unfold Table.transfer
    split <;> exact ht f
  | read e b rest =>
    obtain rfl | rfl := e.eq_or_eq_other f
    · simpa using ht f
    · simpa using ht e.other
  | event e l s _ hevent =>
    obtain rfl | rfl := e.eq_or_eq_other f
    · rw [Function.update_self]
      exact hevent.turn_of_dragging (ht f)
    · simpa using ht e.other

/-- A full receive queue drops the bytes behind it. -/
theorem prefix_incoming_read {t : Table} {e : Side} {b : UInt8} {rest l : List UInt8}
    (hb : (t e).line = b :: rest) (hl : l.length ≤ 10) (f : Side) (h : l <+: incoming t f) :
    l <+: incoming (Function.update t e
      { t e with line := rest, receive := enqueue (t e).receive b }) f := by
  by_cases hroom : (t e).receive.length < 10
  · rwa [incoming_read t e hb hroom]
  · obtain rfl | rfl := e.eq_or_eq_other f
    -- ten bytes fit into the receive queue, so `l` has been read from the line already
    · have hreceive : l <+: (t f).receive := by
        unfold incoming at h
        rw [List.append_assoc] at h
        exact List.prefix_of_prefix_length_le h (List.prefix_append _ _) (by omega)
      rw [incoming_update_self, List.append_assoc]
      simp only [enqueue, hroom, if_false]
      exact hreceive.trans (List.prefix_append _ _)
    · rw [incoming_update_other]
      simpa [incoming] using h

namespace Meeting

variable {chose chose' : Side → Prop} {t t' : Table}

theorem mono (h : Meeting chose t) (hchose : ∀ e, chose e → chose' e) : Meeting chose' t := by
  cases h with
  | start hstate hquiet => exact .start hstate hquiet
  | called a ha hf hin hquiet => exact .called a ha hf hin hquiet
  | paired a hstate hin hother => exact .paired a hstate hin hother
  | ahead a hc ha hf => exact .ahead a (hchose a hc) ha hf
  | met hstate => exact .met hstate

/-- A phase depends on the states and the bytes on their way. -/
theorem congr (h : Meeting chose t) (hstate : ∀ f, (t' f).gameState = (t f).gameState)
    (hin : ∀ f, incoming t' f = incoming t f) : Meeting chose t' := by
  cases h with
  | start hs hquiet => exact .start (by simpa only [hstate]) (by simpa only [hin])
  | called a ha hf hi hquiet =>
    exact .called a (by rwa [hstate]) (by rwa [hstate]) (by rwa [hin]) (by rwa [hin])
  | paired a hs hi hother => exact .paired a (by simpa only [hstate]) (by rwa [hin]) (by rwa [hin])
  | ahead a hc ha hf => exact .ahead a hc (by rwa [hstate]) (by rwa [hstate, hin])
  | met hs => exact .met (by simpa only [hstate])

/-- A byte leaves a transmit queue. -/
theorem write (h : Meeting chose t) {e : Side} {b : UInt8} {rest : List UInt8}
    (hb : (t e).transmit = b :: rest) : Meeting chose (t.transfer e b rest) := by
  refine h.congr (fun f => ?_) (incoming_transfer t e hb)
  unfold Table.transfer
  split <;> rfl

/-- A byte is read from the UART. -/
theorem read (h : Meeting chose t) {e : Side} {b : UInt8} {rest : List UInt8}
    (hb : (t e).line = b :: rest) : Meeting chose (Function.update t e
      { t e with line := rest, receive := enqueue (t e).receive b }) := by
  set t' := Function.update t e { t e with line := rest, receive := enqueue (t e).receive b }
  have hstate : ∀ f, (t' f).gameState = (t f).gameState := by
    intro f
    obtain rfl | rfl := e.eq_or_eq_other f <;> simp [t']
  by_cases hroom : (t e).receive.length < 10
  · exact h.congr hstate (incoming_read t e hb hroom)
  -- a full queue is met behind a chooser only, where the first two bytes count
  · have hlong : 10 ≤ (incoming t e).length := by
      simp only [incoming, List.length_append]
      omega
    cases h with
    | start _ hquiet => exact absurd hlong (by simp [hquiet])
    | called a _ _ hin hquiet =>
      obtain rfl | rfl := a.eq_or_eq_other e
      · exact absurd hlong (by simp [hquiet])
      · exact absurd hlong (by simp [hin])
    | paired a _ hin hother =>
      obtain rfl | rfl := a.eq_or_eq_other e
      · exact absurd hlong (by simp [hin])
      · obtain hi | hi := hother <;> exact absurd hlong (by simp [hi])
    | ahead a hc ha hf =>
      refine .ahead a hc (by rwa [hstate]) ?_
      rw [hstate]
      obtain ⟨hg, hp | hp⟩ | hg := hf
      · exact .inl ⟨hg, .inl (prefix_incoming_read hb (by decide) _ hp)⟩
      · exact .inl ⟨hg, .inr (prefix_incoming_read hb (by decide) _ hp)⟩
      · exact .inr hg
    | met hs => exact .met (by simpa only [hstate])

/-- `ENTER`. Only the second one has a byte to discard. -/
theorem connect (h : Meeting chose t) {e : Side} {k : ℕ} (hs : (t e).gameState = .start) :
    Meeting chose (Function.update t e { t e with
      gameState := .waiting
      receive := []
      line := (t e).line.drop k
      transmit := enqueue (t e).transmit vmConnected }) := by
  cases h with
  | start hstate hquiet =>
    obtain ⟨he, htransmit⟩ := List.append_eq_nil_iff.mp (hquiet e.other)
    obtain ⟨hreceive, htransmit'⟩ := List.append_eq_nil_iff.mp (hquiet e)
    obtain ⟨-, hline⟩ := List.append_eq_nil_iff.mp hreceive
    simp only [Side.other_other] at htransmit
    refine .called e ?_ ?_ ?_ ?_
    · simp
    · simpa using hstate e.other
    · rw [incoming_update_other, he, htransmit]
      rfl
    · rw [incoming_update_self]
      simpa [hline] using htransmit'
  | called a ha hf hin hquiet =>
    obtain rfl | rfl := a.eq_or_eq_other e
    · simp [ha] at hs
    · obtain ⟨hrest, htransmit⟩ := List.append_eq_nil_iff.mp hquiet
      refine .paired a (fun f => ?_) ?_ ?_
      · obtain rfl | rfl := a.eq_or_eq_other f
        · simpa using ha
        · simp
      · rw [incoming, Function.update_of_ne (Side.ne_other a), Function.update_self, hrest,
          htransmit]
        rfl
      · -- what is left of the one byte that was on its way
        rw [incoming_update_self, Side.other_other, List.nil_append]
        unfold incoming at hin
        rw [Side.other_other, List.append_assoc] at hin
        apply List.sublist_singleton.mp
        rw [← hin]
        exact ((List.drop_sublist k _).append_right _).trans (List.sublist_append_right _ _)
  | paired a hstate => simp [hstate] at hs
  | ahead a _ ha hf =>
    obtain rfl | rfl := a.eq_or_eq_other e
    · obtain hg | hg | hg := ha <;> simp [hg] at hs
    · obtain ⟨hg, -⟩ | hg := hf <;> simp [hg] at hs
  | met hstate => obtain hg | hg | hg := hstate e <;> simp [hg] at hs

/-- `waiting_ih` reads the `VM_CONNECTED` of the other end, which still waits. -/
theorem wait_paired {a : Side} {b : UInt8} {rest : List UInt8}
    (hchose : (({ t a with receive := rest } : Seat).answer b).gameState = .choosingPlayer →
      chose a)
    (hstate : ∀ e, (t e).gameState = .waiting) (hin : incoming t a = [vmConnected])
    (hother : incoming t a.other = [] ∨ incoming t a.other = [vmConnected])
    (hb : (t a).receive = b :: rest) :
    Meeting chose (Function.update t a (({ t a with receive := rest } : Seat).answer b)) := by
  rw [Handshake.incoming_cons hb] at hin
  obtain ⟨rfl, hnil⟩ := List.cons.inj hin
  have hanswer : ({ t a with receive := rest } : Seat).answer vmConnected =
      { t a with
        receive := rest
        gameState := .choosingPlayer
        transmit := enqueue (t a).transmit receiveVmConnected } := by
    rw [Seat.answer, if_pos rfl]
  rw [hanswer] at hchose ⊢
  have hsent : incoming (Function.update t a { t a with
      receive := rest
      gameState := .choosingPlayer
      transmit := enqueue (t a).transmit receiveVmConnected }) a.other =
      incoming t a.other ++ [receiveVmConnected] := by
    -- one byte at most is on its way, so the answer is not dropped
    have hroom : (t a).transmit.length < 10 := by
      have hlen : (incoming t a.other).length ≤ 1 := by
        obtain hi | hi := hother <;> simp [hi]
      simp only [incoming, Side.other_other, List.length_append] at hlen
      omega
    rw [incoming_update_other, enqueue, if_pos hroom]
    simp [incoming]
  refine .ahead a (hchose rfl) ?_ (.inl ⟨?_, ?_⟩)
  · exact .inl (by simp)
  · simpa using hstate a.other
  · rw [hsent]
    obtain hi | hi := hother
    · right
      rw [hi]
      exact List.prefix_rfl
    · left
      rw [hi]
      exact List.prefix_rfl

/-- `waiting_ih` reads a byte. -/
theorem wait (h : Meeting chose t) {e : Side} {b : UInt8} {rest : List UInt8}
    (hs : (t e).gameState = .waiting) (hb : (t e).receive = b :: rest)
    (hchose : (({ t e with receive := rest } : Seat).answer b).gameState = .choosingPlayer →
      chose e) :
    Meeting chose (Function.update t e (({ t e with receive := rest } : Seat).answer b)) := by
  have hin := Handshake.incoming_cons hb
  cases h with
  | start hstate => simp [hstate] at hs
  | called a ha hf hi hquiet =>
    obtain rfl | rfl := a.eq_or_eq_other e
    · simp [hin] at hquiet
    · simp [hf] at hs
  | paired a hstate hi hother =>
    obtain rfl | rfl := a.eq_or_eq_other e
    · exact wait_paired hchose hstate hi hother hb
    · obtain hnil | hone := hother
      · simp [hin] at hnil
      · refine wait_paired hchose hstate hone (.inr ?_) hb
        rwa [Side.other_other]
  | ahead a hc ha hf =>
    obtain rfl | rfl := a.eq_or_eq_other e
    · obtain hg | hg | hg := ha <;> simp [hg] at hs
    · obtain ⟨-, hp | hp⟩ | hg := hf
      · -- the `VM_CONNECTED` that crossed: both ends choose
        rw [hin] at hp
        obtain rfl : vmConnected = b := (List.cons_prefix_cons.mp hp).1
        refine .met fun f => ?_
        obtain rfl | rfl := a.eq_or_eq_other f
        · simpa using ha
        · exact .inl (by simp [Seat.answer])
      · rw [hin] at hp
        obtain rfl : receiveVmConnected = b := (List.cons_prefix_cons.mp hp).1
        have hanswer : ({ t a.other with receive := rest } : Seat).answer receiveVmConnected =
            { t a.other with receive := rest, gameState := .waitChoosingPlayer } := by
          rw [Seat.answer, if_neg (by decide), if_pos rfl]
        rw [hanswer]
        exact .ahead a hc (by simpa using ha) (.inr (by simp))
      · simp [hg] at hs
  | met hstate => obtain hg | hg | hg := hstate e <;> simp [hg] at hs

/-- An end that is choosing, or in the game, goes on: what it sends is behind the handshake. -/
theorem goes_on (h : Meeting chose t) {e : Side} (hs : HasMet (t e).gameState) {s' : Seat}
    (hs' : HasMet s'.gameState) (hsent : (t e).transmit <+: s'.transmit) :
    Meeting chose (Function.update t e s') := by
  cases h with
  | start hstate => obtain hg | hg | hg := hs <;> simp [hstate] at hg
  | called a ha hf =>
    obtain rfl | rfl := a.eq_or_eq_other e <;> obtain hg | hg | hg := hs <;> simp [ha, hf] at hg
  | paired a hstate => obtain hg | hg | hg := hs <;> simp [hstate] at hg
  | ahead a hc ha hf =>
    obtain rfl | rfl := a.eq_or_eq_other e
    · refine .ahead e hc (by simpa using hs') ?_
      have hprefix : incoming t e.other <+: incoming (Function.update t e s') e.other := by
        rw [incoming_update_other, incoming, Side.other_other]
        exact (List.prefix_append_right_inj _).mpr hsent
      rw [Function.update_of_ne (Side.other_ne e)]
      obtain ⟨hg, hp | hp⟩ | hg := hf
      · exact .inl ⟨hg, .inl (hp.trans hprefix)⟩
      · exact .inl ⟨hg, .inr (hp.trans hprefix)⟩
      · exact .inr hg
    · refine .met fun f => ?_
      obtain rfl | rfl := a.eq_or_eq_other f
      · simpa using ha
      · simpa using hs'
  | met hstate =>
    refine .met fun f => ?_
    obtain rfl | rfl := e.eq_or_eq_other f
    · simpa using hs'
    · simpa using hstate e.other

/-- `waiting_choosing_ih` reads a byte, and enters the game unless it is `0`. -/
theorem color (h : Meeting chose t) {e : Side} {b : UInt8} {rest : List UInt8}
    (hs : (t e).gameState = .waitChoosingPlayer) :
    Meeting chose (Function.update t e (({ t e with receive := rest } : Seat).enter b)) := by
  cases h with
  | start hstate => simp [hstate] at hs
  | called a ha hf => obtain rfl | rfl := a.eq_or_eq_other e <;> simp [ha, hf] at hs
  | paired a hstate => simp [hstate] at hs
  | ahead a hc ha hf =>
    obtain rfl | rfl := a.eq_or_eq_other e
    · obtain hg | hg | hg := ha <;> simp [hg] at hs
    -- `0` stands for an empty queue, and the end waits on
    · by_cases hb : b = 0
      · rw [Seat.enter, if_pos hb]
        exact .ahead a hc (by simpa using ha) (.inr (by simpa using hs))
      · rw [Seat.enter, if_neg hb]
        refine .met fun f => ?_
        obtain rfl | rfl := a.eq_or_eq_other f
        · simpa using ha
        · exact .inr (.inl (by simp))
  | met hstate => obtain hg | hg | hg := hstate e <;> simp [hg] at hs

/-- An event in the menus. -/
theorem menu {k : ℕ} {e : Side} {s s' : Seat} (hev : Seat.MenuEvent k s s') (h : Meeting chose t)
    (hs : t e = s) (hchose : s'.gameState = .choosingPlayer → chose e) :
    Meeting chose (Function.update t e s') := by
  induction hev generalizing t with
  | idle s =>
    subst hs
    rwa [Function.update_eq_self]
  | connect s hstart =>
    subst hs
    exact h.connect hstart
  | wait s b rest hwait hb =>
    subst hs
    exact h.wait hwait hb hchose
  | choose s p hchoosing =>
    subst hs
    -- the color is queued behind the answer
    exact h.goes_on (.inl hchoosing) (.inr (.inl rfl)) (prefix_enqueue _ _)
  | color s b rest hcolor =>
    subst hs
    exact h.color hcolor
  | fetch s s' b rest hwait hb _ ih =>
    subst hs
    have := ih (h.read hb) (Function.update_self ..) hchose
    rwa [Function.update_idem] at this

/-- A step of the game or of the serial port. -/
theorem step (h : Meeting chose t) {l : Option (Side × ℤ × ℤ)} (hs : Table.Step t l t') :
    Meeting chose t' := by
  cases hs with
  | idle => exact h
  | write f b rest hb => exact h.write hb
  | read f b rest hb => exact h.read hb
  | event f l s hplay hevent =>
    exact h.goes_on (.inr (.inl hplay)) (.inr (hevent.gameState (.inl hplay)))
      hevent.transmit_prefix

end Meeting

/-! ## Runs from the menus -/

/-- The invariant of two instances from their start on, in every run. -/
structure InMeeting (d : Display) (chose : Side → Prop) (s : System) : Prop where
  ready : ∀ f, Ready d (s f).vm
  menu : ∀ f, (table d s f).gameState ≠ .playing → (table d s f).gameState ≠ .exit →
    (table d s f).dragging = none
  turn : ∀ f p, (table d s f).dragging = some p → (table d s f).myTurn = true
  phase : Meeting chose (table d s)

/-- **Every step keeps the invariant.** -/
theorem InMeeting.step {d : Display} {chose chose' : Side → Prop} {s : System}
    (h : InMeeting d chose s) (a : Side × Action) (hmono : ∀ e, chose e → chose' e)
    (hchose : ∀ e, (System.step d s a e).vm.gameState = .choosingPlayer → chose' e) :
    InMeeting d chose' (System.step d s a) := by
  obtain ⟨hready, ⟨l, hstep⟩ | ⟨k, event, r, -, hplay, hexit, htable, hevent, -⟩⟩ :=
    System.step_cases h.ready a fun p hp => by
      simpa [table] using h.turn a.1 p (by simpa [table] using hp)
  · refine ⟨hready, fun f hp hx => ?_, fun f p hp => ?_, (h.phase.step hstep).mono hmono⟩
    · have hmenu : ¬((table d s f).gameState = .playing ∨ (table d s f).gameState = .exit) :=
        fun hg => (hstep.gameState hg).elim hp hx
      rw [not_or] at hmenu
      rw [(hstep.menu hmenu.1).2]
      exact h.menu f hmenu.1 hmenu.2
    · exact hstep.turn_of_dragging h.turn f p hp
  · obtain ⟨e, act⟩ := a
    have hnone : (table d s e).dragging = none :=
      h.menu e (by simpa [table] using hplay) (by simpa [table] using hexit)
    have hdragging : r.dragging = none := hevent.frame.2.1.trans hnone
    refine ⟨hready, fun f hp hx => ?_, fun f p hp => ?_, ?_⟩
    · rw [htable] at hp hx ⊢
      obtain rfl | rfl := e.eq_or_eq_other f
      · rwa [Function.update_self]
      · rw [Function.update_of_ne (Side.other_ne e)] at hp hx ⊢
        exact h.menu e.other hp hx
    · rw [htable] at hp ⊢
      obtain rfl | rfl := e.eq_or_eq_other f
      · rw [Function.update_self, hdragging] at hp
        exact absurd hp (by simp)
      · rw [Function.update_of_ne (Side.other_ne e)] at hp ⊢
        exact h.turn e.other p hp
    · rw [htable]
      refine Meeting.menu hevent (h.phase.mono hmono) rfl fun hg => hchose e ?_
      have hr : table d (System.step d s (e, act)) e = r := by rw [htable, Function.update_self]
      rw [← hr] at hg
      simpa [table] using hg

/-- The end `e` has been choosing in the run. -/
def HasChosen (d : Display) (s : System) (acts : List (Side × Action)) (e : Side) : Prop :=
  ∃ pre, pre <+: acts ∧ (run (System.step d) s pre e).vm.gameState = .choosingPlayer

/-- The invariant holds after every run. -/
theorem AtStart.inMeeting {d : Display} {s : System} (h : AtStart d s)
    (acts : List (Side × Action)) :
    InMeeting d (HasChosen d s acts) (run (System.step d) s acts) := by
  induction acts using List.reverseRecOn with
  | nil =>
    refine ⟨h.inLobby.ready, h.inLobby.menu, fun f p hp => ?_, ?_⟩
    · have hnone : (table d s f).dragging = none := by simpa [table] using (h.fresh f).dragging
      exact absurd (hnone.symm.trans hp) (by simp)
    · refine .start (fun e => by simpa [table] using h.start e) fun e => ?_
      simp [incoming, table, (h.fresh e).receive_nil, (h.fresh e).line_nil,
        (h.fresh e.other).transmit_nil]
  | append_singleton acts a ih =>
    -- the last step may be the one that makes an end a chooser
    rw [run_snoc (System.step d) s acts a]
    refine ih.step a ?_ fun e he => ?_
    · rintro e ⟨pre, hpre, he⟩
      exact ⟨pre, hpre.trans (List.prefix_append _ _), he⟩
    · exact ⟨acts ++ [a], List.prefix_rfl, by rwa [run_snoc (System.step d) s acts a]⟩

namespace Meeting

variable {chose : Side → Prop} {t : Table} (h : Meeting chose t)
include h

/-- Two ends that wait do not wait for nothing. -/
theorem unread_of_waiting (hstate : ∀ e, (t e).gameState = .waiting) :
    ∃ e, vmConnected ∈ incoming t e := by
  cases h with
  | start hs => exact absurd (hs .left) (by simp [hstate])
  | called a _ hf => simp [hstate] at hf
  | paired a _ hin => exact ⟨a, by simp [hin]⟩
  | ahead a _ ha => obtain hg | hg | hg := ha <;> simp [hstate] at hg
  | met hs => obtain hg | hg | hg := hs .left <;> simp [hstate] at hg

/-- An end that waits for its color waits for a chooser. -/
theorem chooser_of_waitChoosing {e : Side} (hstate : (t e).gameState = .waitChoosingPlayer) :
    chose e.other ∧ HasMet (t e.other).gameState := by
  cases h with
  | start hs => simp [hs] at hstate
  | called a ha hf => obtain rfl | rfl := a.eq_or_eq_other e <;> simp [ha, hf] at hstate
  | paired a hs => simp [hs] at hstate
  | ahead a hc ha =>
    obtain rfl | rfl := a.eq_or_eq_other e
    · obtain hg | hg | hg := ha <;> simp [hg] at hstate
    · rw [Side.other_other]
      exact ⟨hc, ha⟩
  | met hs => obtain hg | hg | hg := hs e <;> simp [hg] at hstate

/-- Behind a chooser, the end that waits has a byte to read. -/
theorem unread_of_choosing {e : Side} (hstate : (t e).gameState = .waiting)
    (hother : (t e.other).gameState = .choosingPlayer) :
    vmConnected ∈ incoming t e ∨ receiveVmConnected ∈ incoming t e := by
  cases h with
  | start hs => simp [hs] at hstate
  | called a ha hf =>
    obtain rfl | rfl := a.eq_or_eq_other e
    · simp [hf] at hother
    · simp [hf] at hstate
  | paired a hs => simp [hs] at hother
  | ahead a hc ha hf =>
    obtain rfl | rfl := a.eq_or_eq_other e
    · obtain hg | hg | hg := ha <;> simp [hg] at hstate
    · obtain ⟨-, hp | hp⟩ | hg := hf
      · exact .inl (hp.subset (by simp))
      · exact .inr (hp.subset (by simp))
      · simp [hg] at hstate
  | met hs => obtain hg | hg | hg := hs e <;> simp [hg] at hstate

end Meeting

/-- **The handshake cannot get stuck.** In every run of two instances from the start of their main
loops: two ends that are both in `WAITING` have a `VM_CONNECTED` to read between them; the two are
never both in `WAIT_CHOOSING_PLAYER`; where one is, the other is choosing or has chosen; and an
end in `WAITING` behind a chooser has a byte of the handshake to read. -/
theorem handshake_never_stuck {d : Display} {s : System} (h : AtStart d s)
    (acts : List (Side × Action)) :
    let s' := run (System.step d) s acts
    ((∀ e, (s' e).vm.gameState = .waiting) → ∃ e, vmConnected ∈ incoming (table d s') e) ∧
    ¬ (∀ e, (s' e).vm.gameState = .waitChoosingPlayer) ∧
    (∀ e, (s' e).vm.gameState = .waitChoosingPlayer →
      (s' e.other).vm.gameState = .choosingPlayer ∨
        HasChosen d s acts e.other ∧
          ((s' e.other).vm.gameState = .playing ∨ (s' e.other).vm.gameState = .exit)) ∧
    ∀ e, (s' e).vm.gameState = .waiting → (s' e.other).vm.gameState = .choosingPlayer →
      vmConnected ∈ incoming (table d s') e ∨ receiveVmConnected ∈ incoming (table d s') e := by
  intro s'
  -- everything is read off the phase that the run is in
  have hphase : Meeting (HasChosen d s acts) (table d s') := (h.inMeeting acts).phase
  have hstate : ∀ e, (table d s' e).gameState = (s' e).vm.gameState :=
    fun e => seat_gameState d _
  refine ⟨fun hs => ?_, fun hs => ?_, fun e he => ?_, fun e he hother => ?_⟩
  · exact hphase.unread_of_waiting fun e => (hstate e).trans (hs e)
  · obtain ⟨-, hg | hg | hg⟩ :=
      hphase.chooser_of_waitChoosing (e := .left) ((hstate .left).trans (hs .left))
    all_goals
      rw [hstate, hs] at hg
      simp at hg
  · obtain ⟨hchose, hg⟩ := hphase.chooser_of_waitChoosing ((hstate e).trans he)
    rw [hstate] at hg
    exact hg.imp id fun hgame => ⟨hchose, hgame⟩
  · exact hphase.unread_of_choosing ((hstate e).trans he) ((hstate e.other).trans hother)

/-- Both ends wait when the two `ENTER` have crossed. -/
theorem handshake_never_stuck_crossing :
    let d := Display.mode115 Images.blank
    let s := run (System.step d) startLobby (enterName .left 0 ++ enterName .right 0)
    (∀ e, (s e).vm.gameState = .waiting) ∧ ∃ e, vmConnected ∈ incoming (table d s) e := by
  intro d s
  have hwaiting : ∀ e, (s e).vm.gameState = .waiting := fun e => by cases e <;> rfl
  exact ⟨hwaiting, (handshake_never_stuck (atStart_startLobby d)
    (enterName .left 0 ++ enterName .right 0)).1 hwaiting⟩

end LCChess
