import LCChess.Game.PossiblePosition

/-!
# The cells `possiblePosition` reads

The indices of `board->board` that each branch of `possiblePosition` evaluates. The loops of the
rook stop at the edge, and the edge guards of the pawns are evaluated before their diagonals are
read. The diagonal loop reads all four directions at every distance, whatever its flags say, and
a pawn reads the cells in front of it without a guard.

## Main definitions

* `possibleReads`: the indices that are read
* `ReadsInside`: when they all lie in the array

## Main results

* `possiblePosition_congr_reads`: the highlights depend on no other cell
* `possibleReads_inside_iff`: when every index lies in `0 … 63`
-/

namespace LCChess

open Loop (forLoop)

section Reads

variable (board : ℤ → Option PieceRef)

/-- The pawn branches. The second square in front is read only when the first one is empty. -/
def pawnReads (dy : ℤ) (inside : Bool) (x y : ℤ) : List ℤ :=
  (if inside && x < 7 then [(y + dy) * 8 + x + 1] else []) ++
    ((if inside && 0 < x then [(y + dy) * 8 + x - 1] else []) ++
      [(y + dy) * 8 + x] ++
        -- without an edge guard
        if board ((y + dy) * 8 + x) = none then [(y + 2 * dy) * 8 + x] else [])

/-- A rank or file loop. -/
def slideReads (x y dx dy : ℤ) : ℕ → ℕ → List ℤ
  | 0, _ => []
  | n + 1, k =>
    let i := (y + k * dy) * 8 + (x + k * dx)
    -- the square of the piece itself is not looked at
    if k = 0 then slideReads x y dx dy n (k + 1)
    else if board i ≠ none then [i]
    else i :: slideReads x y dx dy n (k + 1)

/-- The four loops of the rook branch. -/
def rookReads (x y : ℤ) : List ℤ :=
  slideReads board x y 0 (-1) (y + 1).toNat 0 ++ (slideReads board x y 0 1 (8 - y).toNat 0 ++
    (slideReads board x y 1 0 (8 - x).toNat 0 ++ slideReads board x y (-1) 0 (x + 1).toNat 0))

/-- One iteration of the diagonal loop: the cells come before the flags in its conditions. -/
def diagonalReads (x y : ℤ) (i : ℕ) : List ℤ :=
  [(y + i * 1) * 8 + (x + i * 1), (y + i * -1) * 8 + (x + i * 1),
    (y + i * -1) * 8 + (x + i * -1), (y + i * 1) * 8 + (x + i * -1)]

/-- The diagonal loop. -/
def diagonalsReads (x y : ℤ) : List ℤ := (List.range' 1 7).flatMap (diagonalReads x y)

/-- The indices at which `possiblePosition` reads `board->board`. -/
def possibleReads (t : PieceType) (x y : ℤ) : List ℤ :=
  match t with
  | .bPawn => pawnReads board 1 (y < 7) x y
  | .wPawn => pawnReads board (-1) (0 < y) x y
  | .wKnight | .bKnight => []
  | .wKing | .bKing => []
  | .bRook | .wRook => rookReads board x y
  | .bBishop | .wBishop => diagonalsReads x y
  | .wQueen | .bQueen => diagonalsReads x y ++ rookReads board x y

/-- When every read stays inside the array: always for knight, king and rook, never for bishop
and queen, and for a pawn when it is not on its last row and, one row before it, is blocked. -/
def ReadsInside (t : PieceType) (x y : ℤ) : Prop :=
  match t with
  | .wKnight | .bKnight | .wKing | .bKing | .bRook | .wRook => True
  | .bBishop | .wBishop | .wQueen | .bQueen => False
  | .bPawn => y < 7 ∧ (y = 6 → board (56 + x) ≠ none)
  | .wPawn => 0 < y ∧ (y = 1 → board x ≠ none)

end Reads

/-! ## No other cell matters -/

section Congr

variable (g : Geometry) {board board' : ℤ → Option PieceRef} {x y : ℤ}

theorem holds_congr {heap : Heap} {enemy : PieceType → Bool} {i : ℤ} (h : board i = board' i) :
    holds board heap enemy i = holds board' heap enemy i := by
  unfold holds
  rw [h]

theorem pawnPositions_congr_reads {heap : Heap} {dy : ℤ} {inside : Bool}
    {enemy : PieceType → Bool} (moved : Bool) (m : Memory)
    (h : ∀ i ∈ pawnReads board dy inside x y, board i = board' i) :
    pawnPositions g board heap dy inside enemy moved x y m =
      pawnPositions g board' heap dy inside enemy moved x y m := by
  simp only [pawnReads, List.forall_mem_append, List.forall_mem_cons] at h
  obtain ⟨hright, ⟨hleft, hfront, -⟩, hdouble⟩ := h
  have hr : (inside && decide (x < 7) && holds board heap enemy ((y + dy) * 8 + x + 1)) =
      (inside && decide (x < 7) && holds board' heap enemy ((y + dy) * 8 + x + 1)) := by
    -- a read behind a guard matters only when the guard holds
    cases hguard : inside && decide (x < 7) with
    | false => rfl
    | true => rw [holds_congr (hright _ (by simp [hguard]))]
  have hl : (inside && decide (0 < x) && holds board heap enemy ((y + dy) * 8 + x - 1)) =
      (inside && decide (0 < x) && holds board' heap enemy ((y + dy) * 8 + x - 1)) := by
    cases hguard : inside && decide (0 < x) with
    | false => rfl
    | true => rw [holds_congr (hleft _ (by simp [hguard]))]
  simp only [pawnPositions, hr, hl, ← hfront]
  by_cases hnone : board ((y + dy) * 8 + x) = none
  · rw [hdouble ((y + 2 * dy) * 8 + x) (by simp [hnone])]
  · rw [if_neg hnone, if_neg hnone]

theorem slide_congr_reads {dx dy : ℤ} {n k : ℕ} (m : Memory)
    (h : ∀ i ∈ slideReads board x y dx dy n k, board i = board' i) :
    slide g board x y dx dy n k m = slide g board' x y dx dy n k m := by
  -- both loops stop at the same step, as they read the same cells
  induction n generalizing k m with
  | zero => rfl
  | succ n ih =>
    simp only [slideReads] at h
    simp only [slide]
    split_ifs at h with hk hpiece
    · simp only [hk, ne_eq, not_true_eq_false, false_and, if_false]
      exact ih _ (hk ▸ h)
    · rw [← h _ List.mem_cons_self, if_pos ⟨hk, hpiece⟩, if_pos ⟨hk, hpiece⟩]
    · obtain ⟨hcell, hrest⟩ := List.forall_mem_cons.mp h
      rw [← hcell, if_neg (fun hstop => hpiece hstop.2), if_neg (fun hstop => hpiece hstop.2)]
      exact ih _ hrest

theorem rookPositions_congr_reads (m : Memory)
    (h : ∀ i ∈ rookReads board x y, board i = board' i) :
    rookPositions g board x y m = rookPositions g board' x y m := by
  simp only [rookReads, List.forall_mem_append] at h
  obtain ⟨hup, hdown, hright, hleft⟩ := h
  simp only [rookPositions]
  rw [slide_congr_reads g m hup, slide_congr_reads g _ hdown, slide_congr_reads g _ hright,
    slide_congr_reads g _ hleft]

theorem diagonalsBody_congr_reads {i : ℕ} (s : (Bool × Bool × Bool × Bool) × Memory)
    (h : ∀ j ∈ diagonalReads x y i, board j = board' j) :
    diagonalsBody g board x y i s = diagonalsBody g board' x y i s := by
  simp only [diagonalReads, List.forall_mem_cons] at h
  obtain ⟨hone, htwo, hthree, hfour, -⟩ := h
  simp only [diagonalsBody, diagonalStep, hone, htwo, hthree, hfour]

theorem diagonals_congr_reads (m : Memory)
    (h : ∀ i ∈ diagonalsReads x y, board i = board' i) :
    diagonals g board x y m = diagonals g board' x y m := by
  have hbody : ∀ i, 1 ≤ i → i < 8 → ∀ s,
      diagonalsBody g board x y i s = diagonalsBody g board' x y i s := by
    intro i hi hi' s
    refine diagonalsBody_congr_reads g s fun j hj => h j ?_
    exact List.mem_flatMap.mpr ⟨i, List.mem_range'_1.mpr ⟨hi, hi'⟩, hj⟩
  unfold diagonals
  rw [Loop.forLoop_congr hbody]

/-- **The highlights depend on the cells that are read**, and on no other. -/
theorem possiblePosition_congr_reads {heap : Heap} {piece : Piece} (m : Memory)
    (h : ∀ i ∈ possibleReads board piece.type x y, board i = board' i) :
    possiblePosition g board heap piece x y m = possiblePosition g board' heap piece x y m := by
  unfold possiblePosition
  unfold possibleReads at h
  cases htype : piece.type <;> simp only [htype] at h ⊢
  case bPawn => exact pawnPositions_congr_reads g _ m h
  case wPawn => exact pawnPositions_congr_reads g _ m h
  case bRook | wRook => exact rookPositions_congr_reads g m h
  case bBishop | wBishop => exact diagonals_congr_reads g m h
  case bQueen | wQueen =>
    obtain ⟨hdiagonals, hrook⟩ := List.forall_mem_append.mp h
    rw [diagonals_congr_reads g m hdiagonals, rookPositions_congr_reads g _ hrook]

end Congr

/-! ## The bounds -/

section Bounds

variable (board : ℤ → Option PieceRef) {x y : ℤ}

/-- A rank or file loop reads squares of the board. -/
theorem slideReads_inside {dx dy : ℤ} {n k : ℕ}
    (hin : ∀ j : ℕ, k ≤ j → j < k + n → OnBoard (x + j * dx) (y + j * dy)) :
    ∀ i ∈ slideReads board x y dx dy n k, 0 ≤ i ∧ i < 64 := by
  induction n generalizing k with
  | zero => exact fun i hi => absurd hi List.not_mem_nil
  | succ n ih =>
    have hrest : ∀ i ∈ slideReads board x y dx dy n (k + 1), 0 ≤ i ∧ i < 64 :=
      ih fun j hj hj' => hin j (by omega) (by omega)
    obtain ⟨hy, hy', hx, hx'⟩ := hin k le_rfl (by omega)
    intro i hi
    simp only [slideReads] at hi
    split_ifs at hi
    · exact hrest i hi
    · rcases List.mem_cons.mp hi with rfl | hi
      · omega
      · exact absurd hi List.not_mem_nil
    · rcases List.mem_cons.mp hi with rfl | hi
      · omega
      · exact hrest i hi

theorem rookReads_inside (h : OnBoard x y) : ∀ i ∈ rookReads board x y, 0 ≤ i ∧ i < 64 := by
  obtain ⟨hy, hy', hx, hx'⟩ := h
  simp only [rookReads, List.forall_mem_append]
  refine ⟨slideReads_inside board ?_, slideReads_inside board ?_, slideReads_inside board ?_,
    slideReads_inside board ?_⟩
  all_goals
    intro j hj hj'
    exact ⟨by omega, by omega, by omega, by omega⟩

/-- At distance seven one of the four diagonals has left the array. -/
theorem diagonalsReads_outside (h : OnBoard x y) :
    ¬ ∀ i ∈ diagonalsReads x y, 0 ≤ i ∧ i < 64 := by
  obtain ⟨hy, hy', hx, hx'⟩ := h
  intro hall
  -- the last cells of two opposite diagonals are more than 64 apart
  have hmem : (y + (7 : ℕ) * -1) * 8 + (x + (7 : ℕ) * -1) ∈ diagonalsReads x y :=
    List.mem_flatMap.mpr ⟨7, by decide, by simp [diagonalReads]⟩
  have hmem' : (y + (7 : ℕ) * 1) * 8 + (x + (7 : ℕ) * 1) ∈ diagonalsReads x y :=
    List.mem_flatMap.mpr ⟨7, by decide, by simp [diagonalReads]⟩
  have hlow := (hall _ hmem).1
  have hhigh := (hall _ hmem').2
  omega

/-- A pawn reads the two cells in front of it, the second one when the first is empty. -/
theorem pawnReads_inside_iff {dy : ℤ} {inside : Bool}
    (hinside : inside = true ↔ 0 ≤ y + dy ∧ y + dy < 8) (h : OnBoard x y) :
    (∀ i ∈ pawnReads board dy inside x y, 0 ≤ i ∧ i < 64) ↔
      inside = true ∧ (board ((y + dy) * 8 + x) = none → 0 ≤ y + 2 * dy ∧ y + 2 * dy < 8) := by
  obtain ⟨hy, hy', hx, hx'⟩ := h
  simp only [pawnReads, List.forall_mem_append, List.forall_mem_cons]
  constructor
  · rintro ⟨-, ⟨-, hfront, -⟩, hdouble⟩
    -- the cell in front is read without a guard, so that it decides about the row
    refine ⟨hinside.mpr (by omega), fun hnone => ?_⟩
    have hread := hdouble ((y + 2 * dy) * 8 + x) (by simp [hnone])
    omega
  · rintro ⟨hin, hdouble⟩
    -- the two diagonals are guarded, so that they stay inside with the cell in front
    have hrow := hinside.mp hin
    refine ⟨fun i hi => ?_, ⟨fun i hi => ?_, by omega, by simp⟩, fun i hi => ?_⟩
    · split_ifs at hi with hguard
      · rw [List.mem_singleton] at hi
        simp only [hin, Bool.true_and, decide_eq_true_eq] at hguard
        omega
      · exact absurd hi List.not_mem_nil
    · split_ifs at hi with hguard
      · rw [List.mem_singleton] at hi
        simp only [hin, Bool.true_and, decide_eq_true_eq] at hguard
        omega
      · exact absurd hi List.not_mem_nil
    · split_ifs at hi with hnone
      · rw [List.mem_singleton] at hi
        have := hdouble hnone
        omega
      · exact absurd hi List.not_mem_nil

/-- **The reads stay inside the array** for knight, king and rook, never for bishop and queen,
and for a pawn that is not on its last row and is blocked when it stands one row before it. -/
theorem possibleReads_inside_iff (t : PieceType) (h : OnBoard x y) :
    (∀ i ∈ possibleReads board t x y, 0 ≤ i ∧ i < 64) ↔ ReadsInside board t x y := by
  obtain ⟨hy, hy', hx, hx'⟩ := id h
  unfold possibleReads ReadsInside
  cases t with
  | wKnight | bKnight | wKing | bKing =>
    exact iff_of_true (fun i hi => absurd hi List.not_mem_nil) trivial
  | bRook | wRook => exact iff_of_true (rookReads_inside board h) trivial
  | bBishop | wBishop => exact iff_of_false (diagonalsReads_outside h) id
  | bQueen | wQueen =>
    -- the reads of a queen contain those of a bishop
    refine iff_of_false (fun hall => diagonalsReads_outside h fun i hi => ?_) id
    exact hall i (List.mem_append_left _ hi)
  | bPawn =>
    refine (pawnReads_inside_iff board (by rw [decide_eq_true_eq]; omega) h).trans ?_
    rw [decide_eq_true_eq]
    refine and_congr_right fun hlast => ?_
    -- the cell two rows ahead exists but for a pawn one row before the last
    by_cases h6 : y = 6
    · have hcell : (y + 1) * 8 + x = 56 + x := by omega
      rw [hcell]
      constructor
      · intro hread _ hnone
        have := hread hnone
        omega
      · intro hblocked hnone
        exact absurd hnone (hblocked h6)
    · exact iff_of_true (fun _ => by omega) fun he => absurd he h6
  | wPawn =>
    refine (pawnReads_inside_iff board (by rw [decide_eq_true_eq]; omega) h).trans ?_
    rw [decide_eq_true_eq]
    refine and_congr_right fun hfirst => ?_
    by_cases h1 : y = 1
    · have hcell : (y + -1) * 8 + x = x := by omega
      rw [hcell]
      constructor
      · intro hread _ hnone
        have := hread hnone
        omega
      · intro hblocked hnone
        exact absurd hnone (hblocked h1)
    · exact iff_of_true (fun _ => by omega) fun he => absurd he h1

/-- A rook in the middle of the empty board. -/
theorem possibleReads_inside_rook :
    OnBoard 3 4 ∧ ∀ i ∈ possibleReads (fun _ => none) .wRook 3 4, 0 ≤ i ∧ i < 64 :=
  ⟨by decide, (possibleReads_inside_iff (fun _ => none) .wRook (by decide)).mpr trivial⟩

/-- The bishop of the first row looks up its diagonals before the array: `(2, 0)` reads `-5`. -/
theorem possibleReads_bishop :
    OnBoard 2 0 ∧ ¬ ∀ i ∈ possibleReads (fun _ => none) .bBishop 2 0, 0 ≤ i ∧ i < 64 := by
  constructor <;> decide

end Bounds

end LCChess
