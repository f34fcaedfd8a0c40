import Mathlib.Data.List.Sort
import Mathlib.Data.Prod.Lex
import TorrentMq.Bytes.Reader

/-!
# Windows

Which windows a record of a stream belongs to, by its timestamp.
-/

set_option autoImplicit false

namespace TorrentMq.Streams

open Bytes List

inductive WindowType where
  | tumbling
  | hopping
  | sliding
  | session
deriving DecidableEq

/-- The division rounds towards zero, so below zero this is the start of the next window. -/
def floorToWindow (tsMs windowSizeMs : Int) : Int := tsMs.tdiv windowSizeMs * windowSizeMs

@[ext]
structure WindowKey where
  key : Bytes
  windowStart : Int
  windowEnd : Int
deriving DecidableEq

/-- Keys are compared first, then the starts and the ends. -/
instance : LinearOrder WindowKey :=
  LinearOrder.lift' (fun window => toLex (window.key, toLex (window.windowStart, window.windowEnd))) <| by
    intro left right same
    have keys := congrArg (fun pair => (ofLex pair).1) same
    have starts := congrArg (fun pair => (ofLex (ofLex pair).2).1) same
    have ends := congrArg (fun pair => (ofLex (ofLex pair).2).2) same
    exact WindowKey.ext keys starts ends

structure WindowConfig where
  type : WindowType := .tumbling
  windowSizeMs : Int := 60000
  advanceMs : Int := 60000
  sessionGapMs : Int := 30000

namespace WindowConfig

variable (config : WindowConfig) (key : Bytes) (timestampMs : Int)

def windowAt (start : Int) : WindowKey := ⟨key, start, start + config.windowSizeMs⟩

/-- The loop over window starts, from the last one down; it ends at a start later than the timestamp. -/
def hops (firstStart : Int) : (rounds i : Nat) → List WindowKey
  | 0, _ => []
  | rounds + 1, i =>
    let start := firstStart - i * config.advanceMs
    if start + config.windowSizeMs ≤ timestampMs then hops firstStart rounds (i + 1)
    else if timestampMs < start then []
    else config.windowAt key start :: hops firstStart rounds (i + 1)

def computeWindows : List WindowKey :=
  match config.type with
  | .tumbling => [config.windowAt key (floorToWindow timestampMs config.windowSizeMs)]
  | .hopping =>
    let firstStart := floorToWindow timestampMs config.advanceMs
    let numWindows := (config.windowSizeMs + config.advanceMs - 1).tdiv config.advanceMs
    (config.hops key timestampMs firstStart numWindows.toNat 0).insertionSort (· ≤ ·)
  | .sliding => [⟨key, 0, 0⟩]
  | .session => [⟨key, timestampMs, timestampMs + config.sessionGapMs⟩]

/-- A window that begins at a multiple of the step and holds the timestamp. -/
def Holds (step : Int) (window : WindowKey) : Prop :=
  step ∣ window.windowStart ∧ window.windowStart ≤ timestampMs ∧ timestampMs < window.windowStart + config.windowSizeMs ∧
    window = config.windowAt key window.windowStart

/-- A record belongs to the one tumbling window that holds its timestamp, or to all the hopping ones
that do, which are listed once each in the order of their starts. -/
def Exact : Prop :=
  match config.type with
  | .tumbling => ∃ window, config.Holds key timestampMs config.windowSizeMs window ∧
      config.computeWindows key timestampMs = [window]
  | .hopping =>
    (config.computeWindows key timestampMs).Pairwise (fun left right => left.windowStart < right.windowStart) ∧
      ∀ window, window ∈ config.computeWindows key timestampMs ↔ config.Holds key timestampMs config.advanceMs window
  | .sliding | .session => True

/-- The timestamp is not negative or begins a window, or it lies in a gap between hopping windows. -/
def Aligned : Prop :=
  match config.type with
  | .tumbling => 0 ≤ timestampMs ∨ config.windowSizeMs ∣ timestampMs
  | .hopping =>
    0 ≤ timestampMs ∨ config.advanceMs ∣ timestampMs ∨ config.windowSizeMs ≤ timestampMs % config.advanceMs
  | .sliding | .session => True

variable {config key timestampMs} {step : Int} {window : WindowKey}

theorem dvd_floorToWindow : step ∣ floorToWindow timestampMs step := Int.dvd_mul_left _ _

theorem floorToWindow_add_tmod : floorToWindow timestampMs step + timestampMs.tmod step = timestampMs :=
  Int.tdiv_mul_add_tmod timestampMs step

theorem floor_spec (positive : 1 ≤ step) (aligned : 0 ≤ timestampMs ∨ step ∣ timestampMs) :
    floorToWindow timestampMs step ≤ timestampMs ∧ timestampMs < floorToWindow timestampMs step + step := by
  have whole := @floorToWindow_add_tmod timestampMs step
  have below := Int.tmod_lt_of_pos timestampMs (show 0 < step by omega)
  rcases aligned with nonneg | divides
  · have rest := Int.tmod_nonneg step nonneg
    omega
  · have none := Int.tmod_eq_zero_of_dvd divides
    omega

theorem floor_above (negative : timestampMs < 0) (between : ¬ step ∣ timestampMs) :
    timestampMs < floorToWindow timestampMs step := by
  have whole := @floorToWindow_add_tmod timestampMs step
  have rest := Int.tmod_nonneg step (show 0 ≤ -timestampMs by omega)
  rw [Int.neg_tmod] at rest
  have some_rest : timestampMs.tmod step ≠ 0 := fun zero => between (Int.dvd_of_tmod_eq_zero zero)
  omega

theorem le_of_dvd_of_lt {left right : Int} (positive : 1 ≤ step) (first : step ∣ left) (second : step ∣ right)
    (below : left < right + step) : left ≤ right := by
  obtain ⟨m, rfl⟩ := first
  obtain ⟨n, rfl⟩ := second
  have less : step * m < step * (n + 1) := by rwa [Int.mul_add, Int.mul_one]
  have le : m ≤ n := Int.lt_add_one_iff.mp (Int.lt_of_mul_lt_mul_left less (by omega))
  exact Int.mul_le_mul_of_nonneg_left le (by omega)

theorem tumbling_iff (tumbling : config.type = .tumbling) (positive : 1 ≤ config.windowSizeMs) :
    config.Exact key timestampMs ↔ 0 ≤ timestampMs ∨ config.windowSizeMs ∣ timestampMs := by
  unfold Exact computeWindows
  simp only [tumbling]
  constructor
  · rintro ⟨window, ⟨-, start, -⟩, only⟩
    obtain rfl := singleton_inj.mp only
    by_contra unaligned
    obtain ⟨negative, between⟩ := not_or.mp unaligned
    exact absurd (floor_above (Int.not_le.mp negative) between) (Int.not_lt.mpr start)
  · intro aligned
    obtain ⟨start, inside⟩ := floor_spec positive aligned
    exact ⟨_, ⟨dvd_floorToWindow, start, inside, rfl⟩, rfl⟩

section Hops

variable {firstStart : Int} {rounds i : Nat}

section

variable (start : firstStart ≤ timestampMs) (positive : 1 ≤ config.advanceMs)

include start positive

theorem mem_hops :
    window ∈ config.hops key timestampMs firstStart rounds i ↔
      ∃ j, i ≤ j ∧ j < i + rounds ∧ window = config.windowAt key (firstStart - j * config.advanceMs) ∧
        timestampMs < firstStart - j * config.advanceMs + config.windowSizeMs := by
  induction rounds generalizing i with
  | zero =>
    constructor
    · nofun
    · rintro ⟨j, above, below, -⟩
      omega
  | succ rounds ih =>
    have back : 0 ≤ (i : Int) * config.advanceMs := Int.mul_nonneg (by omega) (by omega)
    have rest : (∃ j, i ≤ j ∧ j < i + (rounds + 1) ∧
        window = config.windowAt key (firstStart - j * config.advanceMs) ∧
        timestampMs < firstStart - j * config.advanceMs + config.windowSizeMs) ↔
        (window = config.windowAt key (firstStart - i * config.advanceMs) ∧
          timestampMs < firstStart - i * config.advanceMs + config.windowSizeMs) ∨
          window ∈ config.hops key timestampMs firstStart rounds (i + 1) := by
      rw [ih]
      constructor
      · rintro ⟨j, above, below, found⟩
        rcases Nat.eq_or_lt_of_le above with rfl | later
        · exact .inl found
        · exact .inr ⟨j, later, by omega, found⟩
      · rintro (found | ⟨j, above, below, found⟩)
        · exact ⟨i, le_refl i, by omega, found⟩
        · exact ⟨j, by omega, by omega, found⟩
    rw [rest, hops]
    split
    next passed => exact ⟨.inr, fun found => found.resolve_left fun this => absurd this.2 (Int.not_lt.mpr passed)⟩
    next inside =>
      rw [if_neg (by omega), mem_cons]
      exact or_congr_left ⟨fun same => ⟨same, Int.not_le.mp inside⟩, And.left⟩

theorem pairwise_hops :
    (config.hops key timestampMs firstStart rounds i).Pairwise
      (fun left right => right.windowStart < left.windowStart) := by
  induction rounds generalizing i with
  | zero => exact .nil
  | succ rounds ih =>
    rw [hops]
    split
    next => exact ih
    next =>
      split
      next => exact .nil
      next =>
        refine pairwise_cons.mpr ⟨fun window later => ?_, ih⟩
        obtain ⟨j, above, -, rfl, -⟩ := (mem_hops start positive).mp later
        have further : (i : Int) * config.advanceMs < j * config.advanceMs :=
          Int.mul_lt_mul_of_pos_right (by omega) (by omega)
        exact Int.sub_lt_sub_left further firstStart

end

end Hops

theorem exists_holds_iff (positive : 1 ≤ config.advanceMs) :
    (∃ window, config.Holds key timestampMs config.advanceMs window) ↔
      timestampMs % config.advanceMs < config.windowSizeMs := by
  have whole := Int.emod_add_mul_ediv timestampMs config.advanceMs
  have below := Int.emod_lt_of_pos timestampMs (show 0 < config.advanceMs by omega)
  have rest := Int.emod_nonneg timestampMs (show config.advanceMs ≠ 0 by omega)
  constructor
  · rintro ⟨window, divides, start, inside, -⟩
    have last := le_of_dvd_of_lt positive divides (Int.dvd_mul_right _ (timestampMs / config.advanceMs)) (by omega)
    omega
  · intro small
    exact ⟨config.windowAt key (config.advanceMs * (timestampMs / config.advanceMs)), Int.dvd_mul_right _ _,
      by simp only [windowAt]; omega, by simp only [windowAt]; omega, rfl⟩

theorem start_le {left right : WindowKey} (le : left ≤ right) (same : left.key = right.key) :
    left.windowStart ≤ right.windowStart := by
  rcases Prod.Lex.le_iff.mp le with less | ⟨-, rest⟩
  · exact absurd same less.ne
  · rcases Prod.Lex.le_iff.mp rest with less | ⟨same, -⟩
    · exact less.le
    · exact same.le

section

variable (size : 1 ≤ config.windowSizeMs) (positive : 1 ≤ config.advanceMs)

include size positive

theorem mem_hops_iff_holds
    (aligned : 0 ≤ timestampMs ∨ config.advanceMs ∣ timestampMs) :
    window ∈ config.hops key timestampMs (floorToWindow timestampMs config.advanceMs)
        ((config.windowSizeMs + config.advanceMs - 1).tdiv config.advanceMs).toNat 0 ↔
      config.Holds key timestampMs config.advanceMs window := by
  obtain ⟨start, inside⟩ := floor_spec positive aligned
  rw [mem_hops start positive]
  constructor
  · rintro ⟨j, -, -, rfl, within⟩
    have back : 0 ≤ (j : Int) * config.advanceMs := Int.mul_nonneg (by omega) (by omega)
    exact ⟨Int.dvd_sub dvd_floorToWindow (Int.dvd_mul_left _ _), by simp only [windowAt]; omega, within, rfl⟩
  · rintro ⟨divides, before, within, form⟩
    have floor := @dvd_floorToWindow timestampMs config.advanceMs
    have below := le_of_dvd_of_lt positive divides floor (by omega)
    obtain ⟨m, apart⟩ := Int.dvd_sub floor divides
    have nonneg : 0 ≤ m := Int.nonneg_of_mul_nonneg_right (show 0 ≤ config.advanceMs * m by omega) (by omega)
    have few : m + 1 ≤ (config.windowSizeMs + config.advanceMs - 1).tdiv config.advanceMs := by
      rw [Int.tdiv_eq_ediv_of_nonneg (by omega), Int.le_ediv_iff_mul_le (by omega), Int.add_mul, Int.mul_comm m]
      omega
    have place : floorToWindow timestampMs config.advanceMs - (m.toNat : Int) * config.advanceMs =
        window.windowStart := by
      rw [Int.toNat_of_nonneg nonneg, Int.mul_comm]
      omega
    exact ⟨m.toNat, Nat.zero_le _, by omega, by rw [place]; exact form, by rw [place]; exact within⟩

theorem hops_eq_nil (negative : timestampMs < 0)
    (between : ¬ config.advanceMs ∣ timestampMs) :
    config.hops key timestampMs (floorToWindow timestampMs config.advanceMs)
      ((config.windowSizeMs + config.advanceMs - 1).tdiv config.advanceMs).toNat 0 = [] := by
  have above := floor_above negative between
  have some_round : 1 ≤ (config.windowSizeMs + config.advanceMs - 1).tdiv config.advanceMs := by
    rw [Int.tdiv_eq_ediv_of_nonneg (by omega), Int.le_ediv_iff_mul_le (by omega)]
    omega
  obtain ⟨rounds, more⟩ : ∃ rounds,
      ((config.windowSizeMs + config.advanceMs - 1).tdiv config.advanceMs).toNat = rounds + 1 :=
    Nat.exists_eq_add_one_of_ne_zero (by omega)
  rw [more, hops, if_neg (by omega), if_pos (by omega)]

end

theorem pairwise_sorted {firstStart : Int} {rounds : Nat} (start : firstStart ≤ timestampMs)
    (positive : 1 ≤ config.advanceMs) :
    ((config.hops key timestampMs firstStart rounds 0).insertionSort (· ≤ ·)).Pairwise
      (fun left right => left.windowStart < right.windowStart) := by
  have distinct : ((config.hops key timestampMs firstStart rounds 0).insertionSort (· ≤ ·)).Pairwise
      (fun left right => left.windowStart ≠ right.windowStart) :=
    ((perm_insertionSort _ _).pairwise_iff Ne.symm).mpr ((pairwise_hops start positive).imp ne_of_gt)
  refine ((pairwise_insertionSort (· ≤ ·) _).and distinct).imp_of_mem ?_
  rintro left right first second ⟨le, apart⟩
  obtain ⟨_, -, -, rfl, -⟩ := (mem_hops start positive).mp ((mem_insertionSort _).mp first)
  obtain ⟨_, -, -, rfl, -⟩ := (mem_hops start positive).mp ((mem_insertionSort _).mp second)
  exact lt_of_le_of_ne (start_le le rfl) apart

theorem hopping_iff (hopping : config.type = .hopping) (size : 1 ≤ config.windowSizeMs)
    (positive : 1 ≤ config.advanceMs) :
    config.Exact key timestampMs ↔ 0 ≤ timestampMs ∨ config.advanceMs ∣ timestampMs ∨
      config.windowSizeMs ≤ timestampMs % config.advanceMs := by
  unfold Exact computeWindows
  simp only [hopping, mem_insertionSort]
  by_cases aligned : 0 ≤ timestampMs ∨ config.advanceMs ∣ timestampMs
  · exact iff_of_true
      ⟨pairwise_sorted (floor_spec positive aligned).1 positive, fun _ => mem_hops_iff_holds size positive aligned⟩
      (or_assoc.mp (.inl aligned))
  · obtain ⟨negative, between⟩ := not_or.mp aligned
    rw [hops_eq_nil size positive (Int.not_le.mp negative) between, ← or_assoc, or_iff_right aligned,
      ← Int.not_lt, ← @exists_holds_iff config key timestampMs positive]
    constructor
    · rintro ⟨-, listed⟩ ⟨window, holds⟩
      cases (listed window).mpr holds
    · intro gap
      exact ⟨.nil, fun window => iff_of_false not_mem_nil fun holds => gap ⟨window, holds⟩⟩

/-- A record is put into exactly the windows that hold its timestamp, if and only if its timestamp is one that
rounding towards zero does not move past the start of its window. -/
theorem exact_iff_aligned (config : WindowConfig) (key : Bytes) (timestampMs : Int)
    (size : 1 ≤ config.windowSizeMs) (advance : 1 ≤ config.advanceMs) :
    config.Exact key timestampMs ↔ config.Aligned timestampMs := by
  unfold Aligned
  split
  next tumbling => exact tumbling_iff tumbling size
  next hopping => exact hopping_iff hopping size advance
  all_goals
    next other =>
      unfold Exact
      rw [other]

theorem exact_negative_start :
    ({ type := .hopping, windowSizeMs := 25, advanceMs := 10 } : WindowConfig).Exact [107] (-20) :=
  (exact_iff_aligned _ [107] (-20) (by decide) (by decide)).mpr (.inr (.inl (by decide)))

theorem not_exact_negative :
    ¬({ windowSizeMs := 10 } : WindowConfig).Exact [107] (-5) ∧
      ¬({ type := .hopping, windowSizeMs := 10, advanceMs := 5 } : WindowConfig).Exact [107] (-4) := by
  constructor
  · rintro ⟨window, ⟨-, start, -⟩, only⟩
    obtain rfl := singleton_inj.mp only
    exact absurd start (by decide)
  · rintro ⟨-, listed⟩
    cases (listed ⟨[107], -10, 0⟩).mpr ⟨by decide, by decide, by decide, rfl⟩

end WindowConfig

end TorrentMq.Streams
