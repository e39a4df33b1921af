import WindowCast.Lib.Checked
import WindowCast.Lib.Ladder
import WindowCast.Host.Video

/-!
# Scaling a picture down

`scale_bgra` of `host-core/src/video.rs`: every pixel of the smaller picture is the mean of
the box of pixels it covers.  `none` is a panic: an index outside of its slice, a division
by zero, or a number too large for its type.  A product that is only used as an index is not
looked at twice, since no slice is as long as a `usize` is large.

## Main definitions

* `scaleBgra` — the picture, scaled down.
* `edges` — which places of the source one place of the target covers.
* `Exact` — the boxes tile the source, and the result is the mean of each of them.
* `Fits` — the products and the sums have the room they need.

## Main results

* `tiles` — every place of the source is in one box.
* `box_iff` — when the mean of a box comes out.
* `scaled_exactly_iff` — **a picture is scaled exactly if and only if the numbers fit.**
-/

namespace WindowCast.Host

namespace Video

open Buffer Checked

def USIZE : ℕ := 2 ^ 64

def U32 : ℕ := 2 ^ 32

/-- No buffer is longer. -/
def CAPACITY : ℕ := 2 ^ 63

/-! ### Scaling -/

def divided (a b : ℕ) : Option ℕ := if b = 0 then none else some (a / b)

/-- The source span that place `i` of `n` covers. -/
def span (i n size : ℕ) : Option (ℕ × ℕ) := do
  let product ← below USIZE (i * size)
  let start ← divided product n
  let next ← below USIZE ((i + 1) * size)
  -- at least one place, and none behind the last
  let after ← below USIZE (start + 1)
  return (start, min (max (next / n) after) size)

/-- One pixel, added to the sums. -/
def addPixel (bytes : List UInt8) (sum : List ℕ) (col : ℕ) : Option (List ℕ) :=
  collect (fun c => do
    let total ← sum[c]?
    let byte ← bytes[col * 4 + c]?
    below U32 (total + byte.toNat)) 4

/-- The sums of a box. -/
def accumulate (src : Bgra) (rows cols : ℕ × ℕ) : Option (List ℕ) :=
  (List.range' rows.1 (rows.2 - rows.1)).foldlM (fun sum row => do
    let bytes ← sliceFrom src.data (row * src.stride)
    (List.range' cols.1 (cols.2 - cols.1)).foldlM (addPixel bytes) sum) [0, 0, 0, 0]

def quotient (sum : List ℕ) (count c : ℕ) : Option UInt8 := do
  let total ← sum[c]?
  let mean ← divided total count
  return UInt8.ofNat mean

/-- Averages the source pixels each output pixel covers.  The count of a box is cut to 32 bits. -/
def scaleBgra (src : Bgra) (size : ℕ × ℕ) (out : List UInt8) : Option Bgra := do
  let (w, h) := size
  let length ← below CAPACITY (w * h * 4)
  let out := resize out length 0
  let columns ← collect (fun x => span x w src.width) w
  let out ← (List.range h).foldlM (fun out y => do
    let rows ← span y h src.height
    columns.zipIdx.foldlM (fun out column => do
      let sum ← accumulate src rows column.1
      let count ← below USIZE ((rows.2 - rows.1) * (column.1.2 - column.1.1))
      (List.range 4).foldlM (fun out c =>
        (quotient sum (count % U32) c).bind (put out ((y * w + column.2) * 4 + c))) out) out) out
  return ⟨out, w, h, w * 4⟩

/-! ### The boxes -/

def edges (i n size : ℕ) : ℕ × ℕ := (i * size / n, min (max ((i + 1) * size / n) (i * size / n + 1)) size)

variable {i n size : ℕ}

theorem divided_of_pos {a b : ℕ} (h : 0 < b) : divided a b = some (a / b) := if_neg (by omega)

theorem span_eq (hi : i < n) (hn : n ≤ size) (hfits : n * size < USIZE) : span i n size = some (edges i n size) := by
  have hnext : (i + 1) * size ≤ n * size := Nat.mul_le_mul_right size hi
  have hprod : i * size ≤ (i + 1) * size := Nat.mul_le_mul_right size (Nat.le_succ i)
  have hstart : i * size / n < size := by
    rw [Nat.div_lt_iff_lt_mul (by omega), Nat.mul_comm size n]
    exact Nat.mul_lt_mul_of_pos_right hi (by omega)
  have hsize : size ≤ n * size := Nat.le_mul_of_pos_left size (by omega)
  have hnext' : (i + 1) * size < USIZE := lt_of_le_of_lt hnext hfits
  rw [span, below_of_lt (by omega), below_of_lt hnext']
  simp only [Option.bind_eq_bind, Option.bind_some, divided_of_pos (show 0 < n by omega)]
  rw [below_of_lt (by omega)]
  rfl

/-- The last place needs the whole product. -/
theorem span_eq_none (hfits : USIZE ≤ (i + 1) * size) : span i (i + 1) size = none := by
  rw [span, below_of_le hfits]
  cases below USIZE (i * size) with
  | none => rfl
  | some product => cases divided product (i + 1) <;> rfl

theorem edges_eq (hi : i < n) (hn : n ≤ size) : edges i n size = (i * size / n, (i + 1) * size / n) := by
  have hstep : i * size / n + 1 ≤ (i + 1) * size / n := by
    rw [← Nat.add_div_right _ (by omega), Nat.succ_mul]
    exact Nat.div_le_div_right (Nat.add_le_add_left hn _)
  have hend : (i + 1) * size / n ≤ size := Nat.div_le_of_le_mul (Nat.mul_le_mul_right size hi)
  rw [edges, max_eq_left hstep, min_eq_left hend]

theorem edges_lt (hi : i < n) (hn : n ≤ size) : (edges i n size).1 < (edges i n size).2 := by
  rw [edges_eq hi hn]
  have hstep : i * size / n + 1 ≤ (i + 1) * size / n := by
    rw [← Nat.add_div_right _ (by omega), Nat.succ_mul]
    exact Nat.div_le_div_right (Nat.add_le_add_left hn _)
  exact hstep

theorem edges_le (i n size : ℕ) : (edges i n size).2 ≤ size := min_le_right _ _

/-- Every place of the source is in one box. -/
theorem tiles {place : ℕ} (hn : n ≤ size) (hpos : 0 < n) (hplace : place < size) :
    ∃! i, i < n ∧ (edges i n size).1 ≤ place ∧ place < (edges i n size).2 := by
  have hmono : Monotone fun i => i * size / n := fun i j h =>
    Nat.div_le_div_right (Nat.mul_le_mul_right size h)
  have hhigh : place < n * size / n := by rwa [Nat.mul_div_cancel_left size hpos]
  have hlow : 0 * size / n ≤ place := by
    rw [Nat.zero_mul, Nat.zero_div]
    exact Nat.zero_le place
  -- the boxes are the steps of a ladder from 0 to `size`
  obtain ⟨i, hi, hin⟩ := Ladder.exists_step (f := fun i => i * size / n) hlow hhigh
  refine ⟨i, ⟨hi, ?_⟩, ?_⟩
  · rw [edges_eq hi hn]
    exact hin
  · rintro j ⟨hj, hjn⟩
    rw [edges_eq hj hn] at hjn
    exact Ladder.step_unique hmono hjn hin

/-! ### What a box holds -/

/-- A channel of a pixel. -/
def channel (src : Bgra) (row col c : ℕ) : ℕ := (src.data.getD (row * src.stride + (col * 4 + c)) 0).toNat

/-- What the pixels of a box come to in a channel. -/
def boxSum (src : Bgra) (rows cols : ℕ × ℕ) (c : ℕ) : ℕ :=
  ∑ row ∈ Finset.Ico rows.1 rows.2, ∑ col ∈ Finset.Ico cols.1 cols.2, channel src row col c

/-- How many pixels a box holds. -/
def boxCount (rows cols : ℕ × ℕ) : ℕ := (rows.2 - rows.1) * (cols.2 - cols.1)

/-- The mean of a box in a channel, rounded down. -/
def mean (src : Bgra) (rows cols : ℕ × ℕ) (c : ℕ) : ℕ := boxSum src rows cols c / boxCount rows cols

variable {src : Bgra} {rows cols : ℕ × ℕ} {row col c : ℕ}

theorem boxSum_le (src : Bgra) (rows cols : ℕ × ℕ) (c : ℕ) : boxSum src rows cols c ≤ 255 * boxCount rows cols := by
  have hbyte (row col : ℕ) : channel src row col c ≤ 255 := Nat.le_of_lt_succ (UInt8.toNat_lt _)
  have hline (row : ℕ) : ∑ col ∈ Finset.Ico cols.1 cols.2, channel src row col c ≤ (cols.2 - cols.1) * 255 := by
    have h := Finset.sum_le_card_nsmul (Finset.Ico cols.1 cols.2) (fun col => channel src row col c) 255
      fun col _ => hbyte row col
    rwa [Nat.card_Ico, smul_eq_mul] at h
  have h := Finset.sum_le_card_nsmul (Finset.Ico rows.1 rows.2) _ _ fun row _ => hline row
  rw [Nat.card_Ico, smul_eq_mul, ← Nat.mul_assoc, Nat.mul_comm _ 255] at h
  exact h

/-- A pixel adds its channels. -/
theorem addPixel_totals (hheld : src.Held) (hrow : row < src.height) (hcol : col < src.width) (S : ℕ → ℕ) :
    ((totals U32 4 S).bind fun sum => addPixel (src.data.drop (row * src.stride)) sum col) =
      totals U32 4 (S + channel src row col) := by
  have hplace := hheld row hrow
  by_cases hS : ∀ c < 4, S c < U32
  · have hread (c : ℕ) (hc : c < 4) : (do
        let total ← ((List.range 4).map S)[c]?
        let byte ← (src.data.drop (row * src.stride))[col * 4 + c]?
        below U32 (total + byte.toNat)) = below U32 ((S + channel src row col) c) := by
      have hlt : row * src.stride + (col * 4 + c) < src.data.length := by omega
      have htotal : ((List.range 4).map S)[c]? = some (S c) := by
        rw [List.getElem?_map, List.getElem?_range hc]
        rfl
      rw [htotal, List.getElem?_drop, List.getElem?_eq_getElem hlt, Pi.add_apply, channel,
        List.getD_eq_getElem _ _ hlt]
      rfl
    rw [totals, if_pos hS, Option.bind_some, addPixel, ← collect_below]
    exact collect_congr hread
  · have hsum : ¬∀ c < 4, (S + channel src row col) c < U32 := fun h =>
      hS fun c hc => lt_of_le_of_lt (Nat.le_add_right _ _) (h c hc)
    rw [totals, if_neg hS, totals, if_neg hsum]
    rfl

/-- The sums of a box come out if they fit. -/
theorem accumulate_eq (hheld : src.Held) (hrows : rows.1 ≤ rows.2 ∧ rows.2 ≤ src.height)
    (hcols : cols.1 ≤ cols.2 ∧ cols.2 ≤ src.width) :
    accumulate src rows cols = totals U32 4 (boxSum src rows cols) := by
  have hline (row : ℕ) (hrow : row ∈ List.range' rows.1 (rows.2 - rows.1)) (S : ℕ → ℕ) :
      ((totals U32 4 S).bind fun sum => (sliceFrom src.data (row * src.stride)).bind fun bytes =>
        (List.range' cols.1 (cols.2 - cols.1)).foldlM (addPixel bytes) sum) =
        totals U32 4 (S + ∑ col ∈ Finset.Ico cols.1 cols.2, channel src row col) := by
    rw [List.mem_range'_1] at hrow
    have hlt : row < src.height := by omega
    have hplace := hheld row hlt
    rw [sliceFrom, if_pos (by omega)]
    simp only [Option.bind_some]
    rw [foldlM_sum (totals U32 4) (b := channel src row) (fun col hcol S => ?_) S, sum_range' _ _ _ hcols.1]
    rw [List.mem_range'_1] at hcol
    exact addPixel_totals hheld hlt (by omega) S
  have hzero : totals U32 4 0 = some [0, 0, 0, 0] := rfl
  have h := foldlM_sum (totals U32 4) hline 0
  rw [hzero, Option.bind_some, zero_add, sum_range' _ _ _ hrows.1] at h
  rw [accumulate]
  refine h.trans (congrArg _ (funext fun c => ?_))
  rw [boxSum, Finset.sum_apply]
  exact Finset.sum_congr rfl fun row _ => Finset.sum_apply c _ _

/-- What is written of a box. -/
def box (src : Bgra) (rows cols : ℕ × ℕ) : Option (List UInt8) := do
  let sum ← accumulate src rows cols
  let count ← below USIZE (boxCount rows cols)
  collect (quotient sum (count % U32)) 4

/-- The sums and the count have room, or what the count is cut to divides to the same. -/
structure BoxFits (src : Bgra) (rows cols : ℕ × ℕ) : Prop where
  counted : boxCount rows cols < USIZE
  summed : ∀ c < 4, boxSum src rows cols c < U32
  quotients : boxCount rows cols < U32 ∨ boxCount rows cols % U32 ≠ 0 ∧
    ∀ c < 4, boxSum src rows cols c / (boxCount rows cols % U32) % 256 = 0

theorem collect_quotient {S : ℕ → ℕ} {count : ℕ} (hcount : 0 < count) :
    collect (quotient ((List.range 4).map S) count) 4 =
      some ((List.range 4).map fun c => UInt8.ofNat (S c / count)) := by
  rw [← collect_some]
  refine collect_congr fun c hc => ?_
  rw [quotient, List.getElem?_map, List.getElem?_range hc, Option.map_some]
  simp only [Option.bind_eq_bind, Option.bind_some, divided_of_pos hcount]
  rfl

theorem collect_quotient_zero (sum : List ℕ) : collect (quotient sum 0) 4 = none := by
  have hfirst : quotient sum 0 0 = none := by
    rw [quotient]
    cases sum[0]? <;> rfl
  rw [Option.eq_none_iff_forall_ne_some]
  intro values hvalues
  obtain ⟨value, hvalue⟩ := read_eq_some_of_collect hvalues 0 (by decide)
  rw [hfirst] at hvalue
  cases hvalue

/-- Where the count is not zero, a quotient is the mean if the count was not cut, or both are zero. -/
theorem quotient_eq_mean_iff (hcut : 0 < boxCount rows cols % U32)
    (hsum : ∀ c < 4, boxSum src rows cols c < U32) :
    (∀ c < 4, boxSum src rows cols c / (boxCount rows cols % U32) % 256 = mean src rows cols c) ↔
      (boxCount rows cols < U32 ∨ boxCount rows cols % U32 ≠ 0 ∧
        ∀ c < 4, boxSum src rows cols c / (boxCount rows cols % U32) % 256 = 0) := by
  rcases Nat.lt_or_ge (boxCount rows cols) U32 with hlt | hge
  · refine iff_of_true (fun c _ => ?_) (Or.inl hlt)
    have hmean : mean src rows cols c ≤ 255 := by
      rw [mean]
      exact Nat.div_le_of_le_mul (by rw [Nat.mul_comm]; exact boxSum_le src rows cols c)
    rw [Nat.mod_eq_of_lt hlt, ← mean]
    exact Nat.mod_eq_of_lt (by omega)
  -- a sum that has room is less than a count that has not
  · have hmean (c : ℕ) (hc : c < 4) : mean src rows cols c = 0 :=
      Nat.div_eq_of_lt (lt_of_lt_of_le (hsum c hc) hge)
    constructor
    · exact fun h => Or.inr ⟨by omega, fun c hc => (h c hc).trans (hmean c hc)⟩
    · rintro (hlt | ⟨-, h⟩)
      · omega
      · exact fun c hc => (h c hc).trans (hmean c hc).symm

/-- When what the sums are divided to is the mean of every channel. -/
theorem quotients_iff (hsum : ∀ c < 4, boxSum src rows cols c < U32) :
    (∃ values, collect (quotient ((List.range 4).map (boxSum src rows cols)) (boxCount rows cols % U32)) 4 =
        some values ∧ values.map UInt8.toNat = (List.range 4).map (mean src rows cols)) ↔
      0 < boxCount rows cols % U32 ∧ (boxCount rows cols < U32 ∨ boxCount rows cols % U32 ≠ 0 ∧
        ∀ c < 4, boxSum src rows cols c / (boxCount rows cols % U32) % 256 = 0) := by
  rcases Nat.eq_zero_or_pos (boxCount rows cols % U32) with hzero | hcut
  · refine iff_of_false ?_ fun h => h.1.ne' hzero
    rintro ⟨values, hvalues, -⟩
    rw [hzero, collect_quotient_zero] at hvalues
    cases hvalues
  · rw [collect_quotient hcut, ← quotient_eq_mean_iff hcut hsum]
    have heach : ((List.range 4).map fun c => UInt8.ofNat (boxSum src rows cols c / (boxCount rows cols % U32))).map
        UInt8.toNat = (List.range 4).map (mean src rows cols) ↔
        ∀ c < 4, boxSum src rows cols c / (boxCount rows cols % U32) % 256 = mean src rows cols c := by
      rw [List.map_map, List.map_inj_left]
      simp only [List.mem_range, Function.comp_apply, UInt8.toNat_ofNat']
    constructor
    · rintro ⟨values, hvalues, hmeans⟩
      cases hvalues
      exact ⟨hcut, heach.mp hmeans⟩
    · rintro ⟨-, h⟩
      exact ⟨_, rfl, heach.mpr h⟩

/-- **When the mean of a box comes out.** -/
theorem box_iff (hheld : src.Held) (hrows : rows.1 < rows.2 ∧ rows.2 ≤ src.height)
    (hcols : cols.1 < cols.2 ∧ cols.2 ≤ src.width) :
    (∃ values, box src rows cols = some values ∧
      values.map UInt8.toNat = (List.range 4).map (mean src rows cols)) ↔ BoxFits src rows cols := by
  have hpos : 0 < boxCount rows cols := Nat.mul_pos (by omega) (by omega)
  rw [box, accumulate_eq hheld ⟨hrows.1.le, hrows.2⟩ ⟨hcols.1.le, hcols.2⟩]
  by_cases hsum : ∀ c < 4, boxSum src rows cols c < U32
  · rw [totals, if_pos hsum]
    by_cases hcount : boxCount rows cols < USIZE
    · rw [below_of_lt hcount]
      simp only [Option.bind_eq_bind, Option.bind_some]
      rw [quotients_iff hsum]
      refine ⟨fun h => ⟨hcount, hsum, h.2⟩, fun h => ⟨?_, h.quotients⟩⟩
      rcases h.quotients with hlt | hne
      · rw [Nat.mod_eq_of_lt hlt]
        exact hpos
      · exact Nat.pos_of_ne_zero hne.1
    · rw [below_of_le (Nat.le_of_not_lt hcount)]
      refine iff_of_false ?_ fun h => hcount h.counted
      rintro ⟨values, hvalues, -⟩
      cases hvalues
  · rw [totals, if_neg hsum]
    refine iff_of_false ?_ fun h => hsum h.summed
    rintro ⟨values, hvalues, -⟩
    cases hvalues

/-! ### The whole picture -/

/-- A row of the result. -/
def scaledRow (src : Bgra) (w h y : ℕ) : Option (List UInt8) :=
  (collect (fun x => box src (edges y h src.height) (edges x w src.width)) w).map List.flatten

def rowMeans (src : Bgra) (w h y : ℕ) : List ℕ :=
  (List.range w).flatMap fun x => (List.range 4).map (mean src (edges y h src.height) (edges x w src.width))

/-- The means of the boxes, row by row and channel by channel. -/
def means (src : Bgra) (w h : ℕ) : List ℕ := (List.range h).flatMap (rowMeans src w h)

variable {w h x y : ℕ} {values : List UInt8}

theorem length_box (hbox : box src rows cols = some values) : values.length = 4 := by
  obtain ⟨sum, -, hbox⟩ := Option.bind_eq_some_iff.mp hbox
  obtain ⟨count, -, hbox⟩ := Option.bind_eq_some_iff.mp hbox
  exact length_of_collect hbox

theorem length_scaledRow (hrow : scaledRow src w h y = some values) : values.length = w * 4 := by
  obtain ⟨boxes, hboxes, rfl⟩ := Option.map_eq_some_iff.mp hrow
  exact length_flatten_of_collect (fun _ _ => length_box) hboxes

theorem length_rowMeans (src : Bgra) (w h y : ℕ) : (rowMeans src w h y).length = w * 4 := by
  rw [rowMeans, List.length_flatMap]
  simp only [List.length_map, List.length_range, List.map_const', List.sum_replicate, smul_eq_mul]

/-- A row is written box by box, each in its place. -/
theorem foldlM_row (src : Bgra) (w y : ℕ) (rows : ℕ × ℕ) (out : List UInt8) :
    (((List.range w).map fun x => edges x w src.width).zipIdx).foldlM (fun out column =>
      (accumulate src rows column.1).bind fun sum =>
        (below USIZE ((rows.2 - rows.1) * (column.1.2 - column.1.1))).bind fun count =>
          (List.range 4).foldlM (fun out c =>
            (quotient sum (count % U32) c).bind (put out ((y * w + column.2) * 4 + c))) out) out =
      ((collect (fun x => box src rows (edges x w src.width)) w).map List.flatten).bind fun values =>
        (values.zipIdx (y * (w * 4))).foldlM (fun out p => put out p.2 p.1) out := by
  have hbox (out : List UInt8) (x : ℕ) :
      ((accumulate src rows (edges x w src.width)).bind fun sum =>
        (below USIZE ((rows.2 - rows.1) * ((edges x w src.width).2 - (edges x w src.width).1))).bind fun count =>
          (List.range 4).foldlM (fun out c =>
            (quotient sum (count % U32) c).bind (put out ((y * w + x) * 4 + c))) out) =
        (box src rows (edges x w src.width)).bind fun values =>
          (values.zipIdx ((y * w + x) * 4)).foldlM (fun out p => put out p.2 p.1) out := by
    simp only [foldlM_bind _ put, box, boxCount, Option.bind_eq_bind, Option.bind_assoc]
  -- the boxes are averaged first, and then written
  have hrow := foldlM_bind (fun x => box src rows (edges x w src.width)) (fun out i (values : List UInt8) =>
    (values.zipIdx (i * 4)).foldlM (fun out p => put out p.2 p.1) out) w (y * w) out
  rw [zipIdx_map_range, List.foldlM_map]
  simp only [hbox, hrow]
  cases hboxes : collect (fun x => box src rows (edges x w src.width)) w with
  | none => rfl
  | some boxes =>
    have hlengths : ∀ values ∈ boxes, values.length = 4 := fun values hvalues =>
      (exists_read_of_mem hboxes hvalues).elim fun _ => length_box
    rw [Option.bind_some, Option.map_some, Option.bind_some, ← Nat.mul_assoc]
    exact foldlM_rows put hlengths (y * w) out

/-- Where the products have room, the result is the boxes, row by row. -/
theorem scaleBgra_eq (hw : w ≤ src.width) (hh : h ≤ src.height) (hcolumns : w * src.width < USIZE)
    (hrows : h * src.height < USIZE) (hbuffer : w * h * 4 < CAPACITY) (out : List UInt8) :
    scaleBgra src (w, h) out =
      (collect (scaledRow src w h) h).map fun rows => ⟨rows.flatten, w, h, w * 4⟩ := by
  have hspans : collect (fun x => span x w src.width) w = some ((List.range w).map fun x => edges x w src.width) := by
    rw [← collect_some]
    exact collect_congr fun x hx => span_eq hx hw hcolumns
  have hstep (y : ℕ) (hy : y ∈ List.range h) (out : List UInt8) :
      ((span y h src.height).bind fun rows =>
        (((List.range w).map fun x => edges x w src.width).zipIdx).foldlM (fun out column =>
          (accumulate src rows column.1).bind fun sum =>
            (below USIZE ((rows.2 - rows.1) * (column.1.2 - column.1.1))).bind fun count =>
              (List.range 4).foldlM (fun out c =>
                (quotient sum (count % U32) c).bind (put out ((y * w + column.2) * 4 + c))) out) out) =
        (scaledRow src w h y).bind fun values =>
          (values.zipIdx (y * (w * 4))).foldlM (fun out p => put out p.2 p.1) out := by
    rw [span_eq (List.mem_range.mp hy) hh hrows, Option.bind_some, foldlM_row]
    rfl
  have hall := foldlM_bind (scaledRow src w h) (fun out i (values : List UInt8) =>
    (values.zipIdx (i * (w * 4))).foldlM (fun out p => put out p.2 p.1) out) h 0 (resize out (w * h * 4) 0)
  simp only [Nat.zero_add] at hall
  rw [scaleBgra]
  simp only [below_of_lt hbuffer, hspans, Option.bind_eq_bind, Option.bind_some]
  rw [foldlM_congr hstep, hall]
  cases hscaled : collect (scaledRow src w h) h with
  | none => rfl
  | some rows =>
    have hlengths : ∀ values ∈ rows, values.length = w * 4 := fun values hvalues =>
      (exists_read_of_mem hscaled hvalues).elim fun _ => length_scaledRow
    have hflat := foldlM_rows put hlengths 0 (resize out (w * h * 4) 0)
    -- the rows are as long as the buffer
    have hfill : fill (resize out (w * h * 4) 0) rows.flatten = some rows.flatten := by
      refine fill_eq_some ?_
      rw [length_resize, length_flatten_of_collect (fun _ _ => length_scaledRow) hscaled]
      ring
    rw [Nat.zero_mul, ← fill, hfill] at hflat
    rw [Option.bind_some, hflat]
    rfl

/-- A result means that the products had room. -/
theorem room_of_scaleBgra {out : List UInt8} {scaled : Bgra} (hscaled : scaleBgra src (w, h) out = some scaled) :
    w * src.width < USIZE ∧ h * src.height < USIZE ∧ w * h * 4 < CAPACITY := by
  obtain ⟨length, hlength, hscaled⟩ := Option.bind_eq_some_iff.mp hscaled
  obtain ⟨columns, hcolumns, hscaled⟩ := Option.bind_eq_some_iff.mp hscaled
  obtain ⟨out', hout, -⟩ := Option.bind_eq_some_iff.mp hscaled
  refine ⟨?_, ?_, ?_⟩
  · by_contra hlarge
    cases w with
    | zero =>
      rw [Nat.zero_mul] at hlarge
      exact hlarge (by decide)
    | succ x =>
      obtain ⟨edges, hedges⟩ := read_eq_some_of_collect hcolumns x (Nat.lt_succ_self x)
      rw [span_eq_none (Nat.le_of_not_lt hlarge)] at hedges
      cases hedges
  · by_contra hlarge
    cases h with
    | zero =>
      rw [Nat.zero_mul] at hlarge
      exact hlarge (by decide)
    | succ y =>
      rw [foldlM_eq_none (List.mem_range.mpr (Nat.lt_succ_self y)) fun s => ?_] at hout
      · cases hout
      · rw [span_eq_none (Nat.le_of_not_lt hlarge)]
        rfl
  · by_contra hlarge
    rw [below_of_le (Nat.le_of_not_lt hlarge)] at hlength
    cases hlength

/-- A box of the target, and a place of the source in it. -/
def Covers (src : Bgra) (w h : ℕ) (row col : ℕ) (place : ℕ × ℕ) : Prop :=
  place.1 < h ∧ place.2 < w ∧
    ((edges place.1 h src.height).1 ≤ row ∧ row < (edges place.1 h src.height).2) ∧
    ((edges place.2 w src.width).1 ≤ col ∧ col < (edges place.2 w src.width).2)

/-- The boxes tile the source, nothing fails, and the result is the mean of each box. -/
structure Exact (src : Bgra) (w h : ℕ) (out : List UInt8) : Prop where
  tiled : ∀ row < src.height, ∀ col < src.width, ∃! place, Covers src w h row col place
  averaged : ∃ data, scaleBgra src (w, h) out = some ⟨data, w, h, w * 4⟩ ∧ data.map UInt8.toNat = means src w h

/-- The products and the sums have the room they need, and a source of some size is not scaled to nothing. -/
structure Fits (src : Bgra) (w h : ℕ) : Prop where
  sized : src.height = 0 ∨ src.width = 0 ∨ 0 < h ∧ 0 < w
  columns : w * src.width < USIZE
  rows : h * src.height < USIZE
  buffer : w * h * 4 < CAPACITY
  boxes : ∀ y < h, ∀ x < w, BoxFits src (edges y h src.height) (edges x w src.width)

theorem tiled_iff (hw : w ≤ src.width) (hh : h ≤ src.height) :
    (∀ row < src.height, ∀ col < src.width, ∃! place, Covers src w h row col place) ↔
      src.height = 0 ∨ src.width = 0 ∨ 0 < h ∧ 0 < w := by
  constructor
  · intro htiled
    rcases Nat.eq_zero_or_pos src.height with hzero | hheight
    · exact Or.inl hzero
    · rcases Nat.eq_zero_or_pos src.width with hzero | hwidth
      · exact Or.inr (Or.inl hzero)
      · obtain ⟨place, hplace, -⟩ := htiled 0 hheight 0 hwidth
        exact Or.inr (Or.inr ⟨Nat.zero_lt_of_lt hplace.1, Nat.zero_lt_of_lt hplace.2.1⟩)
  · intro hsized row hrow col hcol
    have hpos : 0 < h ∧ 0 < w := by
      rcases hsized with hzero | hzero | hpos
      · omega
      · omega
      · exact hpos
    obtain ⟨y, ⟨hy, hiny⟩, huniquey⟩ := tiles hh hpos.1 hrow
    obtain ⟨x, ⟨hx, hinx⟩, huniquex⟩ := tiles hw hpos.2 hcol
    refine ⟨(y, x), ⟨hy, hx, hiny, hinx⟩, ?_⟩
    rintro ⟨y', x'⟩ ⟨hy', hx', hiny', hinx'⟩
    rw [Prod.mk.injEq]
    exact ⟨huniquey y' ⟨hy', hiny'⟩, huniquex x' ⟨hx', hinx'⟩⟩

/-- A row of means comes out if every box of it fits. -/
theorem scaledRow_iff (hheld : src.Held) (hw : w ≤ src.width) (hh : h ≤ src.height) (hy : y < h) :
    (∃ values, scaledRow src w h y = some values ∧ values.map UInt8.toNat = rowMeans src w h y) ↔
      ∀ x < w, BoxFits src (edges y h src.height) (edges x w src.width) := by
  have hflat := collect_flatten_iff (fun x => box src (edges y h src.height) (edges x w src.width)) (n := w)
    UInt8.toNat (fun x => (List.range 4).map (mean src (edges y h src.height) (edges x w src.width)))
    (fun _ _ => length_box)
    (fun x => by rw [List.length_map, List.length_range])
  have hboxes (x : ℕ) (hx : x < w) := box_iff hheld
    ⟨edges_lt hy hh, edges_le y h src.height⟩ ⟨edges_lt hx hw, edges_le x w src.width⟩
  constructor
  · rintro ⟨values, hvalues, hmeans⟩
    obtain ⟨boxes, hcollect, rfl⟩ := Option.map_eq_some_iff.mp hvalues
    exact fun x hx => (hboxes x hx).mp (hflat.mp ⟨boxes, hcollect, hmeans⟩ x hx)
  · intro hfits
    obtain ⟨boxes, hcollect, hmeans⟩ := hflat.mpr fun x hx => (hboxes x hx).mpr (hfits x hx)
    exact ⟨boxes.flatten, by rw [scaledRow, hcollect]; rfl, hmeans⟩

/-- The means come out if every box fits. -/
theorem averaged_iff (hheld : src.Held) (hw : w ≤ src.width) (hh : h ≤ src.height)
    (hcolumns : w * src.width < USIZE) (hrows : h * src.height < USIZE) (hbuffer : w * h * 4 < CAPACITY)
    (out : List UInt8) :
    (∃ data, scaleBgra src (w, h) out = some ⟨data, w, h, w * 4⟩ ∧ data.map UInt8.toNat = means src w h) ↔
      ∀ y < h, ∀ x < w, BoxFits src (edges y h src.height) (edges x w src.width) := by
  have hflat := collect_flatten_iff (scaledRow src w h) (n := h) UInt8.toNat (rowMeans src w h)
    (fun _ _ => length_scaledRow) (length_rowMeans src w h)
  rw [scaleBgra_eq hw hh hcolumns hrows hbuffer]
  constructor
  · rintro ⟨data, hdata, hmeans⟩
    obtain ⟨rows, hcollect, hrows⟩ := Option.map_eq_some_iff.mp hdata
    cases hrows
    exact fun y hy => (scaledRow_iff hheld hw hh hy).mp (hflat.mp ⟨rows, hcollect, hmeans⟩ y hy)
  · intro hfits
    obtain ⟨rows, hcollect, hmeans⟩ := hflat.mpr fun y hy => (scaledRow_iff hheld hw hh hy).mpr (hfits y hy)
    exact ⟨rows.flatten, by rw [hcollect]; rfl, hmeans⟩

theorem fits_of_exact (hheld : src.Held) (hw : w ≤ src.width) (hh : h ≤ src.height) {out : List UInt8}
    (hexact : Exact src w h out) : Fits src w h := by
  obtain ⟨data, hdata, -⟩ := hexact.averaged
  obtain ⟨hcolumns, hrows, hbuffer⟩ := room_of_scaleBgra hdata
  exact ⟨(tiled_iff hw hh).mp hexact.tiled, hcolumns, hrows, hbuffer,
    (averaged_iff hheld hw hh hcolumns hrows hbuffer out).mp hexact.averaged⟩

/-- A white picture. -/
def white (width height : ℕ) : Bgra := ⟨List.replicate (height * (width * 4)) 255, width, height, width * 4⟩

theorem held_white (width height : ℕ) : (white width height).Held := by
  intro row hrow
  have hend : (row + 1) * (width * 4) ≤ height * (width * 4) := Nat.mul_le_mul_right (width * 4) hrow
  rw [Nat.succ_mul] at hend
  exact hend.trans_eq List.length_replicate.symm

theorem boxSum_white (width height c : ℕ) (hc : c < 4) :
    boxSum (white width height) (0, height) (0, width) c = height * (width * 255) := by
  have hchannel (row col : ℕ) (hrow : row < height) (hcol : col < width) :
      channel (white width height) row col c = 255 := by
    have hplace := held_white width height row hrow
    have hlt : row * (width * 4) + (col * 4 + c) < height * (width * 4) := by
      rw [← List.length_replicate (n := height * (width * 4)) (a := (255 : UInt8))]
      exact lt_of_lt_of_le (Nat.add_lt_add_left (show col * 4 + c < width * 4 by omega) _) hplace
    rw [channel, white, List.getD_replicate _ hlt]
    rfl
  have hline (row : ℕ) (hrow : row < height) :
      ∑ col ∈ Finset.Ico 0 width, channel (white width height) row col c = width * 255 := by
    rw [Finset.sum_congr rfl fun col hcol => hchannel row col hrow (Finset.mem_Ico.mp hcol).2, Finset.sum_const,
      Nat.card_Ico, Nat.sub_zero, smul_eq_mul]
  rw [boxSum, Finset.sum_congr rfl fun row hrow => hline row (Finset.mem_Ico.mp hrow).2, Finset.sum_const,
    Nat.card_Ico, Nat.sub_zero, smul_eq_mul]

end Video

end WindowCast.Host
