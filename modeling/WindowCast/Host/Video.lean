import WindowCast.Lib.Buffer

/-!
# Pictures for the encoders

`host-core/src/video.rs`: a captured picture, rows of four bytes a pixel that are `stride`
bytes apart, is brought into one of the two layouts encoders take.  NV12 has the luma rows
and then the interleaved chroma, I420 the luma rows and then the two planes of the chroma.
`none` is the panic of an index outside of its slice.  A picture that holds its rows has
fewer than `2 ^ 61` pixels, so no product here comes near the width of a `usize`, and the
sums of `luma` and `chroma` are far from that of an `i32`.

## Main definitions

* `toNv12`, `toI420`, `nv12ToI420` — the conversions, into a buffer that is used again.
* `picture` — the luma and the chroma of a picture, without any buffer.

## Main results

* `toNv12_eq`, `toI420_eq` — the conversions lay out `picture`, whatever the buffer held.
* `planes_alike` — **by way of NV12 the planes are those of I420.**
-/

namespace WindowCast.Host

namespace Video

open Buffer

/-! ### The conversions -/

/-- A captured picture: 8-bit BGRA rows, `stride` bytes apart. -/
structure Bgra where
  data : List UInt8
  width : ℕ
  height : ℕ
  stride : ℕ

/-- The picture's rows are all there. -/
def Bgra.Held (src : Bgra) : Prop := ∀ row < src.height, row * src.stride + src.width * 4 ≤ src.data.length

/-- A picture already in NV12 at even dimensions. -/
structure Nv12 where
  data : List UInt8
  width : ℕ
  height : ℕ

/-- The even dimensions a picture is encoded at. -/
def even (width height : ℕ) : ℕ × ℕ := (width - width % 2, height - height % 2)

def luma (b g r : UInt8) : UInt8 :=
  UInt8.ofInt ((66 * r.toNat + 129 * g.toNat + 25 * b.toNat + 128 : ℤ) >>> 8 + 16)

/-- Chroma of the average of a 2x2 block. -/
def chroma (b g r : ℤ) : UInt8 × UInt8 :=
  let u := (-38 * r - 74 * g + 112 * b + 128) >>> 8 + 128
  let v := (112 * r - 94 * g - 18 * b + 128) >>> 8 + 128
  (UInt8.ofInt (max 0 (min u 255)), UInt8.ofInt (max 0 (min v 255)))

/-- The blue, green and red of every whole pixel. -/
def pixels : List UInt8 → List (UInt8 × UInt8 × UInt8)
  | b :: g :: r :: _ :: rest => (b, g, r) :: pixels rest
  | _ => []

def pairs : List UInt8 → List (UInt8 × UInt8)
  | u :: v :: rest => (u, v) :: pairs rest
  | _ => []

/-- The luma of a row. -/
def lumaRow (src : Bgra) (w row : ℕ) : Option (List UInt8) :=
  (slice src.data (row * src.stride) (row * src.stride + w * 4)).map fun line =>
    (pixels line).map fun px => luma px.1 px.2.1 px.2.2

/-- What the block at `cx` holds of one colour. -/
def sum (top bottom : List UInt8) (o c : ℕ) : Option ℕ := do
  let a ← top[o + c]?
  let b ← top[o + 4 + c]?
  let d ← bottom[o + c]?
  let e ← bottom[o + 4 + c]?
  return a.toNat + b.toNat + d.toNat + e.toNat

def sample (top bottom : List UInt8) (cx : ℕ) : Option (UInt8 × UInt8) := do
  let b ← sum top bottom (cx * 8) 0
  let g ← sum top bottom (cx * 8) 1
  let r ← sum top bottom (cx * 8) 2
  return chroma (b / 4 : ℕ) (g / 4 : ℕ) (r / 4 : ℕ)

variable {σ : Type}

/-- Writes the luma, and hands every chroma sample and its number on. -/
def convert (src : Bgra) (yPlane : List UInt8) (putUv : σ → ℕ → UInt8 × UInt8 → Option σ) (s : σ) :
    Option (List UInt8 × σ) := do
  let (w, h) := even src.width src.height
  let yPlane ← (List.range h).foldlM (fun yPlane row =>
    (lumaRow src w row).bind fun values => within yPlane (row * w) (row * w + w) (fill · values)) yPlane
  let s ← (List.range (h / 2)).foldlM (fun s cy => do
    let top ← sliceFrom src.data (cy * 2 * src.stride)
    let bottom ← sliceFrom src.data ((cy * 2 + 1) * src.stride)
    (List.range (w / 2)).foldlM (fun s cx => (sample top bottom cx).bind (putUv s (cy * (w / 2) + cx))) s) s
  return (yPlane, s)

/-- A chroma sample, into the interleaved plane. -/
def putInterleaved (uv : List UInt8) (i : ℕ) (p : UInt8 × UInt8) : Option (List UInt8) := do
  let uv ← put uv (i * 2) p.1
  put uv (i * 2 + 1) p.2

/-- A chroma sample, into the planes. -/
def putPlanes (planes : List UInt8 × List UInt8) (i : ℕ) (p : UInt8 × UInt8) :
    Option (List UInt8 × List UInt8) := do
  let uPlane ← put planes.1 i p.1
  let vPlane ← put planes.2 i p.2
  return (uPlane, vPlane)

/-- NV12: the Y plane, then interleaved U/V at half resolution. -/
def toNv12 (src : Bgra) (out : List UInt8) : Option (List UInt8) := do
  let (w, h) := even src.width src.height
  let (yPlane, uv) ← splitAt (resize out (w * h * 3 / 2) 0) (w * h)
  let (yPlane, uv) ← convert src yPlane putInterleaved uv
  return yPlane ++ uv

/-- I420: the Y plane, then the U plane, then the V plane. -/
def toI420 (src : Bgra) (out : List UInt8) : Option (List UInt8) := do
  let (w, h) := even src.width src.height
  let (yPlane, chroma) ← splitAt (resize out (w * h * 3 / 2) 0) (w * h)
  let (uPlane, vPlane) ← splitAt chroma (w * h / 4)
  let (yPlane, uPlane, vPlane) ← convert src yPlane putPlanes (uPlane, vPlane)
  return yPlane ++ uPlane ++ vPlane

/-- Splits NV12's interleaved chroma into I420's two planes. -/
def nv12ToI420 (src : Nv12) (out : List UInt8) : Option (List UInt8) := do
  let luma := src.width * src.height
  let quarter := luma / 4
  let y ← slice src.data 0 luma
  let out ← within (resize out (luma + 2 * quarter) 0) 0 luma (fill · y)
  let (yPlane, chroma) ← splitAt out luma
  let (uPlane, vPlane) ← splitAt chroma quarter
  let uvs ← slice src.data luma (luma + 2 * quarter)
  let (uPlane, vPlane) ← (pairs uvs).zipIdx.foldlM (fun planes p => putPlanes planes p.2 p.1) (uPlane, vPlane)
  return yPlane ++ uPlane ++ vPlane

/-! ### What a picture comes to -/

def samples (src : Bgra) (w cy : ℕ) : Option (List (UInt8 × UInt8)) := do
  let top ← sliceFrom src.data (cy * 2 * src.stride)
  let bottom ← sliceFrom src.data ((cy * 2 + 1) * src.stride)
  collect (sample top bottom) (w / 2)

/-- The luma of a picture and its chroma, row by row. -/
def picture (src : Bgra) : Option (List UInt8 × List (UInt8 × UInt8)) := do
  let (w, h) := even src.width src.height
  let rows ← collect (lumaRow src w) h
  let uvs ← collect (samples src w) (h / 2)
  return (rows.flatten, uvs.flatten)

def interleave (uvs : List (UInt8 × UInt8)) : List UInt8 := uvs.flatMap fun p => [p.1, p.2]

theorem even_eq (width height : ℕ) : even width height = (2 * (width / 2), 2 * (height / 2)) := by
  rw [even, Prod.mk.injEq]
  omega

theorem length_pixels (line : List UInt8) : (pixels line).length = line.length / 4 := by
  induction line using pixels.induct with
  | case1 b g r a rest ih =>
    rw [pixels, List.length_cons, ih]
    simp only [List.length_cons]
    omega
  | case2 line h =>
    rw [pixels.eq_2 line h]
    rcases line with _ | ⟨b, _ | ⟨g, _ | ⟨r, _ | ⟨a, rest⟩⟩⟩⟩
    · rfl
    · exact (Nat.div_eq_of_lt (show 1 < 4 by decide)).symm
    · exact (Nat.div_eq_of_lt (show 2 < 4 by decide)).symm
    · exact (Nat.div_eq_of_lt (show 3 < 4 by decide)).symm
    · exact absurd rfl (h b g r a rest)

theorem pairs_interleave (uvs : List (UInt8 × UInt8)) : pairs (interleave uvs) = uvs := by
  induction uvs with
  | nil => rfl
  | cons p uvs ih => exact congrArg (p :: ·) ih

theorem length_interleave (uvs : List (UInt8 × UInt8)) : (interleave uvs).length = 2 * uvs.length := by
  induction uvs with
  | nil => rfl
  | cons p uvs ih =>
    rw [interleave, List.flatMap_cons, List.length_append, List.length_cons, ← interleave, ih]
    exact Nat.add_comm 2 _

variable {src : Bgra} {w h n : ℕ} {y : List UInt8} {uvs : List (UInt8 × UInt8)}

theorem length_lumaRow {row : ℕ} {values : List UInt8} (hrow : lumaRow src w row = some values) :
    values.length = w := by
  obtain ⟨line, hline, rfl⟩ := Option.map_eq_some_iff.mp hrow
  rw [List.length_map, length_pixels, length_of_slice hline]
  omega

theorem length_samples {cy : ℕ} {values : List (UInt8 × UInt8)} (h : samples src w cy = some values) :
    values.length = w / 2 := by
  obtain ⟨top, -, h⟩ := Option.bind_eq_some_iff.mp h
  obtain ⟨bottom, -, h⟩ := Option.bind_eq_some_iff.mp h
  exact length_of_collect h

/-- A picture of `2 * a` by `2 * b` pixels has a quarter as many samples. -/
theorem length_picture {p : List UInt8 × List (UInt8 × UInt8)} (hpicture : picture src = some p) :
    p.1.length = 4 * (src.width / 2 * (src.height / 2)) ∧ p.2.length = src.width / 2 * (src.height / 2) := by
  rw [picture, even_eq] at hpicture
  obtain ⟨rows, hrows, hpicture⟩ := Option.bind_eq_some_iff.mp hpicture
  obtain ⟨samples, hsamples, hpicture⟩ := Option.bind_eq_some_iff.mp hpicture
  cases hpicture
  constructor
  · rw [length_flatten_of_collect (fun _ _ => length_lumaRow) hrows]
    ring
  · rw [length_flatten_of_collect (fun _ _ => length_samples) hsamples, Nat.mul_div_cancel_left _ Nat.two_pos,
      Nat.mul_div_cancel_left _ Nat.two_pos, Nat.mul_comm]

/-- What `convert` writes and hands on does not depend on what the luma plane held. -/
theorem convert_eq {yPlane : List UInt8} (putUv : σ → ℕ → UInt8 × UInt8 → Option σ) (s : σ)
    (hplane : yPlane.length = (even src.width src.height).1 * (even src.width src.height).2) :
    convert src yPlane putUv s = (picture src).bind fun p =>
      (p.2.zipIdx.foldlM (fun s p => putUv s p.2 p.1) s).map (Prod.mk p.1) := by
  obtain ⟨w, h, heven⟩ : ∃ w h, even src.width src.height = (w, h) := ⟨_, _, rfl⟩
  rw [heven] at hplane
  -- a row of samples is read first, and then handed on
  have hchroma (s : σ) (cy : ℕ) :
      ((sliceFrom src.data (cy * 2 * src.stride)).bind fun top =>
        (sliceFrom src.data ((cy * 2 + 1) * src.stride)).bind fun bottom =>
          (List.range (w / 2)).foldlM (fun s cx => (sample top bottom cx).bind (putUv s (cy * (w / 2) + cx))) s) =
        (samples src w cy).bind fun values =>
          (values.zipIdx (cy * (w / 2))).foldlM (fun s p => putUv s p.2 p.1) s := by
    simp only [foldlM_bind, samples, Option.bind_eq_bind, Option.bind_assoc]
  -- the same for all rows
  have hrows := foldlM_bind (samples src w) (fun s cy values =>
    (values.zipIdx (cy * (w / 2))).foldlM (fun s p => putUv s p.2 p.1) s) (h / 2) 0 s
  simp only [Nat.zero_add] at hrows
  have hluma := foldlM_within (lumaRow src w) (fun _ _ => length_lumaRow)
    (by rw [hplane, Nat.mul_comm] : h * w ≤ yPlane.length)
  rw [List.drop_of_length_le (by rw [hplane, Nat.mul_comm])] at hluma
  rw [convert, picture, heven]
  simp only [Option.bind_eq_bind, hchroma, hrows, hluma]
  -- either plane panics where one of its rows does
  cases hys : collect (lumaRow src w) h with
  | none => rfl
  | some ys =>
    cases huvs : collect (samples src w) (h / 2) with
    | none => rfl
    | some uvs =>
      have hlengths : ∀ row ∈ uvs, row.length = w / 2 := fun row hrow =>
        (exists_read_of_mem huvs hrow).elim fun _ => length_samples
      have hflat := foldlM_rows putUv hlengths 0 s
      rw [Nat.zero_mul] at hflat
      simp only [Option.map_some, Option.bind_some, Option.pure_def, hflat, List.append_nil]
      cases uvs.flatten.zipIdx.foldlM (fun s p => putUv s p.2 p.1) s <;> rfl

/-! ### The layouts -/

/-- Samples put interleaved are the interleaved plane, written place by place. -/
theorem foldlM_putInterleaved (uv : List UInt8) (i : ℕ) :
    (uvs.zipIdx i).foldlM (fun uv p => putInterleaved uv p.2 p.1) uv =
      ((interleave uvs).zipIdx (i * 2)).foldlM (fun uv p => put uv p.2 p.1) uv := by
  induction uvs generalizing uv i with
  | nil => rfl
  | cons p uvs ih =>
    rw [List.zipIdx_cons, List.foldlM_cons, interleave, List.flatMap_cons, List.zipIdx_append, List.foldlM_append,
      ← interleave]
    -- the two places of the first sample
    have hfirst : ([p.1, p.2].zipIdx (i * 2)).foldlM (fun uv p => put uv p.2 p.1) uv = putInterleaved uv i p := by
      rw [List.zipIdx_cons, List.foldlM_cons, List.zipIdx_singleton]
      exact congrArg _ (funext fun uv => foldlM_one _ uv _)
    rw [hfirst]
    exact congrArg _ (funext fun uv => (ih uv (i + 1)).trans (by rw [Nat.succ_mul]; rfl))

/-- The planes do not get in each other's way. -/
theorem foldlM_putPlanes {u v u' v' : List UInt8} {i : ℕ}
    (hu : ((uvs.map Prod.fst).zipIdx i).foldlM (fun u p => put u p.2 p.1) u = some u')
    (hv : ((uvs.map Prod.snd).zipIdx i).foldlM (fun v p => put v p.2 p.1) v = some v') :
    (uvs.zipIdx i).foldlM (fun planes p => putPlanes planes p.2 p.1) (u, v) = some (u', v') := by
  induction uvs generalizing u v i with
  | nil =>
    cases hu
    cases hv
    rfl
  | cons p uvs ih =>
    rw [List.map_cons, List.zipIdx_cons, List.foldlM_cons] at hu hv
    obtain ⟨u₁, hput, hu⟩ := Option.bind_eq_some_iff.mp hu
    obtain ⟨v₁, hput', hv⟩ := Option.bind_eq_some_iff.mp hv
    have hfirst : putPlanes (u, v) i p = some (u₁, v₁) := by
      rw [putPlanes]
      exact Option.bind_eq_some_iff.mpr ⟨u₁, hput, Option.bind_eq_some_iff.mpr ⟨v₁, hput', rfl⟩⟩
    rw [List.zipIdx_cons, List.foldlM_cons, hfirst]
    exact ih hu hv

theorem foldlM_putPlanes_eq {u v : List UInt8} (hu : u.length = uvs.length) (hv : v.length = uvs.length) :
    uvs.zipIdx.foldlM (fun planes p => putPlanes planes p.2 p.1) (u, v) =
      some (uvs.map Prod.fst, uvs.map Prod.snd) :=
  foldlM_putPlanes (fill_eq_some (by rw [hu, List.length_map])) (fill_eq_some (by rw [hv, List.length_map]))

/-- A buffer of the right length is the luma plane and what is behind it. -/
theorem splitAt_eq {out : List UInt8} {mid rest : ℕ} (h : out.length = mid + rest) :
    splitAt out mid = some (out.take mid, out.drop mid) ∧ (out.take mid).length = mid ∧
      (out.drop mid).length = rest := by
  refine ⟨if_pos (by omega), ?_, ?_⟩
  · rw [List.length_take]
    omega
  · rw [List.length_drop]
    omega

/-- The numbers the three conversions divide their buffers by. -/
theorem sizes (a b : ℕ) :
    2 * a * (2 * b) = 4 * (a * b) ∧ 4 * (a * b) * 3 / 2 = 4 * (a * b) + 2 * (a * b) ∧ 4 * (a * b) / 4 = a * b := by
  refine ⟨by ring, ?_, ?_⟩
  · omega
  · omega

theorem toNv12_eq (src : Bgra) (out : List UInt8) :
    toNv12 src out = (picture src).map fun p => p.1 ++ interleave p.2 := by
  obtain ⟨hsize, hall, -⟩ := sizes (src.width / 2) (src.height / 2)
  obtain ⟨hsplit, hplane, hrest⟩ := splitAt_eq (length_resize out
    (4 * (src.width / 2 * (src.height / 2)) + 2 * (src.width / 2 * (src.height / 2))) 0)
  rw [toNv12, even_eq]
  simp only [hsize, hall, hsplit, Option.bind_eq_bind, Option.bind_some]
  rw [convert_eq _ _ (by rw [hplane, even_eq, hsize])]
  cases hpicture : picture src with
  | none => rfl
  | some p =>
    obtain ⟨-, huvs⟩ := length_picture hpicture
    have hfill := fill_eq_some (hrest.trans (by rw [length_interleave, huvs]))
    simp only [Option.bind_some, foldlM_putInterleaved, Nat.zero_mul]
    rw [← fill, hfill]
    rfl

theorem toI420_eq (src : Bgra) (out : List UInt8) :
    toI420 src out = (picture src).map fun p => p.1 ++ p.2.map Prod.fst ++ p.2.map Prod.snd := by
  obtain ⟨hsize, hall, hquarter⟩ := sizes (src.width / 2) (src.height / 2)
  obtain ⟨hsplit, hplane, hrest⟩ := splitAt_eq (length_resize out
    (4 * (src.width / 2 * (src.height / 2)) + 2 * (src.width / 2 * (src.height / 2))) 0)
  obtain ⟨hsplit', hu, hv⟩ := splitAt_eq (hrest.trans (Nat.two_mul _))
  rw [toI420, even_eq]
  simp only [hsize, hall, hquarter, hsplit, hsplit', Option.bind_eq_bind, Option.bind_some]
  rw [convert_eq _ _ (by rw [hplane, even_eq, hsize])]
  cases hpicture : picture src with
  | none => rfl
  | some p =>
    obtain ⟨-, huvs⟩ := length_picture hpicture
    simp only [Option.bind_some]
    rw [foldlM_putPlanes_eq (hu.trans huvs.symm) (hv.trans huvs.symm)]
    rfl

/-- A picture in NV12 is taken apart into its luma and its samples. -/
theorem nv12ToI420_eq {width height : ℕ} (out : List UInt8) (hy : y.length = width * height)
    (huvs : width * height / 4 = uvs.length) :
    nv12ToI420 ⟨y ++ interleave uvs, width, height⟩ out =
      some (y ++ uvs.map Prod.fst ++ uvs.map Prod.snd) := by
  have hluma : slice (y ++ interleave uvs) 0 (width * height) = some y :=
    slice_append (List.length_nil : ([] : List UInt8).length = 0) (by rw [hy, Nat.zero_add])
  have hchroma : slice (y ++ interleave uvs) (width * height) (width * height + 2 * uvs.length) =
      some (interleave uvs) := by
    have hend : width * height + (interleave uvs).length = width * height + 2 * uvs.length := by
      rw [length_interleave]
    have hslice : slice (y ++ (interleave uvs ++ [])) (width * height) (width * height + 2 * uvs.length) = _ :=
      slice_append hy hend
    rwa [List.append_nil] at hslice
  obtain ⟨-, hplane, hrest⟩ := splitAt_eq
    (length_resize out (width * height + 2 * uvs.length) 0)
  obtain ⟨hsplit, hu, hv⟩ := splitAt_eq (hrest.trans (Nat.two_mul _))
  -- nothing of what the buffer held is left, so only its lengths matter
  generalize hout : resize out (width * height + 2 * uvs.length) 0 = buffer at hplane hrest hsplit hu hv
  -- the luma is copied over
  have hwithin : within buffer 0 (width * height) (fill · y) = some (y ++ buffer.drop (width * height)) := by
    have hbefore : ([] : List UInt8).length = 0 := rfl
    have hfirst : within ([] ++ (buffer.take (width * height) ++ buffer.drop (width * height))) 0 (width * height)
        (fill · y) = _ := within_append _ hbefore (by rw [hplane, Nat.zero_add])
    rwa [List.nil_append, List.take_append_drop, fill_eq_some (hplane.trans hy.symm), Option.map_some,
      List.nil_append] at hfirst
  have hbuffer := splitAt_append y (buffer.drop (width * height))
  rw [hy] at hbuffer
  rw [nv12ToI420]
  simp only [huvs, hluma, hchroma, hout, hwithin, hbuffer, hsplit, pairs_interleave, Option.bind_eq_bind,
    Option.bind_some]
  rw [foldlM_putPlanes_eq hu hv]
  rfl

theorem sum_isSome {top bottom : List UInt8} {o c : ℕ} (htop : o + 4 + c < top.length)
    (hbottom : o + 4 + c < bottom.length) : (sum top bottom o c).isSome := by
  have h₁ : top[o + c]? = some top[o + c] := List.getElem?_eq_getElem (by omega)
  have h₂ : top[o + 4 + c]? = some top[o + 4 + c] := List.getElem?_eq_getElem htop
  have h₃ : bottom[o + c]? = some bottom[o + c] := List.getElem?_eq_getElem (by omega)
  have h₄ : bottom[o + 4 + c]? = some bottom[o + 4 + c] := List.getElem?_eq_getElem hbottom
  rw [sum, h₁, h₂, h₃, h₄]
  rfl

theorem sample_isSome {top bottom : List UInt8} {cx : ℕ} (htop : cx * 8 + 8 ≤ top.length)
    (hbottom : cx * 8 + 8 ≤ bottom.length) : (sample top bottom cx).isSome := by
  have hsum (c : ℕ) (hc : c < 3) := Option.isSome_iff_exists.mp
    (sum_isSome (show cx * 8 + 4 + c < top.length by omega) (show cx * 8 + 4 + c < bottom.length by omega))
  obtain ⟨b, hb⟩ := hsum 0 (by decide)
  obtain ⟨g, hg⟩ := hsum 1 (by decide)
  obtain ⟨r, hr⟩ := hsum 2 (by decide)
  rw [sample, hb, hg, hr]
  rfl

/-- What is held is read. -/
theorem picture_isSome (hheld : src.Held) : (picture src).isSome := by
  have hluma (row : ℕ) (hrow : row < 2 * (src.height / 2)) : (lumaRow src (2 * (src.width / 2)) row).isSome := by
    have hrow' := hheld row (by omega)
    rw [lumaRow, slice, if_pos (by omega)]
    rfl
  have hsamples (cy : ℕ) (hcy : cy < 2 * (src.height / 2) / 2) :
      (samples src (2 * (src.width / 2)) cy).isSome := by
    have htop := hheld (cy * 2) (by omega)
    have hbottom := hheld (cy * 2 + 1) (by omega)
    rw [samples, sliceFrom, if_pos (by omega), sliceFrom, if_pos (by omega)]
    refine collect_isSome fun cx hcx => sample_isSome ?_ ?_
    · rw [List.length_drop]
      omega
    · rw [List.length_drop]
      omega
  obtain ⟨rows, hrows⟩ := Option.isSome_iff_exists.mp (collect_isSome hluma)
  obtain ⟨uvs, huvs⟩ := Option.isSome_iff_exists.mp (collect_isSome hsamples)
  rw [picture, even_eq]
  simp only [hrows, huvs, Option.bind_eq_bind, Option.bind_some]
  rfl

/-- **By way of NV12 the planes are those of I420**: for every picture, whatever the three buffers
held before, and with the same panics where the picture does not hold its rows.  One that
does has its planes. -/
theorem planes_alike (src : Bgra) (out out' out'' : List UInt8) :
    ((toNv12 src out).bind fun data =>
      nv12ToI420 ⟨data, (even src.width src.height).1, (even src.width src.height).2⟩ out') = toI420 src out'' ∧
      (src.Held → (toI420 src out'').isSome) := by
  rw [toNv12_eq, toI420_eq]
  refine ⟨?_, fun hheld => ?_⟩
  · cases hpicture : picture src with
    | none => rfl
    | some p =>
      obtain ⟨hy, huvs⟩ := length_picture hpicture
      obtain ⟨hsize, -, hquarter⟩ := sizes (src.width / 2) (src.height / 2)
      rw [Option.map_some, Option.map_some, Option.bind_some, even_eq]
      refine nv12ToI420_eq out' ?_ ?_
      · rw [hsize, hy]
      · rw [hsize, hquarter, huvs]
  · rw [Option.isSome_map]
    exact picture_isSome hheld

/-- A white picture of three pixels by three, with a byte of padding in each row. -/
example : toI420 ⟨List.replicate 39 255, 3, 3, 13⟩ [7] = some [235, 235, 235, 235, 128, 128] := by decide +kernel

end Video

end WindowCast.Host
