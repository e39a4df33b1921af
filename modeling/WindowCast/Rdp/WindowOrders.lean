import WindowCast.Lib.BigEndian
import WindowCast.Lib.Cursor
import WindowCast.Lib.Utf16

/-!
# The window orders of a server

An orders update of a Remote Desktop server (`remoteapp.rs`): orders one behind the
other, each with its own size, a window's fields present as its flags say.

## Main definitions

* `windowOrder` — what one order says.
* `orders` — what is read of an update.
* `slices` — the orders as their sizes cut them.

## Main results

* `sensitive_windowOrder` — an order that is cut short is not read the same.
* `orders_eq_slices_iff` — **which updates are read as their sizes cut them**.
-/

namespace WindowCast.Rdp

open Cursor (Steady Sensitive)

abbrev Reader (α : Type) := Cursor.Reader UInt8 α

/-! ### Numbers and texts -/

namespace Reader

def take (n : ℕ) : Reader (List UInt8) := Cursor.take n

def u8 : Reader UInt8 := do return UInt8.ofNat (LittleEndian.ofBytes (← take 1))

def u16 : Reader UInt16 := do return UInt16.ofNat (LittleEndian.ofBytes (← take 2))

def u32 : Reader UInt32 := do return UInt32.ofNat (LittleEndian.ofBytes (← take 4))

def i32 : Reader Int32 := do return (← u32).toInt32

/-- The units two bytes make; a byte that is left makes none. -/
def units : List UInt8 → List UInt16
  | low :: high :: rest => UInt16.ofNat (LittleEndian.ofBytes [low, high]) :: units rest
  | _ => []

def unicode : Reader Text := do
  let len ← u16
  let bytes ← take len.toNat
  return Utf16.decode (units bytes)

theorem steady_u8 : Steady u8 := (Steady.take 1).map _

theorem steady_u16 : Steady u16 := (Steady.take 2).map _

theorem steady_u32 : Steady u32 := (Steady.take 4).map _

theorem steady_i32 : Steady i32 := steady_u32.map _

theorem steady_unicode : Steady unicode := steady_u16.bind fun _ => (Steady.take _).map _

end Reader

open Reader

/-! ### What an order says -/

structure RemoteWindow where
  id : UInt32
  owner : UInt32
  title : Text
  style : UInt32
  exStyle : UInt32
  show_ : UInt8
  /-- Its top-left corner on the desktop and its size. -/
  offset : Int32 × Int32
  size : UInt32 × UInt32
  deriving DecidableEq

inductive WindowOrder
  | window (new : Bool) (fields : UInt32) (window : RemoteWindow)
  | deleted (id : UInt32)
  | desktop (fields : UInt32) (active : Option UInt32)
  deriving DecidableEq

def ORDER_TYPE_WINDOW : UInt32 := 0x01000000
def ORDER_TYPE_DESKTOP : UInt32 := 0x04000000
def DESKTOP_ACTIVE_WND : UInt32 := 0x00000020
def STATE_NEW : UInt32 := 0x10000000
def STATE_DELETED : UInt32 := 0x20000000
def FIELD_APPBAR_EDGE : UInt32 := 0x00000001
def FIELD_OWNER : UInt32 := 0x00000002
def FIELD_TITLE : UInt32 := 0x00000004
def FIELD_STYLE : UInt32 := 0x00000008
def FIELD_SHOW : UInt32 := 0x00000010
def FIELD_APPBAR_STATE : UInt32 := 0x00000040
def FIELD_RESIZE_MARGIN_X : UInt32 := 0x00000080
def FIELD_WNDRECTS : UInt32 := 0x00000100
def FIELD_VISIBILITY : UInt32 := 0x00000200
def FIELD_WNDSIZE : UInt32 := 0x00000400
def FIELD_WNDOFFSET : UInt32 := 0x00000800
def FIELD_VISOFFSET : UInt32 := 0x00001000
def FIELD_CLIENTAREAOFFSET : UInt32 := 0x00004000
def FIELD_CLIENTDELTA : UInt32 := 0x00008000
def FIELD_CLIENTAREASIZE : UInt32 := 0x00010000
def FIELD_RPCONTENT : UInt32 := 0x00020000
def FIELD_ROOTPARENT : UInt32 := 0x00040000
def FIELD_ENFORCE_SERVER_ZORDER : UInt32 := 0x00080000
def FIELD_OVERLAY_DESCRIPTION : UInt32 := 0x00400000
def FIELD_TASKBAR_BUTTON : UInt32 := 0x00800000
def FIELD_RESIZE_MARGIN_Y : UInt32 := 0x08000000
def ORDER_ICON : UInt32 := 0x40000000
def ORDER_CACHED_ICON : UInt32 := 0x80000000

/-- A field, if the flags have it; else its default. -/
def present {α : Type} (fields flag : UInt32) (default : α) (field : Reader α) : Reader α :=
  if fields &&& flag ≠ 0 then field else pure default

/-- A field that is passed over. -/
def skipped (fields flag : UInt32) (n : ℕ) : Reader Unit := present fields flag () do let _ ← take n

/-- Rectangles that are passed over. -/
def skippedRects (fields flag : UInt32) : Reader Unit := present fields flag () do
  let n ← u16
  let _ ← take (n.toNat * 8)

/-- The fields of a window, in their order. -/
def windowFields (fields id : UInt32) : Reader WindowOrder := do
  let owner ← present fields FIELD_OWNER 0 u32
  let (style, exStyle) ← present fields FIELD_STYLE (0, 0) do return (← u32, ← u32)
  let show_ ← present fields FIELD_SHOW 0 u8
  let title ← present fields FIELD_TITLE [] unicode
  skipped fields FIELD_CLIENTAREAOFFSET 8
  skipped fields FIELD_CLIENTAREASIZE 8
  skipped fields FIELD_RESIZE_MARGIN_X 8
  skipped fields FIELD_RESIZE_MARGIN_Y 8
  skipped fields FIELD_RPCONTENT 1
  skipped fields FIELD_ROOTPARENT 4
  let offset ← present fields FIELD_WNDOFFSET (0, 0) do return (← i32, ← i32)
  skipped fields FIELD_CLIENTDELTA 8
  let size ← present fields FIELD_WNDSIZE (0, 0) do return (← u32, ← u32)
  skippedRects fields FIELD_WNDRECTS
  skipped fields FIELD_VISOFFSET 8
  skippedRects fields FIELD_VISIBILITY
  let _ ← present fields FIELD_OVERLAY_DESCRIPTION [] unicode
  skipped fields FIELD_TASKBAR_BUTTON 1
  skipped fields FIELD_ENFORCE_SERVER_ZORDER 1
  skipped fields FIELD_APPBAR_STATE 1
  skipped fields FIELD_APPBAR_EDGE 1
  return .window (fields &&& STATE_NEW != 0) fields ⟨id, owner, title, style, exStyle, show_, offset, size⟩

/-- The active window of a desktop, which comes first, when present. -/
def activeWindow (fields : UInt32) : Reader (Option UInt32) :=
  if fields &&& DESKTOP_ACTIVE_WND ≠ 0 then Cursor.attempt u32 else pure none

def windowOrder : Reader WindowOrder := do
  let fields ← u32
  if fields &&& ORDER_TYPE_DESKTOP ≠ 0 then
    return .desktop fields (← activeWindow fields)
  else if fields &&& ORDER_TYPE_WINDOW = 0 then
    failure -- notification icon orders
  else
    let id ← u32
    if fields &&& STATE_DELETED ≠ 0 then
      return .deleted id
    else if fields &&& (ORDER_ICON ||| ORDER_CACHED_ICON) ≠ 0 then
      failure
    else
      windowFields fields id

/-- The size of an order: an alternate secondary order of type window. -/
def header : Reader UInt16 := do
  let control ← u8
  if control &&& 0x03 ≠ 0x02 ∨ control >>> 2 ≠ 0x0B then
    failure
  else
    u16

/-- The window ones of `count` orders, until one that is not a windowing order. -/
def orders : ℕ → Cursor UInt8 → List WindowOrder
  | 0, _ => []
  | count + 1, reader =>
    match header reader with
    | none => []
    | some (size, after) =>
      let last := reader.place + size.toNat
      let order := ((windowOrder after).map Prod.fst).toList
      if reader.data.length < last then order else order ++ orders count ⟨reader.data, last⟩

/-! ### As the sizes cut them -/

/-- The bytes of each order, as its size delimits them; a size less than the header's is the end. -/
def slices : ℕ → Cursor UInt8 → List (List UInt8)
  | 0, _ => []
  | count + 1, reader =>
    match header reader with
    | none => []
    | some (size, _) =>
      let last := reader.place + size.toNat
      if size.toNat < 3 then []
      else
        (reader.data.drop reader.place).take size.toNat ::
          if reader.data.length < last then [] else slices count ⟨reader.data, last⟩

/-- What the fields of an order say is all within its size, for every order there is. -/
def Contained : ℕ → Cursor UInt8 → Prop
  | 0, _ => True
  | count + 1, reader =>
    match header reader with
    | none => True
    | some (size, after) =>
      let last := reader.place + size.toNat
      (∀ read ∈ windowOrder after, read.2.place ≤ last) ∧
        (3 ≤ size.toNat → last ≤ reader.data.length → Contained count ⟨reader.data, last⟩)

/-! ### The readers are steady -/

section

variable {fields flag id : UInt32} {n : ℕ}

theorem steady_present {α : Type} {default : α} {field : Reader α} (h : Steady field) :
    Steady (present fields flag default field) := h.ite (Steady.pure default)

theorem steady_skipped : Steady (skipped fields flag n) := steady_present ((Steady.take n).map _)

theorem steady_skippedRects : Steady (skippedRects fields flag) :=
  steady_present (steady_u16.bind fun _ => (Steady.take _).map _)

theorem steady_windowFields : Steady (windowFields fields id) := by
  have htwo {α : Type} {field : Reader α} (h : Steady field) : Steady (do return (← field, ← field)) :=
    h.bind fun _ => h.map _
  unfold windowFields
  refine (steady_present steady_u32).bind fun owner => ?_
  refine (steady_present (htwo steady_u32)).bind fun styles => ?_
  refine (steady_present steady_u8).bind fun show_ => ?_
  refine (steady_present steady_unicode).bind fun title => ?_
  refine steady_skipped.bind fun _ => ?_
  refine steady_skipped.bind fun _ => ?_
  refine steady_skipped.bind fun _ => ?_
  refine steady_skipped.bind fun _ => ?_
  refine steady_skipped.bind fun _ => ?_
  refine steady_skipped.bind fun _ => ?_
  refine (steady_present (htwo steady_i32)).bind fun offset => ?_
  refine steady_skipped.bind fun _ => ?_
  refine (steady_present (htwo steady_u32)).bind fun size => ?_
  refine steady_skippedRects.bind fun _ => ?_
  refine steady_skipped.bind fun _ => ?_
  refine steady_skippedRects.bind fun _ => ?_
  refine (steady_present steady_unicode).bind fun _ => ?_
  refine steady_skipped.bind fun _ => ?_
  refine steady_skipped.bind fun _ => ?_
  refine steady_skipped.bind fun _ => ?_
  exact steady_skipped.map _

/-- An order that is cut short is not read the same. -/
theorem sensitive_windowOrder : Sensitive windowOrder := by
  refine Sensitive.bind steady_u32 fun fields => ?_
  refine Sensitive.ite ?_ (Sensitive.ite Steady.failure.sensitive ?_)
  · -- the only field that may be missing: without it, another order is read
    refine Sensitive.map (fun _ _ h => (WindowOrder.desktop.inj h).2) ?_
    exact steady_u32.attempt.ite (Steady.pure none).sensitive
  · refine Sensitive.bind steady_u32 fun id => ?_
    exact ((Steady.pure _).ite (Steady.failure.ite steady_windowFields)).sensitive

theorem steady_header : Steady header := steady_u8.bind fun _ => Steady.failure.ite steady_u16

end

/-! ### One order -/

section

variable {reader after : Cursor UInt8} {size : UInt16} {count : ℕ}

theorem drop_of_take {n : ℕ} {bytes : List UInt8} (h : take n reader = some (bytes, after)) :
    reader.place + n ≤ reader.data.length ∧ bytes = (reader.data.drop reader.place).take n ∧
      after = ⟨reader.data, reader.place + n⟩ := by
  obtain ⟨hle, h⟩ := Option.ite_none_right_eq_some.mp h
  obtain ⟨hbytes, hafter⟩ := Prod.mk.inj (Option.some.inj h)
  exact ⟨hle, hbytes.symm, hafter.symm⟩

/-- The three bytes of a header. -/
theorem bytes_of_header (h : header reader = some (size, after)) :
    ∃ control low high rest, reader.data.drop reader.place = control :: low :: high :: rest ∧
      size.toNat = low.toNat + 256 * high.toNat ∧ after = ⟨reader.data, reader.place + 3⟩ := by
  obtain ⟨control, next, hcontrol, h⟩ := Cursor.bind_eq_some h
  obtain ⟨bytes, next', htake, hnext⟩ := Cursor.bind_eq_some hcontrol
  obtain ⟨hle, -, rfl⟩ := drop_of_take htake
  obtain ⟨-, rfl⟩ := Prod.mk.inj (Option.some.inj hnext)
  split at h
  · exact nomatch h
  obtain ⟨bytes', last, htake', hlast⟩ := Cursor.bind_eq_some h
  obtain ⟨hle', hbytes', rfl⟩ := drop_of_take htake'
  obtain ⟨rfl, rfl⟩ := Prod.mk.inj (Option.some.inj hlast)
  have hlength : 3 ≤ (reader.data.drop reader.place).length := by
    rw [List.length_drop]
    simp only at hle'
    omega
  have htail : reader.data.drop (reader.place + 1) = (reader.data.drop reader.place).tail := by
    rw [List.tail_drop]
  rw [htail] at hbytes'
  match hdrop : reader.data.drop reader.place, hlength with
  | control :: low :: high :: rest, _ =>
    refine ⟨control, low, high, rest, rfl, ?_, rfl⟩
    rw [hdrop] at hbytes'
    have hlow := low.toNat_lt
    have hhigh := high.toNat_lt
    have hnumber : LittleEndian.ofBytes bytes' = low.toNat + 256 * high.toNat := by
      subst hbytes'
      show (0 * 256 + high.toNat) * 256 + low.toNat = _
      omega
    rw [hnumber, UInt16.toNat_ofNat_of_lt' (show low.toNat + 256 * high.toNat < 2 ^ 16 by omega)]

/-- What is no control byte of a window order is no header. -/
theorem header_eq_none {data rest : List UInt8} {place : ℕ} {control : UInt8} (h : data.drop place = control :: rest)
    (hcontrol : control &&& 0x03 ≠ 0x02) : header ⟨data, place⟩ = none := by
  cases hread : u8 ⟨data, place⟩ with
  | none => exact Cursor.bind_of_none hread
  | some read =>
    obtain ⟨byte, next⟩ := read
    have hbyte : byte = control := by
      obtain ⟨bytes, next', htake, hnext⟩ := Cursor.bind_eq_some hread
      obtain ⟨-, hbytes, -⟩ := drop_of_take htake
      obtain ⟨rfl, -⟩ := Prod.mk.inj (Option.some.inj hnext)
      rw [h] at hbytes
      subst hbytes
      show UInt8.ofNat (0 * 256 + control.toNat) = control
      rw [Nat.zero_mul, Nat.zero_add, UInt8.ofNat_toNat]
    subst hbyte
    rw [header, Cursor.bind_of_some hread, if_pos (.inl hcontrol)]
    rfl

theorem orders_of_header_eq_none (h : header reader = none) : orders count reader = [] := by
  cases count with
  | zero => rfl
  | succ count => rw [orders, h]

theorem slices_of_header_eq_none (h : header reader = none) : slices count reader = [] := by
  cases count with
  | zero => rfl
  | succ count => rw [slices, h]

/-- A size less than the header's, with no order behind it, is the end as well: the size zero
comes back to the same header, and the others come to a byte of the size. -/
theorem orders_eq_nil (h : header reader = some (size, after)) (hsize : size.toNat < 3)
    (hnone : windowOrder after = none) : orders count reader = [] := by
  obtain ⟨control, low, high, rest, hdrop, hnumber, -⟩ := bytes_of_header h
  have hlow := low.toNat_lt
  have hdrop₁ : reader.data.drop (reader.place + 1) = low :: high :: rest := by
    rw [← List.tail_drop, hdrop, List.tail_cons]
  have hdrop₂ : reader.data.drop (reader.place + 2) = high :: rest := by
    rw [← List.tail_drop, hdrop₁, List.tail_cons]
  induction count with
  | zero => rfl
  | succ count ih =>
    rw [orders, h]
    dsimp only
    rw [hnone, Option.map_none, Option.toList_none, List.nil_append, ite_eq_left_iff]
    intro _
    rcases (by omega : size.toNat = 0 ∨ size.toNat = 1 ∨ size.toNat = 2) with hzero | hone | htwo
    · rw [hzero, Nat.add_zero]
      exact ih
    · rw [hone]
      have : low = 1 := UInt8.toNat_inj.mp (show low.toNat = 1 by omega)
      exact orders_of_header_eq_none (header_eq_none hdrop₁ (by rw [this]; decide))
    · rw [htwo]
      have : high = 0 := UInt8.toNat_inj.mp (show high.toNat = 0 by omega)
      exact orders_of_header_eq_none (header_eq_none hdrop₂ (by rw [this]; decide))

theorem in_of_header (h : header reader = some (size, after)) (hsize : 3 ≤ size.toNat) :
    after.In reader.place size.toNat := by
  obtain ⟨control, low, high, rest, hdrop, -, rfl⟩ := bytes_of_header h
  refine ⟨Nat.le_add_right _ _, Nat.add_le_add_left hsize _, ?_⟩
  show reader.place ≤ reader.data.length
  by_contra hlt
  rw [List.drop_eq_nil_of_le (Nat.le_of_not_le hlt)] at hdrop
  exact nomatch hdrop

/-- A slice alone is the order that is read within its size. -/
theorem orders_slice (h : header reader = some (size, after)) (hsize : 3 ≤ size.toNat) :
    orders 1 ⟨(reader.data.drop reader.place).take size.toNat, 0⟩ =
      ((windowOrder (after.part reader.place size.toNat)).map Prod.fst).toList := by
  have hafter := in_of_header h hsize
  have hlength : reader.place ≤ reader.data.length := (steady_header.after h).data ▸ hafter.start_le_length
  have hin : reader.In reader.place size.toNat := ⟨Nat.le_refl _, Nat.le_add_right _ _, hlength⟩
  have hpart := steady_header.sensitive.within hin h hafter.place_le
  rw [Cursor.part, Nat.sub_self] at hpart
  rw [orders, hpart]
  dsimp only
  split
  · rfl
  · exact List.append_nil _

theorem windowOrder_inRange {order : WindowOrder} (h : windowOrder reader = some (order, after)) :
    after.place ≤ reader.data.length := by
  rcases (sensitive_windowOrder.after h).inRange with rfl | hle
  · obtain ⟨fields, next, hfields, -⟩ := Cursor.bind_eq_some h
    obtain ⟨bytes, next', htake, -⟩ := Cursor.bind_eq_some hfields
    have := (drop_of_take htake).1
    omega
  · exact hle

/-- One order is read as its slice alone if its fields are within, whatever comes behind. -/
theorem append_windowOrder_eq_iff {start n : ℕ} (behind behind' : List WindowOrder) (hin : reader.In start n)
    (hlength : behind'.length ≤ behind.length) :
    ((windowOrder reader).map Prod.fst).toList ++ behind =
        ((windowOrder (reader.part start n)).map Prod.fst).toList ++ behind' ↔
      (∀ read ∈ windowOrder reader, read.2.place ≤ start + n) ∧ behind = behind' := by
  cases hread : windowOrder reader with
  | none => simp [sensitive_windowOrder.fails hin hread]
  | some read =>
    obtain ⟨order, after⟩ := read
    by_cases hle : after.place ≤ start + n
    · simp [sensitive_windowOrder.within hin hread hle, hle]
    · have hbeyond (after' : Cursor UInt8) : windowOrder (reader.part start n) ≠ some (order, after') :=
        sensitive_windowOrder.beyond hin hread (Nat.lt_of_not_le hle)
      refine iff_of_false (fun heq => ?_) (fun h => hle (h.1 _ rfl))
      cases hpart : windowOrder (reader.part start n) with
      | none =>
        rw [hpart] at heq
        have := congrArg List.length heq
        simp only [Option.map_some, Option.map_none, Option.toList_some, Option.toList_none, List.length_append,
          List.length_singleton, List.length_nil] at this
        omega
      | some read' =>
        rw [hpart] at heq
        have horder : order = read'.1 := (List.cons.inj heq).1
        exact hbeyond read'.2 (by rw [hpart, horder])

end

/-! ### All orders -/

section

variable (count : ℕ) (reader : Cursor UInt8)

/-- The orders of the slices, each alone. -/
def cut : List WindowOrder := (slices count reader).flatMap fun slice => orders 1 ⟨slice, 0⟩

variable {count reader} {after : Cursor UInt8} {size : UInt16}

theorem cut_of_lt (h : header reader = some (size, after)) (hsize : size.toNat < 3) : cut (count + 1) reader = [] := by
  rw [cut, slices, h]
  dsimp only
  rw [if_pos hsize, List.flatMap_nil]

theorem cut_of_le (h : header reader = some (size, after)) (hsize : 3 ≤ size.toNat) :
    cut (count + 1) reader = ((windowOrder (after.part reader.place size.toNat)).map Prod.fst).toList ++
      if reader.data.length < reader.place + size.toNat then []
      else cut count ⟨reader.data, reader.place + size.toNat⟩ := by
  rw [cut, slices, h]
  dsimp only
  rw [if_neg (Nat.not_lt_of_le hsize), List.flatMap_cons, orders_slice h hsize]
  split
  · rfl
  · rfl

/-- A part never has more orders than the whole. -/
theorem length_cut_le (count : ℕ) (reader : Cursor UInt8) :
    (cut count reader).length ≤ (orders count reader).length := by
  induction count generalizing reader with
  | zero => exact Nat.le_refl _
  | succ count ih =>
    cases h : header reader with
    | none =>
      rw [cut, slices_of_header_eq_none h]
      exact Nat.zero_le _
    | some read =>
      obtain ⟨size, after⟩ := read
      rcases Nat.lt_or_ge size.toNat 3 with hsize | hsize
      · rw [cut_of_lt h hsize]
        exact Nat.zero_le _
      · have hone : ((windowOrder (after.part reader.place size.toNat)).map Prod.fst).toList.length ≤
            ((windowOrder after).map Prod.fst).toList.length := by
          cases hread : windowOrder after with
          | none => rw [sensitive_windowOrder.fails (in_of_header h hsize) hread]
          | some read =>
            cases windowOrder (after.part reader.place size.toNat) with
            | none => exact Nat.zero_le _
            | some read' => exact Nat.le_refl _
        rw [cut_of_le h hsize, orders, h]
        dsimp only
        split
        · rw [List.append_nil]
          exact hone
        · rw [List.length_append, List.length_append]
          exact Nat.add_le_add hone (ih _)

/-- Which updates are read as their sizes cut them: those in which every order that is come to has
its fields within its size.  Nothing is ever read beyond the end. -/
theorem orders_eq_slices_iff (count : ℕ) (reader : Cursor UInt8) :
    (∀ order after, windowOrder reader = some (order, after) → after.place ≤ reader.data.length) ∧
      (orders count reader = cut count reader ↔ Contained count reader) := by
  refine ⟨fun order after => windowOrder_inRange, ?_⟩
  induction count generalizing reader with
  | zero => exact iff_of_true rfl trivial
  | succ count ih =>
    cases h : header reader with
    | none =>
      rw [cut, orders_of_header_eq_none h, slices_of_header_eq_none h, Contained, h]
      exact iff_of_true rfl trivial
    | some read =>
      obtain ⟨size, after⟩ := read
      rw [Contained, h]
      dsimp only
      rcases Nat.lt_or_ge size.toNat 3 with hsize | hsize
      · rw [cut_of_lt h hsize]
        cases hread : windowOrder after with
        | none =>
          rw [orders_eq_nil h hsize hread]
          exact iff_of_true rfl ⟨nofun, fun hle => absurd hsize (Nat.not_lt_of_le hle)⟩
        | some read =>
          -- the order is read from beyond its own end
          have hplace := (sensitive_windowOrder.after hread).le
          obtain ⟨-, -, -, -, -, -, rfl⟩ := bytes_of_header h
          refine iff_of_false (fun heq => ?_) (fun hcontained => ?_)
          · rw [orders, h] at heq
            simp only [hread, Option.map_some, Option.toList_some] at heq
            split at heq <;> exact nomatch heq
          · have := hcontained.1 read rfl
            simp only at hplace
            omega
      · have hin := in_of_header h hsize
        rw [cut_of_le h hsize, orders, h]
        dsimp only
        by_cases hlast : reader.data.length < reader.place + size.toNat
        · rw [if_pos hlast, if_pos hlast]
          have := append_windowOrder_eq_iff [] [] hin (Nat.le_refl _)
          rw [List.append_nil] at this
          rw [this]
          exact and_congr_right fun _ => iff_of_true rfl fun _ hle => absurd hlast (Nat.not_lt_of_le hle)
        · rw [if_neg hlast, if_neg hlast, append_windowOrder_eq_iff _ _ hin (length_cut_le _ _), ih]
          exact and_congr_right fun _ =>
            ⟨fun hrest _ _ => hrest, fun hrest => hrest hsize (Nat.le_of_not_lt hlast)⟩

/-- The end of window 1, in an order whose size is given as zero. -/
def sizeZero : List UInt8 := [0x2e, 0, 0, 0, 0, 0, 0x21, 1, 0, 0, 0]

/-- It is read again for every order the update counts, and none of it is within its size. -/
theorem sizeZero_read : ¬ ∀ count reader, orders count reader = cut count reader := fun h =>
  absurd (h 2 ⟨sizeZero, 0⟩) (by decide)

end

end WindowCast.Rdp
