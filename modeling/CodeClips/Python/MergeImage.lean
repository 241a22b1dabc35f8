import Mathlib.Algebra.Order.BigOperators.Group.List
import Mathlib.Data.Int.ConditionallyCompleteOrder
import Mathlib.Data.Set.Prod
import Mathlib.Order.CompletePartialOrder
import Mathlib.Order.Interval.Set.Basic
import Mathlib.Tactic.Linarith
import Mathlib.Tactic.Ring

/-!
# Merged images

`MergeImg` finds the size of the canvas in one loop over the images, and pastes them in another,
below each other, beside each other or in a grid. A size is a width and a height; what `save`
pastes is the list of the rectangles. `/` is the division of integers of Python 2. The proofs know of the
border that it is not negative, and of the columns that there are some.
-/

namespace CodeClips.MergeImage

/-- `im.size` -/
abbrev Size := Nat × Nat

/-- A place in the merged image: its upper left corner and its size. -/
structure Rect where
  x : Int
  y : Int
  size : Size
  deriving DecidableEq

def BORDER_SIZE : Int := 0

def COLS : Int := 5

/-- The fields that the size and the places depend on. -/
structure MergeImg where
  images : List Size
  num : Int
  mode : Int
  width : Int
  height : Int
  WIDTHEST : Int
  HEIGHTEST : Int
  ROWS : Int
  deriving DecidableEq

/-- `if n > most: most = n` -/
def raise (most : Int) (n : Nat) : Int := if most < n then n else most

/-- The bodies of the loops of `__init__`. -/
def open_below (self : MergeImg) (im : Size) : MergeImg :=
  { self with width := raise self.width im.1, height := self.height + im.2, images := self.images ++ [im] }

def open_beside (self : MergeImg) (im : Size) : MergeImg :=
  { self with height := raise self.height im.2, width := self.width + im.1, images := self.images ++ [im] }

def open_grid (self : MergeImg) (im : Size) : MergeImg :=
  { self with
    WIDTHEST := raise self.WIDTHEST im.1
    HEIGHTEST := raise self.HEIGHTEST im.2
    images := self.images ++ [im] }

/-- `__init__` -/
def init (imageFiles : List Size) (mode : Int) : MergeImg :=
  let self : MergeImg :=
    { images := [], num := imageFiles.length, mode, width := 0, height := 0, WIDTHEST := 0, HEIGHTEST := 0, ROWS := 1 }
  if mode = 0 then
    let self := imageFiles.foldl open_below self
    { self with width := self.width + 2 * BORDER_SIZE, height := self.height + (self.num + 1) * BORDER_SIZE }
  else if mode = 1 then
    let self := imageFiles.foldl open_beside self
    { self with width := self.width + (self.num + 1) * BORDER_SIZE, height := self.height + 2 * BORDER_SIZE }
  else if mode = 2 then
    let self := imageFiles.foldl open_grid self
    let ROWS := (self.num - 1) / COLS + 1
    { self with
      width := self.WIDTHEST * COLS + (COLS + 1) * BORDER_SIZE
      ROWS
      height := self.HEIGHTEST * ROWS + (ROWS + 1) * BORDER_SIZE }
  else self

/-- The loop of the first two modes: `place` is where an image is pasted when `cur` is reached,
and `along` how far it takes `cur`. -/
def paste_line (place : Int → Size → Rect) (along : Size → Nat) : Int → List Size → List Rect
  | _, [] => []
  | cur, image :: images => place cur image :: paste_line place along (cur + along image + BORDER_SIZE) images

/-- The loop over the grid. -/
def paste_grid (self : MergeImg) : Int → Int → Int → List Size → List Rect
  | _, _, _, [] => []
  | i, curWidth, curHeight, img :: imgs =>
    let offsetWidth := (self.WIDTHEST - img.1) / 2
    let offsetHeight := (self.HEIGHTEST - img.2) / 2
    ⟨curWidth + offsetWidth, curHeight + offsetHeight, img⟩ ::
      paste_grid self (i + 1) (BORDER_SIZE + (self.WIDTHEST + BORDER_SIZE) * ((i + 1) % COLS))
        (BORDER_SIZE + (self.HEIGHTEST + BORDER_SIZE) * ((i + 1) / COLS)) imgs

def place_below (self : MergeImg) (curHeight : Int) (image : Size) : Rect :=
  let offset := (self.width - 2 * BORDER_SIZE - image.1) / 2
  ⟨BORDER_SIZE + offset, curHeight, image⟩

def place_beside (self : MergeImg) (curWidth : Int) (image : Size) : Rect :=
  let offset := (self.height - 2 * BORDER_SIZE - image.2) / 2
  ⟨curWidth, BORDER_SIZE + offset, image⟩

/-- The rectangles that are pasted on the canvas of the size `(self.width, self.height)`. -/
def save (self : MergeImg) : List Rect :=
  if self.mode = 0 then paste_line (place_below self) (·.2) BORDER_SIZE self.images
  else if self.mode = 1 then paste_line (place_beside self) (·.1) BORDER_SIZE self.images
  else if self.mode = 2 then paste_grid self 0 BORDER_SIZE BORDER_SIZE self.images
  else []

/-! ## Rectangles -/

namespace Rect

/-- Where it ends on the right; the column there is outside. -/
def right (r : Rect) : Int := r.x + r.size.1

/-- Where it ends below. -/
def bottom (r : Rect) : Int := r.y + r.size.2

/-- The pixels that it covers. -/
def pixels (r : Rect) : Set (Int × Int) := Set.Ico r.x r.right ×ˢ Set.Ico r.y r.bottom

/-- No pixel is cut off. -/
structure Inside (r : Rect) (width height : Int) : Prop where
  left : 0 ≤ r.x
  right : r.right ≤ width
  top : 0 ≤ r.y
  bottom : r.bottom ≤ height

/-- One that ends above another does not overlap it. -/
theorem disjoint_of_above {r s : Rect} (above : r.bottom ≤ s.y) : Disjoint r.pixels s.pixels :=
  Set.disjoint_left.mpr fun _ inside inside' => absurd inside.2.2 (above.trans inside'.2.1).not_gt

/-- And one that ends left of it. -/
theorem disjoint_of_left {r s : Rect} (left : r.right ≤ s.x) : Disjoint r.pixels s.pixels :=
  Set.disjoint_left.mpr fun _ inside inside' => absurd inside.1.2 (left.trans inside'.1.1).not_gt

end Rect

theorem border_nonneg : 0 ≤ BORDER_SIZE := by decide

theorem cols_pos : 0 < COLS := by decide

/-! ## What the first loop finds -/

/-- The maximum is not less than what it is taken of. -/
theorem le_raise (most : Int) (n : Nat) : most ≤ raise most n := by
  unfold raise
  split_ifs <;> omega

theorem le_raise_right (most : Int) (n : Nat) : n ≤ raise most n := by
  unfold raise
  split_ifs <;> omega

/-- The greatest of the lengths. -/
def most (length : Size → Nat) (images : List Size) (start : Int) : Int :=
  images.foldl (fun n im => raise n (length im)) start

def total (length : Size → Nat) (images : List Size) : Int := (images.map fun im => (length im : Int)).sum

section Loops
variable (length : Size → Nat) (images : List Size)

theorem most_spec (start : Int) : start ≤ most length images start ∧ ∀ im ∈ images, length im ≤ most length images start := by
  induction images generalizing start with
  | nil => exact ⟨le_refl start, List.forall_mem_nil _⟩
  | cons im images ih =>
    obtain ⟨least, all⟩ := ih (raise start (length im))
    exact ⟨(le_raise _ _).trans least, List.forall_mem_cons.mpr ⟨(le_raise_right _ _).trans least, all⟩⟩

theorem foldl_add_length (start : Int) : images.foldl (fun (n : Int) im => n + length im) start = start + total length images := by
  induction images generalizing start with
  | nil => exact (add_zero start).symm
  | cons im images ih => rw [List.foldl_cons, ih, total, total, List.map_cons, List.sum_cons, add_assoc]

theorem foldl_append_singleton (start : List Size) : images.foldl (fun all im => all ++ [im]) start = start ++ images := by
  induction images generalizing start with
  | nil => exact (List.append_nil start).symm
  | cons im images ih => rw [List.foldl_cons, ih, List.append_assoc, List.singleton_append]

/-- A field of the object after the loop. -/
theorem foldl_field {β : Type} (field : MergeImg → β) (step : MergeImg → Size → MergeImg) (g : β → Size → β)
    (one : ∀ self im, field (step self im) = g (field self) im) (self : MergeImg) :
    field (images.foldl step self) = images.foldl g (field self) := by
  induction images generalizing self with
  | nil => rfl
  | cons im images ih => rw [List.foldl_cons, List.foldl_cons, ih, one]

end Loops

/-! ## The canvas -/

section Canvas
variable (images : List Size)

theorem init_below :
    (init images 0).images = images ∧ (init images 0).mode = 0 ∧
    (init images 0).width = most (·.1) images 0 + 2 * BORDER_SIZE ∧
    (init images 0).height = total (·.2) images + (images.length + 1) * BORDER_SIZE := by
  simp only [init, if_pos]
  rw [foldl_field images MergeImg.images open_below (fun all im => all ++ [im]) fun _ _ => rfl,
    foldl_field images MergeImg.mode open_below (fun mode _ => mode) fun _ _ => rfl,
    foldl_field images MergeImg.width open_below (fun n im => raise n im.1) fun _ _ => rfl,
    foldl_field images MergeImg.height open_below (fun n im => n + im.2) fun _ _ => rfl,
    foldl_field images MergeImg.num open_below (fun num _ => num) fun _ _ => rfl,
    foldl_append_singleton, foldl_add_length (·.2), List.foldl_fixed, List.foldl_fixed, zero_add]
  exact ⟨rfl, rfl, rfl, rfl⟩

theorem init_beside :
    (init images 1).images = images ∧ (init images 1).mode = 1 ∧
    (init images 1).height = most (·.2) images 0 + 2 * BORDER_SIZE ∧
    (init images 1).width = total (·.1) images + (images.length + 1) * BORDER_SIZE := by
  simp only [init, if_pos, one_ne_zero, if_false]
  rw [foldl_field images MergeImg.images open_beside (fun all im => all ++ [im]) fun _ _ => rfl,
    foldl_field images MergeImg.mode open_beside (fun mode _ => mode) fun _ _ => rfl,
    foldl_field images MergeImg.height open_beside (fun n im => raise n im.2) fun _ _ => rfl,
    foldl_field images MergeImg.width open_beside (fun n im => n + im.1) fun _ _ => rfl,
    foldl_field images MergeImg.num open_beside (fun num _ => num) fun _ _ => rfl,
    foldl_append_singleton, foldl_add_length (·.1), List.foldl_fixed, List.foldl_fixed, zero_add]
  exact ⟨rfl, rfl, rfl, rfl⟩

/-- The cells of the grid are as wide as the widest image and as high as the highest. -/
theorem init_grid :
    (init images 2).images = images ∧ (init images 2).mode = 2 ∧
    (init images 2).WIDTHEST = most (·.1) images 0 ∧ (init images 2).HEIGHTEST = most (·.2) images 0 ∧
    (init images 2).ROWS = (images.length - 1) / COLS + 1 ∧
    (init images 2).width = (init images 2).WIDTHEST * COLS + (COLS + 1) * BORDER_SIZE ∧
    (init images 2).height =
      (init images 2).HEIGHTEST * (init images 2).ROWS + ((init images 2).ROWS + 1) * BORDER_SIZE := by
  have differ : (2 : Int) ≠ 0 ∧ (2 : Int) ≠ 1 := by decide
  simp only [init, if_neg differ.1, if_neg differ.2, if_pos]
  rw [foldl_field images MergeImg.images open_grid (fun all im => all ++ [im]) fun _ _ => rfl,
    foldl_field images MergeImg.mode open_grid (fun mode _ => mode) fun _ _ => rfl,
    foldl_field images MergeImg.WIDTHEST open_grid (fun n im => raise n im.1) fun _ _ => rfl,
    foldl_field images MergeImg.HEIGHTEST open_grid (fun n im => raise n im.2) fun _ _ => rfl,
    foldl_field images MergeImg.num open_grid (fun num _ => num) fun _ _ => rfl,
    foldl_append_singleton, List.foldl_fixed, List.foldl_fixed]
  exact ⟨rfl, rfl, rfl, rfl, rfl, trivial, trivial⟩

end Canvas

/-! ## A line -/

section Line
variable (place : Int → Size → Rect) (along : Size → Nat) (start extent : Rect → Int)

/-- Along the line the images follow each other, and end before the last border. -/
theorem paste_line_spec (begins : ∀ cur im, start (place cur im) = cur)
    (ends : ∀ cur im, extent (place cur im) = cur + along im) (cur : Int) (images : List Size) :
    (∀ r ∈ paste_line place along cur images, cur ≤ start r ∧ extent r ≤ cur + (images.map fun im => along im + BORDER_SIZE).sum - BORDER_SIZE) ∧
    (paste_line place along cur images).Pairwise fun r s => extent r ≤ start s := by
  have border := border_nonneg
  have sum_nonneg (images : List Size) : 0 ≤ (images.map fun im => along im + BORDER_SIZE).sum :=
    List.sum_nonneg fun n member => by
      obtain ⟨im, -, rfl⟩ := List.mem_map.mp member
      omega
  induction images generalizing cur with
  | nil => exact ⟨List.forall_mem_nil _, List.Pairwise.nil⟩
  | cons im images ih =>
    obtain ⟨inside, apart⟩ := ih (cur + along im + BORDER_SIZE)
    have rest := sum_nonneg images
    rw [paste_line, List.forall_mem_cons, List.pairwise_cons, begins, ends, List.map_cons, List.sum_cons]
    refine ⟨⟨⟨le_refl cur, by omega⟩, ?_⟩, ?_, apart⟩
    · intro r member
      have here := inside r member
      omega
    · intro r member
      have here := inside r member
      omega

/-- Every image is pasted. -/
theorem paste_line_size (sized : ∀ cur im, (place cur im).size = im) (cur : Int) (images : List Size) :
    (paste_line place along cur images).map Rect.size = images := by
  induction images generalizing cur with
  | nil => rfl
  | cons im images ih => rw [paste_line, List.map_cons, sized, ih]

variable {place along} in
theorem mem_paste_line {cur : Int} {images : List Size} {r : Rect} (member : r ∈ paste_line place along cur images) :
    ∃ cur', ∃ im ∈ images, r = place cur' im := by
  induction images generalizing cur with
  | nil => cases member
  | cons im images ih =>
    rcases List.mem_cons.mp member with rfl | later
    · exact ⟨cur, im, List.mem_cons_self, rfl⟩
    · obtain ⟨cur', im', inside, eq⟩ := ih later
      exact ⟨cur', im', List.mem_cons_of_mem im inside, eq⟩

end Line

/-! ## A grid -/

/-- Where the cell with the number `i` begins. -/
def cellX (self : MergeImg) (i : Int) : Int := BORDER_SIZE + (self.WIDTHEST + BORDER_SIZE) * (i % COLS)

def cellY (self : MergeImg) (i : Int) : Int := BORDER_SIZE + (self.HEIGHTEST + BORDER_SIZE) * (i / COLS)

structure InCell (merged : MergeImg) (i : Int) (r : Rect) : Prop where
  left : cellX merged i ≤ r.x
  right : r.right ≤ cellX merged i + merged.WIDTHEST
  top : cellY merged i ≤ r.y
  bottom : r.bottom ≤ cellY merged i + merged.HEIGHTEST

section Grid
variable {merged : MergeImg} {i j : Int} {r s : Rect}

/-- In a later row, or in the same row farther right. -/
theorem InCell.disjoint (inside : InCell merged i r) (inside' : InCell merged j s) (wide : 0 ≤ merged.WIDTHEST)
    (high : 0 ≤ merged.HEIGHTEST) (lt : i < j) : Disjoint r.pixels s.pixels := by
  have border := border_nonneg
  rcases eq_or_lt_of_le (Int.ediv_le_ediv cols_pos lt.le) with same | later
  · have columns : i % COLS + 1 ≤ j % COLS := by
      have left := Int.emod_add_mul_ediv i COLS
      have right := Int.emod_add_mul_ediv j COLS
      rw [same] at left
      omega
    have next := Int.mul_le_mul_of_nonneg_left columns (add_nonneg wide border)
    apply Rect.disjoint_of_left
    have right := inside.right
    have left := inside'.left
    rw [cellX] at right left
    linarith
  · have rows : i / COLS + 1 ≤ j / COLS := later
    have next := Int.mul_le_mul_of_nonneg_left rows (add_nonneg high border)
    apply Rect.disjoint_of_above
    have bottom := inside.bottom
    have top := inside'.top
    rw [cellY] at bottom top
    linarith

/-- The cells lie on the canvas. -/
theorem InCell.inside (inside : InCell merged i r) (wide : 0 ≤ merged.WIDTHEST) (high : 0 ≤ merged.HEIGHTEST) (first : 0 ≤ i)
    (last : i / COLS + 1 ≤ merged.ROWS) :
    r.Inside (merged.WIDTHEST * COLS + (COLS + 1) * BORDER_SIZE) (merged.HEIGHTEST * merged.ROWS + (merged.ROWS + 1) * BORDER_SIZE) := by
  have border := border_nonneg
  have column : i % COLS + 1 ≤ COLS := Int.emod_lt_of_pos i cols_pos
  have column_nonneg := Int.emod_nonneg i cols_pos.ne'
  have row_nonneg := Int.ediv_nonneg first cols_pos.le
  have columns := Int.mul_le_mul_of_nonneg_left column (add_nonneg wide border)
  have rows := Int.mul_le_mul_of_nonneg_left last (add_nonneg high border)
  have x := mul_nonneg (add_nonneg wide border) column_nonneg
  have y := mul_nonneg (add_nonneg high border) row_nonneg
  obtain ⟨left, right, top, bottom⟩ := inside
  rw [cellX] at left right
  rw [cellY] at top bottom
  constructor <;> linarith

/-- The image with the number `i` lies in the cell with that number. -/
theorem paste_grid_spec (i : Int) {images : List Size}
    (fits : ∀ im ∈ images, (im.1 : Int) ≤ merged.WIDTHEST ∧ (im.2 : Int) ≤ merged.HEIGHTEST) :
    (∀ r ∈ paste_grid merged i (cellX merged i) (cellY merged i) images, ∃ j, i ≤ j ∧ j < i + images.length ∧ InCell merged j r) ∧
    (paste_grid merged i (cellX merged i) (cellY merged i) images).Pairwise (fun r s => Disjoint r.pixels s.pixels) ∧
    (paste_grid merged i (cellX merged i) (cellY merged i) images).map Rect.size = images := by
  induction images generalizing i with
  | nil => exact ⟨List.forall_mem_nil _, List.Pairwise.nil, rfl⟩
  | cons im images ih =>
    obtain ⟨⟨wide, high⟩, others⟩ := List.forall_mem_cons.mp fits
    obtain ⟨cells, apart, sizes⟩ := ih (i + 1) others
    have here : InCell merged i
        ⟨cellX merged i + (merged.WIDTHEST - im.1) / 2, cellY merged i + (merged.HEIGHTEST - im.2) / 2, im⟩ := by
      constructor <;> simp only [Rect.right, Rect.bottom] <;> omega
    have next : paste_grid merged i (cellX merged i) (cellY merged i) (im :: images) =
        ⟨cellX merged i + (merged.WIDTHEST - im.1) / 2, cellY merged i + (merged.HEIGHTEST - im.2) / 2, im⟩ ::
          paste_grid merged (i + 1) (cellX merged (i + 1)) (cellY merged (i + 1)) images := rfl
    rw [next, List.forall_mem_cons, List.pairwise_cons, List.map_cons, sizes, List.length_cons]
    refine ⟨⟨⟨i, le_refl i, by omega, here⟩, ?_⟩, ⟨?_, apart⟩, rfl⟩
    · intro r member
      obtain ⟨j, low, upper, cell⟩ := cells r member
      exact ⟨j, by omega, by omega, cell⟩
    · intro r member
      obtain ⟨j, low, -, cell⟩ := cells r member
      exact here.disjoint cell (by omega) (by omega) (by omega)

end Grid

/-! ## The layout -/

/-- All images are pasted, inside the canvas, and none covers another. -/
structure Laid (images : List Size) (merged : MergeImg) : Prop where
  sizes : (save merged).map Rect.size = images
  inside : ∀ r ∈ save merged, r.Inside merged.width merged.height
  disjoint : (save merged).Pairwise fun r s => Disjoint r.pixels s.pixels

section Laid
variable (images : List Size)

theorem sum_borders (along : Size → Nat) :
    (images.map fun im => along im + BORDER_SIZE).sum = total along images + images.length * BORDER_SIZE := by
  induction images with
  | nil => simp [total]
  | cons im images ih =>
    rw [List.map_cons, List.sum_cons, ih, total, total, List.map_cons, List.sum_cons, List.length_cons]
    push_cast
    ring

variable {images} in
/-- A line that fits across the canvas as each of its images does. -/
theorem laid_line {merged : MergeImg} {place : Int → Size → Rect} {along : Size → Nat} {start extent : Rect → Int}
    (pasted : save merged = paste_line place along BORDER_SIZE images) (sized : ∀ cur im, (place cur im).size = im)
    (begins : ∀ cur im, start (place cur im) = cur) (ends : ∀ cur im, extent (place cur im) = cur + along im)
    (inside : ∀ cur, ∀ im ∈ images, BORDER_SIZE ≤ cur → cur + along im ≤ total along images + images.length * BORDER_SIZE →
      (place cur im).Inside merged.width merged.height)
    (disjoint : ∀ {r s : Rect}, extent r ≤ start s → Disjoint r.pixels s.pixels) : Laid images merged := by
  obtain ⟨within, apart⟩ := paste_line_spec place along start extent begins ends BORDER_SIZE images
  refine ⟨?_, ?_, ?_⟩
  · rw [pasted, paste_line_size place along sized]
  · intro r member
    rw [pasted] at member
    obtain ⟨low, upper⟩ := within r member
    obtain ⟨cur, im, fits, rfl⟩ := mem_paste_line member
    rw [begins] at low
    rw [ends, sum_borders] at upper
    exact inside cur im fits low (by omega)
  · rw [pasted]
    exact apart.imp disjoint

theorem laid_below : Laid images (init images 0) := by
  obtain ⟨all, mode, width, height⟩ := init_below images
  have border := border_nonneg
  have pasted : save (init images 0) = paste_line (place_below (init images 0)) (·.2) BORDER_SIZE images := by
    rw [save, mode, if_pos rfl, all]
  refine laid_line pasted (fun _ _ => rfl) (fun _ _ => rfl) (fun _ _ => rfl) ?_ Rect.disjoint_of_above
  intro cur im member top bottom
  have fits := (most_spec (·.1) images 0).2 im member
  rw [add_mul, one_mul] at height
  constructor <;> simp only [place_below, Rect.right, Rect.bottom] <;> omega

theorem laid_beside : Laid images (init images 1) := by
  obtain ⟨all, mode, height, width⟩ := init_beside images
  have border := border_nonneg
  have pasted : save (init images 1) = paste_line (place_beside (init images 1)) (·.1) BORDER_SIZE images := by
    rw [save, mode, if_neg one_ne_zero, if_pos rfl, all]
  refine laid_line pasted (fun _ _ => rfl) (fun _ _ => rfl) (fun _ _ => rfl) ?_ Rect.disjoint_of_left
  intro cur im member left right
  have fits := (most_spec (·.2) images 0).2 im member
  rw [add_mul, one_mul] at width
  constructor <;> simp only [place_beside, Rect.right, Rect.bottom] <;> omega

theorem laid_grid : Laid images (init images 2) := by
  obtain ⟨all, mode, wide, high, rows, width, height⟩ := init_grid images
  obtain ⟨wide_nonneg, widths⟩ := most_spec (·.1) images 0
  obtain ⟨high_nonneg, heights⟩ := most_spec (·.2) images 0
  rw [← wide] at wide_nonneg widths
  rw [← high] at high_nonneg heights
  have first : cellX (init images 2) 0 = BORDER_SIZE ∧ cellY (init images 2) 0 = BORDER_SIZE := by
    simp [cellX, cellY]
  obtain ⟨cells, apart, sizes⟩ := paste_grid_spec 0 fun im member => ⟨widths im member, heights im member⟩
  rw [first.1, first.2] at cells apart sizes
  have pasted : save (init images 2) = paste_grid (init images 2) 0 BORDER_SIZE BORDER_SIZE images := by
    have differ : (2 : Int) ≠ 0 ∧ (2 : Int) ≠ 1 := by decide
    rw [save, mode, if_neg differ.1, if_neg differ.2, if_pos rfl, all]
  refine ⟨?_, ?_, ?_⟩
  · rw [pasted, sizes]
  · intro r member
    rw [pasted] at member
    obtain ⟨j, low, upper, cell⟩ := cells r member
    have last : j / COLS ≤ (images.length - 1) / COLS := Int.ediv_le_ediv cols_pos (by omega)
    rw [width, height]
    exact cell.inside wide_nonneg high_nonneg low (by omega)
  · rw [pasted]
    exact apart

/-- **The layout**: in each of the modes all images are pasted inside the canvas, and no two of
the rectangles have a pixel in common. -/
theorem save_laid : Laid images (init images 0) ∧ Laid images (init images 1) ∧ Laid images (init images 2) :=
  ⟨laid_below images, laid_beside images, laid_grid images⟩

end Laid

end CodeClips.MergeImage
