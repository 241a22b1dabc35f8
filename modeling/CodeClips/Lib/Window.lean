import CodeClips.Lib.HeapOrder

/-!
# A window of an array

The places from `a` up to `b` of an array, and the removal of one of them that moves the last
element into its place. A loop that goes on with the same place after such a removal sees the
rest of the window: `window_swapRemove`.
-/

namespace CodeClips

open Function

section Window
variable {T U : Type*}

/-- The elements at the places `a`, …, `b - 1`. -/
def window (f : Nat → T) (a b : Nat) : Multiset T := contents (fun k => f (a + k)) (b - a)

/-- There is nothing between `a` and what is not above it. -/
theorem window_empty (f : Nat → T) {a b : Nat} (none : b ≤ a) : window f a b = 0 := by
  rw [window, Nat.sub_eq_zero_of_le none]
  rfl

/-- The last element of the window. -/
theorem window_last (f : Nat → T) {a b : Nat} (le : a ≤ b) : window f a (b + 1) = f b ::ₘ window f a b := by
  rw [window, Nat.succ_sub le, contents_succ, Nat.add_sub_cancel' le]
  rfl

theorem mem_window {f : Nat → T} {a b : Nat} {x : T} : x ∈ window f a b ↔ ∃ i, a ≤ i ∧ i < b ∧ f i = x := by
  rw [window, mem_contents]
  constructor
  · intro ⟨k, less, here⟩
    exact ⟨a + k, by omega, by omega, here⟩
  · intro ⟨i, le, less, here⟩
    refine ⟨i - a, by omega, ?_⟩
    rw [Nat.add_sub_cancel' le]
    exact here

theorem window_congr {f g : Nat → T} {a b : Nat} (same : ∀ i, a ≤ i → i < b → f i = g i) :
    window f a b = window g a b :=
  contents_congr fun k less => same (a + k) (by omega) (by omega)

theorem map_window (h : T → U) (f : Nat → T) (a b : Nat) : (window f a b).map h = window (h ∘ f) a b := by
  simp [window, contents]

/-- The first element of the window. -/
theorem window_head (f : Nat → T) {a b : Nat} (less : a < b) : window f a b = f a ::ₘ window f (a + 1) b := by
  induction b with
  | zero => omega
  | succ b ih =>
    obtain rfl | before := Nat.eq_or_lt_of_le (Nat.le_of_lt_succ less)
    · rw [window_last f (Nat.le_refl a), window_empty f (Nat.le_refl a), window_empty f (Nat.le_refl (a + 1))]
    · rw [window_last f (Nat.le_of_lt before), window_last f before, ih before, Multiset.cons_swap]

/-- One element of the window is replaced by another. -/
theorem window_replace (f : Nat → T) {a b c : Nat} (le : a ≤ c) (less : c < b) (x : T) :
    f c ::ₘ window (update f c x) a b = x ::ₘ window f a b := by
  have shifted : (fun k => update f c x (a + k)) = update (fun k => f (a + k)) (c - a) x := by
    funext k
    obtain rfl | apart := eq_or_ne k (c - a)
    · rw [Nat.add_sub_cancel' le, update_self, update_self]
    · rw [update_of_ne apart, update_of_ne (by omega)]
  have replaced := contents_replace (fun k => f (a + k)) (show c - a < b - a by omega) x
  unfold window
  rw [shifted]
  simpa [Nat.add_sub_cancel' le] using replaced

/-- **Removal by the last element**: one window loses what was at the place, and no other does
lose or gain anything. -/
theorem window_swapRemove (f : Nat → T) {a i n : Nat} (le : a ≤ i) (less : i ≤ n) :
    window f a (n + 1) = f i ::ₘ window (update f i (f n)) a n := by
  rw [window_last f (Nat.le_trans le less)]
  obtain rfl | before := Nat.eq_or_lt_of_le less
  · rw [update_eq_self]
  · rw [window_replace f le before]

end Window

end CodeClips
