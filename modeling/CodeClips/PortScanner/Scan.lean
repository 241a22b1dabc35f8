import CodeClips.PortScanner.Address

/-!
# Scanning a range

For each port, `doScan` counts from one `long` to another. The values of two addresses are in octet
order on each side of `128.0.0.0`, and all those from there on come before all the others: a range
that crosses it is scanned nowhere (`addresses_iff`).
-/

namespace CodeClips.PortScanner

structure ThreadScanSocket where
  ip : Str
  port : BitVec 32
  deriving DecidableEq

def ThreadScanSocket.new (ip : BitVec 64) (port : BitVec 32) : ThreadScanSocket where
  ip := encodeIP ip
  port := port

/-- The inner loop of `doScan`: the sockets whose threads it starts. -/
def scanPort (lastIP : BitVec 64) (port : BitVec 32) : Nat → BitVec 64 → Option (List ThreadScanSocket)
  | 0, _ => none
  | fuel + 1, ip =>
    if ip.sle lastIP then do return .new ip port :: (← scanPort lastIP port fuel (ip + 1))
    else some []

def doScan (fuel : Nat) (firstIP lastIP : BitVec 64) (portList : List (BitVec 32)) : Option (List ThreadScanSocket) := do
  return (← portList.mapM fun port => scanPort lastIP port fuel firstIP).flatten

/-! ## Ranges of addresses -/

/-- The addresses from the first to the last, each once, in octet order. -/
def Covers (first last : Quad) (quads : List Quad) : Prop :=
  quads.Pairwise (· < ·) ∧ ∀ q, q ∈ quads ↔ first ≤ q ∧ q ≤ last

/-- What `decodeIP` and the loop do with the two texts. -/
def Right (s t : Str) (first last : Quad) (ports : List (BitVec 32)) : Prop :=
  ∃ low high quads, decodeIP s = .ok low ∧ decodeIP t = .ok high ∧ (first < last → low.slt high) ∧
    encodeIP low = withoutLeadingZeros s ∧ encodeIP high = withoutLeadingZeros t ∧ Covers first last quads ∧
    ∃ enough, ∀ fuel ≥ enough, doScan fuel low high ports =
      some (ports.flatMap fun port => quads.map fun q => { ip := q.text, port := port })

def between (first last : Quad) : List Quad :=
  (List.range (last.value + 1 - first.value)).map fun i => .ofValue (first.value + i)

section Range
variable {first last q : Quad} {i : Nat}

theorem between_value (inside : i < last.value + 1 - first.value) : (Quad.ofValue (first.value + i)).value = first.value + i := by
  have := last.value_lt
  rw [Quad.value_ofValue]
  omega

theorem between_covers (first last : Quad) : Covers first last (between first last) := by
  constructor
  · apply List.pairwise_map.mpr
    apply List.pairwise_lt_range.imp_of_mem
    intro i j left right before
    rw [List.mem_range] at left right
    rw [Quad.lt_iff, between_value left, between_value right]
    omega
  · intro q
    rw [between, List.mem_map, Quad.le_iff, Quad.le_iff]
    constructor
    · rintro ⟨i, inside, rfl⟩
      rw [List.mem_range] at inside
      rw [between_value inside]
      omega
    · rintro ⟨low, high⟩
      refine ⟨q.value - first.value, List.mem_range.mpr (by omega), ?_⟩
      rw [Nat.add_sub_cancel' low, Quad.ofValue_value]

/-- The value of an address as a signed number. -/
theorem decoded_toInt (q : Quad) : ((BitVec.ofNat 32 q.value).signExtend 64).toInt =
    if q.a < 128 then (q.value : Int) else q.value - 2 ^ 32 := by
  have := q.b.isLt
  have := q.c.isLt
  have := q.d.isLt
  have := q.value_lt
  have half : q.value < 2 ^ 31 ↔ q.a < 128 := by
    rw [Fin.lt_def, Quad.value]
    change _ ↔ (q.a : Nat) < 128
    omega
  rw [BitVec.toInt_signExtend_of_le (by decide), BitVec.toInt_eq_toNat_cond, BitVec.toNat_ofNat, Nat.mod_eq_of_lt this]
  simp only [← half]
  split_ifs <;> omega

end Range

/-! ## The loop -/

section Loop
variable {ip lastIP : BitVec 64} {port : BitVec 32}

/-- Up to a last value below the greatest `long`, the loop counts and ends. -/
theorem scanPort_count (n : Nat) (length : ip.toInt + n = lastIP.toInt + 1) (bounded : lastIP.toInt < 2 ^ 63 - 1)
    {fuel : Nat} (enough : n < fuel) : scanPort lastIP port fuel ip =
      some ((List.range n).map fun i => .new (ip + BitVec.ofNat 64 i) port) := by
  induction n generalizing ip fuel with
  | zero =>
    obtain ⟨fuel, rfl⟩ := Nat.exists_eq_add_of_lt enough
    have past : ¬ ip.sle lastIP := by
      rw [BitVec.sle_iff_toInt_le]
      omega
    rw [Nat.zero_add, scanPort, if_neg past]
    rfl
  | succ n ih =>
    obtain ⟨fuel, rfl⟩ : ∃ k, fuel = k + 1 := ⟨fuel - 1, by omega⟩
    have before : ip.sle lastIP := by
      rw [BitVec.sle_iff_toInt_le]
      omega
    have next : (ip + 1).toInt = ip.toInt + 1 := by
      have low := BitVec.le_toInt ip
      have one : (1 : BitVec 64).toInt = 1 := by decide
      rw [BitVec.toInt_add, one, Int.bmod_eq_of_le] <;> omega
    rw [scanPort, if_pos before, ih (by rw [next]; push_cast at length; omega) (by omega), List.range_succ_eq_map, List.map_cons,
      List.map_map]
    have first : ip + BitVec.ofNat 64 0 = ip := BitVec.add_zero ip
    have shifted : ((fun i => ThreadScanSocket.new (ip + BitVec.ofNat 64 i) port) ∘ Nat.succ) =
        fun i => .new (ip + 1 + BitVec.ofNat 64 i) port := by
      funext i
      rw [Function.comp_apply, BitVec.add_assoc, Nat.succ_eq_one_add, BitVec.ofNat_add]
      rfl
    rw [first, shifted]
    rfl

/-- Two values whose difference is that of the addresses. -/
theorem doScan_between {first last : Quad} {low high : BitVec 64} (ordered : first ≤ last)
    (apart : high.toInt - low.toInt = last.value - first.value) (bounded : high.toInt < 2 ^ 63 - 1)
    (half : low.toNat % 2 ^ 32 = first.value) (ports : List (BitVec 32)) {fuel : Nat} (enough : 2 ^ 32 < fuel) :
    doScan fuel low high ports =
      some (ports.flatMap fun port => (between first last).map fun q => { ip := q.text, port := port }) := by
  have := last.value_lt
  rw [Quad.le_iff] at ordered
  have port (port : BitVec 32) : scanPort high port fuel low =
      some ((between first last).map fun q => { ip := q.text, port := port }) := by
    rw [scanPort_count (last.value + 1 - first.value) (by omega) bounded (by omega), between, List.map_map]
    refine congrArg some (List.map_congr_left ?_)
    intro i inside
    rw [List.mem_range] at inside
    have same : Quad.ofValue (low + BitVec.ofNat 64 i).toNat = Quad.ofValue (first.value + i) := by
      rw [← Quad.value_inj, Quad.value_ofValue, Quad.value_ofValue, BitVec.toNat_add, BitVec.toNat_ofNat]
      omega
    rw [ThreadScanSocket.new, encodeIP_eq, same]
    rfl
  rw [doScan, funext port]
  have all := List.mapM_pure (m := Option) (l := ports) (f := fun port => (between first last).map fun q => ThreadScanSocket.mk q.text port)
  change ports.mapM (fun port => some _) = _ at all
  rw [all]
  rfl

end Loop

section Sides
variable {s t : Str} {first last : Quad} {ports : List (BitVec 32)}

/-- Across `128.0.0.0` the first value is the greater one. -/
theorem not_right_of_crossing (from_text : Writes s first) (to_text : Writes t last) (below : first.a < 128)
    (beyond : 128 ≤ last.a) : ¬ Right s t first last ports := by
  rintro ⟨low, high, quads, low_eq, high_eq, increasing, -⟩
  rw [decodeIP_quad from_text, Except.ok.injEq] at low_eq
  rw [decodeIP_quad to_text, Except.ok.injEq] at high_eq
  subst low_eq high_eq
  have crossing : first < last := by
    rw [Quad.lt_iff, Quad.value, Quad.value]
    change (first.a : Nat) < 128 at below
    change 128 ≤ (last.a : Nat) at beyond
    omega
  have less := increasing crossing
  rw [BitVec.slt_iff_toInt_lt, decoded_toInt, decoded_toInt, if_pos below, if_neg (Fin.not_lt.mpr beyond)] at less
  have := last.value_lt
  omega

/-- On one side of it, the values are as far apart as the addresses. -/
theorem decoded_apart (ordered : first ≤ last) (side : ¬ (first.a < 128 ∧ 128 ≤ last.a)) :
    ((BitVec.ofNat 32 last.value).signExtend 64).toInt - ((BitVec.ofNat 32 first.value).signExtend 64).toInt =
      last.value - first.value := by
  have highest : first.a ≤ last.a := by
    rw [Quad.le_iff, Quad.value, Quad.value] at ordered
    rw [Fin.le_def]
    omega
  rw [decoded_toInt, decoded_toInt]
  split_ifs <;> omega

end Sides

/-- **Which ranges are scanned**: those that do not go from below `128.0.0.0` to it or beyond. -/
theorem addresses_iff {s t : Str} {first last : Quad} (from_text : Writes s first) (to_text : Writes t last) (ordered : first ≤ last)
    (ports : List (BitVec 32)) : Right s t first last ports ↔ ¬ (first.a < 128 ∧ 128 ≤ last.a) := by
  constructor
  · rintro right ⟨below, beyond⟩
    exact not_right_of_crossing from_text to_text below beyond right
  · intro side
    have apart := decoded_apart ordered side
    refine ⟨_, _, between first last, decodeIP_quad from_text, decodeIP_quad to_text, ?_, encodeIP_decoded from_text,
      encodeIP_decoded to_text, between_covers first last, 2 ^ 32 + 1, ?_⟩
    · intro increasing
      rw [Quad.lt_iff] at increasing
      rw [BitVec.slt_iff_toInt_lt]
      omega
    · intro fuel enough
      apply doScan_between ordered apart _ _ ports (by omega)
      · have := last.value_lt
        rw [decoded_toInt]
        split_ifs <;> omega
      · rw [← Quad.value_ofValue, ofValue_decoded]

theorem addresses_iff_private : Right "192.168.1.1".toList "192.168.01.30".toList ⟨192, 168, 1, 1⟩ ⟨192, 168, 1, 30⟩ [22, 80] ↔
    ¬ ((192 : Fin 256) < 128 ∧ (128 : Fin 256) ≤ 192) :=
  addresses_iff ⟨["192".toList, "168".toList, "1".toList, "1".toList], by decide, by decide⟩
    ⟨["192".toList, "168".toList, "01".toList, "30".toList], by decide, by decide⟩ (Quad.le_iff.mpr (by decide)) _

/-- The last address below and the first one above. -/
theorem scan_crossing : ¬ ∀ s t first last ports, Writes s first → Writes t last → first ≤ last → Right s t first last ports := by
  intro right
  have low : Writes "127.255.255.255".toList ⟨127, 255, 255, 255⟩ :=
    ⟨["127".toList, "255".toList, "255".toList, "255".toList], by decide, by decide⟩
  have high : Writes "128.0.0.0".toList ⟨128, 0, 0, 0⟩ := ⟨["128".toList, "0".toList, "0".toList, "0".toList], by decide, by decide⟩
  exact not_right_of_crossing low high (by decide) (by decide) (right _ _ _ _ [80] low high (Quad.le_iff.mpr (by decide)))

end CodeClips.PortScanner
