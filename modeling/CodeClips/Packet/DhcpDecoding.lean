import CodeClips.Packet.Decoded

/-!
# What `DHCP` makes of any bytes

The fields of the header are at fixed places, and an option has the bytes that follow its length.
The decoder reads as many bytes of the hardware address as its length says, not at most the 16
that there are: a length above that shifts what comes after it, or takes the decoder past the end
of the bytes. `robust_iff` says that it does what it should for every other length.
-/

namespace CodeClips.Packet
open ByteBuffer

/-- The data of the option is in the message after the header, and no longer than the option says. -/
def DHCPOption.Within (option : DHCPOption) (bytes : List Byte) : Prop :=
  ∀ data, option.data = some data → data <:+: bytes.drop 240 ∧ data.length ≤ option.length.toNat

namespace DHCP

/-! ## The layout -/

/-- A name is what the bytes are in ASCII, without the blanks around it. -/
def name (bytes : List Byte) : List Char :=
  let string := bytes.map fun b => if b.toNat < 128 then Char.ofNat b.toNat else Char.ofNat 0xfffd
  let blank := fun c : Char => decide (c ≤ ' ')
  ((string.dropWhile blank).reverse.dropWhile blank).reverse

/-- The fixed fields at their places in the message. The hardware address has 16 bytes, of which
the first are used. -/
def layout (bytes : List Byte) : DHCP :=
  { opCode := byteAt bytes 0
    hardwareType := byteAt bytes 1
    hardwareAddressLength := byteAt bytes 2
    hops := byteAt bytes 3
    transactionId := intAt bytes 4
    seconds := shortAt bytes 8
    flags := shortAt bytes 10
    clientIPAddress := intAt bytes 12
    yourIPAddress := intAt bytes 16
    serverIPAddress := intAt bytes 20
    gatewayIPAddress := intAt bytes 24
    clientHardwareAddress := some ((slice bytes 28 16).take (byteAt bytes 2).toNat)
    serverName := some (name (slice bytes 44 64))
    bootFileName := some (name (slice bytes 108 128))
    options := [] }

/-- The decoder does not throw, reads every fixed field at its place and no option outside of the
message. -/
def Robust (bytes : List Byte) : Prop :=
  ∃ this : DHCP, DHCP.deserialize.run bytes = .ok ([.dhcp this], []) ∧
    this = { layout bytes with options := this.options } ∧ ∀ option ∈ this.options, option.Within bytes

/-! ## The options -/

theorem readOptions_within (bytes : List Byte) :
    ∀ option ∈ readOptions bytes, ∀ data, option.data = some data →
      data <:+: bytes ∧ data.length ≤ option.length.toNat := by
  have last : ∀ (bytes : List Byte), ∀ option ∈ [DHCPOption.end], ∀ data, option.data = some data →
      data <:+: bytes ∧ data.length ≤ option.length.toNat := by
    intro bytes option member data present
    rw [List.eq_of_mem_singleton member] at present
    cases present
  fun_induction readOptions bytes with
  | case1 =>
    intro option member
    cases member
  | case2 rest ih =>
    intro option member data present
    obtain ⟨inside, short⟩ := ih option member data present
    exact ⟨inside.trans (List.suffix_cons 0 rest).isInfix, short⟩
  | case3 rest => exact last _
  | case4 code => exact last _
  | case5 code pad done length rest enough ih =>
    intro option member data present
    rcases List.mem_cons.mp member with rfl | member
    · cases present
      have front : rest.take length.toNat <:+: rest := (List.take_prefix _ _).isInfix
      have tail : rest <:+: code :: length :: rest :=
        ((List.suffix_cons length rest).trans (List.suffix_cons code _)).isInfix
      exact ⟨front.trans tail, List.length_take_le _ _⟩
    · obtain ⟨inside, short⟩ := ih option member data present
      have tail : rest.drop length.toNat <:+: code :: length :: rest :=
        ((List.drop_suffix _ rest).trans ((List.suffix_cons length rest).trans (List.suffix_cons code _))).isInfix
      exact ⟨inside.trans tail, short⟩
  | case6 code pad done length rest few => exact last _

/-! ## The header -/

theorem readsAt_readString {bytes : List Byte} {off n : Nat} (inside : off + n ≤ bytes.length) :
    ReadsAt (readString n) bytes off n (name (slice bytes off n)) := (readsAt_getBytes inside).map name

/-- What is read after the addresses. -/
def readRest (this : DHCP) : ByteBuffer IPacket := do
  let clientHardwareAddress ← getBytes this.hardwareAddressLength.toNat
  let _ ← getBytes (16 - this.hardwareAddressLength.toNat)
  let serverName ← readString 64
  let bootFileName ← readString 128
  let _ ← getBytes 4
  let options ← rest
  pure [.dhcp { this with
    clientHardwareAddress := some clientHardwareAddress
    serverName := some serverName
    bootFileName := some bootFileName
    options := readOptions options }]

theorem run_deserialize {bytes : List Byte} (enough : 240 ≤ bytes.length) :
    DHCP.deserialize.run bytes = (readRest (layout bytes)).run (bytes.drop 28) := by
  have long : ¬ (bytes.drop 0).length < MIN_HEADER_LENGTH := Nat.not_lt.mpr enough
  show DHCP.deserialize.run (bytes.drop 0) = _
  rw [DHCP.deserialize, run_remaining, if_neg long, (readsAt_get (by omega)).run_bind, (readsAt_get (by omega)).run_bind,
    (readsAt_get (by omega)).run_bind, (readsAt_get (by omega)).run_bind, (readsAt_getInt (by omega)).run_bind,
    (readsAt_getShort (by omega)).run_bind, (readsAt_getShort (by omega)).run_bind, (readsAt_getInt (by omega)).run_bind,
    (readsAt_getInt (by omega)).run_bind, (readsAt_getInt (by omega)).run_bind, (readsAt_getInt (by omega)).run_bind]
  rfl

/-- A length of at most 16 leaves every field at its place. -/
theorem run_readRest {bytes : List Byte} (enough : 240 ≤ bytes.length) (short : (byteAt bytes 2).toNat ≤ 16) :
    (readRest (layout bytes)).run (bytes.drop 28) =
      .ok ([.dhcp { layout bytes with options := readOptions (bytes.drop 240) }], []) := by
  have address : slice bytes 28 (byteAt bytes 2).toNat = (slice bytes 28 16).take (byteAt bytes 2).toNat := by
    rw [slice, slice, List.take_take, Nat.min_eq_left short]
  have padded : 28 + (byteAt bytes 2).toNat + (16 - (byteAt bytes 2).toNat) = 44 := by omega
  have length : (layout bytes).hardwareAddressLength = byteAt bytes 2 := rfl
  rw [readRest, length, (readsAt_getBytes (n := (byteAt bytes 2).toNat) (by omega)).run_bind,
    (readsAt_getBytes (n := 16 - (byteAt bytes 2).toNat) (by omega)).run_bind, padded,
    (readsAt_readString (by omega)).run_bind, (readsAt_readString (by omega)).run_bind,
    (readsAt_getBytes (by omega)).run_bind, address]
  rfl

/-- **Robustness**: with all of the header there, the decoder is robust exactly where the length
of the hardware address is one. -/
theorem robust_iff {bytes : List Byte} (enough : 240 ≤ bytes.length) :
    Robust bytes ↔ (byteAt bytes 2).toNat ≤ 16 := by
  constructor
  · rintro ⟨this, decoded, placed, -⟩
    rw [run_deserialize enough, readRest] at decoded
    obtain ⟨address, mid, read, decoded⟩ := run_bind_eq_ok decoded
    obtain ⟨_, _, _, decoded⟩ := run_bind_eq_ok decoded
    obtain ⟨_, _, _, decoded⟩ := run_bind_eq_ok decoded
    obtain ⟨_, _, _, decoded⟩ := run_bind_eq_ok decoded
    obtain ⟨_, _, _, decoded⟩ := run_bind_eq_ok decoded
    cases decoded
    have kept : address = (slice bytes 28 16).take (byteAt bytes 2).toNat :=
      Option.some.inj (congrArg DHCP.clientHardwareAddress placed)
    obtain ⟨inside, taken, -⟩ := take_eq_ok read
    have length := congrArg List.length kept
    rw [taken, List.length_take, List.length_take, slice_length, Nat.min_eq_left inside] at length
    change (byteAt bytes 2).toNat = _ at length
    omega
  · intro short
    refine ⟨_, (run_deserialize enough).trans (run_readRest enough short), rfl, ?_⟩
    exact readOptions_within _

theorem robust_of_six : Robust ([1, 1, 6] ++ List.replicate 237 0) := by
  have enough : 240 ≤ ([1, 1, 6] ++ List.replicate 237 0 : List Byte).length := by
    rw [List.length_append, List.length_replicate]
    decide
  apply (robust_iff enough).mpr
  exact (by decide : (6 : Byte).toNat ≤ 16)

/-- A length of 255 takes the decoder past the end of 240 bytes. -/
theorem not_robust_of_long : ¬ Robust ([1, 1, 255] ++ List.replicate 237 0) := by
  have fails : DHCP.deserialize.run ([1, 1, 255] ++ List.replicate 237 0) = .error .bufferUnderflow := by decide +kernel
  rintro ⟨this, decoded, -⟩
  rw [fails] at decoded
  cases decoded

end DHCP

end CodeClips.Packet
