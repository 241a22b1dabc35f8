import CodeClips.Packet.Decoded

/-!
# `DHCP`

The header has fields of fixed size: the hardware address is padded to 16 bytes and the names
to 64 and 128. A name comes back if it is trimmed already, an option if its length is that of
its data, and the list of options if it ends with the one of code 255, at which the decoder
stops. `deserialize_serialize_dhcp` is the round trip of such packets.
-/

namespace CodeClips.Packet
open ByteBuffer

/-- ASCII, with no blank in front or at the end. -/
structure Trimmed (string : List Char) : Prop where
  ascii : ∀ c ∈ string, c.toNat < 128
  first : ∀ c ∈ string.head?, ' ' < c
  last : ∀ c ∈ string.getLast?, ' ' < c

/-- An option with data, of the length that it says. -/
structure DHCPOption.Sized (option : DHCPOption) : Prop where
  code : option.code ≠ 0 ∧ option.code ≠ 255
  data : ∃ data, option.data = some data ∧ option.length.toNat = data.length

/-- The packets whose round trip is asked for. -/
structure DHCP.Valid (this : DHCP) : Prop where
  address : ∃ address, this.clientHardwareAddress = some address ∧ this.hardwareAddressLength.toNat = address.length
  short : this.hardwareAddressLength.toNat ≤ 16
  serverName : ∃ name, this.serverName = some name ∧ Trimmed name ∧ name.length ≤ 64
  bootFileName : ∃ name, this.bootFileName = some name ∧ Trimmed name ∧ name.length ≤ 128
  options : ∃ options, this.options = options ++ [.end] ∧ ∀ option ∈ options, option.Sized

/-- What the packet takes: the header, and the options padded to 60 bytes. -/
def DHCP.size (this : DHCP) : Nat := 240 + max 60 (this.options.map DHCPOption.size).sum

/-! ## Strings -/

def blank (c : Char) : Bool := decide (c ≤ ' ')

/-- `trim()` takes off what is put behind a string. -/
theorem trim_padded {string : List Char} (first : ∀ c ∈ string.head?, ' ' < c) (last : ∀ c ∈ string.getLast?, ' ' < c)
    (n : Nat) :
    ((((string ++ List.replicate n (Char.ofNat 0)).dropWhile blank).reverse).dropWhile blank).reverse = string := by
  have padding : ∀ rest : List Char, (List.replicate n (Char.ofNat 0) ++ rest).dropWhile blank = rest.dropWhile blank := by
    intro rest
    rw [List.dropWhile_append_of_pos]
    intro c member
    rw [List.eq_of_mem_replicate member]
    decide
  rcases string with _ | ⟨c, string⟩
  · have all := padding []
    rw [List.append_nil] at all
    rw [List.nil_append, all]
    rfl
  · have kept : blank c = false := by simpa [blank] using first c rfl
    rw [List.cons_append, List.dropWhile_cons_of_neg (by simp [kept]), ← List.cons_append, List.reverse_append,
      List.reverse_replicate, padding]
    obtain ⟨front, d, split⟩ : ∃ front d, c :: string = front ++ [d] :=
      ⟨_, _, (List.dropLast_append_getLast (List.cons_ne_nil c string)).symm⟩
    have ends : blank d = false := by simpa [blank] using last d (by rw [split]; simp)
    rw [split, List.reverse_append, List.reverse_singleton, List.singleton_append,
      List.dropWhile_cons_of_neg (by simp [ends]), List.reverse_cons, List.reverse_reverse]

/-- An ASCII character is one byte and back. -/
theorem asciiBytes_back {string : List Char} (ascii : ∀ c ∈ string, c.toNat < 128) :
    (asciiBytes string).map (fun b => if b.toNat < 128 then Char.ofNat b.toNat else Char.ofNat 0xfffd) = string := by
  rw [asciiBytes, List.map_map]
  refine (List.map_congr_left fun c member => ?_).trans (List.map_id string)
  have small := ascii c member
  have value : (BitVec.ofNat 8 c.toNat).toNat = c.toNat := by
    rw [BitVec.toNat_ofNat]
    exact Nat.mod_eq_of_lt (by omega)
  rw [Function.comp, if_pos small, value, if_pos small, Char.ofNat_toNat, id]

theorem length_writeString (string : Option (List Char)) (n : Nat) : (DHCP.writeString string n).length = n := by
  simp [DHCP.writeString]

/-- A string is read as it has been written. -/
theorem reads_readString {string : List Char} (trimmed : Trimmed string) {n : Nat} (short : string.length ≤ n) :
    Reads (DHCP.readString n) (DHCP.writeString (some string) n) string := by
  have whole : DHCP.writeString (some string) n =
      asciiBytes string ++ List.replicate (n - string.length) 0 := by
    have length : (asciiBytes string).length = string.length := List.length_map _
    rw [DHCP.writeString, Option.getD_some, List.take_of_length_le (by omega), length]
  have value : (DHCP.writeString (some string) n).map
      (fun b => if b.toNat < 128 then Char.ofNat b.toNat else Char.ofNat 0xfffd) =
        string ++ List.replicate (n - string.length) (Char.ofNat 0) := by
    rw [whole, List.map_append, asciiBytes_back trimmed.ascii, List.map_replicate]
    rfl
  have read := (reads_getBytes (length_writeString (some string) n)).map fun bytes =>
    ((((bytes.map fun b => if b.toNat < 128 then Char.ofNat b.toNat else Char.ofNat 0xfffd).dropWhile
      blank).reverse).dropWhile blank).reverse
  rw [value, trim_padded trimmed.first trimmed.last] at read
  exact read

/-! ## Options -/

/-- The bytes of an option with data. -/
def DHCPOption.encoding (option : DHCPOption) : List Byte := [option.code, option.length] ++ option.data.getD []

theorem bytes_sized {option : DHCPOption} (sized : option.Sized) : option.bytes = .ok option.encoding := by
  obtain ⟨data, present, -⟩ := sized.data
  rw [DHCPOption.bytes, if_pos sized.code, present, DHCPOption.encoding, present]
  rfl

theorem size_sized {option : DHCPOption} (sized : option.Sized) : option.size = option.encoding.length := by
  obtain ⟨data, present, length⟩ := sized.data
  have plain : ¬ (option.code = 0 ∨ option.code = 255) := not_or.mpr sized.code
  rw [DHCPOption.size, if_neg plain, length, DHCPOption.encoding, present]
  simp
  omega

theorem mapM_bytes {options : List DHCPOption} (sized : ∀ option ∈ options, option.Sized) :
    (options ++ [DHCPOption.end]).mapM DHCPOption.bytes =
      .ok (options.map DHCPOption.encoding ++ [[255]]) := by
  induction options with
  | nil => rfl
  | cons option options ih =>
    rw [List.forall_mem_cons] at sized
    rw [List.cons_append, List.mapM_cons, bytes_sized sized.1, ih sized.2]
    rfl

theorem readOptions_end (rest : List Byte) : DHCP.readOptions (255 :: rest) = [.end] := by
  rw [DHCP.readOptions.eq_def]
  rfl

theorem readOptions_option {code length : Byte} (plain : code ≠ 0 ∧ code ≠ 255) {data : List Byte}
    (sized : length.toNat = data.length) (rest : List Byte) :
    DHCP.readOptions (code :: length :: (data ++ rest)) =
      { code := code, length := length, data := some data } :: DHCP.readOptions rest := by
  have enough : length.toNat ≤ (data ++ rest).length := by
    rw [List.length_append, sized]
    omega
  rw [DHCP.readOptions.eq_def]
  dsimp only
  rw [if_neg plain.1, if_neg plain.2, if_pos enough, sized, List.take_left, List.drop_left]

/-- The decoder takes the options up to the end, and nothing of what follows. -/
theorem readOptions_encoding {options : List DHCPOption} (sized : ∀ option ∈ options, option.Sized) (rest : List Byte) :
    DHCP.readOptions (options.flatMap DHCPOption.encoding ++ 255 :: rest) = options ++ [.end] := by
  induction options with
  | nil => exact readOptions_end rest
  | cons option options ih =>
    rw [List.forall_mem_cons] at sized
    obtain ⟨data, present, length⟩ := sized.1.data
    have here : (option :: options).flatMap DHCPOption.encoding ++ 255 :: rest =
        option.code :: option.length :: (data ++ (options.flatMap DHCPOption.encoding ++ 255 :: rest)) := by
      simp [DHCPOption.encoding, present]
    rw [here, readOptions_option sized.1.code length, ih sized.2, ← present]
    rfl

/-! ## The packet -/

/-- The header up to the options. -/
def DHCP.header (this : DHCP) (address : List Byte) : List Byte :=
  [this.opCode, this.hardwareType, this.hardwareAddressLength, this.hops] ++ putInt this.transactionId ++
    putShort this.seconds ++ putShort this.flags ++ putInt this.clientIPAddress ++ putInt this.yourIPAddress ++
    putInt this.serverIPAddress ++ putInt this.gatewayIPAddress ++ address ++
    List.replicate (16 - address.length) 0 ++ DHCP.writeString this.serverName 64 ++
    DHCP.writeString this.bootFileName 128 ++ [0x63, 0x82, 0x53, 0x63]

theorem length_header (this : DHCP) {address : List Byte} (short : address.length ≤ 16) :
    (this.header address).length = 240 := by
  simp [DHCP.header, length_writeString]
  omega

/-- The length of the options as it is counted in an `int`. -/
theorem optionsLength_eq (options : List DHCPOption) :
    options.foldl (fun length option => length + BitVec.ofNat 32 option.size) 0 =
      BitVec.ofNat 32 (options.map DHCPOption.size).sum := by
  have counted : ∀ (options : List DHCPOption) (n : Nat),
      options.foldl (fun length option => length + BitVec.ofNat 32 option.size) (BitVec.ofNat 32 n) =
        BitVec.ofNat 32 (n + (options.map DHCPOption.size).sum) := by
    intro options
    induction options with
    | nil => intro n; rfl
    | cons option options ih =>
      intro n
      rw [List.foldl_cons, ← BitVec.ofNat_add, ih, List.map_cons, List.sum_cons, Nat.add_assoc]
  have all := counted options 0
  rwa [Nat.zero_add] at all

section Packet
variable {this : DHCP} {address : List Byte} {options : List DHCPOption}

/-- The bytes that `serialize` puts. -/
theorem serialize_dhcp (given : this.clientHardwareAddress = some address)
    (listed : this.options = options ++ [.end]) (sized : ∀ option ∈ options, option.Sized) :
    this.serialize =
      allocate (240 + BitVec.ofNat 32 (this.options.map DHCPOption.size).sum +
          if (BitVec.ofNat 32 (this.options.map DHCPOption.size).sum).toInt < 60 then
            60 - BitVec.ofNat 32 (this.options.map DHCPOption.size).sum
          else 0)
        (this.header address ++ (options.flatMap DHCPOption.encoding ++ [255])) := by
  have joined : (options.map DHCPOption.encoding ++ [[255]]).flatten = options.flatMap DHCPOption.encoding ++ [255] := by
    rw [List.flatten_append, List.flatten_singleton, List.flatMap_def]
  have put : this.options.mapM DHCPOption.bytes = .ok (options.map DHCPOption.encoding ++ [[255]]) := by
    rw [listed]
    exact mapM_bytes sized
  rw [DHCP.serialize, given, put, optionsLength_eq, ← joined]
  rfl

theorem length_encoding (short : address.length ≤ 16) (listed : this.options = options ++ [.end])
    (sized : ∀ option ∈ options, option.Sized) :
    (this.header address ++ (options.flatMap DHCPOption.encoding ++ [255])).length =
      240 + (this.options.map DHCPOption.size).sum := by
  have sizes : options.map DHCPOption.size = options.map fun option => option.encoding.length :=
    List.map_congr_left fun option member => size_sized (sized option member)
  rw [List.length_append, length_header this short, listed, List.map_append, List.sum_append, sizes,
    List.length_append, List.length_flatMap]
  rfl

/-- The decoder reads the header, and takes all that is left for the options. -/
theorem deserialize_dhcp (valid : this.Valid) (given : this.clientHardwareAddress = some address) (rest : List Byte) :
    DHCP.deserialize.run (this.header address ++ rest) =
      .ok ([.dhcp { this with options := DHCP.readOptions rest }], []) := by
  obtain ⟨address', present, length⟩ := valid.address
  obtain rfl : address' = address := Option.some.inj (present.symm.trans given)
  obtain ⟨serverName, server, trimmedServer, shortServer⟩ := valid.serverName
  obtain ⟨bootFileName, boot, trimmedBoot, shortBoot⟩ := valid.bootFileName
  have short := valid.short
  have enough : ¬ (this.header address' ++ rest).length < DHCP.MIN_HEADER_LENGTH := by
    rw [List.length_append, length_header this (by omega), DHCP.MIN_HEADER_LENGTH]
    omega
  have bytes : this.header address' ++ rest =
      [this.opCode] ++ ([this.hardwareType] ++ ([this.hardwareAddressLength] ++ ([this.hops] ++
        (putInt this.transactionId ++ (putShort this.seconds ++ (putShort this.flags ++
          (putInt this.clientIPAddress ++ (putInt this.yourIPAddress ++ (putInt this.serverIPAddress ++
            (putInt this.gatewayIPAddress ++ (address' ++ (List.replicate (16 - address'.length) 0 ++
              (DHCP.writeString (some serverName) 64 ++ (DHCP.writeString (some bootFileName) 128 ++
                ([0x63, 0x82, 0x53, 0x63] ++ rest))))))))))))))) := by
    simp [DHCP.header, server, boot]
  have padding : Reads (getBytes (16 - this.hardwareAddressLength.toNat))
      (List.replicate (16 - address'.length) (0 : Byte)) (List.replicate (16 - address'.length) 0) :=
    reads_getBytes (by rw [List.length_replicate, length])
  rw [DHCP.deserialize, run_remaining, if_neg enough, bytes, (reads_get this.opCode).run_bind,
    (reads_get this.hardwareType).run_bind, (reads_get this.hardwareAddressLength).run_bind,
    (reads_get this.hops).run_bind, (reads_getInt this.transactionId).run_bind, (reads_getShort this.seconds).run_bind,
    (reads_getShort this.flags).run_bind, (reads_getInt this.clientIPAddress).run_bind,
    (reads_getInt this.yourIPAddress).run_bind, (reads_getInt this.serverIPAddress).run_bind,
    (reads_getInt this.gatewayIPAddress).run_bind, (reads_getBytes length.symm).run_bind, padding.run_bind,
    (reads_readString trimmedServer shortServer).run_bind, (reads_readString trimmedBoot shortBoot).run_bind,
    (reads_getBytes (show [(0x63 : Byte), 0x82, 0x53, 0x63].length = 4 from rfl)).run_bind, ← server, ← boot, ← given]
  rfl

end Packet

/-- The length of the array, as long as it is one. -/
theorem toInt_allocated {n : Nat} (fits : 240 + max 60 n < 2 ^ 31) :
    (240 + BitVec.ofNat 32 n +
      if (BitVec.ofNat 32 n).toInt < 60 then 60 - BitVec.ofNat 32 n else 0 : BitVec 32).toInt = (240 + max 60 n : Nat) := by
  have counted : (BitVec.ofNat 32 n).toNat = n := by
    rw [BitVec.toNat_ofNat]
    exact Nat.mod_eq_of_lt (by omega)
  have signed : (BitVec.ofNat 32 n).toInt = n := by
    rw [BitVec.toInt_eq_toNat_of_lt (by omega), counted]
  have length : (240 + BitVec.ofNat 32 n +
      if (BitVec.ofNat 32 n).toInt < 60 then 60 - BitVec.ofNat 32 n else 0 : BitVec 32).toNat = 240 + max 60 n := by
    rw [signed]
    split_ifs with few
    · rw [BitVec.toNat_add, BitVec.toNat_add, BitVec.toNat_sub, counted]
      simp only [BitVec.reduceToNat]
      omega
    · rw [BitVec.toNat_add, BitVec.toNat_add, counted]
      simp only [BitVec.reduceToNat]
      omega
  rw [BitVec.toInt_eq_toNat_of_lt (by omega), length]

/-- **Round trip**: a packet whose encoding fits an array is decoded to itself. -/
theorem deserialize_serialize_dhcp (this : DHCP) (valid : this.Valid) (fits : this.size < 2 ^ 31) :
    ∃ data, this.serialize = .ok data ∧ DHCP.deserialize.run data = .ok ([.dhcp this], []) := by
  obtain ⟨address, given, length⟩ := valid.address
  obtain ⟨options, listed, sized⟩ := valid.options
  have short : address.length ≤ 16 := length ▸ valid.short
  have bytes := length_encoding short listed sized
  rw [DHCP.size] at fits
  have array := toInt_allocated fits
  have room : ¬ (240 + max 60 (this.options.map DHCPOption.size).sum : Nat) <
      (this.header address ++ (options.flatMap DHCPOption.encoding ++ [255])).length := by
    rw [bytes]
    omega
  have ok := serialize_dhcp given listed sized
  rw [allocate, array, if_neg (by omega), Int.toNat_natCast, if_neg room] at ok
  refine ⟨_, ok, ?_⟩
  rw [List.append_assoc, deserialize_dhcp valid given, List.append_assoc, List.singleton_append,
    readOptions_encoding sized, ← listed]

/-- A name and options of two bytes and of none. -/
def dhcpDiscover : DHCP :=
  { DHCP.new with
    opCode := 1, hardwareType := 1, hardwareAddressLength := 6, transactionId := 0x3903f326
    clientHardwareAddress := some [0, 5, 0x3c, 4, 0x8d, 0x59]
    serverName := some ['n', 'x', ' ', '1']
    bootFileName := some []
    options := [{ code := 57, length := 2, data := some [5, 0xdc] }, { code := 80, length := 0, data := some [] }, .end] }

theorem dhcpDiscover_roundTrip :
    ∃ data, dhcpDiscover.serialize = .ok data ∧ DHCP.deserialize.run data = .ok ([.dhcp dhcpDiscover], []) := by
  apply deserialize_serialize_dhcp
  · refine ⟨⟨_, rfl, rfl⟩, by decide, ⟨_, rfl, ⟨by simp, by simp, by simp⟩, by decide⟩,
      ⟨_, rfl, ⟨by simp, by simp, by simp⟩, by decide⟩,
      ⟨[{ code := 57, length := 2, data := some [5, 0xdc] }, { code := 80, length := 0, data := some [] }], rfl, ?_⟩⟩
    rw [List.forall_mem_cons, List.forall_mem_singleton]
    exact ⟨⟨by decide, _, rfl, rfl⟩, ⟨by decide, _, rfl, rfl⟩⟩
  · decide

/-- An option of 255 bytes. -/
def longOption : DHCPOption := { code := 43, length := 255, data := some (List.replicate 255 0) }

/-- A packet of `n` such options. -/
def longDhcp (n : Nat) : DHCP :=
  { DHCP.new with
    clientHardwareAddress := some []
    serverName := some []
    bootFileName := some []
    options := List.replicate n longOption ++ [.end] }

theorem sized_longOption : ∀ n, ∀ option ∈ List.replicate n longOption, option.Sized := by
  intro n option member
  rw [List.eq_of_mem_replicate member]
  exact ⟨by decide, _, rfl, List.length_replicate.symm⟩

theorem valid_longDhcp (n : Nat) : (longDhcp n).Valid :=
  ⟨⟨_, rfl, rfl⟩, Nat.zero_le 16, ⟨_, rfl, ⟨by simp, by simp, by simp⟩, by simp⟩,
    ⟨_, rfl, ⟨by simp, by simp, by simp⟩, by simp⟩, ⟨_, rfl, sized_longOption n⟩⟩

theorem size_longDhcp (n : Nat) : ((longDhcp n).options.map DHCPOption.size).sum = 257 * n + 1 := by
  show ((List.replicate n longOption ++ [DHCPOption.end]).map DHCPOption.size).sum = _
  rw [List.map_append, List.map_replicate, List.sum_append, List.sum_replicate_nat]
  show n * 257 + 1 = _
  omega

/-- The length of eight million options of 255 bytes is negative as an `int`: the array is one
of 300 bytes. -/
theorem serialize_dhcp_too_long : ¬ ∀ this : DHCP, this.Valid →
    ∃ data, this.serialize = .ok data ∧ DHCP.deserialize.run data = .ok ([.dhcp this], []) := by
  intro roundTrip
  obtain ⟨data, ok, -⟩ := roundTrip _ (valid_longDhcp 8388608)
  rw [serialize_dhcp rfl rfl (sized_longOption 8388608), size_longDhcp] at ok
  obtain ⟨room, -, -⟩ := allocate_eq_ok ok
  rw [length_encoding (by decide) rfl (sized_longOption 8388608), size_longDhcp] at room
  exact absurd room (by decide)

end CodeClips.Packet
