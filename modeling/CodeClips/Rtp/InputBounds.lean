import CodeClips.Rtp.RoundTrip

/-!
# What the depacketiser reads, and when the receivers call it

`decode_rtp2h264` looks at byte 12 whatever the length, at byte 13 of an FU-A packet, and
passes `len - 13` or `len - 14` to `fwrite`. `decode_inside` is the exact length from which
all of this stays inside the datagram. The UDP receiver skips a `recv` that fails; `recv_fun`
logs it and falls through to the call (`tcpCalls`).
-/

namespace CodeClips.Rtp

/-- A range of `rtp_buf` that is read; `fwrite` converts a count below zero to `size_t`. -/
structure Access where
  off : Nat
  count : Int
deriving DecidableEq, Repr

/-- The range a call on the file reads. -/
def FileOp.access : FileOp → Option Access
  | .fputc _ => none
  | .fwrite off count => some { off := off, count := count }

/-- Everything `decode_rtp2h264(rtp_buf, len, savefp)` reads of `rtp_buf`: the NAL header, the
FU header of an FU-A packet, and what it writes to the file. -/
def decodeReads (rtp_buf : List Byte) (len : Int) : List Access :=
  { off := 12, count := 1 } ::
    ((if (nalu_header_t.ofByte (rtp_buf.getD 12 0)).type = 28 then [{ off := 13, count := 1 }] else []) ++
      (decode_rtp2h264 rtp_buf len).filterMap FileOp.access)

/-- The range lies inside the first `len` bytes and its count is not negative. -/
def Access.Inside (len : Int) (a : Access) : Prop := 0 ≤ a.count ∧ a.off + a.count ≤ len

instance (len : Int) (a : Access) : Decidable (a.Inside len) := inferInstanceAs (Decidable (_ ∧ _))

/-- What `recv` does: it fails with -1, or stores a chunk at the start of the buffer. A closed
connection, and an empty datagram, is a chunk of no bytes. -/
inductive Recv where
  | error
  | bytes (chunk : List Byte)
deriving DecidableEq, Repr

/-- A call of `decode_rtp2h264`. -/
structure DecodeCall where
  rtp_buf : List Byte
  len : Int
deriving DecidableEq, Repr

/-- The loop of `main` in `test_decode_rtp2h264.c`. -/
def udpCalls (buf : List Byte) : List Recv → List DecodeCall
  | [] => []
  | .error :: rs => udpCalls buf rs
  | .bytes chunk :: rs =>
    let buf := blit buf 0 chunk
    { rtp_buf := buf, len := chunk.length } :: udpCalls buf rs

/-- The loop of `recv_fun` in `test_tcp_recv_nal.c`. -/
def tcpCalls (recv_buf : List Byte) : List Recv → List DecodeCall
  | [] => []
  -- logged, and then decoded like a chunk
  | .error :: rs => { rtp_buf := recv_buf, len := -1 } :: tcpCalls recv_buf rs
  | .bytes chunk :: rs =>
    if chunk = [] then []
    else
      let recv_buf := blit recv_buf 0 chunk
      { rtp_buf := recv_buf, len := chunk.length } :: tcpCalls recv_buf rs

/-- On chunks alone, `recv_fun` writes what these calls write. -/
theorem recv_fun_calls (recv_buf : List Byte) (chunks : List (List Byte)) (nonempty : [] ∉ chunks) :
    recv_fun recv_buf chunks =
      ((tcpCalls recv_buf (chunks.map .bytes)).mapM fun c => applyOps c.rtp_buf (decode_rtp2h264 c.rtp_buf c.len)).map
        List.flatten := by
  induction chunks generalizing recv_buf with
  | nil => rfl
  | cons chunk chunks ih =>
    have some : chunk ≠ [] := fun empty => nonempty (empty ▸ List.mem_cons_self)
    have rest : [] ∉ chunks := fun listed => nonempty (List.mem_cons_of_mem _ listed)
    rw [recv_fun, ih _ rest, List.map_cons, tcpCalls, if_neg some, List.mapM_cons]
    cases applyOps (blit recv_buf 0 chunk) (decode_rtp2h264 (blit recv_buf 0 chunk) chunk.length) with
    | none => rfl
    | some written =>
      cases (tcpCalls (blit recv_buf 0 chunk) (chunks.map .bytes)).mapM
          fun c => applyOps c.rtp_buf (decode_rtp2h264 c.rtp_buf c.len) <;> rfl

/-! ## The length from which the reads stay inside -/

/-- What is written to the file is the rest of the packet, after 13 bytes or 14. -/
theorem decodeReads_eq (rtp_buf : List Byte) (len : Int) :
    decodeReads rtp_buf len =
      if (nalu_header_t.ofByte (rtp_buf.getD 12 0)).type = 28 then
        [{ off := 12, count := 1 }, { off := 13, count := 1 }, { off := 14, count := len - 14 }]
      else [{ off := 12, count := 1 }, { off := 13, count := len - 13 }] := by
  unfold decodeReads decode_rtp2h264
  dsimp only
  split_ifs <;> rfl

theorem decode_inside (rtp_buf : List Byte) (len : Int) :
    (∀ a ∈ decodeReads rtp_buf len, a.Inside len) ↔
      13 ≤ len ∧ ((nalu_header_t.ofByte (rtp_buf.getD 12 0)).type = 28 → 14 ≤ len) := by
  rw [decodeReads_eq]
  by_cases fuA : (nalu_header_t.ofByte (rtp_buf.getD 12 0)).type = 28
  · rw [if_pos fuA, List.forall_mem_cons, List.forall_mem_cons, List.forall_mem_singleton, imp_iff_right fuA]
    dsimp only [Access.Inside]
    omega
  · rw [if_neg fuA, List.forall_mem_cons, List.forall_mem_singleton]
    dsimp only [Access.Inside]
    constructor
    · rintro ⟨-, inside⟩
      exact ⟨by omega, fun type => absurd type fuA⟩
    · rintro ⟨inside, -⟩
      omega

/-! ## The receivers -/

theorem udpCalls_len (buf : List Byte) (rs : List Recv) : ∀ call ∈ udpCalls buf rs, 0 ≤ call.len := by
  induction rs generalizing buf with
  | nil => simp [udpCalls]
  | cons r rs ih =>
    cases r with
    | error => exact ih buf
    | bytes chunk => exact List.forall_mem_cons.mpr ⟨Int.natCast_nonneg _, ih _⟩

/-- `recv_fun` calls with a length below zero exactly if a `recv` fails before the connection
is closed. -/
theorem tcpCalls_len (recv_buf : List Byte) (rs : List Recv) :
    (∀ call ∈ tcpCalls recv_buf rs, 0 ≤ call.len) ↔ .error ∉ rs.takeWhile (· ≠ .bytes []) := by
  induction rs generalizing recv_buf with
  | nil => simp [tcpCalls]
  | cons r rs ih =>
    cases r with
    | error => simp [tcpCalls]
    | bytes chunk =>
      by_cases closed : chunk = []
      · simp [tcpCalls, closed]
      · simp [tcpCalls, closed, ih]

/-- **Input bounds.** A call reads inside its datagram exactly from 13 bytes on, from 14 for an
FU-A packet; the UDP receiver never calls with a length below zero, and the TCP receiver does
exactly if a `recv` fails. -/
theorem depacketiser_bounds (rtp_buf buf recv_buf : List Byte) (len : Int) (rs : List Recv) :
    ((∀ a ∈ decodeReads rtp_buf len, a.Inside len) ↔
      13 ≤ len ∧ ((nalu_header_t.ofByte (rtp_buf.getD 12 0)).type = 28 → 14 ≤ len)) ∧
    (∀ call ∈ udpCalls buf rs, 0 ≤ call.len) ∧
    ((∀ call ∈ tcpCalls recv_buf rs, 0 ≤ call.len) ↔ .error ∉ rs.takeWhile (· ≠ .bytes [])) :=
  ⟨decode_inside rtp_buf len, udpCalls_len buf rs, tcpCalls_len recv_buf rs⟩

/-- A datagram of 12 bytes: `fwrite` is asked for -1 bytes. A `recv` that fails: for -14. -/
theorem depacketiser_out_of_bounds :
    (∃ call ∈ udpCalls (List.replicate 1500 0) [.bytes (List.replicate 12 0)],
      ∃ a ∈ decodeReads call.rtp_buf call.len, a.count = -1 ∧ ¬ a.Inside call.len) ∧
    ∃ call ∈ tcpCalls (List.replicate 2000 0) [.error],
      call.len = -1 ∧ ∃ a ∈ decodeReads call.rtp_buf call.len, a.count = -14 := by
  decide +kernel

end CodeClips.Rtp
