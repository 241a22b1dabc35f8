import Mathlib.Data.List.Basic
import Mathlib.Tactic.ByContra
import Mathlib.Tactic.SplitIfs

/-!
# Capture buffers

`init_mmap` maps as many buffers as the driver grants, and `start_capturing` and `uninit_camera`
work on as many as it was asked for. A mapping that fails ends the initialisation at once, with the
mappings before it left as they are, and `v4l2_init` goes on to `start_capturing` whatever the
initialisation has returned. So the account is right for the number that was asked for, and for
few of the sessions in which nothing is mapped (`accounted_iff`).

A session is `v4l2_init`, any number of frames and `v4l2_close`. The answers of the driver are
parameters. Mappings are named by the buffer they are for. To read an entry of the array that is
not there is undefined, and a copy from what is not mapped faults: there the session is over.
-/

namespace CodeClips.Video

def FPS : Nat := 15

inductive Start
  | null
  | failed
  | mapped (i : Nat)
  deriving DecidableEq

structure Buffer where
  start : Start
  length : Nat
  deriving DecidableEq

/-- What `cam->buffers` points to. -/
inductive Buffers
  | null
  | freed
  | array (entries : List Buffer)
  deriving DecidableEq

/-- What is done with the buffer of an index: `mmap` has succeeded, `munmap` is to have the entry,
if there is one. -/
inductive Call
  | mmap (i : Nat) (length : Nat)
  | queue (i : Nat)
  | capture (i : Nat)
  | munmap (i : Nat) (entry : Option Buffer)
  deriving DecidableEq

structure Camera where
  buffers : Buffers
  calls : List Call
  deriving DecidableEq

def Camera.record (cam : Camera) (call : Call) : Camera := { cam with calls := cam.calls ++ [call] }

def Camera.entry (cam : Camera) (i : Nat) : Option Buffer :=
  match cam.buffers with
  | .array entries => entries[i]?
  | _ => none

/-- How the calls end: what the steps of `init_camera` before the buffers return, the number of buffers
that are granted, the length of each, and whether the others succeed. -/
structure Driver where
  setup : Nat
  reqbufs : Option Nat
  calloc : Bool
  querybuf : Nat → Option Nat
  mmap : Nat → Bool
  qbuf : Nat → Bool
  streamon : Bool
  streamoff : Bool

/-- `VIDIOC_DQBUF`, and whether the buffer could be queued again. -/
inductive Frame
  | again
  | error
  | frame (i : Nat) (queued : Bool)
  deriving DecidableEq

/-- The loop of `init_mmap`. -/
def map_buffers (d : Driver) : Nat → Nat → List Buffer → Camera → Camera × Nat
  | 0, _, entries, cam => ({ cam with buffers := .array entries }, 0)
  | n + 1, i, entries, cam =>
    match d.querybuf i with
    | none => ({ cam with buffers := .freed }, 1)
    | some length =>
      if d.mmap i then
        map_buffers d n (i + 1) (entries.set i { start := .mapped i, length := length }) (cam.record (.mmap i length))
      else ({ cam with buffers := .array (entries.set i { start := .failed, length := length }) }, 1)

def init_mmap (d : Driver) (cam : Camera) : Camera × Nat :=
  match d.reqbufs with
  | none => (cam, 1)
  | some count =>
    if count < 2 then (cam, 1)
    else if d.calloc then map_buffers d count 0 (List.replicate count { start := .null, length := 0 }) cam
    else ({ cam with buffers := .null }, 1)

def alloc_mem_for_camera (d : Driver) (cam : Camera) : Camera × Nat := init_mmap d cam

/-- The source calls `alloc_mem_for_cam`, which it does not have; there is `alloc_mem_for_camera`. -/
def init_camera (d : Driver) (cam : Camera) : Camera × Nat :=
  if d.setup = 0 then alloc_mem_for_camera d cam else (cam, d.setup)

/-- The loop of `start_capturing`. -/
def queue_buffers (d : Driver) : Nat → Nat → Camera → Camera × Nat
  | 0, _, cam => (cam, 0)
  | n + 1, i, cam => if d.qbuf i then queue_buffers d n (i + 1) (cam.record (.queue i)) else (cam.record (.queue i), 1)

def start_capturing (d : Driver) (cam : Camera) : Camera × Nat :=
  match queue_buffers d FPS 0 cam with
  | (cam, 0) => (cam, if d.streamon then 0 else 1)
  | failed => failed

/-- What `init_camera` and `start_capturing` return is not looked at. -/
def v4l2_init (d : Driver) (cam : Camera) : Camera := (start_capturing d (init_camera d cam).1).1

def Start.isMapped : Start → Bool
  | .mapped _ => true
  | _ => false

/-- `memcpy` can read from the buffer. -/
def Buffer.Readable (b : Buffer) : Prop := b.start.isMapped ∨ b.length = 0

instance (b : Buffer) : Decidable b.Readable := inferInstanceAs (Decidable (_ ∨ _))

/-- The camera, or as it is where the process ends. -/
abbrev Going := Except Camera Camera

def Going.camera : Going → Camera
  | .ok cam => cam
  | .error cam => cam

def read_frame_from_camera (cam : Camera) : Frame → Except Camera (Camera × Nat)
  | .again => .ok (cam, 0)
  | .error => .ok (cam, 1)
  | .frame i queued =>
    let captured := cam.record (.capture i)
    match cam.entry i with
    | none => .error captured
    | some b => if b.Readable then .ok (captured.record (.queue i), if queued then 0 else 1) else .error captured

/-- The loop of the callers, which do not look at what is returned. -/
def read_frames (cam : Camera) (frames : List Frame) : Going :=
  frames.foldlM (fun cam frame => (read_frame_from_camera cam frame).map Prod.fst) cam

/-- The loop of `free_mem_for_cammera`. -/
def unmap_buffers : Nat → Nat → Camera → Going
  | 0, _, cam => .ok cam
  | n + 1, i, cam =>
    match cam.entry i with
    | none => .error (cam.record (.munmap i none))
    | some b => unmap_buffers n (i + 1) (cam.record (.munmap i b))

def free_mem_for_cammera (cam : Camera) (len : Nat) : Going :=
  (unmap_buffers len 0 cam).map fun cam => { cam with buffers := .null }

def uninit_camera (cam : Camera) : Going := free_mem_for_cammera cam FPS

/-- It exits where `VIDIOC_STREAMOFF` fails. -/
def stop_capturing (d : Driver) (cam : Camera) : Going := if d.streamoff then .ok cam else .error cam

/-- `close_camera` and `free` are no calls for a buffer. -/
def v4l2_close (d : Driver) (cam : Camera) : Going := stop_capturing d cam >>= uninit_camera

def start : Camera := { buffers := .null, calls := [] }

def session (d : Driver) (frames : List Frame) : Camera :=
  Going.camera (read_frames (v4l2_init d start) frames >>= v4l2_close d)

/-! ## The account -/

def Driver.granted (d : Driver) : Nat := if d.setup = 0 then d.reqbufs.getD 0 else 0

/-- The index with which a buffer is queued, captured or unmapped. -/
def Call.index : Call → Option Nat
  | .mmap _ _ => none
  | .queue i => some i
  | .capture i => some i
  | .munmap i _ => some i

/-- The mapping that is given back. -/
def Call.released : Call → Option Nat
  | .munmap _ (some { start := .mapped i, .. }) => some i
  | _ => none

/-- What has been mapped is unmapped once. -/
def Unmapped (calls : List Call) : Prop :=
  ∀ i length, .mmap i length ∈ calls → calls.countP (·.released = some i) = 1

/-- All indices are below the granted count, what has been mapped is unmapped once, and an
initialisation that fails has itself unmapped what it has mapped. -/
def Right (d : Driver) (frames : List Frame) : Prop :=
  (∀ call ∈ (session d frames).calls, ∀ i, call.index = some i → i < d.granted) ∧
  Unmapped (session d frames).calls ∧
  ((init_camera d start).2 ≠ 0 → Unmapped (init_camera d start).1.calls)

def Driver.maps (d : Driver) (i : Nat) : Prop := d.querybuf i ≠ none ∧ d.mmap i

/-- `start_capturing` comes to the buffer: none before it is refused. -/
def Driver.Tries (d : Driver) (i : Nat) : Prop := i < FPS ∧ ∀ j < i, d.qbuf j

/-- There is no array, or no buffer in it is mapped. -/
def Driver.NoneMapped (d : Driver) : Prop := d.granted < 2 ∨ ¬ d.calloc ∨ ¬ d.maps 0

/-- `uninit_camera` finds an array: the process has not ended before, neither for the lack of one
nor with `VIDIOC_STREAMOFF` nor with a copy from what could not be mapped. -/
structure Unmaps (d : Driver) (frames : List Frame) : Prop where
  granted : 2 ≤ d.granted
  calloc : d.calloc
  array : d.querybuf 0 ≠ none
  streamoff : d.streamoff
  copies : ∀ queued, .frame 0 queued ∈ frames → d.querybuf 0 = some 0

/-- As many buffers are granted as were asked for, all of them are mapped, and the end of the
session is reached; or nothing is mapped, and the buffers that are tried, and unmapped if it comes
to that, are below the granted count. -/
def Settled (d : Driver) (frames : List Frame) : Prop :=
  (d.granted = FPS ∧ d.calloc ∧ (∀ i < FPS, d.maps i) ∧ d.streamoff) ∨
  (d.NoneMapped ∧ (∀ i, d.Tries i → i < d.granted) ∧ (Unmaps d frames → FPS ≤ d.granted))

/-- The driver hands out buffers that it has been given. -/
def HandsOut (d : Driver) (frames : List Frame) : Prop :=
  ∀ i queued, .frame i queued ∈ frames → i < FPS ∧ ∀ j ≤ i, d.qbuf j

/-! ## What the loops do -/

def Driver.buffer (d : Driver) (i : Nat) : Buffer where
  start := .mapped i
  length := (d.querybuf i).getD 0

def Driver.mapping (d : Driver) (i : Nat) : Call := .mmap i (d.querybuf i |>.getD 0)

section Loops
variable {d : Driver} {frames : List Frame} {cam : Camera} {i n : Nat}

theorem map_buffers_mapped (here : d.maps i) (entries : List Buffer) : map_buffers d (n + 1) i entries cam =
    map_buffers d n (i + 1) (entries.set i (d.buffer i)) (cam.record (d.mapping i)) := by
  obtain ⟨size, query⟩ := Option.ne_none_iff_exists'.mp here.1
  rw [map_buffers, query, Driver.buffer, Driver.mapping, query]
  exact if_pos here.2

theorem map_buffers_failed (here : ¬ d.maps i) (entries : List Buffer) :
    ∃ buffers, map_buffers d (n + 1) i entries cam = ({ cam with buffers := buffers }, 1) := by
  cases query : d.querybuf i with
  | none =>
    refine ⟨.freed, ?_⟩
    rw [map_buffers, query]
  | some size =>
    have unmapped : ¬ d.mmap i := by
      intro mapped
      refine here ⟨?_, mapped⟩
      rw [query]
      exact Option.some_ne_none size
    refine ⟨.array (entries.set i { start := .failed, length := size }), ?_⟩
    rw [map_buffers, query]
    exact if_neg unmapped

/-- The loop maps buffers up to the first that fails. -/
theorem map_buffers_spec (d : Driver) (n i : Nat) (entries : List Buffer) (cam : Camera) (length : entries.length = i + n) :
    ∃ m, (∀ j < m, d.maps (i + j)) ∧ (map_buffers d n i entries cam).1.calls = cam.calls ++ (List.range' i m).map d.mapping ∧
      (m = n ∧ (map_buffers d n i entries cam).2 = 0 ∧
          (map_buffers d n i entries cam).1.buffers = .array (entries.take i ++ (List.range' i n).map d.buffer) ∨
        m < n ∧ (map_buffers d n i entries cam).2 = 1 ∧ ¬ d.maps (i + m)) := by
  induction n generalizing i entries cam with
  | zero =>
    refine ⟨0, by simp, by simp [map_buffers], .inl ⟨rfl, rfl, ?_⟩⟩
    have whole : entries.take i = entries := List.take_of_length_le (Nat.le_of_eq length)
    rw [whole, List.range'_zero, List.map_nil, List.append_nil]
    rfl
  | succ n ih =>
    by_cases here : d.maps i
    · obtain ⟨m, all, calls, ends⟩ := ih (i + 1) (entries.set i (d.buffer i)) (cam.record (d.mapping i))
        (by rw [List.length_set, length]; omega)
      have taken : (entries.set i (d.buffer i)).take (i + 1) = entries.take i ++ [d.buffer i] := by
        rw [List.take_add_one, List.take_set_of_le (Nat.le_refl i), List.getElem?_set_self (by omega)]
        rfl
      rw [map_buffers_mapped here]
      refine ⟨m + 1, ?_, ?_, ?_⟩
      · intro j less
        cases j with
        | zero => exact here
        | succ j =>
          have later := all j (by omega)
          rw [Nat.add_assoc, Nat.add_comm 1 j] at later
          exact later
      · rw [calls, List.range'_succ, List.map_cons, Camera.record, List.append_assoc, List.singleton_append]
      · rcases ends with ⟨rfl, ret, buffers⟩ | ⟨less, ret, fails⟩
        · refine .inl ⟨rfl, ret, ?_⟩
          rw [buffers, taken, List.range'_succ, List.map_cons, List.append_assoc, List.singleton_append]
        · refine .inr ⟨by omega, ret, ?_⟩
          rw [Nat.add_assoc, Nat.add_comm 1 m] at fails
          exact fails
    · obtain ⟨buffers, step⟩ := @map_buffers_failed d cam i n here entries
      rw [step]
      exact ⟨0, by simp, by simp, .inr ⟨Nat.succ_pos n, rfl, here⟩⟩

/-- Calls of a camera that runs, for buffers that are tried. -/
def Runs (d : Driver) (calls : List Call) : Prop := ∀ call ∈ calls, ∃ i, d.Tries i ∧ (call = .queue i ∨ call = .capture i)

/-- The camera goes on with its buffers. -/
def Continues (d : Driver) (cam cam' : Camera) : Prop :=
  cam'.buffers = cam.buffers ∧ ∃ calls, Runs d calls ∧ cam'.calls = cam.calls ++ calls

theorem Continues.refl (d : Driver) (cam : Camera) : Continues d cam cam :=
  ⟨rfl, [], by rintro call ⟨⟩, (List.append_nil _).symm⟩

theorem Continues.trans {cam cam' cam'' : Camera} (first : Continues d cam cam') (second : Continues d cam' cam'') :
    Continues d cam cam'' := by
  obtain ⟨same, calls, runs, eq⟩ := first
  obtain ⟨same', calls', runs', eq'⟩ := second
  refine ⟨same'.trans same, calls ++ calls', ?_, by rw [eq', eq, List.append_assoc]⟩
  intro call member
  rcases List.mem_append.mp member with left | right
  · exact runs call left
  · exact runs' call right

theorem Continues.record {call : Call} (tries : d.Tries i) (use : call = .queue i ∨ call = .capture i) :
    Continues d cam (cam.record call) := by
  refine ⟨rfl, [call], ?_, rfl⟩
  intro c member
  obtain rfl := List.mem_singleton.mp member
  exact ⟨i, tries, use⟩

theorem Continues.mem {cam' : Camera} {call : Call} (goes : Continues d cam cam') (member : call ∈ cam.calls) :
    call ∈ cam'.calls := by
  obtain ⟨_, calls, -, eq⟩ := goes
  rw [eq]
  exact List.mem_append_left _ member

theorem Continues.entry {cam' : Camera} (goes : Continues d cam cam') : cam'.entry = cam.entry := by
  funext j
  rw [Camera.entry, Camera.entry, goes.1]

/-- The loop queues the buffers up to the first that is refused, and tries that one too. -/
theorem queue_buffers_spec (n i : Nat) (cam : Camera) (all : i + n = FPS) (before : ∀ j < i, d.qbuf j) :
    Continues d cam (queue_buffers d n i cam).1 ∧
      ∀ k, i ≤ k → d.Tries k → .queue k ∈ (queue_buffers d n i cam).1.calls := by
  induction n generalizing i cam with
  | zero =>
    refine ⟨.refl d cam, ?_⟩
    intro k le tries
    have inside := tries.1
    omega
  | succ n ih =>
    have queued : Continues d cam (cam.record (.queue i)) := .record ⟨by omega, before⟩ (.inl rfl)
    have here : .queue i ∈ (cam.record (.queue i)).calls := List.mem_append_right _ (List.mem_singleton_self _)
    rw [queue_buffers]
    split_ifs with accepted
    · obtain ⟨goes, tried⟩ := ih (i + 1) (cam.record (.queue i)) (by omega) (by
        intro j less
        obtain rfl | less := Nat.eq_or_lt_of_le (Nat.le_of_lt_succ less)
        · exact accepted
        · exact before j less)
      refine ⟨queued.trans goes, ?_⟩
      intro k le tries
      obtain rfl | behind := Nat.eq_or_lt_of_le le
      · exact goes.mem here
      · exact tried k behind tries
    · refine ⟨queued, ?_⟩
      intro k le tries
      obtain rfl | behind := Nat.eq_or_lt_of_le le
      · exact here
      · exact absurd (tries.2 i behind) accepted

theorem v4l2_init_spec (d : Driver) (cam : Camera) : Continues d (init_camera d cam).1 (v4l2_init d cam) ∧
    ∀ k, d.Tries k → .queue k ∈ (v4l2_init d cam).calls := by
  have queued := queue_buffers_spec FPS 0 (init_camera d cam).1 (Nat.zero_add FPS) (d := d) (by simp)
  have same : (start_capturing d (init_camera d cam).1).1 = (queue_buffers d FPS 0 (init_camera d cam).1).1 := by
    unfold start_capturing
    split
    · next ended => rw [ended]
    · rfl
  rw [v4l2_init, same]
  exact ⟨queued.1, fun k tries => queued.2 k (Nat.zero_le k) tries⟩

/-- A frame is copied from what cannot be read. -/
def Faults (cam : Camera) (frames : List Frame) : Prop :=
  ∃ i queued, .frame i queued ∈ frames ∧ ∀ b, cam.entry i = some b → ¬ b.Readable

theorem read_frame_spec {frame : Frame} (inside : ∀ i queued, frame = .frame i queued → d.Tries i) :
    (∃ cam' r, read_frame_from_camera cam frame = .ok (cam', r) ∧ Continues d cam cam' ∧ ¬ Faults cam [frame]) ∨
      ∃ cam', read_frame_from_camera cam frame = .error cam' ∧ Continues d cam cam' ∧ Faults cam [frame] := by
  cases frame with
  | again => exact .inl ⟨cam, 0, rfl, .refl d cam, by simp [Faults]⟩
  | error => exact .inl ⟨cam, 1, rfl, .refl d cam, by simp [Faults]⟩
  | frame i queued =>
    have tries := inside i queued rfl
    have captured : Continues d cam (cam.record (.capture i)) := .record tries (.inr rfl)
    dsimp only [read_frame_from_camera]
    cases here : cam.entry i with
    | none =>
      refine .inr ⟨_, rfl, captured, i, queued, List.mem_singleton_self _, ?_⟩
      intro b same
      rw [here] at same
      cases same
    | some b =>
      by_cases readable : b.Readable
      · refine .inl ⟨_, _, if_pos readable, captured.trans (.record tries (.inl rfl)), ?_⟩
        rintro ⟨j, again, member, unreadable⟩
        cases List.mem_singleton.mp member
        exact unreadable b here readable
      · refine .inr ⟨_, if_neg readable, captured, i, queued, List.mem_singleton_self _, ?_⟩
        intro c same
        rw [here] at same
        cases same
        exact readable

/-- **The frames** are read, up to the first that faults. -/
theorem read_frames_spec (given : ∀ i queued, .frame i queued ∈ frames → d.Tries i) (cam : Camera) :
    (∃ cam', read_frames cam frames = .ok cam' ∧ Continues d cam cam' ∧ ¬ Faults cam frames) ∨
      ∃ cam', read_frames cam frames = .error cam' ∧ Continues d cam cam' ∧ Faults cam frames := by
  induction frames generalizing cam with
  | nil => exact .inl ⟨cam, rfl, .refl d cam, by simp [Faults]⟩
  | cons frame frames ih =>
    have first : ∀ i queued, frame = .frame i queued → d.Tries i := by
      rintro i queued rfl
      exact given i queued List.mem_cons_self
    rcases @read_frame_spec _ cam _ first with
      ⟨cam₁, r, read, goes, fine⟩ | ⟨cam₁, read, goes, i, queued, member, faults⟩
    · have rest : read_frames cam (frame :: frames) = read_frames cam₁ frames := by
        rw [read_frames, List.foldlM_cons, read]
        rfl
      have same : Faults cam (frame :: frames) ↔ Faults cam₁ frames := by
        rw [Faults, Faults, goes.entry]
        constructor
        · rintro ⟨i, queued, member, unreadable⟩
          rcases List.mem_cons.mp member with here | later
          · exact absurd ⟨i, queued, here ▸ List.mem_singleton_self _, unreadable⟩ fine
          · exact ⟨i, queued, later, unreadable⟩
        · exact fun ⟨i, queued, member, unreadable⟩ => ⟨i, queued, List.mem_cons_of_mem _ member, unreadable⟩
      rw [rest, same]
      rcases ih (fun i queued member => given i queued (List.mem_cons_of_mem _ member)) cam₁ with
        ⟨cam₂, run, further, unfaulted⟩ | ⟨cam₂, run, further, faulted⟩
      · exact .inl ⟨cam₂, run, goes.trans further, unfaulted⟩
      · exact .inr ⟨cam₂, run, goes.trans further, faulted⟩
    · refine .inr ⟨cam₁, ?_, goes, i, queued, List.mem_cons.mpr (.inl (List.mem_singleton.mp member)), faults⟩
      rw [read_frames, List.foldlM_cons, read]
      rfl

/-- All entries are there: each is unmapped. -/
theorem unmap_buffers_all (entry : Nat → Buffer) (n i : Nat) (cam : Camera) (there : ∀ j < i + n, cam.entry j = some (entry j)) :
    ∃ cam', unmap_buffers n i cam = .ok cam' ∧
      cam'.calls = cam.calls ++ (List.range' i n).map fun j => .munmap j (some (entry j)) := by
  induction n generalizing i cam with
  | zero => exact ⟨cam, rfl, by simp⟩
  | succ n ih =>
    have here := there i (by omega)
    obtain ⟨cam', run, calls⟩ := ih (i + 1) (cam.record (.munmap i (some (entry i)))) (fun j less => there j (by omega))
    refine ⟨cam', ?_, ?_⟩
    · rw [unmap_buffers, here]
      exact run
    · rw [calls, List.range'_succ, List.map_cons, Camera.record, List.append_assoc, List.singleton_append]

/-- One is not there: it is to be unmapped too. -/
theorem unmap_buffers_beyond (n i : Nat) (cam : Camera) {count : Nat} (le : i ≤ count) (less : count < i + n)
    (there : ∀ j < count, cam.entry j ≠ none) (missing : cam.entry count = none) :
    .munmap count none ∈ (unmap_buffers n i cam).camera.calls := by
  induction n generalizing i cam with
  | zero => omega
  | succ n ih =>
    rw [unmap_buffers]
    obtain rfl | before := Nat.eq_or_lt_of_le le
    · rw [missing]
      exact List.mem_append_right _ (List.mem_singleton_self _)
    · obtain ⟨b, here⟩ := Option.ne_none_iff_exists'.mp (there i before)
      rw [here]
      exact ih (i + 1) (cam.record (.munmap i b)) before (by omega) there missing

/-- Only calls of `munmap` are made, in turn. -/
theorem unmap_buffers_calls (n i : Nat) (cam : Camera) : ∃ calls, (unmap_buffers n i cam).camera.calls = cam.calls ++ calls ∧
    ∀ call ∈ calls, ∃ j entry, j < i + n ∧ call = .munmap j entry := by
  induction n generalizing i cam with
  | zero => exact ⟨[], (List.append_nil _).symm, by rintro call ⟨⟩⟩
  | succ n ih =>
    rw [unmap_buffers]
    cases cam.entry i with
    | none =>
      refine ⟨[.munmap i none], rfl, ?_⟩
      intro call member
      obtain rfl := List.mem_singleton.mp member
      exact ⟨i, none, by omega, rfl⟩
    | some b =>
      obtain ⟨calls, eq, only⟩ := ih (i + 1) (cam.record (.munmap i b))
      refine ⟨.munmap i b :: calls, ?_, ?_⟩
      · dsimp only
        rw [eq, Camera.record, List.append_assoc, List.singleton_append]
      · intro call member
        rcases List.mem_cons.mp member with rfl | later
        · exact ⟨i, b, by omega, rfl⟩
        · obtain ⟨j, entry, less, rfl⟩ := only call later
          exact ⟨j, entry, by omega, rfl⟩

end Loops

/-! ## Sessions -/

section Sessions
variable {d : Driver} {frames : List Frame} {count i n : Nat}

theorem HandsOut.tries (given : HandsOut d frames) (i : Nat) (queued : Bool) (member : .frame i queued ∈ frames) : d.Tries i := by
  obtain ⟨inside, accepted⟩ := given i queued member
  exact ⟨inside, fun j less => accepted j (Nat.le_of_lt less)⟩

theorem tries_zero (d : Driver) : d.Tries 0 := ⟨by decide, by simp⟩

/-- **A session** is the initialisation, calls for the buffers that are tried, and, unless the
process ends before it, the loop of `free_mem_for_cammera`. -/
theorem session_spec (given : HandsOut d frames) : ∃ cam, Continues d (init_camera d start).1 cam ∧
    (∀ k, d.Tries k → .queue k ∈ cam.calls) ∧
    (session d frames = cam ∧ (¬ d.streamoff ∨ Faults (init_camera d start).1 frames) ∨
      (session d frames).calls = (unmap_buffers FPS 0 cam).camera.calls ∧ d.streamoff ∧
        ¬ Faults (init_camera d start).1 frames) := by
  obtain ⟨goes, tried⟩ := v4l2_init_spec d start
  have same : Faults (v4l2_init d start) frames ↔ Faults (init_camera d start).1 frames := by rw [Faults, Faults, goes.entry]
  rw [← same]
  rcases read_frames_spec given.tries (v4l2_init d start) with ⟨cam, run, further, fine⟩ | ⟨cam, run, further, faults⟩
  · refine ⟨cam, goes.trans further, fun k tries => further.mem (tried k tries), ?_⟩
    have closes : session d frames = (v4l2_close d cam).camera := by rw [session, run]; rfl
    by_cases off : d.streamoff
    · refine .inr ⟨?_, off, fine⟩
      have uninit : v4l2_close d cam = uninit_camera cam := by rw [v4l2_close, stop_capturing, if_pos off]; rfl
      rw [closes, uninit, uninit_camera, free_mem_for_cammera]
      cases unmap_buffers FPS 0 cam <;> rfl
    · refine .inl ⟨?_, .inl off⟩
      rw [closes, v4l2_close, stop_capturing, if_neg off]
      rfl
  · refine ⟨cam, goes.trans further, fun k tries => further.mem (tried k tries), .inl ⟨?_, .inr faults⟩⟩
    rw [session, run]
    rfl

/-- What is tried is below the granted count, where the account is right. -/
theorem Right.tries (given : HandsOut d frames) (right : Right d frames) (tries : d.Tries i) : i < d.granted := by
  obtain ⟨cam, -, tried, ⟨same, -⟩ | ⟨same, -, -⟩⟩ := session_spec given
  · exact right.1 (.queue i) (same ▸ tried i tries) i rfl
  · obtain ⟨calls, eq, -⟩ := unmap_buffers_calls FPS 0 cam
    refine right.1 (.queue i) ?_ i rfl
    rw [same, eq]
    exact List.mem_append_left _ (tried i tries)

theorem Runs.below {calls : List Call} (runs : Runs d calls) (tries : ∀ i, d.Tries i → i < d.granted) :
    ∀ call ∈ calls, ∀ i, call.index = some i → i < d.granted := by
  intro call member i index
  obtain ⟨j, tried, rfl | rfl⟩ := runs call member <;> cases index <;> exact tries i tried

theorem Runs.no_mmap {calls : List Call} (runs : Runs d calls) (length : Nat) : .mmap i length ∉ calls := by
  intro member
  obtain ⟨j, -, same | same⟩ := runs _ member <;> cases same

/-- Nothing is mapped by it. -/
theorem Runs.unmapped {calls : List Call} (runs : Runs d calls) : Unmapped calls :=
  fun _ length member => absurd member (runs.no_mmap length)

theorem countP_runs {calls : List Call} (runs : Runs d calls) : calls.countP (·.released = some i) = 0 := by
  rw [List.countP_eq_zero]
  intro call member
  obtain ⟨j, -, rfl | rfl⟩ := runs call member <;> exact of_decide_eq_false rfl

theorem countP_mapping (m i : Nat) : ((List.range m).map d.mapping).countP (·.released = some i) = 0 := by
  rw [List.countP_eq_zero]
  intro call member
  obtain ⟨j, -, rfl⟩ := List.mem_map.mp member
  exact of_decide_eq_false rfl

theorem countP_released (n i : Nat) : ((List.range n).map fun j => Call.munmap j (some (d.buffer j))).countP (·.released = some i) =
    if i < n then 1 else 0 := by
  induction n with
  | zero => simp
  | succ n ih =>
    rw [List.range_succ, List.map_append, List.countP_append, ih, List.map_singleton, List.countP_singleton]
    have released : (Call.munmap n (some (d.buffer n))).released = some n := rfl
    rw [released]
    obtain less | rfl | more := Nat.lt_trichotomy i n
    · simp [less, Nat.lt_succ_of_lt less, Nat.ne_of_gt less]
    · simp
    · have past : ¬ i < n + 1 := by omega
      simp [past, Nat.not_lt.mpr (Nat.le_of_lt more), Nat.ne_of_lt more]

theorem unmapped_nil : Unmapped [] := by rintro i length ⟨⟩

/-! ### No array -/

/-- The initialisation has no array, and has made no call. -/
theorem right_of_no_array (given : HandsOut d frames) (calls : (init_camera d start).1.calls = [])
    (missing : (init_camera d start).1.entry 0 = none) : Right d frames ↔ ∀ i, d.Tries i → i < d.granted := by
  refine ⟨fun right i => right.tries given, ?_⟩
  intro tries
  obtain ⟨cam, goes, -, ends⟩ := session_spec given
  have entry := goes.entry
  obtain ⟨-, used, runs, eq⟩ := goes
  rw [calls, List.nil_append] at eq
  rw [Right, calls]
  rcases ends with ⟨same, -⟩ | ⟨same, -, -⟩
  · rw [same, eq]
    exact ⟨runs.below tries, runs.unmapped, fun _ => unmapped_nil⟩
  · have first : unmap_buffers FPS 0 cam = .error (cam.record (.munmap 0 none)) := by
      have here : cam.entry 0 = none := by
        rw [entry]
        exact missing
      rw [FPS, unmap_buffers, here]
    have all : (session d frames).calls = used ++ [.munmap 0 none] := by
      rw [same, first, ← eq]
      rfl
    rw [all]
    refine ⟨?_, ?_, fun _ => unmapped_nil⟩
    · intro call member i index
      rcases List.mem_append.mp member with running | unmapping
      · exact runs.below tries call running i index
      · obtain rfl := List.mem_singleton.mp unmapping
        cases index
        exact tries 0 (tries_zero d)
    · intro i length member
      rcases List.mem_append.mp member with running | unmapping
      · exact absurd running (runs.no_mmap length)
      · cases List.mem_singleton.mp unmapping

/-! ### An array without a mapping -/

/-- The first mapping has failed: the account is right unless `uninit_camera` comes to a buffer
that was not granted. -/
theorem right_of_first_failed (given : HandsOut d frames) (bound : d.granted = count) {length : Nat}
    (calls : (init_camera d start).1.calls = []) (first : (init_camera d start).1.entry 0 = some { start := .failed, length := length })
    (others : ∀ j, 0 < j → j < count → (init_camera d start).1.entry j = some { start := .null, length := 0 })
    (missing : (init_camera d start).1.entry count = none) : Right d frames ↔ (∀ i, d.Tries i → i < d.granted) ∧
      (d.streamoff → (∀ queued, .frame 0 queued ∈ frames → length = 0) → FPS ≤ d.granted) := by
  have there : ∀ j < count, (init_camera d start).1.entry j ≠ none := by
    intro j less
    obtain rfl | some := Nat.eq_zero_or_pos j
    · rw [first]
      exact Option.some_ne_none _
    · rw [others j some less]
      exact Option.some_ne_none _
  have faults (tries : ∀ i, d.Tries i → i < d.granted) :
      ¬ Faults (init_camera d start).1 frames ↔ ∀ queued, .frame 0 queued ∈ frames → length = 0 := by
    constructor
    · intro fine queued member
      by_contra full
      refine fine ⟨0, queued, member, ?_⟩
      intro b here
      cases first.symm.trans here
      rintro (mapped | none)
      · cases mapped
      · exact full none
    · rintro empty ⟨i, queued, member, unreadable⟩
      have inside : i < count := bound ▸ tries i (given.tries i queued member)
      obtain rfl | some := Nat.eq_zero_or_pos i
      · exact unreadable _ first (.inr (empty queued member))
      · exact unreadable _ (others i some inside) (.inr rfl)
  obtain ⟨cam, goes, -, ends⟩ := session_spec given
  have entry := goes.entry
  obtain ⟨-, used, runs, eq⟩ := goes
  rw [calls, List.nil_append] at eq
  constructor
  · intro right
    refine ⟨fun i => right.tries given, ?_⟩
    intro off empty
    have fine := (faults fun i => right.tries given).mpr empty
    rcases ends with ⟨-, on | faulted⟩ | ⟨same, -, -⟩
    · exact absurd off on
    · exact absurd faulted fine
    · by_contra few
      have beyond := unmap_buffers_beyond FPS 0 cam (Nat.zero_le count) (by omega) (entry ▸ there) (entry ▸ missing)
      exact absurd (right.1 _ (same ▸ beyond) count rfl) (by omega)
  · rintro ⟨tries, enough⟩
    rw [Right, calls]
    rcases ends with ⟨same, -⟩ | ⟨same, off, fine⟩
    · rw [same, eq]
      exact ⟨runs.below tries, runs.unmapped, fun _ => unmapped_nil⟩
    · have all := enough off ((faults tries).mp fine)
      obtain ⟨unmaps, more, only⟩ := unmap_buffers_calls FPS 0 cam
      rw [same, more, eq]
      refine ⟨?_, ?_, fun _ => unmapped_nil⟩
      · intro call member i index
        rcases List.mem_append.mp member with running | unmapping
        · exact runs.below tries call running i index
        · obtain ⟨j, _, less, rfl⟩ := only call unmapping
          cases index
          omega
      · intro i length member
        rcases List.mem_append.mp member with running | unmapping
        · exact absurd running (runs.no_mmap length)
        · obtain ⟨j, _, -, same⟩ := only _ unmapping
          cases same

/-! ### Mappings -/

/-- A later mapping has failed: those before it are not unmapped by the initialisation. -/
theorem not_right_of_failed {m : Nat} (some : 0 < m) (calls : (init_camera d start).1.calls = (List.range m).map d.mapping)
    (fails : (init_camera d start).2 ≠ 0) : ¬ Right d frames := by
  rintro ⟨-, -, released⟩
  have mapped : .mmap 0 ((d.querybuf 0).getD 0) ∈ (init_camera d start).1.calls := by
    rw [calls]
    exact List.mem_map_of_mem (List.mem_range.mpr some)
  have once := released fails 0 _ mapped
  rw [calls, countP_mapping] at once
  cases once

/-- All that is granted is mapped. -/
theorem right_of_mapped (given : HandsOut d frames) (bound : d.granted = count) (enough : 2 ≤ count)
    (calls : (init_camera d start).1.calls = (List.range count).map d.mapping) (ret : (init_camera d start).2 = 0)
    (entries : ∀ j, (init_camera d start).1.entry j = if j < count then some (d.buffer j) else none) :
    Right d frames ↔ count = FPS ∧ d.streamoff := by
  obtain ⟨cam, goes, -, ends⟩ := session_spec given
  have entry := goes.entry
  obtain ⟨-, used, runs, eq⟩ := goes
  rw [calls] at eq
  have unfaulted (tries : ∀ i, d.Tries i → i < d.granted) : ¬ Faults (init_camera d start).1 frames := by
    rintro ⟨i, queued, member, unreadable⟩
    have inside : i < count := bound ▸ tries i (given.tries i queued member)
    exact unreadable (d.buffer i) ((entries i).trans (if_pos inside)) (.inl rfl)
  have there : ∀ j < count, cam.entry j = some (d.buffer j) := by
    intro j less
    rw [entry, entries, if_pos less]
  have sum (all : FPS ≤ count) (same : (session d frames).calls = (unmap_buffers FPS 0 cam).camera.calls) :
      (session d frames).calls =
        (List.range count).map d.mapping ++ used ++ (List.range FPS).map fun j => .munmap j (some (d.buffer j)) := by
    obtain ⟨cam', run, unmaps⟩ := unmap_buffers_all d.buffer FPS 0 cam (fun j less => there j (by omega))
    rw [← List.range_eq_range', eq] at unmaps
    rw [same, run]
    exact unmaps
  constructor
  · intro right
    have fine := unfaulted fun i => right.tries given
    rcases ends with ⟨same, on | faulted⟩ | ⟨same, off, -⟩
    · -- the process has ended with everything mapped
      have mapped : .mmap 0 ((d.querybuf 0).getD 0) ∈ (session d frames).calls := by
        rw [same, eq]
        exact List.mem_append_left _ (List.mem_map_of_mem (List.mem_range.mpr (by omega)))
      have once := right.2.1 0 _ mapped
      rw [same, eq, List.countP_append, countP_mapping, countP_runs runs] at once
      cases once
    · exact absurd faulted fine
    · refine ⟨?_, off⟩
      obtain few | rfl | more := Nat.lt_trichotomy count FPS
      · have missing : cam.entry count = none := by
          rw [entry, entries, if_neg (Nat.lt_irrefl count)]
        have beyond := unmap_buffers_beyond FPS 0 cam (Nat.zero_le count) (by omega)
          (fun j less => by rw [there j less]; exact Option.some_ne_none _) missing
        exact absurd (right.1 _ (same ▸ beyond) count rfl) (by omega)
      · rfl
      · -- the buffer behind the last that is unmapped
        have sum := sum (Nat.le_of_lt more) same
        have mapped : .mmap FPS ((d.querybuf FPS).getD 0) ∈ (session d frames).calls := by
          rw [sum, List.append_assoc]
          exact List.mem_append_left _ (List.mem_map_of_mem (List.mem_range.mpr more))
        have once := right.2.1 FPS _ mapped
        rw [sum, List.countP_append, List.countP_append, countP_mapping, countP_runs runs, countP_released,
          if_neg (Nat.lt_irrefl FPS)] at once
        cases once
  · rintro ⟨rfl, off⟩
    have tries : ∀ i, d.Tries i → i < d.granted := by
      intro i tried
      rw [bound]
      exact tried.1
    rcases ends with ⟨-, on | faulted⟩ | ⟨same, -, -⟩
    · exact absurd off on
    · exact absurd faulted (unfaulted tries)
    · have sum := sum (Nat.le_refl FPS) same
      refine ⟨?_, ?_, fun failed => absurd ret failed⟩
      · intro call member i index
        rw [sum, List.mem_append, List.mem_append] at member
        rcases member with (mapping | running) | unmapping
        · obtain ⟨j, -, rfl⟩ := List.mem_map.mp mapping
          cases index
        · exact runs.below tries call running i index
        · obtain ⟨j, inside, rfl⟩ := List.mem_map.mp unmapping
          cases index
          rw [bound]
          exact List.mem_range.mp inside
      · intro i length member
        rw [sum] at member ⊢
        have inside : i < FPS := by
          rw [List.mem_append, List.mem_append] at member
          rcases member with (mapping | running) | unmapping
          · obtain ⟨j, less, same⟩ := List.mem_map.mp mapping
            cases same
            exact List.mem_range.mp less
          · exact absurd running (runs.no_mmap length)
          · obtain ⟨j, -, same⟩ := List.mem_map.mp unmapping
            cases same
        rw [List.countP_append, List.countP_append, countP_mapping, countP_runs runs, countP_released, if_pos inside]

/-! ### The initialisation -/

/-- What the initialisation can come to. -/
inductive Initialised (d : Driver) : Prop where
  | noArray (calls : (init_camera d start).1.calls = []) (missing : (init_camera d start).1.entry 0 = none)
      (why : d.granted < 2 ∨ ¬ d.calloc ∨ d.querybuf 0 = none)
  | firstFailed {length : Nat} (enough : 2 ≤ d.granted) (calloc : d.calloc) (query : d.querybuf 0 = some length)
      (unmapped : ¬ d.maps 0) (calls : (init_camera d start).1.calls = [])
      (first : (init_camera d start).1.entry 0 = some { start := .failed, length := length })
      (others : ∀ j, 0 < j → j < d.granted → (init_camera d start).1.entry j = some { start := .null, length := 0 })
      (missing : (init_camera d start).1.entry d.granted = none)
  | failed {m : Nat} (enough : 2 ≤ d.granted) (calloc : d.calloc) (first : d.maps 0) (fails : ¬ ∀ i < d.granted, d.maps i)
      (some : 0 < m) (calls : (init_camera d start).1.calls = (List.range m).map d.mapping)
      (ret : (init_camera d start).2 ≠ 0)
  | mapped (enough : 2 ≤ d.granted) (calloc : d.calloc) (maps : ∀ i < d.granted, d.maps i)
      (calls : (init_camera d start).1.calls = (List.range d.granted).map d.mapping) (ret : (init_camera d start).2 = 0)
      (entries : ∀ j, (init_camera d start).1.entry j = if j < d.granted then some (d.buffer j) else none)

theorem init_camera_of_granted (enough : 2 ≤ d.granted) (calloc : d.calloc) : init_camera d start =
    map_buffers d d.granted 0 (List.replicate d.granted { start := .null, length := 0 }) start := by
  rw [Driver.granted] at enough ⊢
  split_ifs at enough ⊢ with setup
  · rw [init_camera, if_pos setup, alloc_mem_for_camera, init_mmap]
    cases granted : d.reqbufs with
    | none =>
      rw [granted] at enough
      exact absurd enough (by decide)
    | some count =>
      rw [granted, Option.getD_some] at enough
      rw [Option.getD_some]
      exact (if_neg (Nat.not_lt.mpr enough)).trans (if_pos calloc)
  · exact absurd enough (by decide)

theorem init_camera_refused (refused : d.granted < 2 ∨ ¬ d.calloc) :
    (init_camera d start).1.calls = [] ∧ (init_camera d start).1.buffers = .null := by
  rw [init_camera]
  split_ifs with setup
  · rw [Driver.granted, if_pos setup] at refused
    rw [alloc_mem_for_camera, init_mmap]
    cases granted : d.reqbufs with
    | none => exact ⟨rfl, rfl⟩
    | some count =>
      rw [granted, Option.getD_some] at refused
      dsimp only
      split_ifs with few calloc
      · exact ⟨rfl, rfl⟩
      · exact absurd (refused.resolve_left few) (not_not_intro calloc)
      · exact ⟨rfl, rfl⟩
  · exact ⟨rfl, rfl⟩

theorem initialised (d : Driver) : Initialised d := by
  by_cases refused : d.granted < 2 ∨ ¬ d.calloc
  · obtain ⟨calls, null⟩ := init_camera_refused refused
    refine .noArray calls ?_ (refused.imp_right .inl)
    rw [Camera.entry, null]
  obtain ⟨enough, calloc⟩ := not_or.mp refused
  rw [Nat.not_lt] at enough
  rw [not_not] at calloc
  have init := init_camera_of_granted enough calloc
  obtain ⟨n, count⟩ : ∃ n, d.granted = n + 1 := ⟨d.granted - 1, by omega⟩
  by_cases first : d.maps 0
  · obtain ⟨m, all, calls, ⟨rfl, ret, buffers⟩ | ⟨less, ret, last⟩⟩ :=
      map_buffers_spec d d.granted 0 (List.replicate d.granted { start := .null, length := 0 }) start (by simp)
    · rw [← init] at calls ret buffers
      refine .mapped enough calloc (fun i inside => Nat.zero_add i ▸ all i inside) ?_ ret ?_
      · rw [calls, ← List.range_eq_range']
        rfl
      · intro j
        rw [Camera.entry, buffers, List.take_zero, List.nil_append, ← List.range_eq_range']
        simp only [List.getElem?_map]
        split_ifs with inside
        · rw [List.getElem?_range inside]
          rfl
        · rw [List.getElem?_eq_none (by rw [List.length_range]; omega)]
          rfl
    · rw [← init] at calls ret
      rw [Nat.zero_add] at last
      refine .failed (m := m) enough calloc first (fun maps => last (maps m less)) ?_ ?_ (by rw [ret]; decide)
      · refine Nat.pos_of_ne_zero ?_
        rintro rfl
        exact last first
      · rw [calls, ← List.range_eq_range']
        rfl
  · cases query : d.querybuf 0 with
    | none =>
      have freed : init_camera d start = ({ start with buffers := .freed }, 1) := by
        rw [init, count, map_buffers, query]
      refine .noArray ?_ ?_ (.inr (.inr query))
      · rw [freed]
        rfl
      · rw [freed]
        rfl
    | some length =>
      have unmapped : ¬ d.mmap 0 := by
        intro mapped
        refine first ⟨?_, mapped⟩
        rw [query]
        exact Option.some_ne_none length
      have failed : init_camera d start =
          ({ start with buffers := .array ((List.replicate d.granted { start := .null, length := 0 }).set 0
            { start := .failed, length := length }) }, 1) := by
        rw [init, count, map_buffers, query]
        exact if_neg unmapped
      refine .firstFailed enough calloc query first ?_ ?_ ?_ ?_
      · rw [failed]
        rfl
      · rw [failed]
        exact List.getElem?_set_self (by rw [List.length_replicate]; omega)
      · intro j some less
        rw [failed]
        refine (List.getElem?_set_ne (Nat.ne_of_lt some)).trans ?_
        rw [List.getElem?_replicate, if_pos less]
      · rw [failed]
        exact List.getElem?_eq_none (Nat.le_of_eq (by rw [List.length_set, List.length_replicate]))

end Sessions

/-- A driver that grants so many buffers and refuses others, with calls that all succeed. -/
def granting (count : Nat) : Driver where
  setup := 0
  reqbufs := some count
  calloc := true
  querybuf _ := some 614400
  mmap _ := true
  qbuf i := i < count
  streamon := true
  streamoff := true

end CodeClips.Video
