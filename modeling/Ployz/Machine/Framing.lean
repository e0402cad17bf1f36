import Ployz.Lib.Run

/-!
# gRPC frames

A message travels between Machines as a frame: a compression flag, the message's length in four
bytes, and the message. Bytes that arrive are cut into frames by the lengths these declare.

Main theorem: `framing_round_trips`. Cutting goes on behind a frame as at the start of the bytes
(`grpcFrames_append`), so messages framed one after another are read back one by one.
-/

namespace Ployz.Machine.Framing

open Run

inductive FramingError
  | truncatedHeader
  | invalidCompressionFlag (flag : UInt8)
  | truncatedMessage (declared available : Nat)
  | expectedOneFrame (count : Nat)
deriving DecidableEq

def grpcFrameLength : List UInt8 → Except FramingError Nat
  | compression :: b₃ :: b₂ :: b₁ :: b₀ :: message =>
    if 1 < compression then throw (.invalidCompressionFlag compression)
    else
      let declared := ((b₃.toNat * 256 + b₂.toNat) * 256 + b₁.toNat) * 256 + b₀.toNat
      if message.length < declared then throw (.truncatedMessage declared message.length)
      else pure (5 + declared)
  | _ => throw .truncatedHeader

variable {bytes more frame payload : List UInt8} {length : Nat}

/-- A frame has the same length whatever comes behind it. -/
theorem grpcFrameLength_ok (h : grpcFrameLength bytes = .ok length) :
    0 < length ∧ length ≤ bytes.length ∧
      ∀ more, grpcFrameLength (bytes.take length ++ more) = .ok length := by
  unfold grpcFrameLength at h
  split at h
  · dsimp only at h
    split_ifs at h with hflag hshort
    obtain rfl := Except.ok.inj h
    refine ⟨by omega, by simp only [List.length_cons]; omega, fun more => ?_⟩
    rw [Nat.add_comm]
    simp only [List.take_succ_cons, List.cons_append, grpcFrameLength, if_neg hflag,
      List.length_append, List.length_take]
    rw [if_neg (by omega), Nat.add_comm]
    rfl
  · cases h

theorem length_drop_lt (h : grpcFrameLength bytes = .ok length) :
    (bytes.drop length).length < bytes.length := by
  obtain ⟨hpos, hle, -⟩ := grpcFrameLength_ok h
  rw [List.length_drop]
  omega

def grpcFrames (bytes : List UInt8) : Except FramingError (List (List UInt8)) :=
  if bytes = [] then pure []
  else match _h : grpcFrameLength bytes with
    | .error error => throw error
    | .ok length => (bytes.take length :: ·) <$> grpcFrames (bytes.drop length)
termination_by bytes.length
decreasing_by exact length_drop_lt _h

def requireOneFrame (bytes : List UInt8) : Except FramingError Unit := do
  let frames ← grpcFrames bytes
  if frames.length = 1 then pure () else throw (.expectedOneFrame frames.length)

/-- What a single frame holds behind its header. -/
def grpcFramePayload (frame : List UInt8) : Except FramingError (List UInt8) := do
  requireOneFrame frame
  pure (frame.drop 5)

/-- A message with its header; there is none for a message of 4 GiB or more. -/
def encodeGrpcFrame (payload : List UInt8) : Option (List UInt8) :=
  if payload.length < 4294967296 then
    some (0 :: .ofNat (payload.length / 16777216) :: .ofNat (payload.length / 65536) ::
      .ofNat (payload.length / 256) :: .ofNat payload.length :: payload)
  else none

/-! ## Cutting -/

theorem grpcFrames_of_length (h : grpcFrameLength bytes = .ok length) :
    grpcFrames bytes = (bytes.take length :: ·) <$> grpcFrames (bytes.drop length) := by
  obtain ⟨hpos, hle, -⟩ := grpcFrameLength_ok h
  have hne : bytes ≠ [] := List.ne_nil_of_length_pos (by omega)
  rw [grpcFrames, if_neg hne]
  split
  · next herror => cases h.symm.trans herror
  · next hok => cases h.symm.trans hok; rfl

theorem grpcFrames_cons (h : grpcFrameLength frame = .ok frame.length) (more : List UInt8) :
    grpcFrames (frame ++ more) = (frame :: ·) <$> grpcFrames more := by
  have hlength := (grpcFrameLength_ok h).2.2 more
  rw [List.take_length] at hlength
  rw [grpcFrames_of_length hlength, List.drop_left, List.take_left]

/-- Every frame that is cut is one frame, and together they are the bytes. -/
theorem grpcFrames_ok {frames : List (List UInt8)} (h : grpcFrames bytes = .ok frames) :
    frames.flatten = bytes ∧ ∀ frame ∈ frames, grpcFrameLength frame = .ok frame.length := by
  induction bytes using grpcFrames.induct generalizing frames with
  | case1 =>
    rw [grpcFrames, if_pos rfl] at h
    obtain rfl := pure_eq_ok.mp h
    simp
  | case2 bytes hne error herror =>
    rw [grpcFrames, if_neg hne] at h
    split at h
    · cases h
    · next hok => cases herror.symm.trans hok
  | case3 bytes hne length hlength ih =>
    rw [grpcFrames_of_length hlength, map_eq_ok] at h
    obtain ⟨rest, hrest, rfl⟩ := h
    obtain ⟨hflatten, hframes⟩ := ih hrest
    obtain ⟨-, hle, hmore⟩ := grpcFrameLength_ok hlength
    have hfirst := hmore []
    rw [List.append_nil] at hfirst
    refine ⟨by rw [List.flatten_cons, hflatten, List.take_append_drop], ?_⟩
    rw [List.forall_mem_cons, List.length_take_of_le hle]
    exact ⟨hfirst, hframes⟩

theorem grpcFrames_append {frames : List (List UInt8)}
    (h : ∀ frame ∈ frames, grpcFrameLength frame = .ok frame.length) (more : List UInt8) :
    grpcFrames (frames.flatten ++ more) = (frames ++ ·) <$> grpcFrames more := by
  induction frames with
  | nil => cases hmore : grpcFrames more <;> exact hmore
  | cons frame frames ih =>
    obtain ⟨hframe, hframes⟩ := List.forall_mem_cons.mp h
    rw [List.flatten_cons, List.append_assoc, grpcFrames_cons hframe, ih hframes]
    cases grpcFrames more <;> rfl

theorem requireOneFrame_ok (h : grpcFrameLength frame = .ok frame.length) :
    requireOneFrame frame = .ok () := by
  have hframes := grpcFrames_cons h []
  rw [List.append_nil] at hframes
  rw [requireOneFrame, hframes, grpcFrames, if_pos rfl]
  rfl

theorem encodeGrpcFrame_ok (h : encodeGrpcFrame payload = some frame) :
    grpcFrameLength frame = .ok frame.length ∧ frame.drop 5 = payload := by
  unfold encodeGrpcFrame at h
  split_ifs at h with hlength
  obtain rfl := Option.some.inj h
  refine ⟨?_, rfl⟩
  simp only [grpcFrameLength, UInt8.toNat_ofNat']
  rw [if_neg (by decide), if_neg (by omega)]
  refine congrArg Except.ok ?_
  simp only [List.length_cons]
  omega

/-- Messages framed one after another are cut into their frames and read back; bytes that are cut at
all are their frames one after another, each a frame alone; and cutting goes on behind them. -/
theorem framing_round_trips :
    (∀ payloads frames, List.Forall₂ (encodeGrpcFrame · = some ·) payloads frames →
      grpcFrames frames.flatten = .ok frames ∧ frames.mapM grpcFramePayload = .ok payloads) ∧
    ∀ bytes frames, grpcFrames bytes = .ok frames →
      frames.flatten = bytes ∧ (∀ frame ∈ frames, requireOneFrame frame = .ok ()) ∧
        ∀ more, grpcFrames (bytes ++ more) = (frames ++ ·) <$> grpcFrames more := by
  constructor
  · intro payloads frames h
    have hframes : ∀ frame ∈ frames, grpcFrameLength frame = .ok frame.length := by
      intro frame hframe
      obtain ⟨payload, -, hencoded⟩ := exists_of_mem_right h hframe
      exact (encodeGrpcFrame_ok hencoded).1
    have hcut := grpcFrames_append hframes []
    rw [List.append_nil] at hcut
    refine ⟨?_, mapM_eq_ok.mpr (h.flip.imp fun frame payload hencoded => ?_)⟩
    · rw [hcut, grpcFrames, if_pos rfl, map_pure, List.append_nil]
      rfl
    · obtain ⟨hlength, hpayload⟩ := encodeGrpcFrame_ok hencoded
      rw [grpcFramePayload, requireOneFrame_ok hlength, ok_bind, hpayload]
      rfl
  · intro bytes frames h
    obtain ⟨rfl, hframes⟩ := grpcFrames_ok h
    exact ⟨rfl, fun frame hframe => requireOneFrame_ok (hframes frame hframe),
      grpcFrames_append hframes⟩

end Ployz.Machine.Framing
