import HeapHttpd.General
import HeapHttpd.Library.Wire

/-!
# Messages of a web socket

`WebSocket::Send` and `WebSocket::Recv` from `websocket.cpp`, on the octets of a
connection.  Neither has a result where a read is cut off or an `int` overflows.
-/

namespace HeapHttpd

namespace Websocket

open Wire

/-- `WebSocket_Buffer`. -/
structure WebSocketBuffer where
  buf : List UInt8
  len : Nat
  opcode : Int
  mask : Bool
  deriving DecidableEq, Repr

/-! ## Both sides -/

/-- The member `payload_len_7bit` that `WebSocket::Send` sets. -/
def payloadLen7bit (len : Nat) : Nat :=
  if 65535 < len then 127 else if 125 < len ∧ len < 65535 then 126 else len % 2 ^ 7

/-- The member `huint16` of a last frame. -/
def huint16 (opcode : Int) (mask : Bool) (payloadLen7bit : Nat) : Nat :=
  2 ^ 15 + (opcode % 16).toNat * 2 ^ 8 + (if mask then 2 ^ 7 else 0) + payloadLen7bit

/-- The length behind the header. -/
def extendedLength (payloadLen7bit len : Nat) : List UInt8 :=
  if payloadLen7bit = 126 then write 2 len
  else if payloadLen7bit = 127 then write 8 len
  else []

/-- The octets of `mkey`. -/
def maskingKey (mkey : UInt32) : List UInt8 :=
  [mkey.toUInt8, (mkey >>> 8).toUInt8, (mkey >>> 16).toUInt8, (mkey >>> 24).toUInt8]

/-- The loops over a payload with a key. -/
def xorMask (maskingKey payload : List UInt8) : List UInt8 :=
  payload.mapIdx fun i octet => octet ^^^ maskingKey.getD (i % 4) 0

/-- What `WebSocket::Send` writes, where `random` gives `mkey`. -/
def send (mkey : UInt32) (data : WebSocketBuffer) : Option (List UInt8) :=
  if data.len < 2 ^ 31 then
    match split data.len data.buf with
    | none => none
    | some (payload, _) =>
        let len7bit := payloadLen7bit data.len
        some (write 2 (huint16 data.opcode data.mask len7bit) ++
          (extendedLength len7bit data.len ++
            if data.mask then maskingKey mkey ++ xorMask (maskingKey mkey) payload
            else payload))
  else none

/-- The length of a payload as `WebSocket::Recv` reads it. -/
def readLength (len7bit : Nat) (incoming : List UInt8) : Option (Nat × List UInt8) :=
  if len7bit < 126 then some (len7bit, incoming)
  else (split (if len7bit = 126 then 2 else 8) incoming).map fun dataLen =>
    (read dataLen.1, dataLen.2)

/-- The masking key, where there is one. -/
def readMaskingKey (mask : Bool) (incoming : List UInt8) : Option (List UInt8 × List UInt8) :=
  if mask then split 4 incoming else some ([], incoming)

/-- The payload as `WebSocket::Recv` stores it, with what it returns. -/
def readPayload (mask : Bool) (maskingKey : List UInt8) (payloadLen : Nat)
    (incoming : List UInt8) (data : WebSocketBuffer) :
    Option (Nat × WebSocketBuffer × List UInt8) :=
  if 0 < payloadLen then
    match split (payloadLen % 2 ^ 32) incoming with
    | none => none
    | some (payload, rest) =>
        if 2 ^ 31 ≤ payload.length ∨ mask ∧ 2 ^ 31 ≤ payloadLen then none
        else
          let payloadBuf := if mask then xorMask maskingKey payload else payload
          some (payload.length, { data with buf := payloadBuf, len := payloadLen }, rest)
  else some (0, data, incoming)

/-- `WebSocket::Recv` into `data`, with what is left of the octets that come. -/
def recv (incoming : List UInt8) (data : WebSocketBuffer) :
    Option (Nat × WebSocketBuffer × List UInt8) :=
  match split 2 incoming with
  | none => none
  | some (baseHdr, incoming) =>
      let mask := decide (read baseHdr / 2 ^ 7 % 2 = 1)
      match readLength (read baseHdr % 2 ^ 7) incoming with
      | none => none
      | some (payloadLen, incoming) =>
          match readMaskingKey mask incoming with
          | none => none
          | some (maskingKey, incoming) =>
              readPayload mask maskingKey payloadLen incoming data

/-! ## The three encodings of a length -/

/-- The encodings of a length. -/
inductive LengthForm
  | seven
  | sixteen
  | sixtyFour
  deriving DecidableEq, Repr

namespace LengthForm

/-- The octets behind the header that an encoding takes up. -/
def octets : LengthForm → Nat
  | seven => 0
  | sixteen => 2
  | sixtyFour => 8

/-- The lengths an encoding can stand for. -/
def Carries (len : Nat) : LengthForm → Prop
  | seven => len ≤ 125
  | sixteen => len < 2 ^ 16
  | sixtyFour => len < 2 ^ 64

/-- The encoding of a frame, by its second octet. -/
def ofFrame (frame : List UInt8) : LengthForm :=
  let len7bit := (frame.getD 1 0).toNat % 2 ^ 7
  if len7bit = 126 then sixteen else if len7bit = 127 then sixtyFour else seven

/-- An encoding carries a length, and no shorter one does. -/
def Shortest (len : Nat) (form : LengthForm) : Prop :=
  form.Carries len ∧ ∀ other : LengthForm, other.Carries len → form.octets ≤ other.octets

end LengthForm

/-- A message to be sent. -/
def message (payload : List UInt8) (opcode : Int) (mask : Bool) : WebSocketBuffer :=
  { buf := payload, len := payload.length, opcode, mask }

/-- A message comes through a connection to the buffer that `into` becomes, in the
shortest encoding of its length. -/
def ComesThrough (payload : List UInt8) (opcode : Int) (mask : Bool) (mkey : UInt32)
    (into : WebSocketBuffer) : Prop :=
  ∃ frame, send mkey (message payload opcode mask) = some frame ∧
    (LengthForm.ofFrame frame).Shortest payload.length ∧
    ∃ received, recv frame into = some (payload.length, received, []) ∧
      received.buf = payload ∧ received.len = payload.length ∧ received.opcode = opcode

/-! ## What is read of a frame -/

section Header

variable {opcode : Int} {mask : Bool} {len7bit len : Nat}

/-- One length is sent as a longer one. -/
theorem payloadLen7bit_cases (len : Nat) :
    payloadLen7bit len = 126 ∧ 125 < len ∧ len < 65535 ∨
      payloadLen7bit len = 127 ∧ 65535 ≤ len ∨
      payloadLen7bit len = len ∧ len ≤ 125 := by
  unfold payloadLen7bit
  by_cases long : 65535 < len
  · exact .inr (.inl ⟨if_pos long, Nat.le_of_lt long⟩)
  · rw [if_neg long]
    by_cases middle : 125 < len ∧ len < 65535
    · exact .inl ⟨if_pos middle, middle⟩
    · rw [if_neg middle]
      by_cases largest : len = 65535
      · subst largest
        exact .inr (.inl ⟨rfl, Nat.le_refl _⟩)
      · exact .inr (.inr ⟨Nat.mod_eq_of_lt (by omega), by omega⟩)

theorem payloadLen7bit_lt (len : Nat) : payloadLen7bit len < 2 ^ 7 := by
  rcases payloadLen7bit_cases len with ⟨isForm, -⟩ | ⟨isForm, -⟩ | ⟨isForm, small⟩ <;> omega

theorem huint16_lt (small : len7bit < 2 ^ 7) : huint16 opcode mask len7bit < 2 ^ 16 := by
  have opcodeBound : (opcode % 16).toNat < 16 := by omega
  unfold huint16
  cases mask <;> simp only [Bool.false_eq_true, if_true, if_false] <;> omega

/-- The header keeps the seven bits of the length. -/
theorem huint16_mod (small : len7bit < 2 ^ 7) : huint16 opcode mask len7bit % 2 ^ 7 = len7bit := by
  unfold huint16
  cases mask <;> simp only [Bool.false_eq_true, if_true, if_false] <;> omega

/-- The header keeps the bit of the mask. -/
theorem huint16_mask (small : len7bit < 2 ^ 7) :
    decide (huint16 opcode mask len7bit / 2 ^ 7 % 2 = 1) = mask := by
  unfold huint16
  cases mask <;> simp only [Bool.false_eq_true, if_true, if_false, decide_eq_true_eq,
    decide_eq_false_iff_not] <;> omega

theorem read_header (small : len7bit < 2 ^ 7) :
    read (write 2 (huint16 opcode mask len7bit)) = huint16 opcode mask len7bit := by
  rw [read_write]
  exact Nat.mod_eq_of_lt (huint16_lt small)

/-- The length is read back from either form behind the header. -/
theorem readLength_extendedLength (short : len < 2 ^ 31) (rest : List UInt8) :
    readLength (payloadLen7bit len) (extendedLength (payloadLen7bit len) len ++ rest) =
      some (len, rest) := by
  rcases payloadLen7bit_cases len with ⟨isForm, -, bound⟩ | ⟨isForm, -⟩ | ⟨isForm, small⟩
  · rw [isForm, extendedLength, if_pos rfl, readLength, if_neg (by decide), if_pos rfl,
      split_append (length_write 2 len), Option.map_some, read_write,
      Nat.mod_eq_of_lt (by omega)]
  · rw [isForm, extendedLength, if_neg (by decide), if_pos rfl, readLength,
      if_neg (by decide), if_neg (by decide), split_append (length_write 8 len),
      Option.map_some, read_write, Nat.mod_eq_of_lt (by omega)]
  · rw [isForm, extendedLength, if_neg (by omega), if_neg (by omega), readLength,
      if_pos (by omega), List.nil_append]

theorem readMaskingKey_append (key rest : List UInt8) (width : key.length = 4) :
    readMaskingKey mask ((if mask then key else []) ++ rest) =
      some (if mask then key else [], rest) := by
  cases mask with
  | false => rfl
  | true => exact split_append width rest

@[simp]
theorem length_xorMask (key payload : List UInt8) :
    (xorMask key payload).length = payload.length :=
  List.length_mapIdx

theorem xorMask_xorMask (key payload : List UInt8) :
    xorMask key (xorMask key payload) = payload := by
  apply List.ext_getElem (by simp)
  intro i inMask inPayload
  simp [xorMask, UInt8.xor_assoc]

end Header

section Frames

variable {payload : List UInt8} {opcode : Int} {mask : Bool} {mkey : UInt32}
  {into : WebSocketBuffer}

/-- The frame of a message. -/
def frameOf (payload : List UInt8) (opcode : Int) (mask : Bool) (mkey : UInt32) : List UInt8 :=
  write 2 (huint16 opcode mask (payloadLen7bit payload.length)) ++
    (extendedLength (payloadLen7bit payload.length) payload.length ++
      ((if mask then maskingKey mkey else []) ++
        if mask then xorMask (maskingKey mkey) payload else payload))

theorem send_message (short : payload.length < 2 ^ 31) :
    send mkey (message payload opcode mask) = some (frameOf payload opcode mask mkey) := by
  have whole : split payload.length payload = some (payload, []) := by
    simpa using split_append (rfl : payload.length = payload.length) []
  rw [send, if_pos (by exact short)]
  simp only [message, whole, frameOf]
  cases mask <;> rfl

/-- What `WebSocket::Recv` makes of a frame. -/
theorem recv_frameOf (short : payload.length < 2 ^ 31) :
    recv (frameOf payload opcode mask mkey) into =
      if payload = [] then some (0, into, [])
      else some (payload.length, { into with buf := payload, len := payload.length }, []) := by
  have small := payloadLen7bit_lt payload.length
  rw [recv, frameOf, split_append (length_write 2 _)]
  simp only [read_header small, huint16_mod small, huint16_mask small,
    readLength_extendedLength short, readMaskingKey_append (maskingKey mkey) _ rfl]
  by_cases empty : payload = []
  · subst empty
    cases mask <;> rfl
  · have positive : 0 < payload.length := List.length_pos_iff_ne_nil.mpr empty
    have unwrapped : payload.length % 2 ^ 32 = payload.length := by omega
    rw [if_neg empty, readPayload, if_pos positive, unwrapped]
    cases mask with
    | false =>
        have whole : split payload.length payload = some (payload, []) := by
          simpa using split_append (rfl : payload.length = payload.length) []
        simp only [whole, Bool.false_eq_true, false_and, or_false, if_false,
          if_neg (Nat.not_le.mpr short)]
    | true =>
        have whole : split payload.length (xorMask (maskingKey mkey) payload) =
            some (xorMask (maskingKey mkey) payload, []) := by
          simpa using split_append (length_xorMask (maskingKey mkey) payload) []
        simp only [whole, length_xorMask, true_and, or_self, if_true,
          if_neg (Nat.not_le.mpr short), xorMask_xorMask]

theorem ofFrame_frameOf :
    LengthForm.ofFrame (frameOf payload opcode mask mkey) =
      if payloadLen7bit payload.length = 126 then .sixteen
      else if payloadLen7bit payload.length = 127 then .sixtyFour
      else .seven := by
  have small := payloadLen7bit_lt payload.length
  have second (header : Nat) (rest : List UInt8) :
      ((write 2 header ++ rest).getD 1 0).toNat % 2 ^ 7 = header % 2 ^ 7 := by
    simp [write]
  rw [LengthForm.ofFrame, frameOf, second, huint16_mod small]

/-- The encoding is the shortest but for one length. -/
theorem shortest_frameOf_iff (short : payload.length < 2 ^ 31) :
    (LengthForm.ofFrame (frameOf payload opcode mask mkey)).Shortest payload.length ↔
      payload.length ≠ 65535 := by
  rw [ofFrame_frameOf]
  rcases payloadLen7bit_cases payload.length with
    ⟨isForm, above, below⟩ | ⟨isForm, above⟩ | ⟨isForm, small⟩
  · rw [isForm, if_pos rfl]
    refine iff_of_true ⟨by simp only [LengthForm.Carries]; omega, ?_⟩ (by omega)
    intro other carries
    cases other with
    | seven => exact absurd carries (Nat.not_le.mpr above)
    | sixteen => exact Nat.le_refl _
    | sixtyFour => decide
  · rw [isForm, if_neg (by decide), if_pos rfl]
    constructor
    case mp =>
      rintro ⟨-, least⟩ largest
      exact absurd (least .sixteen (by simp only [LengthForm.Carries]; omega)) (by decide)
    case mpr =>
      intro notLargest
      refine ⟨by simp only [LengthForm.Carries]; omega, ?_⟩
      intro other carries
      cases other with
      | seven =>
          simp only [LengthForm.Carries] at carries
          omega
      | sixteen =>
          simp only [LengthForm.Carries] at carries
          omega
      | sixtyFour => exact Nat.le_refl _
  · rw [isForm, if_neg (by omega), if_neg (by omega)]
    exact iff_of_true ⟨small, fun _ _ => Nat.zero_le _⟩ (by omega)

theorem comesThrough_of (short : payload.length < 2 ^ 31) (shortest : payload.length ≠ 65535)
    (sameOpcode : into.opcode = opcode)
    (emptied : payload = [] → into.buf = [] ∧ into.len = 0) :
    ComesThrough payload opcode mask mkey into := by
  refine ⟨_, send_message short, (shortest_frameOf_iff short).mpr shortest, ?_⟩
  rw [recv_frameOf short]
  by_cases empty : payload = []
  · obtain ⟨noBuf, noLen⟩ := emptied empty
    subst empty
    exact ⟨into, rfl, noBuf, noLen, sameOpcode⟩
  · exact ⟨_, if_neg empty, rfl, rfl, sameOpcode⟩

theorem of_comesThrough (comes : ComesThrough payload opcode mask mkey into) :
    payload.length < 2 ^ 31 ∧ payload.length ≠ 65535 ∧ into.opcode = opcode ∧
      (payload = [] → into.buf = [] ∧ into.len = 0) := by
  obtain ⟨frame, isSent, shortest, received, isReceived, sameBuf, sameLen, sameOpcode⟩ := comes
  have short : payload.length < 2 ^ 31 := by
    by_contra long
    rw [send, if_neg (by exact long)] at isSent
    cases isSent
  rw [send_message short, Option.some_inj] at isSent
  subst isSent
  rw [shortest_frameOf_iff short] at shortest
  rw [recv_frameOf short] at isReceived
  split at isReceived
  · rename_i empty
    subst empty
    cases isReceived
    exact ⟨short, shortest, sameOpcode, fun _ => ⟨sameBuf, sameLen⟩⟩
  · rename_i some_payload
    cases isReceived
    exact ⟨short, shortest, sameOpcode, fun empty => absurd empty some_payload⟩

/-- A message comes through exactly when it is short enough, its length is not the one
whose form is mistaken, and the buffer has its opcode and, for an empty message, nothing
else. -/
theorem comesThrough_iff :
    ComesThrough payload opcode mask mkey into ↔
      payload.length < 2 ^ 31 ∧ payload.length ≠ 65535 ∧ into.opcode = opcode ∧
        (payload = [] → into.buf = [] ∧ into.len = 0) :=
  ⟨of_comesThrough, fun ⟨short, shortest, sameOpcode, emptied⟩ =>
    comesThrough_of short shortest sameOpcode emptied⟩

/-- A binary message of one octet comes as a text to a buffer that was allocated for one. -/
theorem not_comesThrough : ¬ComesThrough [0x61] 2 false 0 ⟨[], 0, 1, false⟩ := by
  rintro ⟨frame, isSent, -, received, isReceived, -, -, sameOpcode⟩
  rw [send_message (by decide), Option.some_inj] at isSent
  subst isSent
  rw [recv_frameOf (by decide), if_neg (by decide)] at isReceived
  cases isReceived
  exact absurd sameOpcode (by decide)

end Frames

end Websocket

end HeapHttpd
