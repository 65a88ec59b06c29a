import Reloadium.Lib.Fallible
import Reloadium.Lib.Wire

namespace Reloadium.WebSocket

open Lib

/-!
# The websocket server — frames

Model of `WebSocketHandler` of `websocket_server` after the handshake.  The input is what the client
sends until the connection ends; a read returns less than it asked for only at that end.  A text is
one without surrogates, and `send` takes what it is given.

* `handle_pieces` — whole frames of the client are answered one after another, whatever follows;
* `handle_input` — **every input** is whole frames, and headers of unsupported ones, up to the read
  that is the last.

The payload of an unsupported frame is not read, and so is taken for the next frames.
-/

def fin : UInt8 := 0x80
def opcodeBits : UInt8 := 0x0f
def masked : UInt8 := 0x80
def payloadLen : UInt8 := 0x7f
def payloadLenExt16 : UInt8 := 0x7e
def payloadLenExt64 : UInt8 := 0x7f

def opcodeContinuation : UInt8 := 0x0
def opcodeText : UInt8 := 0x1
def opcodeBinary : UInt8 := 0x2
def opcodeCloseConn : UInt8 := 0x8
def opcodePing : UInt8 := 0x9
def opcodePong : UInt8 := 0xA

/-- What ends `handle`, or a call that sends. -/
inductive Error
  | structError
  | overflowError
  | indexError
  | unicodeDecodeError
  | closeStatus (status : Int)
  | assertionError
  | messageTooBig
deriving DecidableEq

/-- `encode_to_UTF8` -/
def encodeToUTF8 (text : String) : List UInt8 := text.toByteArray.data.toList

/-- `decode('utf8')` -/
def decodeUTF8 (bytes : List UInt8) : Option String := String.fromUTF8? ⟨bytes.toArray⟩

/-! ### Sending -/

/-- `send_text` -/
def sendText (message : String) (opcode : UInt8) : Except Error (List UInt8) :=
  let payload := encodeToUTF8 message
  let payloadLength := payload.length
  if payloadLength ≤ 125 then .ok ((fin ||| opcode) :: .ofNat payloadLength :: payload)
  else if payloadLength ≤ 65535 then
    .ok ((fin ||| opcode) :: payloadLenExt16 :: (bigEndian 2 payloadLength ++ payload))
  else if payloadLength < 18446744073709551616 then
    .ok ((fin ||| opcode) :: payloadLenExt64 :: (bigEndian 8 payloadLength ++ payload))
  else .error .messageTooBig

/-- `send_message` -/
def sendMessage (message : String) : Except Error (List UInt8) := sendText message opcodeText

/-- `send_pong` -/
def sendPong (message : String) : Except Error (List UInt8) := sendText message opcodePong

/-- `send_close` -/
def sendClose (status : Int) (reason : List UInt8) : Except Error (List UInt8) :=
  if status < 1000 ∨ status > 1015 then .error (.closeStatus status)
  else
    let payload := bigEndian 2 status.toNat ++ reason
    if payload.length ≤ 125 then
      .ok ((fin ||| opcodeCloseConn) :: .ofNat payload.length :: payload)
    else .error .assertionError

/-! ### Receiving -/

/-- What the server is told, or sends. -/
inductive Event
  | messageReceived (message : String)
  | sent (bytes : List UInt8)
deriving DecidableEq

inductive OpcodeHandler
  | messageReceived
  | pingReceived
  | pongReceived

/-- The method of the server for the opcode. -/
def opcodeHandler (opcode : UInt8) : Option OpcodeHandler :=
  if opcode = opcodeText then some .messageReceived
  else if opcode = opcodePing then some .pingReceived
  else if opcode = opcodePong then some .pongReceived
  else none

def OpcodeHandler.call (message : String) : OpcodeHandler → Except Error (List Event)
  | .messageReceived => .ok [.messageReceived message]
  | .pingReceived => (sendPong message).map fun bytes => [.sent bytes]
  | .pongReceived => .ok []

/-- `struct.unpack` of what is read -/
def unpack (width : Nat) (input : List UInt8) : Except Error (Nat × List UInt8) :=
  if (input.take width).length = width then
    .ok (ofBigEndian (input.take width), input.drop width)
  else .error .structError

/-- The length, and what is left after it. -/
def payloadLength (code : UInt8) (input : List UInt8) : Except Error (Nat × List UInt8) :=
  if code = 126 then unpack 2 input
  else if code = 127 then unpack 8 input
  else .ok (code.toNat, input)

/-- The loop over the bytes of the message, from the given position on. -/
def unmask (masks : List UInt8) : Nat → List UInt8 → Except Error (List UInt8)
  | _, [] => .ok []
  | i, messageByte :: bytes =>
    match masks[i % 4]? with
    | none => .error .indexError
    | some mask => (unmask masks (i + 1) bytes).map ((messageByte ^^^ mask) :: ·)

/-- The message of the given length, and what is left after it. -/
def readMessage (length : Nat) (input : List UInt8) : Except Error (String × List UInt8) := do
  let masks := input.take 4
  let input := input.drop 4
  if 9223372036854775808 ≤ length then throw .overflowError
  let messageBytes ← unmask masks 0 (input.take length)
  match decodeUTF8 messageBytes with
  | none => throw .unicodeDecodeError
  | some message => return (message, input.drop length)

/-- The payload, handed to the method of the server. -/
def receive (handler : OpcodeHandler) (code : UInt8) (input : List UInt8) :
    Except Error (List Event × List UInt8) := do
  let (length, input) ← payloadLength code input
  let (message, input) ← readMessage length input
  let events ← handler.call message
  return (events, input)

inductive Step
  | closed
  | raised (error : Error)
  | read (events : List Event) (input : List UInt8)

/-- The two bytes of a header; zeros when there are not two bytes left. -/
def readHeader : List UInt8 → UInt8 × UInt8 × List UInt8
  | b1 :: b2 :: input => (b1, b2, input)
  | _ => (0, 0, [])

/-- `read_next_message` -/
def readNextMessage (input : List UInt8) : Step :=
  let (b1, b2, input) := readHeader input
  let opcode := b1 &&& opcodeBits
  if opcode = opcodeCloseConn then .closed
  else if b2 &&& masked = 0 then .closed
  else if opcode = opcodeContinuation then .read [] input
  else if opcode = opcodeBinary then .read [] input
  else
    match opcodeHandler opcode with
    | none => .closed
    | some handler =>
      match receive handler (b2 &&& payloadLen) input with
      | .error error => .raised error
      | .ok (events, input) => .read events input

/-! ### Lengths -/

variable {n : Nat} {b : UInt8} {input rest : List UInt8} {message : String}
  {output : List Event}

/-- The three ways to write a length. -/
inductive LengthForm
  | short
  | ext16
  | ext64

def LengthForm.code (n : Nat) : LengthForm → UInt8
  | .short => .ofNat n
  | .ext16 => payloadLenExt16
  | .ext64 => payloadLenExt64

/-- What follows the header. -/
def LengthForm.extended (n : Nat) : LengthForm → List UInt8
  | .short => []
  | .ext16 => bigEndian 2 n
  | .ext64 => bigEndian 8 n

def LengthForm.Holds (n : Nat) : LengthForm → Prop
  | .short => n ≤ 125
  | .ext16 => n < 65536
  | .ext64 => n < 18446744073709551616

theorem unpack_eq_ok_iff {width : Nat} :
    unpack width input = .ok (n, rest) ↔ n < 256 ^ width ∧ input = bigEndian width n ++ rest := by
  rw [unpack]
  constructor
  · intro h
    split at h
    case isTrue hlength =>
      obtain ⟨rfl, rfl⟩ := Prod.mk.inj (Except.ok.inj h)
      have hlt := ofBigEndian_lt (input.take width)
      rw [hlength] at hlt
      refine ⟨hlt, ?_⟩
      rw [bigEndian_ofBigEndian hlength, List.take_append_drop]
    case isFalse => exact nomatch h
  · rintro ⟨hn, rfl⟩
    rw [List.take_left' (length_bigEndian width n), List.drop_left' (length_bigEndian width n),
      if_pos (length_bigEndian width n), ofBigEndian_bigEndian hn]

theorem payloadLength_eq_ok_iff (hb : b.toNat ≤ 127) :
    payloadLength b input = .ok (n, rest) ↔
      ∃ form : LengthForm, form.Holds n ∧ b = form.code n ∧ input = form.extended n ++ rest := by
  rw [payloadLength]
  constructor
  · intro h
    split at h
    case isTrue h16 =>
      obtain ⟨hn, hinput⟩ := unpack_eq_ok_iff.mp h
      exact ⟨.ext16, hn, h16, hinput⟩
    case isFalse h16 =>
      split at h
      case isTrue h64 =>
        obtain ⟨hn, hinput⟩ := unpack_eq_ok_iff.mp h
        exact ⟨.ext64, hn, h64, hinput⟩
      case isFalse h64 =>
        obtain ⟨rfl, rfl⟩ := Prod.mk.inj (Except.ok.inj h)
        refine ⟨.short, ?_, (UInt8.ofNat_toNat).symm, rfl⟩
        have hne16 : b.toNat ≠ 126 := fun h => h16 (UInt8.toNat_inj.mp h)
        have hne64 : b.toNat ≠ 127 := fun h => h64 (UInt8.toNat_inj.mp h)
        rw [LengthForm.Holds]
        omega
  · rintro ⟨form, hn, rfl, rfl⟩
    cases form with
    | short =>
      rw [LengthForm.Holds] at hn
      have htoNat : (UInt8.ofNat n).toNat = n :=
        UInt8.toNat_ofNat_of_lt' (Nat.lt_of_le_of_lt hn (by decide))
      have hne (k : UInt8) (hk : 126 ≤ k.toNat) : UInt8.ofNat n ≠ k := by
        rintro rfl
        omega
      rw [LengthForm.code, if_neg (hne 126 (by decide)), if_neg (hne 127 (by decide)), htoNat]
      rfl
    | ext16 =>
      have hlt : n < 256 ^ 2 := hn
      exact unpack_eq_ok_iff.mpr ⟨hlt, rfl⟩
    | ext64 =>
      have hlt : n < 256 ^ 8 := hn
      exact unpack_eq_ok_iff.mpr ⟨hlt, rfl⟩

/-! ### Messages -/

theorem decodeUTF8_eq_some_iff {bytes : List UInt8} :
    decodeUTF8 bytes = some message ↔ bytes = encodeToUTF8 message := by
  rw [decodeUTF8, String.fromUTF8?]
  constructor
  · intro h
    split at h
    case isTrue =>
      obtain rfl := Option.some.inj h
      rfl
    case isFalse => exact nomatch h
  · rintro rfl
    exact dif_pos message.isValidUTF8

/-- The message with the masks put on, from the given position on. -/
def masking (masks : List UInt8) : Nat → List UInt8 → List UInt8
  | _, [] => []
  | i, messageByte :: bytes =>
    (messageByte ^^^ masks.getD (i % 4) 0) :: masking masks (i + 1) bytes

theorem length_masking (masks : List UInt8) (i : Nat) (bytes : List UInt8) :
    (masking masks i bytes).length = bytes.length := by
  induction bytes generalizing i with
  | nil => rfl
  | cons messageByte bytes ih => rw [masking, List.length_cons, ih, List.length_cons]

theorem masking_masking (masks : List UInt8) (i : Nat) (bytes : List UInt8) :
    masking masks i (masking masks i bytes) = bytes := by
  induction bytes generalizing i with
  | nil => rfl
  | cons messageByte bytes ih =>
    rw [masking, masking, ih, UInt8.xor_assoc, UInt8.xor_self, UInt8.xor_zero]

theorem unmask_eq {masks : List UInt8} (hmasks : masks.length = 4) (i : Nat)
    (bytes : List UInt8) : unmask masks i bytes = .ok (masking masks i bytes) := by
  induction bytes generalizing i with
  | nil => rfl
  | cons messageByte bytes ih =>
    have hi : i % 4 < masks.length := by omega
    rw [unmask, List.getElem?_eq_getElem hi, ih, masking, List.getD_eq_getElem?_getD,
      List.getElem?_eq_getElem hi]
    rfl

theorem readMessage_eq_ok_iff :
    readMessage n input = .ok (message, rest) ↔
      n < 9223372036854775808 ∧
        unmask (input.take 4) 0 ((input.drop 4).take n) = .ok (encodeToUTF8 message) ∧
        rest = (input.drop 4).drop n := by
  rw [readMessage]
  dsimp only
  by_cases hn : 9223372036854775808 ≤ n
  · rw [if_pos hn]
    exact iff_of_false (fun h => nomatch h) fun h => absurd h.1 (Nat.not_lt.mpr hn)
  · rw [if_neg hn, and_iff_right (Nat.not_le.mp hn)]
    cases hunmask : unmask (input.take 4) 0 ((input.drop 4).take n) with
    | error e => exact iff_of_false (fun h => nomatch h) fun h => nomatch h.1
    | ok bytes =>
      rw [Except.ok.injEq, ← decodeUTF8_eq_some_iff]
      show (match decodeUTF8 bytes with
        | none => Except.error Error.unicodeDecodeError
        | some text => Except.ok (text, (input.drop 4).drop n)) = _ ↔ _
      cases decodeUTF8 bytes with
      | none => exact iff_of_false (fun h => nomatch h) fun h => nomatch h.1
      | some text =>
        rw [Except.ok.injEq, Prod.mk.injEq, Option.some.injEq, eq_comm (a := rest)]

/-! ### Frames -/

inductive Kind
  | text
  | ping
  | pong

def Kind.opcode : Kind → UInt8
  | .text => opcodeText
  | .ping => opcodePing
  | .pong => opcodePong

/-- A frame of the server, with its length in the shortest form. -/
def serverFrame (opcode : UInt8) (payload : List UInt8) : List UInt8 :=
  let form : LengthForm :=
    if payload.length ≤ 125 then .short else if payload.length ≤ 65535 then .ext16 else .ext64
  (fin ||| opcode) :: form.code payload.length :: (form.extended payload.length ++ payload)

/-- A frame of the client that is answered. -/
structure Frame where
  b1 : UInt8
  kind : Kind
  form : LengthForm
  masks : List UInt8
  message : String
  opcode : b1 &&& opcodeBits = kind.opcode
  holds : form.Holds (encodeToUTF8 message).length
  index : (encodeToUTF8 message).length < 9223372036854775808
  length_masks : masks.length = 4

def Frame.bytes (f : Frame) : List UInt8 :=
  f.b1 :: (masked ||| f.form.code (encodeToUTF8 f.message).length) ::
    (f.form.extended (encodeToUTF8 f.message).length ++
      (f.masks ++ masking f.masks 0 (encodeToUTF8 f.message)))

/-- The answer to a frame. -/
def Kind.events (message : String) : Kind → List Event
  | .text => [.messageReceived message]
  | .ping => [.sent (serverFrame opcodePong (encodeToUTF8 message))]
  | .pong => []

def Frame.events (f : Frame) : List Event := f.kind.events f.message

/-- What is taken off the input while the connection stays open. -/
inductive Piece
  | frame (f : Frame)
  | unsupported (b1 b2 : UInt8)
      (opcode : b1 &&& opcodeBits = opcodeContinuation ∨ b1 &&& opcodeBits = opcodeBinary)
      (mask : b2 &&& masked ≠ 0)

def Piece.bytes : Piece → List UInt8
  | .frame f => f.bytes
  | .unsupported b1 b2 _ _ => [b1, b2]

def Piece.events : Piece → List Event
  | .frame f => f.events
  | .unsupported .. => []

/-! ### Headers -/

theorem forall_byte {P : UInt8 → Prop} (h : ∀ n < 256, P (.ofNat n)) (b : UInt8) : P b := by
  rw [← UInt8.ofNat_toNat (x := b)]
  exact h b.toNat b.toNat_lt

theorem masked_or_and_masked (b : UInt8) : (masked ||| b) &&& masked ≠ 0 := by
  revert b
  apply forall_byte
  decide +kernel

theorem masked_or_and_payloadLen (b : UInt8) :
    b.toNat ≤ 127 → (masked ||| b) &&& payloadLen = b := by
  revert b
  apply forall_byte
  decide +kernel

theorem masked_or_of_and (b : UInt8) : b &&& masked ≠ 0 → masked ||| (b &&& payloadLen) = b := by
  revert b
  apply forall_byte
  decide +kernel

theorem toNat_and_payloadLen (b : UInt8) : (b &&& payloadLen).toNat ≤ 127 := by
  rw [UInt8.toNat_and]
  exact Nat.and_le_right

theorem toNat_code {form : LengthForm} (h : form.Holds n) : (form.code n).toNat ≤ 127 := by
  cases form with
  | short =>
    rw [LengthForm.Holds] at h
    rw [LengthForm.code, UInt8.toNat_ofNat_of_lt' (Nat.lt_of_le_of_lt h (by decide))]
    omega
  | ext16 => exact Nat.le_succ 126
  | ext64 => exact Nat.le_refl 127

def Kind.handler : Kind → OpcodeHandler
  | .text => .messageReceived
  | .ping => .pingReceived
  | .pong => .pongReceived

variable {handler : OpcodeHandler}

theorem opcodeHandler_eq_some_iff :
    opcodeHandler b = some handler ↔ ∃ kind : Kind, b = kind.opcode ∧ handler = kind.handler := by
  rw [opcodeHandler]
  constructor
  · intro h
    split at h
    case isTrue htext => exact ⟨.text, htext, (Option.some.inj h).symm⟩
    case isFalse =>
      split at h
      case isTrue hping => exact ⟨.ping, hping, (Option.some.inj h).symm⟩
      case isFalse =>
        split at h
        case isTrue hpong => exact ⟨.pong, hpong, (Option.some.inj h).symm⟩
        case isFalse => exact nomatch h
  · rintro ⟨kind, rfl, rfl⟩
    cases kind <;> rfl

theorem opcodeHandler_opcode (kind : Kind) : opcodeHandler kind.opcode = some kind.handler :=
  opcodeHandler_eq_some_iff.mpr ⟨kind, rfl, rfl⟩

theorem receive_eq_ok_iff :
    receive handler b input = .ok (output, rest) ↔
      ∃ n t message, payloadLength b input = .ok (n, t) ∧
        readMessage n t = .ok (message, rest) ∧ handler.call message = .ok output := by
  rw [receive, bind_eq_ok_iff]
  constructor
  · rintro ⟨⟨n, t⟩, hlength, h⟩
    obtain ⟨⟨message, rest'⟩, hmessage, h⟩ := bind_eq_ok_iff.mp h
    obtain ⟨output', hcall, h⟩ := bind_eq_ok_iff.mp h
    obtain ⟨rfl, rfl⟩ := Prod.mk.inj (Except.ok.inj h)
    exact ⟨n, t, message, hlength, hmessage, hcall⟩
  · rintro ⟨n, t, message, hlength, hmessage, hcall⟩
    refine ⟨(n, t), hlength, bind_eq_ok_iff.mpr ⟨(message, rest), hmessage, ?_⟩⟩
    exact bind_eq_ok_iff.mpr ⟨output, hcall, rfl⟩

theorem readNextMessage_eq_read_iff :
    readNextMessage input = .read output rest ↔ ∃ b1 b2 t, input = b1 :: b2 :: t ∧
      b2 &&& masked ≠ 0 ∧
      ((b1 &&& opcodeBits = opcodeContinuation ∨ b1 &&& opcodeBits = opcodeBinary) ∧
          output = [] ∧ rest = t ∨
        ∃ handler, opcodeHandler (b1 &&& opcodeBits) = some handler ∧
          receive handler (b2 &&& payloadLen) t = .ok (output, rest)) := by
  rw [readNextMessage]
  constructor
  · intro h
    rcases input with _ | ⟨b1, _ | ⟨b2, t⟩⟩
    · exact nomatch h
    · exact nomatch h
    · refine ⟨b1, b2, t, rfl, ?_⟩
      dsimp only [readHeader] at h
      generalize b1 &&& opcodeBits = opcode at h ⊢
      split at h
      · exact nomatch h
      split at h
      · exact nomatch h
      case isFalse hmask =>
        refine ⟨hmask, ?_⟩
        split at h
        case isTrue hcontinuation =>
          obtain ⟨rfl, rfl⟩ := Step.read.inj h
          exact Or.inl ⟨Or.inl hcontinuation, rfl, rfl⟩
        split at h
        case isTrue hbinary =>
          obtain ⟨rfl, rfl⟩ := Step.read.inj h
          exact Or.inl ⟨Or.inr hbinary, rfl, rfl⟩
        split at h
        · exact nomatch h
        case h_2 handler hhandler =>
          split at h
          · exact nomatch h
          case h_2 output' rest' hreceive =>
            obtain ⟨rfl, rfl⟩ := Step.read.inj h
            exact Or.inr ⟨handler, hhandler, hreceive⟩
  · rintro ⟨b1, b2, t, rfl, hmask, hrest⟩
    dsimp only [readHeader]
    generalize b1 &&& opcodeBits = opcode at hrest ⊢
    rcases hrest with ⟨hunsupported, rfl, rfl⟩ | ⟨handler, hhandler, hreceive⟩
    · rcases hunsupported with rfl | rfl
      · rw [if_neg (by decide), if_neg hmask, if_pos rfl]
      · rw [if_neg (by decide), if_neg hmask, if_neg (by decide), if_pos rfl]
    · rw [hhandler]
      dsimp only
      rw [hreceive]
      obtain ⟨kind, rfl, rfl⟩ := opcodeHandler_eq_some_iff.mp hhandler
      cases kind with
      | text => rw [if_neg (by decide), if_neg hmask, if_neg (by decide), if_neg (by decide)]
      | ping => rw [if_neg (by decide), if_neg hmask, if_neg (by decide), if_neg (by decide)]
      | pong => rw [if_neg (by decide), if_neg hmask, if_neg (by decide), if_neg (by decide)]

/-! ### Pieces -/

theorem sendText_eq_ok_iff {opcode : UInt8} {bytes : List UInt8} :
    sendText message opcode = .ok bytes ↔
      (encodeToUTF8 message).length < 18446744073709551616 ∧
        bytes = serverFrame opcode (encodeToUTF8 message) := by
  rw [sendText, serverFrame]
  generalize encodeToUTF8 message = payload
  split
  case isTrue hshort =>
    rw [Except.ok.injEq, and_iff_right (Nat.lt_of_le_of_lt hshort (by decide)), eq_comm]
    rfl
  case isFalse hshort =>
    split
    case isTrue h16 =>
      rw [Except.ok.injEq, and_iff_right (Nat.lt_of_le_of_lt h16 (by decide)), eq_comm]
      rfl
    case isFalse h16 =>
      split
      case isTrue h64 =>
        rw [Except.ok.injEq, and_iff_right h64, eq_comm]
        rfl
      case isFalse h64 => exact iff_of_false (fun h => nomatch h) fun h => h64 h.1

theorem call_handler {kind : Kind} (hindex : (encodeToUTF8 message).length < 9223372036854775808) :
    kind.handler.call message = .ok output ↔ output = kind.events message := by
  cases kind with
  | text =>
    rw [eq_comm]
    exact ⟨Except.ok.inj, congrArg Except.ok⟩
  | ping =>
    have hsend : sendPong message = .ok (serverFrame opcodePong (encodeToUTF8 message)) :=
      sendText_eq_ok_iff.mpr ⟨Nat.lt_trans hindex (by decide), rfl⟩
    rw [Kind.handler, OpcodeHandler.call, hsend, eq_comm]
    exact ⟨Except.ok.inj, congrArg Except.ok⟩
  | pong =>
    rw [eq_comm]
    exact ⟨Except.ok.inj, congrArg Except.ok⟩

/-- A piece is taken off whatever follows it. -/
theorem readNextMessage_piece (piece : Piece) (t : List UInt8) :
    readNextMessage (piece.bytes ++ t) = .read piece.events t := by
  rw [readNextMessage_eq_read_iff]
  cases piece with
  | unsupported b1 b2 hopcode hmask =>
    exact ⟨b1, b2, t, rfl, hmask, Or.inl ⟨hopcode, rfl, rfl⟩⟩
  | frame f =>
    have hcode := toNat_code f.holds
    refine ⟨f.b1, _, _, rfl, masked_or_and_masked _, Or.inr ⟨f.kind.handler, ?_, ?_⟩⟩
    · rw [f.opcode]
      exact opcodeHandler_opcode f.kind
    rw [masked_or_and_payloadLen _ hcode, receive_eq_ok_iff]
    refine ⟨(encodeToUTF8 f.message).length, f.masks ++ (masking f.masks 0
      (encodeToUTF8 f.message) ++ t), f.message, (payloadLength_eq_ok_iff hcode).mpr
      ⟨f.form, f.holds, rfl, ?_⟩, readMessage_eq_ok_iff.mpr ⟨f.index, ?_, ?_⟩,
      (call_handler f.index).mpr rfl⟩
    · exact (List.append_assoc _ _ _).trans (congrArg _ (List.append_assoc _ _ _))
    · rw [List.take_left' f.length_masks, List.drop_left' f.length_masks,
        List.take_left' (length_masking _ _ _), unmask_eq f.length_masks, masking_masking]
    · rw [List.drop_left' f.length_masks, List.drop_left' (length_masking _ _ _)]

/-- What is read while there is more to come is a piece. -/
theorem exists_piece_of_read (h : readNextMessage input = .read output rest) (hrest : rest ≠ []) :
    ∃ piece : Piece, input = piece.bytes ++ rest ∧ output = piece.events := by
  obtain ⟨b1, b2, t, rfl, hmask, h⟩ := readNextMessage_eq_read_iff.mp h
  rcases h with ⟨hopcode, rfl, rfl⟩ | ⟨handler, hhandler, hreceive⟩
  · exact ⟨.unsupported b1 b2 hopcode hmask, rfl, rfl⟩
  obtain ⟨kind, hopcode, rfl⟩ := opcodeHandler_eq_some_iff.mp hhandler
  obtain ⟨n, t, message, hlength, hmessage, hcall⟩ := receive_eq_ok_iff.mp hreceive
  obtain ⟨form, hholds, hcode, rfl⟩ :=
    (payloadLength_eq_ok_iff (toNat_and_payloadLen b2)).mp hlength
  obtain ⟨hindex, hunmask, rfl⟩ := readMessage_eq_ok_iff.mp hmessage
  rw [List.drop_drop, Ne, List.drop_eq_nil_iff, Nat.not_le] at hrest
  have hmasks : (t.take 4).length = 4 := by
    rw [List.length_take]
    omega
  rw [unmask_eq hmasks] at hunmask
  have hpayload := Except.ok.inj hunmask
  have hn : (encodeToUTF8 message).length = n := by
    rw [← hpayload, length_masking, List.length_take, List.length_drop]
    omega
  let f : Frame :=
    { b1 := b1
      kind := kind
      form := form
      masks := t.take 4
      message := message
      opcode := hopcode
      holds := hn ▸ hholds
      index := hn ▸ hindex
      length_masks := hmasks }
  refine ⟨.frame f, ?_, (call_handler f.index).mp hcall⟩
  show _ = (b1 :: (masked ||| form.code (encodeToUTF8 message).length) ::
    (form.extended (encodeToUTF8 message).length ++
      (t.take 4 ++ masking (t.take 4) 0 (encodeToUTF8 message)))) ++ _
  rw [hn, ← hcode, masked_or_of_and b2 hmask, ← hpayload, masking_masking, List.cons_append,
    List.cons_append, List.append_assoc, List.append_assoc, List.take_append_drop,
    List.take_append_drop]

/-! ### The whole connection -/

theorem length_lt_of_read (h : readNextMessage input = .read output rest) :
    rest.length < input.length := by
  obtain ⟨b1, b2, t, rfl, -, h⟩ := readNextMessage_eq_read_iff.mp h
  rw [List.length_cons, List.length_cons]
  rcases h with ⟨-, -, rfl⟩ | ⟨handler, -, hreceive⟩
  · omega
  · obtain ⟨n, t', message, hlength, hmessage, -⟩ := receive_eq_ok_iff.mp hreceive
    obtain ⟨form, -, -, rfl⟩ := (payloadLength_eq_ok_iff (toNat_and_payloadLen b2)).mp hlength
    obtain ⟨-, -, rfl⟩ := readMessage_eq_ok_iff.mp hmessage
    rw [List.length_append, List.length_drop, List.length_drop]
    omega

inductive Ending
  | closed
  | raised (error : Error)
deriving DecidableEq

/-- `handle`, after the handshake: what it does with the input, and how it ends. -/
def handle (input : List UInt8) : List Event × Ending :=
  match _h : readNextMessage input with
  | .closed => ([], .closed)
  | .raised error => ([], .raised error)
  | .read output rest => (output ++ (handle rest).1, (handle rest).2)
termination_by input.length
decreasing_by
  all_goals exact length_lt_of_read _h

theorem handle_eq (input : List UInt8) :
    handle input = match readNextMessage input with
      | .closed => ([], .closed)
      | .raised error => ([], .raised error)
      | .read output rest => (output ++ (handle rest).1, (handle rest).2) := by
  rw [handle]
  split
  case h_1 h => rw [h]
  case h_2 error h => rw [h]
  case h_3 output rest h => rw [h]

theorem handle_of_read (h : readNextMessage input = .read output rest) :
    handle input = (output ++ (handle rest).1, (handle rest).2) := by
  rw [handle_eq, h]

/-- **Whole frames of the client** are answered one after another, whatever follows them. -/
theorem handle_pieces (pieces : List Piece) (t : List UInt8) :
    handle (pieces.flatMap Piece.bytes ++ t) =
      (pieces.flatMap Piece.events ++ (handle t).1, (handle t).2) := by
  induction pieces with
  | nil => rfl
  | cons piece pieces ih =>
    rw [List.flatMap_cons, List.flatMap_cons, List.append_assoc,
      handle_of_read (readNextMessage_piece piece _), ih, List.append_assoc]

/-- The next read is the last one. -/
def IsLast (input : List UInt8) : Prop :=
  ∀ output rest, readNextMessage input = .read output rest → rest = []

theorem length_events_le (h : handler.call message = .ok output) : output.length ≤ 1 := by
  cases handler with
  | messageReceived =>
    rw [← Except.ok.inj h]
    exact Nat.le_refl 1
  | pingReceived =>
    rw [OpcodeHandler.call] at h
    cases hsend : sendPong message with
    | error e => rw [hsend] at h; exact nomatch h
    | ok bytes =>
      rw [hsend] at h
      rw [← Except.ok.inj h]
      exact Nat.le_refl 1
  | pongReceived =>
    rw [← Except.ok.inj h]
    exact Nat.zero_le 1

theorem handle_nil : handle [] = ([], .closed) := handle_eq []

/-- At the last read there is one event at most: what a cut frame was going to be. -/
theorem length_handle_le (h : IsLast input) : (handle input).1.length ≤ 1 := by
  cases hread : readNextMessage input with
  | closed =>
    rw [handle_eq, hread]
    exact Nat.zero_le 1
  | raised error =>
    rw [handle_eq, hread]
    exact Nat.zero_le 1
  | read output rest =>
    obtain rfl := h output rest hread
    rw [handle_of_read hread, handle_nil, List.append_nil]
    obtain ⟨b1, b2, t, rfl, -, h⟩ := readNextMessage_eq_read_iff.mp hread
    rcases h with ⟨-, rfl, -⟩ | ⟨handler, -, hreceive⟩
    · exact Nat.zero_le 1
    · obtain ⟨n, t', message, -, -, hcall⟩ := receive_eq_ok_iff.mp hreceive
      exact length_events_le hcall

/-- **Every input** is pieces and a last read: the pieces are answered, and after them there is
one event at most. -/
theorem handle_input (input : List UInt8) :
    ∃ pieces : List Piece, ∃ t, input = pieces.flatMap Piece.bytes ++ t ∧ IsLast t ∧
      handle input = (pieces.flatMap Piece.events ++ (handle t).1, (handle t).2) ∧
      (handle t).1.length ≤ 1 := by
  suffices hsplit : ∃ pieces : List Piece, ∃ t, input = pieces.flatMap Piece.bytes ++ t ∧
      IsLast t by
    obtain ⟨pieces, t, rfl, hlast⟩ := hsplit
    exact ⟨pieces, t, rfl, hlast, handle_pieces pieces t, length_handle_le hlast⟩
  induction hlength : input.length using Nat.strongRecOn generalizing input with
  | _ n ih =>
    by_cases hlast : IsLast input
    · exact ⟨[], input, rfl, hlast⟩
    · obtain ⟨output, rest, hread, hrest⟩ :
          ∃ output rest, readNextMessage input = .read output rest ∧ rest ≠ [] := by
        by_contra hnone
        exact hlast fun output rest hread => by_contra fun hne => hnone ⟨output, rest, hread, hne⟩
      obtain ⟨piece, rfl, -⟩ := exists_piece_of_read hread hrest
      obtain ⟨pieces, t, rfl, ht⟩ := ih rest.length (hlength ▸ length_lt_of_read hread) rest rfl
      refine ⟨piece :: pieces, t, ?_, ht⟩
      rw [List.flatMap_cons, List.append_assoc]

end Reloadium.WebSocket
