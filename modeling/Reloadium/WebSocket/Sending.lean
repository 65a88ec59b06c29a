import Reloadium.WebSocket.Handler

namespace Reloadium.WebSocket

open Lib

/-!
# The websocket server — what it sends

A frame of the server has its length in the shortest form and no mask.

* `readServerFrame` — how a client takes it off what it receives;
* `send_inj` — **what the server sends** can be taken apart in one way only.
-/

/-! ### Calls -/

/-- A call that sends. -/
inductive Request
  | message (text : String)
  | pong (text : String)
  | close (status : Int) (reason : List UInt8)

def Request.send : Request → Except Error (List UInt8)
  | .message text => sendMessage text
  | .pong text => sendPong text
  | .close status reason => sendClose status reason

def Request.opcode : Request → UInt8
  | .message _ => opcodeText
  | .pong _ => opcodePong
  | .close .. => opcodeCloseConn

def Request.payload : Request → List UInt8
  | .message text => encodeToUTF8 text
  | .pong text => encodeToUTF8 text
  | .close status reason => bigEndian 2 status.toNat ++ reason

def Request.frame (r : Request) : UInt8 × List UInt8 := (r.opcode, r.payload)

/-- What a call that sends has let through. -/
def Request.Fits (r : Request) : Prop :=
  r.frame.2.length < 18446744073709551616 ∧
    ∀ status reason, r = .close status reason → 1000 ≤ status ∧ status ≤ 1015

theorem serverFrame_of_short {opcode : UInt8} {payload : List UInt8} (h : payload.length ≤ 125) :
    serverFrame opcode payload = (fin ||| opcode) :: .ofNat payload.length :: payload := by
  rw [serverFrame, if_pos h]
  rfl

theorem send_eq_ok {r : Request} {bytes : List UInt8} (h : r.send = .ok bytes) :
    r.Fits ∧ bytes = serverFrame r.frame.1 r.frame.2 := by
  cases r with
  | message text =>
    obtain ⟨hlength, hbytes⟩ := sendText_eq_ok_iff.mp h
    exact ⟨⟨hlength, fun _ _ h => nomatch h⟩, hbytes⟩
  | pong text =>
    obtain ⟨hlength, hbytes⟩ := sendText_eq_ok_iff.mp h
    exact ⟨⟨hlength, fun _ _ h => nomatch h⟩, hbytes⟩
  | close status reason =>
    rw [Request.send, sendClose] at h
    split at h
    case isTrue => exact nomatch h
    case isFalse hstatus =>
      dsimp only at h
      split at h
      case isFalse => exact nomatch h
      case isTrue hlength =>
        refine ⟨⟨Nat.lt_of_le_of_lt hlength (by decide), ?_⟩, ?_⟩
        · intro status' reason' heq
          obtain ⟨rfl, rfl⟩ := Request.close.inj heq
          omega
        · exact (Except.ok.inj h).symm.trans (serverFrame_of_short hlength).symm

theorem encodeToUTF8_inj {text text' : String} (h : encodeToUTF8 text = encodeToUTF8 text') :
    text = text' := by
  have hdecode := decodeUTF8_eq_some_iff.mpr h
  rw [decodeUTF8_eq_some_iff.mpr rfl] at hdecode
  exact Option.some.inj hdecode

theorem frame_inj {r s : Request} (hr : r.Fits) (hs : s.Fits) (h : r.frame = s.frame) : r = s := by
  obtain ⟨hopcode, hpayload⟩ := Prod.mk.inj h
  cases r with
  | message text =>
    cases s with
    | message text' => rw [encodeToUTF8_inj hpayload]
    | pong => exact absurd (show opcodeText = opcodePong from hopcode) (by decide)
    | close => exact absurd (show opcodeText = opcodeCloseConn from hopcode) (by decide)
  | pong text =>
    cases s with
    | message => exact absurd (show opcodePong = opcodeText from hopcode) (by decide)
    | pong text' => rw [encodeToUTF8_inj hpayload]
    | close => exact absurd (show opcodePong = opcodeCloseConn from hopcode) (by decide)
  | close status reason =>
    cases s with
    | message => exact absurd (show opcodeCloseConn = opcodeText from hopcode) (by decide)
    | pong => exact absurd (show opcodeCloseConn = opcodePong from hopcode) (by decide)
    | close status' reason' =>
      obtain ⟨hlow, hhigh⟩ := hr.2 status reason rfl
      obtain ⟨hlow', hhigh'⟩ := hs.2 status' reason' rfl
      obtain ⟨hstatus, rfl⟩ := List.append_inj hpayload
        ((length_bigEndian 2 _).trans (length_bigEndian 2 _).symm)
      have hnumber := congrArg ofBigEndian hstatus
      rw [ofBigEndian_bigEndian (by omega), ofBigEndian_bigEndian (by omega)] at hnumber
      rw [show status = status' by omega]

/-! ### Frames -/

/-- A frame of the server as its client reads it. -/
def readServerFrame : List UInt8 → Option ((UInt8 × List UInt8) × List UInt8)
  | b1 :: b2 :: input =>
    match payloadLength b2 input with
    | .ok (n, t) => some ((b1 &&& opcodeBits, t.take n), t.drop n)
    | .error _ => none
  | _ => none

theorem fin_or_and_opcodeBits (b : UInt8) : b.toNat < 16 → (fin ||| b) &&& opcodeBits = b := by
  revert b
  apply forall_byte
  decide +kernel

/-- The length form of the server holds the length. -/
theorem readServerFrame_serverFrame {opcode : UInt8} {payload : List UInt8}
    (hopcode : opcode.toNat < 16) (hlength : payload.length < 18446744073709551616)
    (t : List UInt8) :
    readServerFrame (serverFrame opcode payload ++ t) = some ((opcode, payload), t) := by
  rw [serverFrame]
  generalize hform : (if payload.length ≤ 125 then LengthForm.short
    else if payload.length ≤ 65535 then .ext16 else .ext64) = form
  have hholds : form.Holds payload.length := by
    rw [← hform]
    split
    case isTrue hshort => exact hshort
    case isFalse =>
      split
      case isTrue h16 => exact Nat.lt_succ_of_le h16
      case isFalse => exact hlength
  rw [List.cons_append, List.cons_append, readServerFrame, fin_or_and_opcodeBits opcode hopcode,
    List.append_assoc, (payloadLength_eq_ok_iff (toNat_code hholds)).mpr ⟨form, hholds, rfl, rfl⟩]
  dsimp only
  rw [List.take_left' rfl, List.drop_left' rfl]

theorem delimited_serverFrame :
    Delimited (fun frame : UInt8 × List UInt8 =>
        frame.1.toNat < 16 ∧ frame.2.length < 18446744073709551616)
      (fun frame => serverFrame frame.1 frame.2) readServerFrame where
  read_write _ hfits t := readServerFrame_serverFrame hfits.1 hfits.2 t
  ne_nil _ := List.cons_ne_nil _ _

theorem toNat_opcode_lt (r : Request) : r.frame.1.toNat < 16 := by
  cases r with
  | message => exact show opcodeText.toNat < 16 by decide
  | pong => exact show opcodePong.toNat < 16 by decide
  | close => exact show opcodeCloseConn.toNat < 16 by decide

/-! ### Sequences of calls -/

/-- What was sent is the frames of the calls. -/
theorem flatten_eq {rs : List Request} {chunks : List (List UInt8)}
    (h : List.Forall₂ (fun r bytes => r.send = .ok bytes) rs chunks) :
    chunks.flatten = (rs.map Request.frame).flatMap fun frame => serverFrame frame.1 frame.2 := by
  induction h with
  | nil => rfl
  | cons hsend _ ih =>
    rw [List.flatten_cons, List.map_cons, List.flatMap_cons, ih, (send_eq_ok hsend).2]

theorem fits_of_sent {rs : List Request} {chunks : List (List UInt8)}
    (h : List.Forall₂ (fun r bytes => r.send = .ok bytes) rs chunks) : ∀ r ∈ rs, r.Fits := by
  induction h with
  | nil => exact fun _ h => absurd h List.not_mem_nil
  | cons hsend _ ih => exact List.forall_mem_cons.mpr ⟨(send_eq_ok hsend).1, ih⟩

theorem map_frame_inj {rs ss : List Request} (hrs : ∀ r ∈ rs, r.Fits) (hss : ∀ s ∈ ss, s.Fits)
    (h : rs.map Request.frame = ss.map Request.frame) : rs = ss := by
  induction rs generalizing ss with
  | nil => exact (List.map_eq_nil_iff.mp h.symm).symm
  | cons r rs ih =>
    cases ss with
    | nil => exact absurd h (List.cons_ne_nil _ _)
    | cons s ss =>
      obtain ⟨hr, hrs'⟩ := List.forall_mem_cons.mp hrs
      obtain ⟨hs, hss'⟩ := List.forall_mem_cons.mp hss
      obtain ⟨hhead, htail⟩ := List.cons.inj h
      rw [frame_inj hr hs hhead, ih hrs' hss' htail]

/-- **What the server sends** can be taken apart in one way only: another sequence of calls sends
other bytes. -/
theorem send_inj {rs ss : List Request} {chunks chunks' : List (List UInt8)}
    (h : List.Forall₂ (fun r bytes => r.send = .ok bytes) rs chunks)
    (h' : List.Forall₂ (fun r bytes => r.send = .ok bytes) ss chunks')
    (heq : chunks.flatten = chunks'.flatten) : rs = ss := by
  have hfits {rs : List Request} (hrs : ∀ r ∈ rs, r.Fits) : ∀ frame ∈ rs.map Request.frame,
      frame.1.toNat < 16 ∧ frame.2.length < 18446744073709551616 := by
    intro frame hframe
    obtain ⟨r, hr, rfl⟩ := List.mem_map.mp hframe
    exact ⟨toNat_opcode_lt r, (hrs r hr).1⟩
  apply map_frame_inj (fits_of_sent h) (fits_of_sent h')
  apply delimited_serverFrame.flatMap_inj (hfits (fits_of_sent h)) (hfits (fits_of_sent h'))
  rw [← flatten_eq h, ← flatten_eq h', heq]

/-- Two messages are not one. -/
theorem send_inj_twoMessages :
    [[0x81, 1, 97], [0x81, 1, 98]].flatten ≠ [([0x81, 2, 97, 98] : List UInt8)].flatten := by
  intro heq
  have hsame := @send_inj [.message "a", .message "b"] [.message "ab"] _ _
    (.cons rfl (.cons rfl .nil)) (.cons rfl .nil) heq
  exact absurd (List.cons.inj hsame).2 (List.cons_ne_nil _ _)

end Reloadium.WebSocket
