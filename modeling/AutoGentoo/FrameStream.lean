import AutoGentoo.MessageFrame
import Mathlib.Data.List.Basic

/-! Frames over a byte stream. Each part of a frame is read with a single call of
`read`, which may return less than it was asked for. -/

namespace AutoGentoo

/-- A frame in memory, up to its size; `padding` is what lies behind the token. -/
def Message.toBytes (self : Message) (padding : UInt32) : List UInt8 :=
  littleEndian 4 self.token.toNat ++ (littleEndian 4 padding.toNat ++ (littleEndian 8 self.val1.toNat ++
    (littleEndian 8 self.val2.toNat ++ (littleEndian 8 self.val3.toNat ++ (littleEndian 8 self.val4.toNat ++
      (littleEndian 8 self.val5.toNat ++ littleEndian 8 self.val6.toNat))))))

def word64At (memory : List UInt8) (offset : Nat) : UInt64 :=
  UInt64.ofNat (wordValue ((memory.drop offset).take 8))

def Message.ofBytes (memory : List UInt8) : Message where
  token := UInt32.ofNat (wordValue (memory.take 4))
  val1 := word64At memory 8
  val2 := word64At memory 16
  val3 := word64At memory 24
  val4 := word64At memory 32
  val5 := word64At memory 40
  val6 := word64At memory 48

theorem Message.length_toBytes (self : Message) (padding : UInt32) :
    (self.toBytes padding).length = 56 := by
  simp only [toBytes, List.length_append, length_littleEndian]

theorem Message.ofBytes_toBytes (self : Message) (padding : UInt32) :
    Message.ofBytes (self.toBytes padding) = self := by
  have hword : ∀ w : UInt64, UInt64.ofNat (wordValue (littleEndian 8 w.toNat)) = w := by
    intro w
    have hlt : w.toNat < 256 ^ 8 := w.toNat_lt
    rw [wordValue_littleEndian hlt, UInt64.ofNat_toNat]
  have htoken : UInt32.ofNat (wordValue (littleEndian 4 self.token.toNat)) = self.token := by
    have hlt : self.token.toNat < 256 ^ 4 := self.token.toNat_lt
    rw [wordValue_littleEndian hlt, UInt32.ofNat_toNat]
  simp [ofBytes, toBytes, word64At, List.drop_append, hword, htoken,
    List.take_of_length_le, List.drop_eq_nil_of_le]

/-- What the calls of `read` on a connection return, by their number, what they ask
for and what is there. -/
structure Split where
  returned : Nat → Nat → Nat → Nat
  pos : ∀ i requested there, 0 < requested → 0 < there → 0 < returned i requested there
  le_requested : ∀ i requested there, returned i requested there ≤ requested
  le_there : ∀ i requested there, returned i requested there ≤ there

/-- What is in memory where nothing has been written. -/
structure Garbage where
  frame : Nat → UInt8
  heap : Nat → UInt8

def overwrite (old : Nat → UInt8) (count : Nat) (got : List UInt8) : List UInt8 :=
  got ++ (List.range' got.length (count - got.length)).map old

theorem length_overwrite {old : Nat → UInt8} {count : Nat} {got : List UInt8} (h : got.length ≤ count) :
    (overwrite old count got).length = count := by
  rw [overwrite, List.length_append, List.length_map, List.length_range']
  omega

theorem overwrite_full {old : Nat → UInt8} {count : Nat} {got : List UInt8} (h : got.length = count) :
    overwrite old count got = got := by
  rw [overwrite, h, Nat.sub_self, List.range'_zero, List.map_nil, List.append_nil]

/-- The last byte is what it was, if fewer bytes have come. -/
theorem overwrite_last {old : Nat → UInt8} {count : Nat} {got : List UInt8} (h : got.length < count) :
    (overwrite old count got)[count - 1]? = some (old (count - 1)) := by
  have hle : got.length ≤ count - 1 := by omega
  have hlt : count - 1 - got.length < count - got.length := by omega
  rw [overwrite, List.getElem?_append_right hle, List.getElem?_map, List.getElem?_range' hlt]
  simp only [Option.map_some, Option.some.injEq]
  congr 1
  omega

/-- The bytes of a call of `read`, and what is there afterwards. -/
def Split.read (split : Split) (i : Nat) (stream : List UInt8) (requested : Nat) :
    List UInt8 × List UInt8 :=
  stream.splitAt (split.returned i requested stream.length)

theorem Split.read_le (split : Split) (i : Nat) (stream : List UInt8) (requested : Nat) :
    (split.read i stream requested).1.length ≤ requested := by
  have hle := split.le_requested i requested stream.length
  rw [read, List.splitAt_eq, List.length_take]
  omega

theorem Split.read_eq {split : Split} {i count : Nat} {word rest : List UInt8}
    (h : split.returned i count (word.length + rest.length) = word.length) :
    split.read i (word ++ rest) count = (word, rest) := by
  rw [read, List.splitAt_eq, List.length_append, h, List.take_left, List.drop_left]

theorem Split.read_short {split : Split} {i count : Nat} {stream : List UInt8}
    (h : split.returned i count stream.length ≠ count) :
    (split.read i stream count).1.length < count := by
  have hle := split.le_requested i count stream.length
  rw [read, List.splitAt_eq, List.length_take]
  omega

/-- The reads of a frame, by the worker and by the client. -/
def readFrame (split : Split) (garbage : Garbage) (stream : List UInt8) : MessageFrame :=
  let message := split.read 0 stream 56
  let size := split.read 1 message.2 8
  let count := UInt64.ofNat (wordValue (overwrite (fun i => garbage.frame (56 + i)) 8 size.1))
  let data := if count = 0 then [] else
    overwrite garbage.heap count.toNat (split.read 2 size.2 count.toNat).1
  { parent := Message.ofBytes (overwrite garbage.frame 56 message.1)
    size := count
    data := data
    length_data := by
      simp only [data]
      split_ifs with h
      · rw [h]
        rfl
      · exact length_overwrite (split.read_le 2 size.2 count.toNat) }

/-- What is sent of the data. -/
def MessageFrame.payload (self : MessageFrame) : List UInt8 := if self.size = 0 then [] else self.data

def writeFrame (padding : UInt32) (frame : MessageFrame) : List UInt8 :=
  frame.parent.toBytes padding ++ (littleEndian 8 frame.size.toNat ++ frame.payload)

theorem MessageFrame.length_data_nil : ([] : List UInt8).length = (0 : UInt64).toNat := rfl

/-- The frame that is sent where the callback has failed. -/
def MessageFrame.zeros : MessageFrame where
  parent := { token := 0, val1 := 0, val2 := 0, val3 := 0, val4 := 0, val5 := 0, val6 := 0 }
  size := 0
  data := []
  length_data := length_data_nil

def writeReply (padding : UInt32) : Option MessageFrame → List UInt8
  | some response => writeFrame padding response
  | none => List.replicate 64 0

/-- Each `read` of a frame returns all it asks for. -/
def Split.Full (split : Split) (frame : MessageFrame) : Prop :=
  split.returned 0 56 (64 + frame.size.toNat) = 56 ∧ split.returned 1 8 (8 + frame.size.toNat) = 8 ∧
    (frame.size ≠ 0 → split.returned 2 frame.size.toNat frame.size.toNat = frame.size.toNat)

theorem MessageFrame.length_payload (frame : MessageFrame) : frame.payload.length = frame.size.toNat := by
  rw [payload]
  split_ifs with h
  · rw [h]
    rfl
  · exact frame.length_data

theorem size_bytes (frame : MessageFrame) :
    UInt64.ofNat (wordValue (littleEndian 8 frame.size.toNat)) = frame.size := by
  have hlt : frame.size.toNat < 256 ^ 8 := frame.size.toNat_lt
  rw [wordValue_littleEndian hlt, UInt64.ofNat_toNat]

theorem length_rest (frame : MessageFrame) :
    (littleEndian 8 frame.size.toNat ++ frame.payload).length = 8 + frame.size.toNat := by
  rw [List.length_append, length_littleEndian, frame.length_payload]

theorem length_writeFrame (padding : UInt32) (frame : MessageFrame) :
    (writeFrame padding frame).length = 64 + frame.size.toNat := by
  rw [writeFrame, List.length_append, length_rest, Message.length_toBytes, ← Nat.add_assoc]

theorem read_message {split : Split} {frame : MessageFrame} (padding : UInt32)
    (h : split.returned 0 56 (64 + frame.size.toNat) = 56) :
    split.read 0 (writeFrame padding frame) 56 =
      (frame.parent.toBytes padding, littleEndian 8 frame.size.toNat ++ frame.payload) := by
  apply Split.read_eq
  rw [Message.length_toBytes, length_rest, ← Nat.add_assoc]
  exact h

theorem read_size {split : Split} {frame : MessageFrame}
    (h : split.returned 1 8 (8 + frame.size.toNat) = 8) :
    split.read 1 (littleEndian 8 frame.size.toNat ++ frame.payload) 8 =
      (littleEndian 8 frame.size.toNat, frame.payload) := by
  apply Split.read_eq
  rw [length_littleEndian, frame.length_payload]
  exact h

theorem readFrame_size_data {split : Split} {frame : MessageFrame} (padding : UInt32) (garbage : Garbage)
    (hmessage : split.returned 0 56 (64 + frame.size.toNat) = 56)
    (hsize : split.returned 1 8 (8 + frame.size.toNat) = 8) :
    (readFrame split garbage (writeFrame padding frame)).parent = frame.parent ∧
      (readFrame split garbage (writeFrame padding frame)).size = frame.size ∧
      (readFrame split garbage (writeFrame padding frame)).data = if frame.size = 0 then [] else
        overwrite garbage.heap frame.size.toNat (split.read 2 frame.payload frame.size.toNat).1 := by
  have hfirst := read_message padding hmessage
  have hsecond := read_size hsize
  have hlength := frame.parent.length_toBytes padding
  refine ⟨?_, ?_, ?_⟩
  · simp only [readFrame, hfirst, overwrite_full hlength, Message.ofBytes_toBytes]
  · simp only [readFrame, hfirst, hsecond, overwrite_full (length_littleEndian 8 _), size_bytes]
  · simp only [readFrame, hfirst, hsecond, overwrite_full (length_littleEndian 8 _), size_bytes]

theorem readFrame_full {split : Split} {frame : MessageFrame} (h : split.Full frame) (garbage : Garbage)
    (padding : UInt32) : readFrame split garbage (writeFrame padding frame) = frame := by
  obtain ⟨hmessage, hsize, hdata⟩ := h
  obtain ⟨hparent, hcount, hread⟩ := readFrame_size_data padding garbage hmessage hsize
  have hpayload : (readFrame split garbage (writeFrame padding frame)).data = frame.data := by
    rw [hread]
    split_ifs with hzero
    · have hlength := frame.length_data
      rw [hzero] at hlength
      exact (List.length_eq_zero_iff.mp hlength).symm
    · have heq : split.returned 2 frame.size.toNat
          (frame.payload.length + ([] : List UInt8).length) = frame.payload.length := by
        rw [frame.length_payload]
        exact hdata hzero
      have hthird := Split.read_eq heq
      rw [List.append_nil] at hthird
      rw [hthird, overwrite_full frame.length_payload, MessageFrame.payload, if_neg hzero]
  exact MessageFrame.ext hparent hcount hpayload

theorem word64_inj {v w : List UInt8} (hv : v.length = 8) (hw : w.length = 8)
    (h : UInt64.ofNat (wordValue v) = UInt64.ofNat (wordValue w)) : v = w := by
  have hvlt : wordValue v < 2 ^ 64 := by
    have hlt := wordValue_lt v
    rw [hv] at hlt
    omega
  have hwlt : wordValue w < 2 ^ 64 := by
    have hlt := wordValue_lt w
    rw [hw] at hlt
    omega
  have hmod := congrArg UInt64.toNat h
  rw [UInt64.toNat_ofNat', UInt64.toNat_ofNat', Nat.mod_eq_of_lt hvlt, Nat.mod_eq_of_lt hwlt] at hmod
  rw [← littleEndian_wordValue_of_length hv, hmod, littleEndian_wordValue_of_length hw]

/-- Memory that is one byte all over. -/
def Garbage.const (byte : UInt8) : Garbage where
  frame := fun _ => byte
  heap := fun _ => byte

/-- What short reads leave differs with what was in memory. -/
theorem overwrite_ne {count : Nat} {got : List UInt8} (h : got.length < count) :
    overwrite (fun _ => 0) count got ≠ overwrite (fun _ => 1) count got := by
  intro heq
  have hbytes := (overwrite_last h).symm.trans ((congrArg (·[count - 1]?) heq).trans (overwrite_last h))
  exact absurd hbytes (by decide)

theorem full_of_readFrame {split : Split} {frame : MessageFrame} {padding : UInt32}
    (h : ∀ garbage, readFrame split garbage (writeFrame padding frame) = frame) : split.Full frame := by
  have hsame : readFrame split (.const 0) (writeFrame padding frame) =
      readFrame split (.const 1) (writeFrame padding frame) := (h _).trans (h _).symm
  have hmessage : split.returned 0 56 (64 + frame.size.toNat) = 56 := by
    by_contra hne
    rw [← length_writeFrame padding frame] at hne
    have hshort := Split.read_short hne
    have hval6 := congrArg (fun f : MessageFrame => f.parent.val6) hsame
    have hbyte : ∀ byte : UInt8, (((overwrite (Garbage.const byte).frame 56
        (split.read 0 (writeFrame padding frame) 56).1).drop 48).take 8)[7]? = some byte := by
      intro byte
      rw [List.getElem?_take_of_lt (by norm_num), List.getElem?_drop]
      exact overwrite_last hshort
    have hwords := word64_inj (by simp [length_overwrite hshort.le]) (by simp [length_overwrite hshort.le]) hval6
    have hbytes := (hbyte 0).symm.trans ((congrArg (·[7]?) hwords).trans (hbyte 1))
    exact absurd hbytes (by decide)
  have hsize : split.returned 1 8 (8 + frame.size.toNat) = 8 := by
    by_contra hne
    rw [← length_rest frame] at hne
    have hshort := Split.read_short hne
    have hcount := congrArg MessageFrame.size hsame
    simp only [readFrame, read_message padding hmessage] at hcount
    exact overwrite_ne hshort (word64_inj (length_overwrite hshort.le) (length_overwrite hshort.le) hcount)
  refine ⟨hmessage, hsize, fun hzero => ?_⟩
  by_contra hne
  have hdata : ∀ garbage, (readFrame split garbage (writeFrame padding frame)).data =
      overwrite garbage.heap frame.size.toNat (split.read 2 frame.payload frame.size.toNat).1 := by
    intro garbage
    rw [(readFrame_size_data padding garbage hmessage hsize).2.2, if_neg hzero]
  have hshort : (split.read 2 frame.payload frame.size.toNat).1.length < frame.size.toNat := by
    apply Split.read_short
    rwa [frame.length_payload]
  exact overwrite_ne hshort ((hdata _).symm.trans ((congrArg MessageFrame.data hsame).trans (hdata _)))

/-- A message and its reply, on one connection. -/
structure Exchange where
  message : MessageFrame
  callback : MessageFrame → Option MessageFrame
  request : Split
  reply : Split
  requestPadding : UInt32
  replyPadding : UInt32

namespace Exchange

/-- What the worker makes of the message. -/
def received (self : Exchange) (worker : Garbage) : MessageFrame :=
  readFrame self.request worker (writeFrame self.requestPadding self.message)

/-- The frame the worker writes. -/
def response (self : Exchange) (frame : MessageFrame) : MessageFrame :=
  (self.callback frame).getD .zeros

/-- What the client makes of the reply. -/
def answer (self : Exchange) (worker client : Garbage) : MessageFrame :=
  readFrame self.reply client (writeReply self.replyPadding (self.callback (self.received worker)))

theorem writeReply_eq (self : Exchange) (frame : MessageFrame) :
    ∃ padding, writeReply self.replyPadding (self.callback frame) = writeFrame padding (self.response frame) := by
  rw [response]
  cases self.callback frame with
  | none => exact ⟨0, rfl⟩
  | some response => exact ⟨self.replyPadding, rfl⟩

/-- Message and reply arrive as they have been written, whatever was in memory, just if
no read is short. -/
theorem arrives_iff (self : Exchange) :
    (∀ worker client, self.received worker = self.message ∧
        self.answer worker client = self.response (self.received worker)) ↔
      self.request.Full self.message ∧ self.reply.Full (self.response self.message) := by
  constructor
  · intro h
    refine ⟨full_of_readFrame fun worker => (h worker (.const 0)).1, ?_⟩
    obtain ⟨padding, hreply⟩ := self.writeReply_eq self.message
    have hanswer : ∀ client, readFrame self.reply client
        (writeFrame padding (self.response self.message)) = self.response self.message := by
      intro client
      obtain ⟨hreceived, hanswer⟩ := h (.const 0) client
      rwa [answer, hreceived, hreply] at hanswer
    exact full_of_readFrame hanswer
  · rintro ⟨hrequest, hreply⟩ worker client
    have hreceived : self.received worker = self.message := readFrame_full hrequest worker _
    obtain ⟨padding, hwrite⟩ := self.writeReply_eq self.message
    rw [answer, hreceived, hwrite]
    exact ⟨rfl, readFrame_full hreply client padding⟩

/-- Each read returns a single byte. -/
def bytewise : Split where
  returned := fun _ requested there => min 1 (min requested there)
  pos := by omega
  le_requested := by omega
  le_there := by omega

/-- Echoes a message without data, with the second parameter set. -/
def echo : Exchange where
  message := { MessageFrame.zeros with parent := { MessageFrame.zeros.parent with token := 1, val1 := 2 } }
  callback := some
  request := bytewise
  reply := bytewise
  requestPadding := 0
  replyPadding := 0

theorem echo_differs :
    echo.received (.const 0) ≠ echo.message ∧
      echo.answer (.const 0) (.const 7) ≠ echo.response (echo.received (.const 0)) := by
  decide +kernel

end Exchange

end AutoGentoo
