import AutoGentoo.LittleEndian
import Mathlib.Tactic.SplitIfs

/-! Messages of Python, and the frames they are converted to and from. -/

namespace AutoGentoo

/-- A `bytes` object; its length is a `Py_ssize_t`. -/
abbrev PyBytes := { word : List UInt8 // word.length < 2 ^ 63 }

structure PyMessage where
  token : Int
  val1 : PyBytes
  val2 : PyBytes
  val3 : PyBytes
  val4 : PyBytes
  val5 : PyBytes
  val6 : PyBytes
  data : Option PyBytes
  deriving DecidableEq

/-- A parameter of `build_message`; a float is what it is in memory. -/
inductive Parameter
  | int (s : Int)
  | float (s : UInt64)
  deriving DecidableEq, Repr

inductive BuildError
  | typeError (message : String)
  | overflowError
  | indexError
  deriving DecidableEq, Repr

def word64 (n : Nat) : PyBytes :=
  ⟨littleEndian 8 n, by rw [length_littleEndian]; norm_num⟩

def convertToBin : Parameter → Except BuildError PyBytes
  | .float s => .ok (word64 s.toNat)
  -- `to_bytes` with signed=False
  | .int s => if 0 ≤ s ∧ s < 2 ^ 64 then .ok (word64 s.toNat) else .error .overflowError

def buildMessage (token : Int) (args : List Parameter) (kwargs : List (String × Option PyBytes)) :
    Except BuildError PyMessage := do
  if args.length > 6 then
    throw (BuildError.typeError "Message only supports up to 6 parameters")
  let parsedArgs ← (args ++ List.replicate (6 - args.length) (Parameter.int 0)).mapM convertToBin
  match parsedArgs with
  | [val1, val2, val3, val4, val5, val6] =>
    return { token, val1, val2, val3, val4, val5, val6, data := (kwargs.lookup "data").join }
  | _ => throw BuildError.indexError

structure Message where
  token : UInt32
  val1 : UInt64
  val2 : UInt64
  val3 : UInt64
  val4 : UInt64
  val5 : UInt64
  val6 : UInt64
  deriving DecidableEq, Repr

/-- `data` is what the pointer points to. -/
@[ext] structure MessageFrame where
  parent : Message
  size : UInt64
  data : List UInt8
  length_data : data.length = size.toNat
  deriving DecidableEq

/-- `PyLong_AsLong`: -1 where the number does not fit. -/
def pyLongAsLong (x : Int) : Int :=
  if -2 ^ 63 ≤ x ∧ x < 2 ^ 63 then x else -1

def pyBytesAsLong (word : PyBytes) : UInt64 :=
  if word.val.length ≠ 8 then 0 else UInt64.ofNat (wordValue word.val)

theorem PyBytes.length_size (word : PyBytes) :
    word.val.length = (UInt64.ofNat word.val.length).toNat := by
  have hlength := word.property
  rw [UInt64.toNat_ofNat']
  omega

def PyMessage.parent (m : PyMessage) : Message where
  token := UInt32.ofInt (pyLongAsLong m.token)
  val1 := pyBytesAsLong m.val1
  val2 := pyBytesAsLong m.val2
  val3 := pyBytesAsLong m.val3
  val4 := pyBytesAsLong m.val4
  val5 := pyBytesAsLong m.val5
  val6 := pyBytesAsLong m.val6

def PyMessage.asMessageFrame (m : PyMessage) : MessageFrame :=
  match m.data with
  | none => { parent := m.parent, size := 0, data := [], length_data := rfl }
  | some data =>
    { parent := m.parent, size := UInt64.ofNat data.val.length, data := data.val,
      length_data := data.length_size }

def Message.toPyMessage (parent : Message) (data : Option PyBytes) : PyMessage where
  token := parent.token.toNat
  val1 := word64 parent.val1.toNat
  val2 := word64 parent.val2.toNat
  val3 := word64 parent.val3.toNat
  val4 := word64 parent.val4.toNat
  val5 := word64 parent.val5.toNat
  val6 := word64 parent.val6.toNat
  data := data

/-- There is no message where the size does not fit a `Py_ssize_t`. -/
def PyMessage.fromMessageFrame (frame : MessageFrame) : Option PyMessage :=
  if frame.size = 0 then some (frame.parent.toPyMessage none)
  else if h : frame.data.length < 2 ^ 63 then some (frame.parent.toPyMessage (some ⟨frame.data, h⟩))
  else none

/-- The six values are words. -/
structure PyMessage.Wide (m : PyMessage) : Prop where
  val1 : m.val1.val.length = 8
  val2 : m.val2.val.length = 8
  val3 : m.val3.val.length = 8
  val4 : m.val4.val.length = 8
  val5 : m.val5.val.length = 8
  val6 : m.val6.val.length = 8

theorem convertToBin_length {arg : Parameter} {word : PyBytes} (h : convertToBin arg = .ok word) :
    word.val.length = 8 := by
  cases arg with
  | float s =>
    obtain rfl := Except.ok.inj h
    exact length_littleEndian 8 s.toNat
  | int s =>
    simp only [convertToBin] at h
    split_ifs at h
    obtain rfl := Except.ok.inj h
    exact length_littleEndian 8 s.toNat

theorem mapM_length {args : List Parameter} {words : List PyBytes}
    (h : args.mapM convertToBin = .ok words) : ∀ word ∈ words, word.val.length = 8 := by
  induction args generalizing words with
  | nil =>
    obtain rfl := Except.ok.inj h
    exact fun word hword => absurd hword List.not_mem_nil
  | cons arg args ih =>
    rw [List.mapM_cons] at h
    cases harg : convertToBin arg with
    | error e => simp [harg, bind, Except.bind] at h
    | ok first =>
      cases hargs : args.mapM convertToBin with
      | error e => simp [harg, hargs, bind, Except.bind] at h
      | ok rest =>
        simp only [harg, hargs, bind, Except.bind, pure, Except.pure, Except.ok.injEq] at h
        subst h
        intro word hword
        rcases List.mem_cons.mp hword with rfl | hword
        · exact convertToBin_length harg
        · exact ih hargs word hword

theorem buildMessage_spec {token : Int} {args : List Parameter}
    {kwargs : List (String × Option PyBytes)} {m : PyMessage} (h : buildMessage token args kwargs = .ok m) :
    m.token = token ∧ m.data = (kwargs.lookup "data").join ∧ m.Wide := by
  simp only [buildMessage, bind, Except.bind, throw, throwThe, MonadExceptOf.throw] at h
  split at h
  · cases h
  · split at h
    · cases h
    · next words hwords =>
      have hlength := mapM_length hwords
      split at h
      · obtain rfl := Except.ok.inj h
        exact ⟨rfl, rfl, hlength _ (by simp), hlength _ (by simp), hlength _ (by simp),
          hlength _ (by simp), hlength _ (by simp), hlength _ (by simp)⟩
      · cases h

theorem word64_pyBytesAsLong {word : PyBytes} (h : word.val.length = 8) :
    word64 (pyBytesAsLong word).toNat = word := by
  have hlt : wordValue word.val < 2 ^ 64 := by
    have hvalue := wordValue_lt word.val
    rw [h] at hvalue
    omega
  apply Subtype.ext
  rw [pyBytesAsLong, if_neg (not_not.mpr h), UInt64.toNat_ofNat', Nat.mod_eq_of_lt hlt]
  exact littleEndian_wordValue_of_length h

theorem token_eq_iff (x : Int) :
    ((UInt32.ofInt (pyLongAsLong x)).toNat : Int) = x ↔ 0 ≤ x ∧ x < 2 ^ 32 := by
  have htoken : ((UInt32.ofInt (pyLongAsLong x)).toNat : Int) = pyLongAsLong x % 2 ^ 32 := by
    rw [UInt32.ofInt, UInt32.toNat_ofNat']
    omega
  rw [htoken, pyLongAsLong]
  split_ifs with h
  · omega
  · omega

theorem toPyMessage_parent_iff {m : PyMessage} (hwide : m.Wide) (data : Option PyBytes) :
    m.parent.toPyMessage data = m ↔ (0 ≤ m.token ∧ m.token < 2 ^ 32) ∧ m.data = data := by
  obtain ⟨token, val1, val2, val3, val4, val5, val6, data'⟩ := m
  obtain ⟨h1, h2, h3, h4, h5, h6⟩ := hwide
  simp only at h1 h2 h3 h4 h5 h6
  simp only [PyMessage.parent, Message.toPyMessage, word64_pyBytesAsLong, h1, h2, h3, h4, h5, h6,
    PyMessage.mk.injEq, true_and, token_eq_iff]
  rw [eq_comm (a := data)]

theorem fromMessageFrame_asMessageFrame_iff {m : PyMessage} (hwide : m.Wide) :
    PyMessage.fromMessageFrame m.asMessageFrame = some m ↔
      (0 ≤ m.token ∧ m.token < 2 ^ 32) ∧ m.data ≠ some ⟨[], Nat.two_pow_pos 63⟩ := by
  cases hdata : m.data with
  | none =>
    have hframe : PyMessage.fromMessageFrame m.asMessageFrame = some (m.parent.toPyMessage none) := by
      simp only [PyMessage.asMessageFrame, hdata, PyMessage.fromMessageFrame, if_pos]
    rw [hframe, Option.some.injEq, toPyMessage_parent_iff hwide, hdata]
    simp
  | some word =>
    have hsize : UInt64.ofNat word.val.length = 0 ↔ word = ⟨[], Nat.two_pow_pos 63⟩ := by
      have hlength := word.property
      rw [← UInt64.toNat_inj, UInt64.toNat_ofNat', UInt64.toNat_zero, ← Subtype.coe_inj,
        ← List.length_eq_zero_iff]
      omega
    by_cases hempty : word = ⟨[], Nat.two_pow_pos 63⟩
    · have hframe : PyMessage.fromMessageFrame m.asMessageFrame = some (m.parent.toPyMessage none) := by
        simp only [PyMessage.asMessageFrame, hdata, PyMessage.fromMessageFrame, if_pos (hsize.mpr hempty)]
      rw [hframe, Option.some.injEq, toPyMessage_parent_iff hwide, hdata, hempty]
      simp
    · have hframe : PyMessage.fromMessageFrame m.asMessageFrame = some (m.parent.toPyMessage (some word)) := by
        simp only [PyMessage.asMessageFrame, hdata, PyMessage.fromMessageFrame, if_neg (mt hsize.mp hempty),
          dif_pos word.property]
      rw [hframe, Option.some.injEq, toPyMessage_parent_iff hwide, hdata]
      simp [hempty]

/-- A built message comes back just if its token is one of 32 bits and its data is not
the empty `bytes`. -/
theorem buildMessage_roundTrip_iff {token : Int} {args : List Parameter}
    {kwargs : List (String × Option PyBytes)} {m : PyMessage} (h : buildMessage token args kwargs = .ok m) :
    PyMessage.fromMessageFrame m.asMessageFrame = some m ↔
      (0 ≤ token ∧ token < 2 ^ 32) ∧ (kwargs.lookup "data").join ≠ some ⟨[], Nat.two_pow_pos 63⟩ := by
  obtain ⟨htoken, hdata, hwide⟩ := buildMessage_spec h
  rw [fromMessageFrame_asMessageFrame_iff hwide, htoken, hdata]

theorem buildMessage_roundTrip_simple :
    ∃ m, buildMessage 0 [.int 2, .int 3, .int 4, .int 5, .int 6] [] = .ok m ∧
      PyMessage.fromMessageFrame m.asMessageFrame = some m := by
  have hbuild : buildMessage 0 [.int 2, .int 3, .int 4, .int 5, .int 6] [] =
      .ok ⟨0, word64 2, word64 3, word64 4, word64 5, word64 6, word64 0, none⟩ := rfl
  exact ⟨_, hbuild, (buildMessage_roundTrip_iff hbuild).mpr ⟨by decide, by decide⟩⟩

/-- A token of 33 bits, and empty data. -/
theorem buildMessage_not_roundTrip :
    (∃ m, buildMessage (2 ^ 32) [] [] = .ok m ∧ PyMessage.fromMessageFrame m.asMessageFrame ≠ some m) ∧
      ∃ m, buildMessage 0 [] [("data", some ⟨[], Nat.two_pow_pos 63⟩)] = .ok m ∧
        PyMessage.fromMessageFrame m.asMessageFrame ≠ some m := by
  exact ⟨⟨_, rfl, by decide⟩, ⟨_, rfl, by decide⟩⟩

end AutoGentoo
