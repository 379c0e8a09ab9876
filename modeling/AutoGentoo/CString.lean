import Mathlib.Data.List.Basic
import Mathlib.Tactic.Ring
import Mathlib.Tactic.Linarith
import Mathlib.Algebra.Order.Ring.Nat

/-! NUL-terminated strings of C as lists of bytes, the `<string.h>` searches as
offsets, `strtol`, and the wrapping conversions of a machine with signed bytes,
32-bit `int` and 64-bit `long`. -/

namespace CString

def charVal (c : Char) : Int := Int.bmod c.toNat 256

def toI32 (x : Int) : Int := Int.bmod x (2 ^ 32)

/-- `INT_MIN`, the one value without an opposite. -/
def intMin : Int := -2 ^ 31

def clampLong (x : Int) : Int := max (-2 ^ 63) (min x (2 ^ 63 - 1))

def digitVal (c : Char) : Nat := c.toNat - 48

def digitsVal (s : List Char) : Nat := s.foldl (fun n c => 10 * n + digitVal c) 0

def isSpace (c : Char) : Bool := c == ' ' || (9 ≤ c.toNat && c.toNat ≤ 13)

def strtol (s : List Char) : Int :=
  match s.dropWhile isSpace with
  | '-' :: t => clampLong (-(digitsVal (t.takeWhile Char.isDigit) : Int))
  | '+' :: t => clampLong (digitsVal (t.takeWhile Char.isDigit))
  | t => clampLong (digitsVal (t.takeWhile Char.isDigit))

/-- The set `"0123456789"`. -/
def numerals : List Char := "0123456789".toList

def strchr (s : List Char) (c : Char) : Option Nat := s.findIdx? (· == c)

def strpbrk (s accept : List Char) : Option Nat := s.findIdx? (· ∈ accept)

def strrchr : List Char → Char → Option Nat
  | [], _ => none
  | x :: s, c =>
    match strrchr s c with
    | some i => some (i + 1)
    | none => if x = c then some 0 else none

theorem strrchr_eq_none {s : List Char} {c : Char} (h : c ∉ s) : strrchr s c = none := by
  induction s with
  | nil => rfl
  | cons x s ih =>
    have hx : x ≠ c := fun he => h (by simp [he])
    simp [strrchr, ih (fun hm => h (by simp [hm])), hx]

theorem strrchr_append {p q : List Char} {c : Char} (h : c ∉ q) :
    strrchr (p ++ c :: q) c = some p.length := by
  induction p with
  | nil => simp [strrchr, strrchr_eq_none h]
  | cons x p ih => simp [strrchr, ih]

theorem strpbrk_eq_none {s accept : List Char} (h : ∀ c ∈ s, c ∉ accept) :
    strpbrk s accept = none := by
  simpa [strpbrk, List.findIdx?_eq_none_iff] using h

theorem strpbrk_append {p q accept : List Char} {c : Char} (hp : ∀ x ∈ p, x ∉ accept)
    (hc : c ∈ accept) : strpbrk (p ++ c :: q) accept = some p.length := by
  have hn : p.findIdx? (· ∈ accept) = none := by
    simpa [List.findIdx?_eq_none_iff] using hp
  simp [strpbrk, List.findIdx?_append, List.findIdx?_cons, hn, hc]

theorem toI32_eq_self {x : Int} (h : -2 ^ 31 ≤ x) (h' : x < 2 ^ 31) : toI32 x = x := by
  unfold toI32
  exact Int.bmod_eq_of_le (by simpa using h) (by simpa using h')

theorem toI32_bounds (x : Int) : -2 ^ 31 ≤ toI32 x ∧ toI32 x < 2 ^ 31 := by
  have hl := Int.le_bmod (x := x) (m := 2 ^ 32) (by norm_num)
  have hu := Int.bmod_lt (x := x) (m := 2 ^ 32) (by norm_num)
  unfold toI32
  constructor
  · simpa using hl
  · simpa using hu

/-- Subtracting the other way round gives the opposite number, but for the
single value that has no opposite. -/
theorem toI32_sub_swap {x y : Int} (h : toI32 (x - y) ≠ intMin) :
    toI32 (y - x) = -toI32 (x - y) := by
  have hb := toI32_bounds (x - y)
  unfold intMin at h
  have he : toI32 (-(toI32 (x - y))) = toI32 (-(x - y)) := Int.bmod_neg_bmod
  rw [show y - x = -(x - y) by ring, ← he]
  exact toI32_eq_self (by omega) (by omega)

theorem toI32_sub_swap_min {x y : Int} (h : toI32 (x - y) = intMin) :
    toI32 (y - x) = intMin := by
  have he : toI32 (-(toI32 (x - y))) = toI32 (-(x - y)) := Int.bmod_neg_bmod
  rw [show y - x = -(x - y) by ring, ← he, h]
  rfl

theorem toI32_sub_eq_zero {x y : Int} (hx : -2 ^ 31 ≤ x) (hx' : x < 2 ^ 31)
    (hy : -2 ^ 31 ≤ y) (hy' : y < 2 ^ 31) : toI32 (x - y) = 0 ↔ x = y := by
  constructor
  · intro h
    have hd : ((2 ^ 32 : Nat) : Int) ∣ x - y := Int.dvd_of_bmod_eq_zero h
    omega
  · intro h
    simp [h, toI32]

theorem digitsVal_append (s t : List Char) :
    digitsVal (s ++ t) = t.foldl (fun n c => 10 * n + digitVal c) (digitsVal s) := by
  simp [digitsVal, List.foldl_append]

theorem digitsVal_zeros (s : List Char) (n : Nat) :
    digitsVal (s ++ List.replicate n '0') = digitsVal s * 10 ^ n := by
  induction n with
  | zero => simp
  | succ n ih =>
    have hz : digitVal '0' = 0 := rfl
    rw [List.replicate_succ', ← List.append_assoc, digitsVal_append, ih]
    simp only [List.foldl_cons, List.foldl_nil, hz, pow_succ]
    ring

theorem foldl_digits_le (s : List Char) (n : Nat) :
    n * 10 ^ s.length ≤ s.foldl (fun n c => 10 * n + digitVal c) n := by
  induction s generalizing n with
  | nil => simp
  | cons c s ih =>
    have hh := ih (10 * n + digitVal c)
    simp only [List.length_cons, List.foldl_cons, pow_succ]
    nlinarith [Nat.zero_le (digitVal c * 10 ^ s.length)]

theorem digitVal_lt {c : Char} (h : c.isDigit = true) : digitVal c < 10 := by
  simp only [Char.isDigit, Bool.and_eq_true, decide_eq_true_eq, ge_iff_le, UInt32.le_iff_toNat_le] at h
  have h2 : c.val.toNat ≤ 57 := h.2
  show c.val.toNat - 48 < 10
  omega

theorem foldl_digits_lt {s : List Char} (h : ∀ c ∈ s, c.isDigit = true) (n : Nat) :
    s.foldl (fun n c => 10 * n + digitVal c) n < (n + 1) * 10 ^ s.length := by
  induction s generalizing n with
  | nil => simp
  | cons c s ih =>
    have hh := ih (fun x hx => h x (by simp [hx])) (10 * n + digitVal c)
    have hc := digitVal_lt (h c (by simp))
    simp only [List.length_cons, List.foldl_cons, pow_succ]
    have hp : 0 < 10 ^ s.length := by positivity
    nlinarith

theorem digitsVal_lt {s : List Char} (h : ∀ c ∈ s, c.isDigit = true) :
    digitsVal s < 10 ^ s.length := by
  simpa [digitsVal] using foldl_digits_lt h 0

/-- A number without leading zero fills its digits. -/
theorem le_digitsVal {c : Char} {s : List Char} (hc : c.isDigit = true) (h0 : c ≠ '0') :
    10 ^ s.length ≤ digitsVal (c :: s) := by
  have hpos : 1 ≤ digitVal c := by
    simp only [Char.isDigit, Bool.and_eq_true, decide_eq_true_eq, ge_iff_le, UInt32.le_iff_toNat_le] at hc
    have h1 : 48 ≤ c.val.toNat := hc.1
    have hne : c.val.toNat ≠ 48 := by
      intro he
      apply h0
      exact Char.ext (UInt32.toNat_inj.mp he)
    show 1 ≤ c.val.toNat - 48
    omega
  have hh := foldl_digits_le s (digitVal c)
  have hp : 10 ^ s.length ≤ digitVal c * 10 ^ s.length := Nat.le_mul_of_pos_left _ hpos
  simpa [digitsVal] using hp.trans hh

theorem isDigit_cases {c : Char} (h : c.isDigit = true) : 48 ≤ c.toNat ∧ c.toNat ≤ 57 := by
  simp only [Char.isDigit, Bool.and_eq_true, decide_eq_true_eq, ge_iff_le, UInt32.le_iff_toNat_le] at h
  exact h

theorem isAlpha_cases {c : Char} (h : c.isAlpha = true) :
    65 ≤ c.toNat ∧ c.toNat ≤ 90 ∨ 97 ≤ c.toNat ∧ c.toNat ≤ 122 := by
  have hc : (decide (65 ≤ c.val ∧ c.val ≤ 90) ||
      (decide (97 ≤ c.val) && decide (c.val ≤ 122))) = true := h
  simp only [Bool.or_eq_true, Bool.and_eq_true, decide_eq_true_eq, UInt32.le_iff_toNat_le] at hc
  exact hc

theorem charVal_ascii {c : Char} (h : c.toNat < 128) : charVal c = c.toNat := by
  unfold charVal
  exact Int.bmod_eq_of_le (by omega) (by omega)

theorem mem_numerals_iff (c : Char) : c ∈ numerals ↔ c.isDigit = true := by
  constructor
  · intro h
    have hall : numerals.all Char.isDigit = true := by decide
    exact List.all_eq_true.mp hall c h
  · intro h
    have hc := isDigit_cases h
    have he : c = Char.ofNat c.toNat := (Char.ofNat_toNat c).symm
    have hall : ∀ n ∈ List.range' 48 10, Char.ofNat n ∈ numerals := by decide
    rw [he]
    exact hall _ (List.mem_range'_1.mpr (by omega))

theorem strtol_digits {s t : List Char} (hs : ∀ c ∈ s, c.isDigit = true)
    (ht : ∀ c ∈ t.head?, c.isDigit = false ∧ isSpace c = false ∧ c ≠ '-' ∧ c ≠ '+') :
    strtol (s ++ t) = clampLong (digitsVal s) := by
  have htake : (s ++ t).takeWhile Char.isDigit = s := by
    rw [List.takeWhile_append_of_pos hs]
    cases t with
    | nil => simp
    | cons c t => simp [(ht c (by simp)).1]
  have hhead : ∀ c ∈ (s ++ t).head?, isSpace c = false ∧ c ≠ '-' ∧ c ≠ '+' := by
    intro c hc
    cases s with
    | nil => exact (ht c (by simpa using hc)).2
    | cons d s =>
      have he : d = c := by simpa using hc
      have hd := isDigit_cases (hs d (by simp))
      subst he
      refine ⟨?_, ?_, ?_⟩
      · have hsp : d ≠ ' ' := fun he => by rw [he] at hd; exact absurd hd.1 (by decide)
        simp only [isSpace, Bool.or_eq_false_iff, beq_eq_false_iff_ne, ne_eq, hsp,
          not_false_eq_true, Bool.and_eq_false_iff, decide_eq_false_iff_not, true_and]
        omega
      · intro he; rw [he] at hd; exact absurd hd.1 (by decide)
      · intro he; rw [he] at hd; exact absurd hd.1 (by decide)
  unfold strtol
  cases hst : s ++ t with
  | nil => simp only [List.append_eq_nil_iff] at hst; simp [hst.1, digitsVal]
  | cons c r =>
    have hc := hhead c (by simp [hst])
    rw [List.dropWhile_cons_of_neg (by simp [hc.1])]
    rw [hst] at htake
    split
    · rename_i he; exact absurd (List.cons.inj he).1 hc.2.1
    · rename_i he; exact absurd (List.cons.inj he).1 hc.2.2
    · rw [htake]

end CString
