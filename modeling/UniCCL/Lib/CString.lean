import Mathlib.Algebra.Group.Int.Defs
import Mathlib.Algebra.Group.Nat.Defs
import Mathlib.Data.List.TakeWhile

/-! # C strings and character arrays

A C string is the run of bytes before the terminator, so none of its bytes is
NUL. A character array is a fixed number of bytes; the string it holds is read up
to its first NUL. `snprintf` truncates, always terminates and leaves the bytes
after the terminator as they were.
-/

namespace CString

/-- A NUL-terminated string, without its terminator. -/
structure CStr where
  bytes : List UInt8
  noNul : 0 ∉ bytes
deriving DecidableEq

namespace CStr

/-- The string read at the start of a byte sequence. -/
def ofBytes (bs : List UInt8) : CStr :=
  ⟨bs.takeWhile (· ≠ 0), fun h => by simpa using List.mem_takeWhile_imp h⟩

/-- The C string of an ASCII literal. -/
def lit (s : String) : CStr := ofBytes (s.toList.map fun c => UInt8.ofNat c.toNat)

def empty : CStr := ⟨[], by simp⟩

instance : Inhabited CStr := ⟨empty⟩

def strlen (s : CStr) : Nat := s.bytes.length

protected def append (s t : CStr) : CStr :=
  ⟨s.bytes ++ t.bytes, by simp [s.noNul, t.noNul]⟩

instance : Append CStr := ⟨CStr.append⟩

def take (n : Nat) (s : CStr) : CStr :=
  ⟨s.bytes.take n, fun h => s.noNul (List.mem_of_mem_take h)⟩

/-- The `%.*s` conversion; a negative precision counts as none. -/
def precise (precision : Int32) (s : CStr) : CStr :=
  if precision < 0 then s else s.take precision.toNatClampNeg

/-- Left-justified in a field of `width` columns, the `%-22s` conversion. -/
def padRight (width : Nat) (s : CStr) : CStr :=
  ⟨s.bytes ++ List.replicate (width - s.strlen) 32, by simp [s.noNul]⟩

/-- Whether the string ends in `suffix`. -/
def endsWith (s suffix : CStr) : Bool := suffix.bytes.isSuffixOf s.bytes

theorem ext_bytes {s t : CStr} (h : s.bytes = t.bytes) : s = t := by
  cases s; cases t; congr

@[simp] theorem append_bytes (s t : CStr) : (s ++ t).bytes = s.bytes ++ t.bytes := rfl

@[simp] theorem take_bytes (n : Nat) (s : CStr) : (s.take n).bytes = s.bytes.take n := rfl

@[simp] theorem empty_bytes : empty.bytes = [] := rfl

@[simp] theorem strlen_append (s t : CStr) : (s ++ t).strlen = s.strlen + t.strlen := by
  simp [strlen]

theorem append_left_cancel {s t u : CStr} (h : s ++ t = s ++ u) : t = u :=
  ext_bytes (List.append_cancel_left (congrArg bytes h))

theorem append_right_cancel {s t u : CStr} (h : s ++ u = t ++ u) : s = t :=
  ext_bytes (List.append_cancel_right (congrArg bytes h))

theorem strlen_take_le (n : Nat) (s : CStr) : (s.take n).strlen ≤ n :=
  List.length_take_le n s.bytes

theorem take_of_strlen_le {n : Nat} {s : CStr} (h : s.strlen ≤ n) : s.take n = s :=
  ext_bytes (List.take_of_length_le h)

/-- A length passed as the precision is reduced to an `int` first. -/
theorem precise_ofNat (n : Nat) (s : CStr) :
    s.precise (Int32.ofNat n) =
      if n % 2 ^ 32 < 2 ^ 31 then s.take (n % 2 ^ 32) else s := by
  have hint : (Int32.ofNat n).toInt = (n : Int).bmod (2 ^ 32) := Int32.toInt_ofNat'
  have hneg : Int32.ofNat n < 0 ↔ ¬ n % 2 ^ 32 < 2 ^ 31 := by
    rw [Int32.lt_iff_toInt_lt, hint, Int32.toInt_zero, Int.bmod_def]
    omega
  by_cases h : n % 2 ^ 32 < 2 ^ 31
  · rw [precise, if_neg fun hn => hneg.mp hn h, if_pos h]
    congr 1
    show (Int32.ofNat n).toInt.toNat = _
    rw [hint, Int.bmod_def]
    omega
  · rw [precise, if_pos (hneg.mpr h), if_neg h]

theorem eq_empty_iff {s : CStr} : s = empty ↔ s.bytes = [] :=
  ⟨fun h => by rw [h]; rfl, fun h => ext_bytes h⟩

/-- Padding is told from a string without blanks. -/
theorem padRight_inj {width : Nat} {s t : CStr} (hs : 32 ∉ s.bytes) (ht : 32 ∉ t.bytes)
    (h : s.padRight width = t.padRight width) : s = t := by
  have hcut : ∀ u : CStr, 32 ∉ u.bytes →
      (u.padRight width).bytes.takeWhile (· ≠ 32) = u.bytes := by
    intro u hu
    have hall : ∀ b ∈ u.bytes, decide (b ≠ 32) = true := fun b hb =>
      decide_eq_true fun he => hu (he ▸ hb)
    rw [padRight, List.takeWhile_append_of_pos hall]
    cases width - u.strlen <;> simp [List.replicate_succ]
  apply ext_bytes
  rw [← hcut s hs, ← hcut t ht, h]

/-- Reading a string back from bytes that hold it, a terminator and anything else. -/
theorem ofBytes_terminated (s : CStr) (rest : List UInt8) :
    ofBytes (s.bytes ++ 0 :: rest) = s := by
  apply ext_bytes
  have hall : ∀ b ∈ s.bytes, (decide (b ≠ 0)) = true := fun b hb =>
    decide_eq_true fun h => s.noNul (h ▸ hb)
  simp only [ofBytes]
  rw [List.takeWhile_append_of_pos hall]
  simp

end CStr

/-- A `char` array of `n` bytes. -/
structure CharArray (n : Nat) where
  bytes : List UInt8
  size : bytes.length = n
deriving DecidableEq

namespace CharArray

variable {n : Nat}

def zero (n : Nat) : CharArray n := ⟨List.replicate n 0, by simp⟩

/-- The string the array holds. -/
def str (b : CharArray n) : CStr := CStr.ofBytes b.bytes

/-- What `snprintf` leaves in a buffer of `cap` bytes. -/
def formatted (cap : Nat) (text : CStr) : CStr := text.take (cap - 1)

/-- `snprintf(b, n, "%s", text)`; a zero-byte buffer is not written. -/
def snprintf (b : CharArray n) (text : CStr) : CharArray n :=
  let body := text.bytes.take (n - 1)
  ⟨(body ++ 0 :: b.bytes.drop (body.length + 1)).take n, by
    have hb := b.size
    have hle : body.length ≤ n - 1 := List.length_take_le (n - 1) text.bytes
    simp only [List.length_take, List.length_append, List.length_cons, List.length_drop]
    omega⟩

/-- `b[0] = '\0'`; a zero-byte buffer is not written. -/
def terminate (b : CharArray n) : CharArray n :=
  ⟨(0 :: b.bytes.drop 1).take n, by
    have hb := b.size
    simp only [List.length_take, List.length_cons, List.length_drop]
    omega⟩

theorem snprintf_bytes (b : CharArray n) (text : CStr) (hn : 0 < n) :
    (b.snprintf text).bytes =
      (text.take (n - 1)).bytes ++ 0 :: b.bytes.drop ((text.take (n - 1)).strlen + 1) := by
  have hb := b.size
  have hle := CStr.strlen_take_le (n - 1) text
  refine List.take_of_length_le ?_
  simp only [CStr.strlen, CStr.take_bytes, List.length_append, List.length_cons,
    List.length_drop] at hle ⊢
  omega

theorem terminate_bytes (b : CharArray n) (hn : 0 < n) :
    b.terminate.bytes = 0 :: b.bytes.drop 1 := by
  have hb := b.size
  refine List.take_of_length_le ?_
  simp only [List.length_cons, List.length_drop]
  omega

theorem str_snprintf (b : CharArray n) (text : CStr) (hn : 0 < n) :
    (b.snprintf text).str = formatted n text := by
  rw [str, snprintf_bytes b text hn, CStr.ofBytes_terminated]
  rfl

theorem str_terminate (b : CharArray n) (hn : 0 < n) : b.terminate.str = CStr.empty := by
  rw [str, terminate_bytes b hn]
  exact CStr.ofBytes_terminated CStr.empty _

theorem str_zero (hn : 0 < n) : (zero n).str = CStr.empty := by
  obtain ⟨m, rfl⟩ : ∃ m, n = m + 1 := ⟨n - 1, by omega⟩
  exact CStr.ofBytes_terminated CStr.empty (List.replicate m 0)

theorem formatted_of_lt {cap : Nat} {text : CStr} (h : text.strlen < cap) :
    formatted cap text = text :=
  CStr.take_of_strlen_le (by omega)

end CharArray

end CString
