import Mathlib.Data.List.DropRight
import Mathlib.Data.List.Infix
import Mathlib.Data.List.TakeWhile

/-!
# C strings and the conversions of the standard library

A buffer is a list of bytes, and the C string in it ends before the first NUL.
`scanHex` is one `%x` conversion of `sscanf` with a field width: white space is
skipped and not counted, a sign and `0x` count, and the digits may stop early.
`memDiff` is the comparison that collects the differences of two byte arrays
with OR.
-/

namespace CString

/-- The bytes before the first NUL. -/
def cstr (buf : List UInt8) : List UInt8 := buf.takeWhile (· ≠ 0)

/-- `strchr`, as an offset. -/
def strchr (buf : List UInt8) (c : UInt8) : Option ℕ := (cstr buf).findIdx? (· = c)

/-- `strstr`, as a test. -/
def strstr (buf needle : List UInt8) : Bool := decide (needle <:+: cstr buf)

/-- `isspace` in the C locale. -/
def isSpace (c : UInt8) : Bool := c = 0x20 || (0x09 ≤ c && c ≤ 0x0d)

/-- The value of a hexadecimal digit, of either case. -/
def hexDigit? (c : UInt8) : Option UInt32 :=
  if 0x30 ≤ c ∧ c ≤ 0x39 then some (c.toUInt32 - 0x30)
  else if 0x41 ≤ c ∧ c ≤ 0x46 then some (c.toUInt32 - 0x37)
  else if 0x61 ≤ c ∧ c ≤ 0x66 then some (c.toUInt32 - 0x57)
  else none

/-- The values of the leading hexadecimal digits. -/
def hexDigits : List UInt8 → List UInt32
  | [] => []
  | c :: s =>
    match hexDigit? c with
    | some d => d :: hexDigits s
    | none => []

/-- The value of `digits` in base 16, after `v`. -/
def hexValue (v : UInt32) (digits : List UInt32) : UInt32 :=
  digits.foldl (fun v d => v * 16 + d) v

/-- `sscanf` with `%<width>x`; `none` when nothing is converted. A `0x` without a digit behind it
is a matching failure, as in ISO C; older versions of glibc convert it to 0. -/
def scanHex (width : ℕ) (buf : List UInt8) : Option UInt32 :=
  let field := ((cstr buf).dropWhile isSpace).take width
  let (negative, field) : Bool × List UInt8 :=
    match field with
    | 0x2b :: s => (false, s)
    | 0x2d :: s => (true, s)
    | s => (false, s)
  let field :=
    match field with
    | 0x30 :: x :: s => if x = 0x78 ∨ x = 0x58 then s else field
    | s => s
  match hexDigits field with
  | [] => none
  | d :: digits =>
    let v := hexValue d digits
    some (if negative then -v else v)

/-- The lower-case digit of a value below 16. -/
def hexChar (d : UInt8) : UInt8 := if d < 10 then d + 0x30 else d + 0x57

/-- `%02x` -/
def hexByte (b : UInt8) : List UInt8 := [hexChar (b >>> 4), hexChar (b &&& 0xf)]

/-- `%016llx` -/
def hexUInt64 (n : UInt64) : List UInt8 :=
  (List.range 16).map fun i => hexChar ((n >>> (60 - 4 * i).toUInt64) &&& 0xf).toUInt8

/-- The loop `diff |= a[i] ^ b[i]`. -/
def memDiff (as bs : List UInt8) : UInt8 :=
  (as.zip bs).foldl (fun diff ab => diff ||| (ab.1 ^^^ ab.2)) 0

theorem zero_notMem_cstr (buf : List UInt8) : 0 ∉ cstr buf := by
  intro h
  simpa using List.mem_takeWhile_imp h

theorem cstr_of_notMem {buf : List UInt8} (h : 0 ∉ buf) : cstr buf = buf := by
  rw [cstr, List.takeWhile_eq_self_iff]
  intro c hc
  simpa using ne_of_mem_of_not_mem hc h

theorem exists_cstr_append (buf : List UInt8) : ∃ rest, cstr buf ++ rest = buf :=
  List.takeWhile_prefix _

theorem length_cstr_le (buf : List UInt8) : (cstr buf).length ≤ buf.length :=
  (List.takeWhile_sublist _).length_le

/-- What lies before an offset inside the C string is free of NULs. -/
theorem take_cstr {buf : List UInt8} {n : ℕ} (h : n ≤ (cstr buf).length) :
    (cstr buf).take n = buf.take n := by
  obtain ⟨rest, hrest⟩ := exists_cstr_append buf
  have htake : (cstr buf ++ rest).take n = (cstr buf).take n :=
    List.take_append_of_le_length h
  rw [← htake, hrest]

theorem zero_notMem_take {buf : List UInt8} {n : ℕ} (h : n ≤ (cstr buf).length) :
    0 ∉ buf.take n := by
  rw [← take_cstr h]
  exact fun hmem => zero_notMem_cstr buf (List.mem_of_mem_take hmem)

theorem strchr_eq_some {buf : List UInt8} {c : UInt8} {i : ℕ} (h : strchr buf c = some i) :
    i < (cstr buf).length ∧ buf[i]? = some c := by
  obtain ⟨hi, hc, -⟩ := List.findIdx?_eq_some_iff_getElem.mp h
  refine ⟨hi, ?_⟩
  have hget : (cstr buf)[i]? = some c := by simpa [List.getElem?_eq_getElem hi] using hc
  obtain ⟨rest, hrest⟩ := exists_cstr_append buf
  have happend : (cstr buf ++ rest)[i]? = (cstr buf)[i]? := List.getElem?_append_left hi
  rw [← hrest, happend, hget]

/-- The C string of a buffer that starts without a NUL. -/
theorem cstr_append {as : List UInt8} (h : 0 ∉ as) (bs : List UInt8) :
    cstr (as ++ bs) = as ++ cstr bs := by
  have has : as.takeWhile (fun c => decide (c ≠ 0)) = as := cstr_of_notMem h
  rw [cstr, List.takeWhile_append, has, if_pos rfl]
  rfl

/-- `strchr` finds the first separator. -/
theorem strchr_append {as bs : List UInt8} {c : UInt8} (hzero : 0 ∉ as) (hnot : c ∉ as)
    (hc : c ≠ 0) : strchr (as ++ c :: bs) c = some as.length := by
  have hcstr : cstr (as ++ c :: bs) = as ++ c :: cstr bs := by
    rw [cstr_append hzero, cstr, List.takeWhile_cons_of_pos (by simpa using hc)]
    rfl
  have hnone : as.findIdx? (fun b => decide (b = c)) = none := by
    rw [List.findIdx?_eq_none_iff]
    intro b hb
    simpa using ne_of_mem_of_not_mem hb hnot
  rw [strchr, hcstr, List.findIdx?_append, hnone, List.findIdx?_cons]
  simp

/-- `strchr` finds the first separator, and only that. -/
theorem strchr_eq_some_iff {buf : List UInt8} {c : UInt8} (hc : c ≠ 0) {n : ℕ} :
    strchr buf c = some n ↔
      ∃ as bs, buf = as ++ c :: bs ∧ as.length = n ∧ 0 ∉ as ∧ c ∉ as := by
  constructor
  · intro h
    obtain ⟨hlt, hget⟩ := strchr_eq_some h
    have hlen : n < buf.length := hlt.trans_le (length_cstr_le buf)
    have hbuf : buf = buf.take n ++ c :: buf.drop (n + 1) := by
      have hdrop : buf.drop n = c :: buf.drop (n + 1) := by
        rw [List.drop_eq_getElem_cons hlen,
          Option.some.inj ((List.getElem?_eq_getElem hlen).symm.trans hget)]
      rw [← hdrop, List.take_append_drop]
    refine ⟨buf.take n, buf.drop (n + 1), hbuf, List.length_take_of_le hlen.le,
      zero_notMem_take hlt.le, fun hmem => ?_⟩
    -- An earlier separator would have been found.
    rw [← take_cstr hlt.le, List.mem_take_iff_getElem] at hmem
    obtain ⟨j, hj, hjc⟩ := hmem
    obtain ⟨_, _, hfirst⟩ := List.findIdx?_eq_some_iff_getElem.mp h
    exact hfirst j (by omega) (by simpa using hjc)
  · rintro ⟨as, bs, rfl, rfl, hzero, hnot⟩
    exact strchr_append hzero hnot hc

/-- What is left when a run at the end is dropped. -/
theorem rdropWhile_eq_iff {α : Type*} {p : α → Bool} {s t : List α} :
    s.rdropWhile p = t ↔
      (∃ u, s = t ++ u ∧ ∀ c ∈ u, p c = true) ∧ ∀ h : t ≠ [], ¬ p (t.getLast h) = true := by
  constructor
  · rintro rfl
    exact ⟨⟨s.rtakeWhile p, List.rdropWhile_append_rtakeWhile.symm,
      fun c hc => List.mem_rtakeWhile_imp hc⟩, fun h => List.rdropWhile_last_not p s h⟩
  · rintro ⟨⟨u, rfl, hu⟩, hlast⟩
    induction u using List.reverseRecOn with
    | nil => rwa [List.append_nil, List.rdropWhile_eq_self_iff]
    | append_singleton u c ih =>
        rw [← List.append_assoc, List.rdropWhile_concat_pos p _ c (hu c (by simp))]
        exact ih fun c hc => hu c (List.mem_append_left _ hc)

/-- A string that contains one of its own length is that one. -/
theorem eq_of_strstr {buf needle : List UInt8} (h : strstr buf needle = true)
    (hlen : (cstr buf).length = needle.length) : cstr buf = needle :=
  ((of_decide_eq_true h).eq_of_length hlen.symm).symm

theorem foldl_or_eq_zero {α : Type*} (f : α → UInt8) (l : List α) (d : UInt8) :
    l.foldl (fun diff a => diff ||| f a) d = 0 ↔ d = 0 ∧ ∀ a ∈ l, f a = 0 := by
  induction l generalizing d with
  | nil => simp
  | cons a l ih => simp [ih, UInt8.or_eq_zero_iff, and_assoc]

/-- Two arrays of one length differ nowhere exactly when they are equal. -/
theorem memDiff_eq_zero_iff {as bs : List UInt8} (hlen : as.length = bs.length) :
    memDiff as bs = 0 ↔ as = bs := by
  rw [memDiff, foldl_or_eq_zero, and_iff_right rfl]
  induction as generalizing bs with
  | nil =>
      obtain rfl := List.eq_nil_of_length_eq_zero hlen.symm
      simp
  | cons a as ih =>
      cases bs with
      | nil => simp at hlen
      | cons b bs =>
          rw [List.zip_cons_cons, List.forall_mem_cons, ih (Nat.succ.inj hlen),
            UInt8.xor_eq_zero_iff, List.cons.injEq]

end CString
